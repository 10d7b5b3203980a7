import Mathlib.Data.List.Dedup
import Mathlib.Data.List.Induction
import Mathlib.Data.List.Nodup

/-!
# The least recently used

A bounded list of keys, the one that was used longest ago first. Using a key moves it to the
end, or puts it there, and the first keys are dropped as far as the list is too long.

What is left after a log of uses are the keys that were used last (`Recent`). So a key is left
exactly if fewer other keys than the bound were used since (`Recent.mem_iff`).
-/

namespace Lru

universe u

variable {K : Type u} [DecidableEq K]

/-- Use a key. -/
def touch (cap : ℕ) (k : K) (cache : List K) : List K :=
  if k ∈ cache then cache.filter (· ≠ k) ++ [k]
  else (cache ++ [k]).drop (cache.length + 1 - cap)

/-- What was used since the last use of a key, the last use first. -/
def since (k : K) (log : List K) : List K := log.reverse.takeWhile (· ≠ k)

/-- The cache has the keys that were used last, up to its bound. -/
structure Recent (cap : ℕ) (log cache : List K) : Prop where
  /-- the keys in the order of their last use; the first are no longer there -/
  keys : ∃ older, log.dedup = older ++ cache ∧ (older ≠ [] → cache.length = cap)
  /-- it is not too long -/
  bound : cache.length ≤ cap

variable {cap : ℕ} {k : K} {log cache : List K}

/-- A use makes a key the last. -/
theorem dedup_snoc (log : List K) (k : K) :
    (log ++ [k]).dedup = log.dedup.filter (· ≠ k) ++ [k] := by
  induction log with
  | nil => rfl
  | cons a log ih =>
    rw [List.cons_append]
    by_cases hmem : a ∈ log
    · rw [List.dedup_cons_of_mem (List.mem_append_left _ hmem), List.dedup_cons_of_mem hmem, ih]
    · by_cases hsame : a = k
      · subst hsame
        rw [List.dedup_cons_of_mem (List.mem_append_right _ List.mem_cons_self), ih,
          List.dedup_cons_of_notMem hmem, List.filter_cons_of_neg (by simp)]
      · have hnew : a ∉ log ++ [k] := by
          rw [List.mem_append, List.mem_singleton, not_or]
          exact ⟨hmem, hsame⟩
        rw [List.dedup_cons_of_notMem hnew, ih, List.dedup_cons_of_notMem hmem,
          List.filter_cons_of_pos (by simpa using hsame), List.cons_append]

theorem filter_ne_self {l : List K} (h : k ∉ l) : l.filter (· ≠ k) = l := by
  rw [List.filter_eq_self]
  intro a ha
  exact decide_eq_true fun hsame => h (hsame ▸ ha)

theorem Recent.init (cap : ℕ) : Recent cap ([] : List K) [] :=
  ⟨⟨[], rfl, fun h => absurd rfl h⟩, Nat.zero_le _⟩

/-- What is left was used. -/
theorem Recent.used (h : Recent cap log cache) (hk : k ∈ cache) : k ∈ log := by
  obtain ⟨older, hkeys, -⟩ := h.keys
  rw [← List.mem_dedup, hkeys]
  exact List.mem_append_right _ hk

/-- **What a cache has after one more use.** -/
theorem Recent.touch (hcap : 0 < cap) (h : Recent cap log cache) (k : K) :
    Recent cap (log ++ [k]) (touch cap k cache) := by
  obtain ⟨older, hkeys, hfull⟩ := h.keys
  have hnodup := List.nodup_dedup log
  rw [hkeys, List.nodup_append] at hnodup
  obtain ⟨-, hcache, hdisjoint⟩ := hnodup
  unfold Lru.touch
  by_cases hmem : k ∈ cache
  · -- a key that is there is moved to the end
    have holder : k ∉ older := fun hold => hdisjoint k hold k hmem rfl
    have hlength : (cache.filter (· ≠ k) ++ [k]).length = cache.length := by
      have hpos : 0 < cache.length := List.length_pos_of_mem hmem
      have herase : (cache.filter (· ≠ k)).length = cache.length - 1 := by
        rw [← List.length_erase_of_mem hmem, hcache.erase_eq_filter]
        refine congrArg List.length (List.filter_congr fun a _ => ?_)
        rw [bne, beq_eq_decide, decide_not]
      rw [List.length_append, herase, List.length_singleton]
      omega
    rw [if_pos hmem]
    refine ⟨⟨older, ?_, fun hne => hlength.trans (hfull hne)⟩,
      Nat.le_trans (Nat.le_of_eq hlength) h.bound⟩
    rw [dedup_snoc, hkeys, List.filter_append, filter_ne_self holder, List.append_assoc]
  · -- a new one is put there, and the first is dropped if there are too many
    rw [if_neg hmem]
    have hbound := h.bound
    have hlength : ((cache ++ [k]).drop (cache.length + 1 - cap)).length =
        min (cache.length + 1) cap := by
      rw [List.length_drop, List.length_append, List.length_singleton]
      omega
    refine ⟨⟨older.filter (· ≠ k) ++ (cache ++ [k]).take (cache.length + 1 - cap), ?_, ?_⟩,
      Nat.le_trans (Nat.le_of_eq hlength) (Nat.min_le_right _ _)⟩
    · rw [dedup_snoc, hkeys, List.filter_append, filter_ne_self hmem, List.append_assoc,
        List.append_assoc, List.take_append_drop]
    · intro hne
      have hlong : cap ≤ cache.length + 1 := by
        by_contra hshort
        have holder : older ≠ [] := by
          rintro rfl
          rw [List.filter_nil, List.nil_append, Nat.sub_eq_zero_of_le (by omega),
            List.take_zero] at hne
          exact hne rfl
        have := hfull holder
        omega
      rw [hlength]
      omega

/-- The keys behind a key are those that were used since. -/
theorem dedup_split (hk : k ∈ log) :
    ∃ before after, log.dedup = before ++ k :: after ∧
      ∀ a, a ∈ after ↔ a ∈ since k log := by
  induction log using List.reverseRecOn with
  | nil => cases hk
  | append_singleton log last ih =>
    have hsince : since k (log ++ [last]) =
        if last = k then [] else last :: since k log := by
      unfold since
      rw [List.reverse_append, List.reverse_singleton, List.singleton_append, List.takeWhile_cons]
      by_cases hsame : last = k
      · rw [if_pos hsame, if_neg (by simpa using hsame)]
      · rw [if_neg hsame, if_pos (by simpa using hsame)]
    rw [dedup_snoc, hsince]
    by_cases hsame : last = k
    · subst hsame
      rw [if_pos rfl]
      exact ⟨_, [], rfl, fun _ => Iff.rfl⟩
    · rw [if_neg hsame]
      have hlog : k ∈ log := by
        rcases List.mem_append.mp hk with h | h
        · exact h
        · exact absurd (List.mem_singleton.mp h).symm hsame
      obtain ⟨before, after, hdedup, hafter⟩ := ih hlog
      refine ⟨before.filter (· ≠ last), after.filter (· ≠ last) ++ [last], ?_, fun a => ?_⟩
      · rw [hdedup, List.filter_append, List.filter_cons_of_pos (by simpa using Ne.symm hsame),
          List.append_assoc, List.cons_append]
      · rw [List.mem_append, List.mem_filter, hafter, List.mem_singleton, List.mem_cons]
        by_cases hlast : a = last
        · simp [hlast]
        · simp [hlast]

/-- **A key is left exactly if fewer other keys than the bound were used since.** -/
theorem Recent.mem_iff (h : Recent cap log cache) (hk : k ∈ log) :
    k ∈ cache ↔ (since k log).dedup.length < cap := by
  obtain ⟨older, hkeys, hfull⟩ := h.keys
  obtain ⟨before, after, hdedup, hafter⟩ := dedup_split hk
  have hnodup := List.nodup_dedup log
  have hlength : (since k log).dedup.length = after.length := by
    have hnodupAfter : after.Nodup := by
      rw [hdedup] at hnodup
      exact (List.nodup_cons.mp (List.nodup_append.mp hnodup).2.1).2
    refine List.Perm.length_eq ?_
    rw [List.perm_ext_iff_of_nodup (List.nodup_dedup _) hnodupAfter]
    intro a
    rw [List.mem_dedup, hafter]
  have hbound := h.bound
  rw [hlength]
  rw [hkeys] at hdedup hnodup
  rcases List.append_eq_append_iff.mp hdedup with ⟨rest, -, hcache⟩ | ⟨rest, holder, hrest⟩
  · -- the key is in the cache
    rw [hcache, List.length_append, List.length_cons] at hbound
    refine iff_of_true ?_ (by omega)
    rw [hcache]
    exact List.mem_append_right _ List.mem_cons_self
  · cases rest with
    | nil =>
      rw [List.nil_append] at hrest
      rw [← hrest, List.length_cons] at hbound
      refine iff_of_true ?_ (by omega)
      rw [← hrest]
      exact List.mem_cons_self
    | cons first rest =>
      -- it was dropped
      obtain ⟨rfl, hafterRest⟩ := List.cons.inj hrest
      have holderNe : older ≠ [] := by
        rw [holder]
        exact List.append_ne_nil_of_right_ne_nil _ (List.cons_ne_nil _ _)
      have hlong := hfull holderNe
      refine iff_of_false ?_ ?_
      · intro hmem
        refine (List.nodup_append.mp hnodup).2.2 k ?_ k hmem rfl
        rw [holder]
        exact List.mem_append_right _ List.mem_cons_self
      · rw [hafterRest, List.append_eq, List.length_append]
        omega

end Lru
