import Mathlib.Data.List.Perm.Subperm
import Mathlib.Data.List.Sort

/-!
# Pruning a table in chunks

Items are pruned when they are old or come after the first `cap` of them in the
order of a key (`doomed`). A loop deletes some doomed items at a time and asks again
which ones are doomed. Where age agrees with the order, the answer never changes for
the items that are left (`doomed_eq`), so the loop ends with the items that were not
doomed at its start (`Pruned.done`).

A chunk takes up to `size` items of those that satisfy a test, in any order, and
deletes everything with one of their identifiers. When it deletes less than `size`,
there was no more to take (`taken_of_short`).
-/

universe u v w

namespace Pruning

variable {α : Type u} {κ : Type v} [LinearOrder κ] (key : α → κ)

/-! ## Ranks -/

/-- How many items come before `a`. -/
def rank (items : List α) (a : α) : ℕ := items.countP fun b => decide (key b < key a)

variable {key} {items : List α} {a : α}

theorem rank_perm {items' : List α} (h : items.Perm items') (a : α) :
    rank key items a = rank key items' a := h.countP_eq _

theorem rank_mono {rest : List α} (h : rest.Sublist items) (a : α) :
    rank key rest a ≤ rank key items a := h.countP_le

/-- What comes before an item has a smaller rank. -/
theorem rank_lt {b : α} (hb : b ∈ items) (hlt : key b < key a) :
    rank key items b < rank key items a := by
  unfold rank
  rw [List.countP_eq_length_filter, List.countP_eq_length_filter]
  have hfilter : items.filter (fun c => decide (key c < key b)) =
      (items.filter fun c => decide (key c < key a)).filter fun c => decide (key c < key b) := by
    rw [List.filter_filter]
    refine List.filter_congr fun c _ => ?_
    by_cases hc : key c < key b
    · rw [decide_eq_true hc, decide_eq_true (hc.trans hlt)]
      rfl
    · rw [decide_eq_false hc]
      rfl
  rw [hfilter]
  refine List.length_filter_lt_length_iff_exists.mpr ⟨b, ?_, ?_⟩
  · exact List.mem_filter.mpr ⟨hb, decide_eq_true hlt⟩
  · rw [decide_eq_true_eq]
    exact lt_irrefl _

/-- Past the first `cap` of the sorted items are those of at least that rank. -/
theorem mem_drop_iff (hnodup : (items.map key).Nodup) {sorted : List α}
    (hperm : sorted.Perm items) (hsorted : sorted.Pairwise fun a b => key a ≤ key b)
    (ha : a ∈ items) {cap : ℕ} : a ∈ sorted.drop cap ↔ cap ≤ rank key items a := by
  have hdrop : ∀ (sorted : List α) (cap : ℕ), (sorted.map key).Nodup →
      sorted.Pairwise (fun a b => key a ≤ key b) → a ∈ sorted →
        (a ∈ sorted.drop cap ↔ cap ≤ rank key sorted a) := by
    intro sorted
    induction sorted with
    | nil => exact fun _ _ _ hmem => by cases hmem
    | cons b sorted ih =>
      intro cap hnodup hsorted hmem
      rw [List.map_cons, List.nodup_cons] at hnodup
      obtain ⟨hfirst, hsorted⟩ := List.pairwise_cons.mp hsorted
      rcases cap with _ | cap
      · exact iff_of_true hmem (Nat.zero_le _)
      rw [List.drop_succ_cons]
      rcases List.mem_cons.mp hmem with rfl | hrest
      · -- the first of them has nothing before it
        have hzero : rank key (a :: sorted) a = 0 := by
          refine List.countP_eq_zero.mpr fun c hc => ?_
          rw [decide_eq_true_eq, not_lt]
          rcases List.mem_cons.mp hc with rfl | hc
          · exact le_rfl
          · exact hfirst c hc
        rw [hzero]
        refine iff_of_false (fun hin => hnodup.1 ?_) (Nat.not_succ_le_zero cap)
        exact List.mem_map_of_mem (List.mem_of_mem_drop hin)
      · have hlt : key b < key a := lt_of_le_of_ne (hfirst a hrest) fun heq =>
          hnodup.1 (heq ▸ List.mem_map_of_mem hrest)
        have hrank : rank key (b :: sorted) a = rank key sorted a + 1 :=
          List.countP_cons_of_pos (decide_eq_true hlt)
        rw [ih cap hnodup.2 hsorted hrest, hrank, Nat.succ_le_succ_iff]
  rw [← rank_perm hperm]
  exact hdrop sorted cap ((hperm.map key).nodup_iff.mpr hnodup) hsorted (hperm.mem_iff.mpr ha)

/-- Among the first `cap` of the sorted items are those of a smaller rank. -/
theorem mem_take_iff (hnodup : (items.map key).Nodup) {sorted : List α}
    (hperm : sorted.Perm items) (hsorted : sorted.Pairwise fun a b => key a ≤ key b) {cap : ℕ} :
    a ∈ sorted.take cap ↔ a ∈ items ∧ rank key items a < cap := by
  have hunique : (sorted.take cap ++ sorted.drop cap).Nodup := by
    rw [List.take_append_drop]
    exact (hperm.nodup_iff.mpr hnodup.of_map)
  constructor
  · intro hmem
    have ha := hperm.mem_iff.mp (List.mem_of_mem_take hmem)
    refine ⟨ha, not_le.mp fun hle => ?_⟩
    have hdrop := (mem_drop_iff hnodup hperm hsorted ha).mpr hle
    exact (List.nodup_append.mp hunique).2.2 a hmem a hdrop rfl
  · rintro ⟨ha, hlt⟩
    have hall := hperm.mem_iff.mpr ha
    rw [← List.take_append_drop cap sorted] at hall
    rcases List.mem_append.mp hall with htake | hdrop
    · exact htake
    · exact absurd ((mem_drop_iff hnodup hperm hsorted ha).mp hdrop) (not_le.mpr hlt)

/-! ## Doomed items -/

/-- Old, or not among the first `cap`. -/
def doomed (key : α → κ) (old : α → Bool) (cap : ℕ) (items : List α) (a : α) : Bool :=
  old a || decide (cap ≤ rank key items a)

/-- Some of the doomed items are gone, and no others. -/
def Pruned (gone : α → Bool) (start items : List α) : Prop :=
  ∃ keep : α → Bool, items = start.filter keep ∧ ∀ a ∈ start, gone a = false → keep a = true

namespace Pruned

variable {gone : α → Bool} {start : List α}

theorem refl : Pruned gone start start :=
  ⟨fun _ => true, (List.filter_eq_self.mpr fun _ _ => rfl).symm, fun _ _ _ => rfl⟩

theorem sublist (h : Pruned gone start items) : items.Sublist start := by
  obtain ⟨keep, rfl, -⟩ := h
  exact List.filter_sublist

/-- What is missing is gone. -/
theorem missing (h : Pruned gone start items) (ha : a ∈ start) (hno : a ∉ items) :
    gone a = true := by
  obtain ⟨keep, rfl, hkeep⟩ := h
  by_contra hgone
  exact hno (List.mem_filter.mpr ⟨ha, hkeep a ha (Bool.eq_false_iff.mpr hgone)⟩)

/-- Deleting items that are gone. -/
theorem step (h : Pruned gone start items) {victim : α → Bool}
    (hvictim : ∀ a ∈ items, victim a = true → gone a = true) :
    Pruned gone start (items.filter fun a => !victim a) := by
  obtain ⟨keep, rfl, hkeep⟩ := h
  refine ⟨fun a => !victim a && keep a, List.filter_filter, fun a ha hgone => ?_⟩
  have hkept := hkeep a ha hgone
  dsimp only
  rw [hkept, Bool.and_true, Bool.not_eq_true']
  refine Bool.eq_false_iff.mpr fun hv => ?_
  rw [hvictim a (List.mem_filter.mpr ⟨ha, hkept⟩) hv] at hgone
  cases hgone

/-- All that are gone are. -/
theorem all : Pruned gone start (start.filter fun a => !gone a) :=
  ⟨fun a => !gone a, rfl, fun _ _ h => (Bool.not_eq_true' _).mpr h⟩

/-- **Deleting all that are gone.** -/
theorem done (h : Pruned gone start items) {victim : α → Bool}
    (hvictim : ∀ a ∈ items, victim a = gone a) :
    (items.filter fun a => !victim a) = start.filter fun a => !gone a := by
  obtain ⟨keep, rfl, hkeep⟩ := h
  rw [List.filter_congr fun a ha => by rw [hvictim a ha], List.filter_filter]
  refine List.filter_congr fun a ha => ?_
  cases hgone : gone a with
  | true => rfl
  | false => rw [hkeep a ha hgone]; rfl

end Pruned

/-- What is kept was not gone. -/
theorem of_mem_kept {gone : α → Bool} (h : a ∈ items.filter fun a => !gone a) : gone a = false :=
  (Bool.not_eq_true' _).mp (List.mem_filter.mp h).2

/-- What is not doomed is young and among the first `cap`. -/
theorem mem_kept_iff (hnodup : (items.map key).Nodup) {sorted : List α}
    (hperm : sorted.Perm items) (hsorted : sorted.Pairwise fun a b => key a ≤ key b)
    {old : α → Bool} {cap : ℕ} : (a ∈ items.filter fun a => !doomed key old cap items a) ↔
      a ∈ sorted.take cap ∧ old a = false := by
  rw [List.mem_filter, mem_take_iff hnodup hperm hsorted, Bool.not_eq_true', doomed,
    Bool.or_eq_false_iff, decide_eq_false_iff_not, not_le, and_assoc, and_comm (b := old a = false)]

/-- **Who is doomed does not change.** Age agrees with the order of the keys, and only
doomed items are missing. -/
theorem doomed_eq {old : α → Bool} (hold : ∀ a b, key a ≤ key b → old a = true → old b = true)
    {cap : ℕ} {start : List α} (hnodup : start.Nodup)
    (h : Pruned (doomed key old cap start) start items) (a : α) :
    doomed key old cap items a = doomed key old cap start a := by
  have hkept : ∀ n a, rank key start a = n → old a = false → cap ≤ n →
      cap ≤ rank key items a := by
    intro n
    induction n using Nat.strong_induction_on with
    | _ n ih =>
      intro a hn hyoung hcap
      by_cases hall : ∃ b ∈ start, key b < key a ∧ cap ≤ rank key start b
      · -- an earlier item is past the cap as well
        obtain ⟨b, hb, hlt, hb'⟩ := hall
        have hbyoung : old b = false :=
          Bool.eq_false_iff.mpr fun hbold => by rw [hold b a hlt.le hbold] at hyoung; cases hyoung
        have hless := hn ▸ rank_lt hb hlt
        refine (ih _ hless b rfl hbyoung hb').trans (List.countP_mono_left fun c _ hc => ?_)
        exact decide_eq_true ((of_decide_eq_true hc).trans hlt)
      · -- nothing before it is doomed, so all of that is left
        have hleft : ∀ b ∈ start, key b < key a → b ∈ items := by
          intro b hb hlt
          by_contra hno
          have hgone := h.missing hb hno
          have hbyoung : old b = false := Bool.eq_false_iff.mpr fun hbold => by
            rw [hold b a hlt.le hbold] at hyoung
            cases hyoung
          rw [doomed, hbyoung, Bool.false_or, decide_eq_true_eq] at hgone
          exact hall ⟨b, hb, hlt, hgone⟩
        have hsub : (start.filter fun b => decide (key b < key a)) ⊆
            items.filter fun b => decide (key b < key a) := by
          intro b hb
          obtain ⟨hmem, hlt⟩ := List.mem_filter.mp hb
          exact List.mem_filter.mpr ⟨hleft b hmem (of_decide_eq_true hlt), hlt⟩
        have hlen := (List.subperm_of_subset (hnodup.filter _) hsub).length_le
        rw [← List.countP_eq_length_filter, ← List.countP_eq_length_filter] at hlen
        exact (hn ▸ hcap).trans hlen
  unfold doomed
  cases hyoung : old a with
  | true => rfl
  | false =>
    rw [Bool.false_or, Bool.false_or]
    exact decide_eq_decide.mpr
      ⟨fun hcap => hcap.trans (rank_mono h.sublist a), hkept _ a rfl hyoung⟩

/-! ## Chunks -/

section Chunk

variable {ι : Type w} [BEq ι] [LawfulBEq ι] {ident : α → ι} {p : α → Bool} {size : ℕ}
variable {visited : List α}

/-- A chunk that deletes less than its size has taken all there was. -/
theorem taken_of_short (hperm : visited.Perm (items.filter p))
    (hshort : (items.filter fun a =>
      decide (ident a ∈ (visited.take size).map ident)).length < size) :
    ∀ a ∈ items, p a = true → ident a ∈ (visited.take size).map ident := by
  -- each item it takes is one that it deletes
  have hsub : (visited.take size).Subperm
      (items.filter fun a => decide (ident a ∈ (visited.take size).map ident)) := by
    have hitems : (visited.take size).Subperm items :=
      ((List.take_sublist size visited).subperm.trans hperm.subperm).trans
        List.filter_sublist.subperm
    have hself : ((visited.take size).filter fun a =>
        decide (ident a ∈ (visited.take size).map ident)) = visited.take size :=
      List.filter_eq_self.mpr fun a ha => decide_eq_true (List.mem_map_of_mem ha)
    have hfilter := hitems.filter fun a => decide (ident a ∈ (visited.take size).map ident)
    rwa [hself] at hfilter
  have htake : visited.take size = visited := by
    have hlen := hsub.length_le.trans_lt hshort
    rw [List.length_take] at hlen
    exact List.take_of_length_le (by omega)
  intro a ha hpa
  rw [htake]
  exact List.mem_map_of_mem (hperm.mem_iff.mpr (List.mem_filter.mpr ⟨ha, hpa⟩))

omit [BEq ι] [LawfulBEq ι] in
/-- What a chunk deletes shares its identifier with an item it has taken. -/
theorem exists_taken (hperm : visited.Perm (items.filter p)) {i : ι}
    (hi : i ∈ (visited.take size).map ident) : ∃ a ∈ items, p a = true ∧ ident a = i := by
  obtain ⟨a, ha, rfl⟩ := List.mem_map.mp hi
  obtain ⟨hmem, hpa⟩ := List.mem_filter.mp (hperm.mem_iff.mp (List.mem_of_mem_take ha))
  exact ⟨a, hmem, hpa, rfl⟩

/-- A chunk that deletes something takes something. -/
theorem exists_victim (hperm : visited.Perm (items.filter p)) (hsize : 0 < size)
    (hfull : size ≤ (items.filter fun a =>
      decide (ident a ∈ (visited.take size).map ident)).length) :
    ∃ a ∈ items, p a = true ∧ ident a ∈ (visited.take size).map ident := by
  obtain ⟨b, hb⟩ := List.exists_mem_of_length_pos (hsize.trans_le hfull)
  obtain ⟨a, ha, hpa, heq⟩ := exists_taken hperm (of_decide_eq_true (List.mem_filter.mp hb).2)
  exact ⟨a, ha, hpa, heq ▸ of_decide_eq_true (List.mem_filter.mp hb).2⟩

omit [BEq ι] [LawfulBEq ι] in
/-- With distinct identifiers, a chunk deletes what satisfies its test only. -/
theorem of_taken (hperm : visited.Perm (items.filter p)) (hnodup : (items.map ident).Nodup) :
    ∀ a ∈ items, ident a ∈ (visited.take size).map ident → p a = true := by
  intro a ha hi
  obtain ⟨b, hb, hpb, heq⟩ := exists_taken hperm hi
  exact List.inj_on_of_nodup_map hnodup ha hb heq.symm ▸ hpb

variable (ident size) in
/-- **One chunk of a loop.** Where it deletes doomed items only, what it leaves is still
pruned; when it falls short, nothing doomed is left; and when it is full, there is less. -/
theorem Pruned.chunk {gone : α → Bool} {start : List α} (h : Pruned gone start items)
    (hperm : visited.Perm (items.filter p)) (hp : ∀ a ∈ items, p a = gone a)
    (hof : ∀ a ∈ items, ident a ∈ (visited.take size).map ident → p a = true) :
    Pruned gone start (items.filter fun a => !decide (ident a ∈ (visited.take size).map ident)) ∧
    ((items.filter fun a => decide (ident a ∈ (visited.take size).map ident)).length < size →
      (items.filter fun a => !decide (ident a ∈ (visited.take size).map ident)) =
        start.filter fun a => !gone a) ∧
    (0 < size →
      size ≤ (items.filter fun a => decide (ident a ∈ (visited.take size).map ident)).length →
      (items.filter fun a => !decide (ident a ∈ (visited.take size).map ident)).length <
        items.length) := by
  refine ⟨h.step fun a ha hv => ?_, fun hshort => h.done fun a ha => ?_, fun hsize hfull => ?_⟩
  · rw [← hp a ha]
    exact hof a ha (of_decide_eq_true hv)
  · rw [← hp a ha, Bool.eq_iff_iff, decide_eq_true_iff]
    exact ⟨hof a ha, taken_of_short hperm hshort a ha⟩
  · obtain ⟨a, ha, -, hv⟩ := exists_victim hperm hsize hfull
    refine List.length_filter_lt_length_iff_exists.mpr ⟨a, ha, ?_⟩
    rw [decide_eq_true hv]
    exact Bool.false_ne_true

end Chunk

end Pruning
