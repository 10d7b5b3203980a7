import Mathlib.Data.List.Nodup
import Mathlib.Algebra.BigOperators.Group.List.Basic

/-!
# Dictionaries in insertion order

A `Dict` is a list of key–value entries with pairwise distinct keys, which is
what a Python `dict` shows: setting a key that is there keeps its place,
setting a new key puts it at the end. A table with a primary key and an
`INSERT .. ON CONFLICT DO UPDATE` is the same thing.

`Dict.total` adds up a measure of the entries in a commutative monoid. Its two
laws, `total_set` and `total_erase`, are the bookkeeping of every program that
moves amounts between dictionaries.
-/

universe u v w

/-- A dictionary: entries in insertion order, no key twice. -/
structure Dict (K : Type u) (V : Type v) where
  /-- the entries, oldest key first -/
  entries : List (K × V)
  /-- no key occurs twice -/
  nodup : (entries.map Prod.fst).Nodup
  deriving DecidableEq

namespace Dict

variable {K : Type u} {V : Type v}

@[ext] theorem ext {d e : Dict K V} (h : d.entries = e.entries) : d = e := by
  cases d; cases e
  subst h
  rfl

/-- The empty dictionary. -/
def empty : Dict K V := ⟨[], List.nodup_nil⟩

instance : Inhabited (Dict K V) := ⟨empty⟩

/-- The keys in insertion order. -/
def keys (d : Dict K V) : List K := d.entries.map Prod.fst

theorem keys_nodup (d : Dict K V) : d.keys.Nodup := d.nodup

@[simp] theorem keys_empty : (empty : Dict K V).keys = [] := rfl

/-- Keep the entries that satisfy `p`. -/
def filter (d : Dict K V) (p : K × V → Bool) : Dict K V :=
  ⟨d.entries.filter p, d.nodup.sublist (List.filter_sublist.map _)⟩

variable [DecidableEq K]

/-! ## Reading -/

/-- The value of the first entry with key `k`. -/
def lookup (k : K) : List (K × V) → Option V
  | [] => none
  | (k', v) :: rest => if k' = k then some v else lookup k rest

/-- `d.get(k)`. -/
def get (d : Dict K V) (k : K) : Option V := lookup k d.entries

theorem lookup_mem {k : K} {v : V} {l : List (K × V)} (h : lookup k l = some v) :
    (k, v) ∈ l := by
  induction l with
  | nil => cases h
  | cons e rest ih =>
    obtain ⟨k', v'⟩ := e
    by_cases hk : k' = k
    · rw [lookup, if_pos hk] at h
      obtain rfl := Option.some.inj h
      rw [hk]
      exact List.mem_cons_self
    · rw [lookup, if_neg hk] at h
      exact List.mem_cons_of_mem _ (ih h)

theorem lookup_eq_none {k : K} {l : List (K × V)} :
    lookup k l = none ↔ k ∉ l.map Prod.fst := by
  induction l with
  | nil => simp [lookup]
  | cons e rest ih =>
    obtain ⟨k', v'⟩ := e
    by_cases hk : k' = k
    · simp [lookup, hk]
    · simp [lookup, hk, ih, Ne.symm hk]

theorem lookup_of_mem {k : K} {v : V} {l : List (K × V)} (hn : (l.map Prod.fst).Nodup)
    (h : (k, v) ∈ l) : lookup k l = some v := by
  induction l with
  | nil => cases h
  | cons e rest ih =>
    obtain ⟨k', v'⟩ := e
    rw [List.map_cons, List.nodup_cons] at hn
    rcases List.mem_cons.mp h with h | h
    · obtain ⟨rfl, rfl⟩ := Prod.mk.inj h
      rw [lookup, if_pos rfl]
    · have hk : k' ≠ k := by
        rintro rfl
        exact hn.1 (List.mem_map.mpr ⟨_, h, rfl⟩)
      rw [lookup, if_neg hk]
      exact ih hn.2 h

theorem get_eq_some {d : Dict K V} {k : K} {v : V} : d.get k = some v ↔ (k, v) ∈ d.entries :=
  ⟨lookup_mem, lookup_of_mem d.nodup⟩

theorem get_eq_none {d : Dict K V} {k : K} : d.get k = none ↔ k ∉ d.keys := lookup_eq_none

theorem mem_keys {d : Dict K V} {k : K} : k ∈ d.keys ↔ ∃ v, d.get k = some v := by
  constructor
  · intro h
    rcases hv : d.get k with _ | v
    · exact absurd h (get_eq_none.mp hv)
    · exact ⟨v, rfl⟩
  · rintro ⟨v, hv⟩
    exact List.mem_map.mpr ⟨(k, v), get_eq_some.mp hv, rfl⟩

@[simp] theorem get_empty (k : K) : (empty : Dict K V).get k = none := rfl

/-! ## Writing -/

/-- Replace the value of `k` in place, or put `k` at the end. -/
def upsert (k : K) (v : V) : List (K × V) → List (K × V)
  | [] => [(k, v)]
  | (k', v') :: rest => if k' = k then (k, v) :: rest else (k', v') :: upsert k v rest

theorem upsert_keys (k : K) (v : V) (l : List (K × V)) :
    (upsert k v l).map Prod.fst =
      if k ∈ l.map Prod.fst then l.map Prod.fst else l.map Prod.fst ++ [k] := by
  induction l with
  | nil => simp [upsert]
  | cons e rest ih =>
    obtain ⟨k', v'⟩ := e
    by_cases hk : k' = k
    · simp [upsert, hk]
    · rw [upsert, if_neg hk, List.map_cons, ih]
      by_cases hm : k ∈ rest.map Prod.fst
      · have hm' : k ∈ ((k', v') :: rest).map Prod.fst := by
          rw [List.map_cons]
          exact List.mem_cons_of_mem _ hm
        rw [if_pos hm, if_pos hm', List.map_cons]
      · have hm' : k ∉ ((k', v') :: rest).map Prod.fst := by
          rw [List.map_cons, List.mem_cons, not_or]
          exact ⟨Ne.symm hk, hm⟩
        rw [if_neg hm, if_neg hm', List.map_cons, List.cons_append]

/-- An entry that a filter drops, whatever its value, does not matter to it. -/
theorem filter_upsert {p : K × V → Bool} {k : K} {v : V} (hp : ∀ v, p (k, v) = false)
    (l : List (K × V)) : (upsert k v l).filter p = l.filter p := by
  have hdrop : ∀ v, ¬p (k, v) = true := fun v => Bool.eq_false_iff.mp (hp v)
  induction l with
  | nil => exact List.filter_cons_of_neg (hdrop v)
  | cons e rest ih =>
    obtain ⟨k', v'⟩ := e
    by_cases hk : k' = k
    · subst hk
      rw [upsert, if_pos rfl, List.filter_cons_of_neg (hdrop v),
        List.filter_cons_of_neg (hdrop v')]
    · rw [upsert, if_neg hk, List.filter_cons, List.filter_cons, ih]

/-- `d[k] = v`. -/
def set (d : Dict K V) (k : K) (v : V) : Dict K V where
  entries := upsert k v d.entries
  nodup := by
    rw [upsert_keys]
    split
    · exact d.nodup
    · rename_i hk
      exact List.nodup_append.mpr ⟨d.nodup, List.nodup_singleton k, fun a ha b hb => by
        rw [List.mem_singleton.mp hb]
        exact fun hab => hk (hab ▸ ha)⟩

/-- `d.pop(k, None)`, without the value. -/
def erase (d : Dict K V) (k : K) : Dict K V := d.filter fun e => decide (e.1 ≠ k)

theorem mem_upsert {k : K} {v : V} {l : List (K × V)} {e : K × V}
    (hn : (l.map Prod.fst).Nodup) :
    e ∈ upsert k v l ↔ e = (k, v) ∨ (e ∈ l ∧ e.1 ≠ k) := by
  induction l with
  | nil => simp [upsert]
  | cons e' rest ih =>
    obtain ⟨k', v'⟩ := e'
    rw [List.map_cons, List.nodup_cons] at hn
    by_cases hk : k' = k
    · rw [upsert, if_pos hk, List.mem_cons]
      constructor
      · rintro (h | h)
        · exact Or.inl h
        · refine Or.inr ⟨List.mem_cons_of_mem _ h, fun he => hn.1 ?_⟩
          exact List.mem_map.mpr ⟨e, h, he.trans hk.symm⟩
      · rintro (h | ⟨h, hne⟩)
        · exact Or.inl h
        · rcases List.mem_cons.mp h with h | h
          · exact absurd (h ▸ hk) hne
          · exact Or.inr h
    · rw [upsert, if_neg hk, List.mem_cons, ih hn.2]
      constructor
      · rintro (h | h | ⟨h, hne⟩)
        · exact Or.inr ⟨h ▸ List.mem_cons_self, h ▸ hk⟩
        · exact Or.inl h
        · exact Or.inr ⟨List.mem_cons_of_mem _ h, hne⟩
      · rintro (h | ⟨h, hne⟩)
        · exact Or.inr (Or.inl h)
        · rcases List.mem_cons.mp h with h | h
          · exact Or.inl h
          · exact Or.inr (Or.inr ⟨h, hne⟩)

theorem mem_set {d : Dict K V} {k : K} {v : V} {e : K × V} :
    e ∈ (d.set k v).entries ↔ e = (k, v) ∨ (e ∈ d.entries ∧ e.1 ≠ k) :=
  mem_upsert d.nodup

@[simp] theorem get_set_self (d : Dict K V) (k : K) (v : V) : (d.set k v).get k = some v :=
  get_eq_some.mpr (mem_set.mpr (Or.inl rfl))

theorem get_set_ne (d : Dict K V) {k k' : K} (v : V) (h : k' ≠ k) :
    (d.set k v).get k' = d.get k' := by
  ext v'
  rw [get_eq_some, get_eq_some, mem_set]
  constructor
  · rintro (he | ⟨he, -⟩)
    · exact absurd (Prod.mk.inj he).1 h
    · exact he
  · exact fun he => Or.inr ⟨he, h⟩

theorem mem_keys_set {d : Dict K V} {k k' : K} {v : V} :
    k' ∈ (d.set k v).keys ↔ k' = k ∨ k' ∈ d.keys := by
  by_cases h : k' = k
  · subst h
    simp [mem_keys]
  · simp [mem_keys, get_set_ne d v h, h]

theorem keys_set (d : Dict K V) (k : K) (v : V) :
    (d.set k v).keys = if k ∈ d.keys then d.keys else d.keys ++ [k] := upsert_keys k v d.entries

/-- A new key is put at the end. -/
theorem entries_set_new {d : Dict K V} {k : K} (v : V) (h : k ∉ d.keys) :
    (d.set k v).entries = d.entries ++ [(k, v)] := by
  obtain ⟨l, hl⟩ := d
  change k ∉ l.map Prod.fst at h
  change upsert k v l = l ++ [(k, v)]
  clear hl
  induction l with
  | nil => rfl
  | cons e rest ih =>
    obtain ⟨k', v'⟩ := e
    rw [List.map_cons, List.mem_cons, not_or] at h
    rw [upsert, if_neg (Ne.symm h.1), ih h.2, List.cons_append]

theorem countP_upsert (q : K × V → Bool) {k : K} {v : V} {l : List (K × V)}
    (hn : (l.map Prod.fst).Nodup) : (upsert k v l).countP q =
      l.countP (fun e => decide (e.1 ≠ k) && q e) + if q (k, v) = true then 1 else 0 := by
  induction l with
  | nil =>
    rw [upsert, List.countP_singleton, List.countP_nil, Nat.zero_add]
  | cons e rest ih =>
    obtain ⟨k', v'⟩ := e
    rw [List.map_cons, List.nodup_cons] at hn
    by_cases hk : k' = k
    · subst hk
      have hrest : rest.countP (fun e => decide (e.1 ≠ k') && q e) = rest.countP q :=
        List.countP_congr fun e he => by
          have hne : e.1 ≠ k' := fun heq => hn.1 (List.mem_map.mpr ⟨e, he, heq⟩)
          rw [decide_eq_true hne, Bool.true_and]
      rw [upsert, if_pos rfl, List.countP_cons, List.countP_cons, hrest]
      simp
    · rw [upsert, if_neg hk, List.countP_cons, List.countP_cons, ih hn.2]
      simp only [ne_eq, hk, not_false_eq_true, decide_true, Bool.true_and]
      omega

/-- Entries of a kind, after a key was set: those at other keys, and the new one. -/
theorem countP_set (q : K × V → Bool) (d : Dict K V) (k : K) (v : V) :
    (d.set k v).entries.countP q =
      d.entries.countP (fun e => decide (e.1 ≠ k) && q e) + if q (k, v) = true then 1 else 0 :=
  countP_upsert q d.nodup

omit [DecidableEq K] in
theorem keys_filter (d : Dict K V) (p : K → Bool) :
    (d.filter fun e => p e.1).keys = d.keys.filter p := by
  unfold filter keys
  rw [List.filter_map]
  rfl

omit [DecidableEq K] in
theorem length_keys (d : Dict K V) : d.keys.length = d.entries.length := List.length_map _

theorem mem_erase {d : Dict K V} {k : K} {e : K × V} :
    e ∈ (d.erase k).entries ↔ e ∈ d.entries ∧ e.1 ≠ k := by
  simp [erase, filter]

@[simp] theorem get_erase_self (d : Dict K V) (k : K) : (d.erase k).get k = none := by
  rw [get_eq_none, mem_keys]
  rintro ⟨v, hv⟩
  exact (mem_erase.mp (get_eq_some.mp hv)).2 rfl

theorem get_erase_ne (d : Dict K V) {k k' : K} (h : k' ≠ k) :
    (d.erase k).get k' = d.get k' := by
  ext v
  rw [get_eq_some, get_eq_some, mem_erase]
  exact ⟨fun he => he.1, fun he => ⟨he, h⟩⟩

theorem keys_erase (d : Dict K V) (k : K) :
    (d.erase k).keys = d.keys.filter fun k' => decide (k' ≠ k) := by
  unfold erase filter keys
  rw [List.filter_map]
  rfl

/-! ## Writing several keys -/

/-- Keys are set, one after the other. -/
def update (d : Dict K V) (l : List (K × V)) : Dict K V := l.foldl (fun d e => d.set e.1 e.2) d

/-- A key that is not written keeps its value. -/
theorem get_update_of_not_mem {k : K} {l : List (K × V)} (h : k ∉ l.map Prod.fst) :
    ∀ d : Dict K V, (d.update l).get k = d.get k := by
  induction l with
  | nil => exact fun _ => rfl
  | cons e rest ih =>
    intro d
    rw [List.map_cons, List.mem_cons, not_or] at h
    exact (ih h.2 _).trans (get_set_ne d e.2 h.1)

/-- A key that is written once has the value that was written. -/
theorem get_update_of_mem {k : K} {v : V} {l : List (K × V)} (hn : (l.map Prod.fst).Nodup)
    (h : (k, v) ∈ l) : ∀ d : Dict K V, (d.update l).get k = some v := by
  induction l with
  | nil => exact absurd h List.not_mem_nil
  | cons e rest ih =>
    intro d
    rw [List.map_cons, List.nodup_cons] at hn
    rcases List.mem_cons.mp h with rfl | hrest
    · exact (get_update_of_not_mem hn.1 _).trans (get_set_self d k v)
    · exact ih hn.2 hrest _

/-! ## Totals -/

variable {M : Type w} [AddCommMonoid M]

omit [DecidableEq K] in
/-- The sum of a measure over the entries. -/
def total (f : K → V → M) (d : Dict K V) : M := (d.entries.map fun e => f e.1 e.2).sum

omit [DecidableEq K] in
@[simp] theorem total_empty (f : K → V → M) : (empty : Dict K V).total f = 0 := rfl

omit [DecidableEq K] in
theorem total_congr {f g : K → V → M} {d : Dict K V}
    (h : ∀ k v, (k, v) ∈ d.entries → f k v = g k v) : d.total f = d.total g := by
  unfold total
  exact congrArg List.sum (List.map_congr_left fun e he => h e.1 e.2 he)

theorem sum_upsert (f : K → V → M) {k : K} {v : V} {i : M} {l : List (K × V)}
    (hnew : lookup k l = none → f k v = i)
    (hold : ∀ v', lookup k l = some v' → f k v = f k v' + i) :
    ((upsert k v l).map fun e => f e.1 e.2).sum = (l.map fun e => f e.1 e.2).sum + i := by
  induction l with
  | nil => simp [upsert, hnew rfl]
  | cons e rest ih =>
    obtain ⟨k', v'⟩ := e
    by_cases hk : k' = k
    · subst hk
      have h := hold v' (by rw [lookup, if_pos rfl])
      rw [upsert, if_pos rfl, List.map_cons, List.sum_cons, List.map_cons, List.sum_cons, h,
        add_right_comm]
    · rw [lookup, if_neg hk] at hnew hold
      rw [upsert, if_neg hk, List.map_cons, List.sum_cons, List.map_cons, List.sum_cons,
        ih hnew hold, add_assoc]

/-- Setting a key to a value that measures `i` more adds `i` to the total. -/
theorem total_set (f : K → V → M) {d : Dict K V} {k : K} {v : V} {i : M}
    (hnew : d.get k = none → f k v = i)
    (hold : ∀ v', d.get k = some v' → f k v = f k v' + i) :
    (d.set k v).total f = d.total f + i :=
  sum_upsert f hnew hold

theorem sum_filter_ne (f : K → V → M) {k : K} {v : V} {l : List (K × V)}
    (hn : (l.map Prod.fst).Nodup) (h : lookup k l = some v) :
    ((l.filter fun e => decide (e.1 ≠ k)).map fun e => f e.1 e.2).sum + f k v =
      (l.map fun e => f e.1 e.2).sum := by
  induction l with
  | nil => cases h
  | cons e rest ih =>
    obtain ⟨k', v'⟩ := e
    rw [List.map_cons, List.nodup_cons] at hn
    by_cases hk : k' = k
    · rw [lookup, if_pos hk] at h
      obtain rfl := Option.some.inj h
      subst hk
      have hrest : rest.filter (fun e => decide (e.1 ≠ k')) = rest := by
        rw [List.filter_eq_self]
        intro e he
        exact decide_eq_true fun hek => hn.1 (List.mem_map.mpr ⟨e, he, hek⟩)
      rw [List.filter_cons_of_neg (by simp), hrest, List.map_cons, List.sum_cons, add_comm]
    · rw [lookup, if_neg hk] at h
      rw [List.filter_cons_of_pos (by simp [hk]), List.map_cons, List.sum_cons, List.map_cons,
        List.sum_cons, add_assoc, ih hn.2 h]

/-- Popping a key takes what its value measures out of the total. -/
theorem total_erase (f : K → V → M) {d : Dict K V} {k : K} {v : V} (h : d.get k = some v) :
    (d.erase k).total f + f k v = d.total f :=
  sum_filter_ne f d.nodup h

omit [DecidableEq K] in
/-- A measure that looks at some entries only is the sum over these. -/
theorem total_filter (p : K × V → Bool) (f : K × V → M) (d : Dict K V) :
    d.total (fun k v => if p (k, v) then f (k, v) else 0) =
      ((d.entries.filter p).map f).sum := by
  unfold total
  induction d.entries with
  | nil => rfl
  | cons e rest ih =>
    rw [List.map_cons, List.sum_cons, ih]
    by_cases hp : p e = true
    · rw [List.filter_cons_of_pos hp, List.map_cons, List.sum_cons]
      exact congrArg (· + _) (if_pos hp)
    · rw [List.filter_cons_of_neg hp]
      exact (congrArg (· + _) (if_neg hp)).trans (zero_add _)

omit [DecidableEq K] in
/-- Leaving out entries that measure nothing does not change a total. -/
theorem total_of_filter (p : K × V → Bool) (f : K → V → M) (d : Dict K V)
    (h : ∀ k v, p (k, v) = false → f k v = 0) : (d.filter p).total f = d.total f := by
  have hrest := total_filter p (fun e : K × V => f e.1 e.2) d
  refine hrest.symm.trans (total_congr fun k v _ => ?_)
  by_cases hp : p (k, v) = true
  · rw [if_pos hp]
  · rw [if_neg hp, h k v (Bool.eq_false_iff.mpr hp)]

/-- What is left after a filter was there before. -/
theorem get_of_get_filter {p : K × V → Bool} {d : Dict K V} {k : K} {v : V}
    (h : (d.filter p).get k = some v) : d.get k = some v ∧ p (k, v) = true := by
  rw [get_eq_some] at h ⊢
  exact List.mem_filter.mp h

theorem get_filter {p : K × V → Bool} {d : Dict K V} {k : K} {v : V} (h : d.get k = some v)
    (hp : p (k, v) = true) : (d.filter p).get k = some v := by
  rw [get_eq_some] at h ⊢
  exact List.mem_filter.mpr ⟨h, hp⟩

omit [DecidableEq K] in
/-- A dictionary without keys is empty. -/
theorem eq_empty {d : Dict K V} (h : d.keys = []) : d = empty :=
  ext (List.map_eq_nil_iff.mp h)

/-- A measure that looks at one key only totals to what that key holds. -/
theorem total_single (g : V → M) (d : Dict K V) (k : K) :
    d.total (fun k' v => if k' = k then g v else 0) = ((d.get k).map g).getD 0 := by
  rcases h : d.get k with _ | v
  · rw [total_congr (g := fun _ _ => 0)]
    · simp [total]
    · intro k' v hm
      rw [if_neg]
      rintro rfl
      rw [get_eq_some.mpr hm] at h
      cases h
  · rw [← total_erase _ h, if_pos rfl, total_congr (g := fun _ _ => 0)]
    · simp [total]
    · intro k' v hm
      rw [if_neg (mem_erase.mp hm).2]

end Dict
