import LayaWatch.Lib.Dict

/-!
# Grouping by a key

A loop over items that keeps a dictionary of accumulators, one for each key
(`Dict.foldBy`): `d.setdefault(key, init)` and an update of what is there. The
accumulator of a key is the loop over the items with that key alone
(`getD_foldBy`), and amounts that are added up by key add up to the amount of all
items (`total_foldBy`).

Distinct keys that cover the items partition them (`perm_groups`).
-/

universe u v w

namespace Dict

variable {K : Type u} {V : Type v} {α : Type w} [DecidableEq K]

/-- For each item, update the accumulator of its key; a new key starts at `init`. -/
def foldBy (key : α → K) (init : V) (update : V → α → V) (items : List α) : Dict K V :=
  items.foldl (fun d item => d.set (key item) (update ((d.get (key item)).getD init) item)) empty

variable (key : α → K) {init : V} {update : V → α → V}

/-- The accumulator of a key is the loop over its own items. -/
theorem getD_foldBy (items : List α) (k : K) : ((foldBy key init update items).get k).getD init =
    (items.filter fun item => decide (key item = k)).foldl update init := by
  have hfold : ∀ (items : List α) (d : Dict K V), ((items.foldl (fun d item =>
      d.set (key item) (update ((d.get (key item)).getD init) item)) d).get k).getD init =
        (items.filter fun item => decide (key item = k)).foldl update ((d.get k).getD init) := by
    intro items
    induction items with
    | nil => exact fun d => rfl
    | cons item items ih =>
      intro d
      rw [List.foldl_cons, ih]
      by_cases hkey : key item = k
      · rw [List.filter_cons_of_pos (by simp [hkey]), List.foldl_cons, hkey, get_set_self]
        rfl
      · rw [List.filter_cons_of_neg (by simp [hkey]), get_set_ne d _ (Ne.symm hkey)]
  exact hfold items empty

/-- Amounts added up by key add up to the amount of all items. -/
theorem total_foldBy {M : Type v} [AddCommMonoid M] (amount : α → M) (items : List α) :
    (foldBy key 0 (fun sum item => sum + amount item) items).total (fun _ sum => sum) =
      (items.map amount).sum := by
  have hfold : ∀ (items : List α) (d : Dict K M), (items.foldl (fun d item =>
      d.set (key item) ((d.get (key item)).getD 0 + amount item)) d).total (fun _ sum => sum) =
        d.total (fun _ sum => sum) + (items.map amount).sum := by
    intro items
    induction items with
    | nil => exact fun d => (add_zero _).symm
    | cons item items ih =>
      intro d
      have hset : (d.set (key item) ((d.get (key item)).getD 0 + amount item)).total
          (fun _ sum => sum) = d.total (fun _ sum => sum) + amount item := by
        refine total_set _ (fun hnone => ?_) fun sum hsome => ?_
        · rw [hnone, Option.getD_none, zero_add]
        · rw [hsome, Option.getD_some]
      rw [List.foldl_cons, ih, hset, List.map_cons, List.sum_cons, add_assoc]
  exact (hfold items empty).trans (zero_add _)

end Dict

namespace List

variable {K : Type u} {α : Type w} [DecidableEq K]

/-- Items with either of two properties that exclude each other. -/
theorem perm_filter_or {p q : α → Bool} (hpq : ∀ a, p a = true → q a = false) (items : List α) :
    (items.filter p ++ items.filter q).Perm (items.filter fun a => p a || q a) := by
  have hsplit := filter_append_perm p (items.filter fun a => p a || q a)
  rw [filter_filter, filter_filter] at hsplit
  have hp : items.filter (fun a => p a && (p a || q a)) = items.filter p :=
    filter_congr fun a _ => by cases p a <;> simp
  have hq : items.filter (fun a => !p a && (p a || q a)) = items.filter q := by
    refine filter_congr fun a _ => ?_
    cases hpa : p a with
    | true => rw [hpq a hpa]; rfl
    | false => rfl
  rwa [hp, hq] at hsplit

/-- **Distinct keys that cover the items partition them.** -/
theorem perm_groups (key : α → K) {keys : List K} (hnodup : keys.Nodup) {items : List α}
    (hcover : ∀ item ∈ items, key item ∈ keys) :
    (keys.flatMap fun k => items.filter fun item => decide (key item = k)).Perm items := by
  have hgroups : ∀ keys : List K, keys.Nodup →
      (keys.flatMap fun k => items.filter fun item => decide (key item = k)).Perm
        (items.filter fun item => decide (key item ∈ keys)) := by
    intro keys
    induction keys with
    | nil => simp
    | cons k keys ih =>
      intro hnodup
      obtain ⟨hnew, hnodup⟩ := nodup_cons.mp hnodup
      rw [flatMap_cons]
      refine ((ih hnodup).append_left _).trans ((perm_filter_or (fun a ha => ?_) items).trans ?_)
      · rw [decide_eq_false_iff_not, of_decide_eq_true ha]
        exact hnew
      · refine Perm.of_eq (filter_congr fun a _ => ?_)
        rw [← Bool.decide_or]
        exact decide_eq_decide.mpr mem_cons.symm
  refine (hgroups keys hnodup).trans (Perm.of_eq (filter_eq_self.mpr fun item hitem => ?_))
  exact decide_eq_true (hcover item hitem)

end List
