import Mathlib.Data.List.Sort
import Mathlib.Data.Rat.Cast.Order
import Mathlib.Order.Bounds.Basic
import Mathlib.Tactic.Linarith

/-!
# Ranks

The elements of a list, by how many others they are no less than. An element is ranked `x`
if it is the least with at least `x` elements at most it (`Ranked`): there is at most one,
the order of the list does not matter, and in a sorted list it stands at the place that `x`
falls into (`ranked_getElem`).
-/

namespace Ranks

universe u

variable {α : Type u} [LinearOrder α] {l l' : List α} {x y : ℚ} {v w : α}

/-- How many elements are at most `v`. -/
def countAtMost (l : List α) (v : α) : ℕ := l.countP fun a => decide (a ≤ v)

@[simp] theorem countAtMost_nil (v : α) : countAtMost [] v = 0 := rfl

theorem countAtMost_cons (a : α) (l : List α) (v : α) :
    countAtMost (a :: l) v = countAtMost l v + if a ≤ v then 1 else 0 := by
  unfold countAtMost
  rw [List.countP_cons]
  simp only [decide_eq_true_eq]

theorem countAtMost_perm (h : l.Perm l') (v : α) : countAtMost l v = countAtMost l' v :=
  h.countP_eq _

theorem countAtMost_le_length (l : List α) (v : α) : countAtMost l v ≤ l.length :=
  List.countP_le_length

/-- All of them are at most `v` if so many are. -/
theorem le_of_length_le (h : l.length ≤ countAtMost l v) : ∀ a ∈ l, a ≤ v := fun a ha =>
  of_decide_eq_true (List.countP_eq_length.mp (le_antisymm (countAtMost_le_length l v) h) a ha)

theorem countAtMost_pos (h : v ∈ l) : 0 < countAtMost l v :=
  List.countP_pos_iff.mpr ⟨v, h, decide_eq_true le_rfl⟩

/-- **In a sorted list**, the element at `k` is at most `v` if more than `k` are. -/
theorem getElem_le_iff (hl : l.Pairwise (· ≤ ·)) : ∀ k (hk : k < l.length),
    l[k] ≤ v ↔ k < countAtMost l v := by
  induction l with
  | nil => exact fun k hk => absurd hk (Nat.not_lt_zero k)
  | cons a l ih =>
    obtain ⟨hhead, htail⟩ := List.pairwise_cons.mp hl
    intro k hk
    rw [countAtMost_cons]
    by_cases ha : a ≤ v
    · rw [if_pos ha]
      cases k with
      | zero => exact iff_of_true ha (Nat.succ_pos _)
      | succ k => exact (ih htail k (Nat.lt_of_succ_lt_succ hk)).trans Nat.succ_lt_succ_iff.symm
    · -- beyond the first element, everything is greater still
      have hnone : countAtMost l v = 0 := by
        refine List.countP_eq_zero.mpr fun b hb => ?_
        rw [decide_eq_true_eq]
        exact fun hbv => ha ((hhead b hb).trans hbv)
      rw [if_neg ha, hnone]
      refine iff_of_false (fun hle => ha ?_) (Nat.not_lt_zero k)
      rcases List.mem_cons.mp (List.getElem_mem hk) with heq | hmem
      · rwa [heq] at hle
      · exact (hhead _ hmem).trans hle

/-- The least element with at least `x` elements at most it. -/
structure Ranked (l : List α) (x : ℚ) (v : α) : Prop where
  /-- it is an element -/
  mem : v ∈ l
  /-- at least `x` are at most it -/
  enough : x ≤ countAtMost l v
  /-- it is the least such -/
  least : ∀ w ∈ l, x ≤ countAtMost l w → v ≤ w

/-- **The place of a rank**: the element at `k` is ranked whatever is more than `k` and at
most `k + 1`. -/
theorem ranked_getElem (hl : l.Pairwise (· ≤ ·)) {k : ℕ} (hk : k < l.length) (hlow : (k : ℚ) < x)
    (hhigh : x ≤ k + 1) : Ranked l x l[k] where
  mem := List.getElem_mem hk
  enough := by
    have hcount : k + 1 ≤ countAtMost l l[k] := (getElem_le_iff hl k hk).mp le_rfl
    exact hhigh.trans (by exact_mod_cast hcount)
  least := fun w _ hw => by
    have hcount : (k : ℚ) < countAtMost l w := hlow.trans_le hw
    exact (getElem_le_iff hl k hk).mpr (by exact_mod_cast hcount)

namespace Ranked

theorem unique (hv : Ranked l x v) (hw : Ranked l x w) : v = w :=
  le_antisymm (hv.least w hw.mem hw.enough) (hw.least v hv.mem hv.enough)

/-- The order of the list does not matter. -/
theorem perm (hv : Ranked l x v) (h : l.Perm l') : Ranked l' x v where
  mem := h.mem_iff.mp hv.mem
  enough := by
    rw [← countAtMost_perm h]
    exact hv.enough
  least := fun w hw hx => hv.least w (h.mem_iff.mpr hw) (by rwa [countAtMost_perm h])

/-- A greater rank, a greater element. -/
theorem mono (hv : Ranked l x v) (hw : Ranked l y w) (hxy : x ≤ y) : v ≤ w :=
  hv.least w hw.mem (hxy.trans hw.enough)

/-- The first rank is that of the least element. -/
theorem isLeast (hv : Ranked l x v) (hx : x ≤ 1) : IsLeast {a | a ∈ l} v := by
  refine ⟨hv.mem, fun w hw => hv.least w hw (hx.trans ?_)⟩
  exact_mod_cast countAtMost_pos hw

/-- The last rank is that of the greatest. -/
theorem isGreatest (hv : Ranked l x v) (hx : (l.length : ℚ) - 1 < x) :
    IsGreatest {a | a ∈ l} v := by
  have hcount : (l.length : ℚ) < countAtMost l v + 1 := by linarith [hv.enough]
  have hall : l.length ≤ countAtMost l v := Nat.lt_succ_iff.mp (by exact_mod_cast hcount)
  exact ⟨hv.mem, le_of_length_le hall⟩

end Ranked

end Ranks
