import Mathlib.Logic.Basic

/-!
# Computations that collect errors

A `Checked ε α` always has a value, and notes what is wrong as it goes, so that a
caller learns of every error and not only of the first. Its value counts only if
nothing was noted: `toExcept` is `ok` then, and all errors in order otherwise.
-/

universe u v

/-- A value, with the errors noted on the way to it. -/
structure Checked (ε : Type u) (α : Type v) : Type (max u v) where
  /-- the value -/
  value : α
  /-- the errors, in order -/
  errors : List ε

namespace Checked

variable {ε : Type u} {α β : Type v}

instance : Monad (Checked ε) where
  pure a := ⟨a, []⟩
  bind x f := ⟨(f x.value).value, x.errors ++ (f x.value).errors⟩

/-- Note an error if something is wrong. -/
def note (wrong : Bool) (error : ε) : Checked ε PUnit := ⟨⟨⟩, if wrong then [error] else []⟩

/-- A value without its error, or a default with it. -/
def orElse (value : Option α) (default : α) (error : ε) : Checked ε α :=
  match value with
  | some a => ⟨a, []⟩
  | none => ⟨default, [error]⟩

/-- The value, if no error was noted. -/
def toExcept (x : Checked ε α) : Except (List ε) α :=
  if x.errors.isEmpty then .ok x.value else .error x.errors

@[simp] theorem value_pure (a : α) : (pure a : Checked ε α).value = a := rfl

@[simp] theorem errors_pure (a : α) : (pure a : Checked ε α).errors = [] := rfl

@[simp] theorem value_bind (x : Checked ε α) (f : α → Checked ε β) :
    (x >>= f).value = (f x.value).value := rfl

/-- A sequence notes nothing if neither part does. -/
@[simp] theorem errors_bind (x : Checked ε α) (f : α → Checked ε β) :
    (x >>= f).errors = [] ↔ x.errors = [] ∧ (f x.value).errors = [] := List.append_eq_nil_iff

@[simp] theorem errors_note (wrong : Bool) (error : ε) :
    (note wrong error).errors = [] ↔ wrong = false := by
  cases wrong with
  | false => exact iff_of_true rfl rfl
  | true => exact iff_of_false (fun h => by cases h) fun h => by cases h

@[simp] theorem errors_orElse (value : Option α) (default : α) (error : ε) :
    (orElse value default error).errors = [] ↔ value.isSome = true := by
  cases value with
  | none => exact iff_of_false (fun h => by cases h) fun h => by cases h
  | some a => exact iff_of_true rfl rfl

theorem toExcept_eq_ok {x : Checked ε α} {a : α} :
    x.toExcept = .ok a ↔ x.errors = [] ∧ x.value = a := by
  unfold toExcept
  by_cases h : x.errors.isEmpty = true
  · rw [if_pos h]
    exact ⟨fun ha => ⟨List.isEmpty_iff.mp h, Except.ok.inj ha⟩, fun ha => congrArg _ ha.2⟩
  · rw [if_neg h]
    refine iff_of_false (fun ha => ?_) fun ha => h (List.isEmpty_iff.mpr ha.1)
    cases ha

end Checked
