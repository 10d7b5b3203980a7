import Mathlib.Data.List.Nodup
import Mathlib.Data.List.Induction

/-!
# Lifetimes

Things that are granted and ended by the events of a history. `live` is what a
system that keeps a table of grants computes, event by event: an event first
ends some of the grants and may then make one. `mem_live` says what that means
for the history as a whole: a grant lives as long as no later event ends it.
-/

universe u v

/-- How the events of a history bear on grants. -/
structure Lifetimes (E : Type u) (γ : Type v) where
  /-- the grant that an event makes -/
  grants : E → Option γ
  /-- whether an event ends a grant made before it -/
  ends : E → γ → Bool

namespace Lifetimes

variable {E : Type u} {γ : Type v} (R : Lifetimes E γ)

/-- The grants alive after one more event. -/
def next (live : List γ) (e : E) : List γ :=
  live.filter (fun g => !R.ends e g) ++ (R.grants e).toList

/-- The grants alive after a history, in the order they were made. -/
def live (h : List E) : List γ := h.foldl R.next []

/-- All grants of a history. -/
def granted (h : List E) : List γ := h.filterMap R.grants

/-- No event of the history ends the grant. -/
def Outlives (h : List E) (g : γ) : Prop := ∀ e ∈ h, R.ends e g = false

variable {R}

@[simp] theorem live_nil : R.live [] = [] := rfl

@[simp] theorem granted_nil : R.granted [] = [] := rfl

theorem granted_append (h h' : List E) : R.granted (h ++ h') = R.granted h ++ R.granted h' :=
  List.filterMap_append

@[simp] theorem live_snoc (h : List E) (e : E) : R.live (h ++ [e]) = R.next (R.live h) e := by
  unfold live
  rw [List.foldl_append]
  rfl

theorem mem_next {l : List γ} {e : E} {g : γ} :
    g ∈ R.next l e ↔ (g ∈ l ∧ R.ends e g = false) ∨ R.grants e = some g := by
  simp [next]

/-- What lives after one history and another: what the first granted and the second
did not end, and what the second granted. -/
theorem mem_live_append {h h' : List E} {g : γ} :
    g ∈ R.live (h ++ h') ↔ (g ∈ R.live h ∧ R.Outlives h' g) ∨ g ∈ R.live h' := by
  induction h' using List.reverseRecOn with
  | nil => simp [Outlives]
  | append_singleton h' e ih =>
    have hout : R.Outlives (h' ++ [e]) g ↔ R.Outlives h' g ∧ R.ends e g = false := by
      simp only [Outlives, List.forall_mem_append, List.forall_mem_singleton]
    rw [← List.append_assoc, live_snoc, mem_next, ih, live_snoc, mem_next, hout]
    constructor
    · rintro (⟨⟨hg, ho⟩ | hg, he⟩ | hg)
      · exact Or.inl ⟨hg, ho, he⟩
      · exact Or.inr (Or.inl ⟨hg, he⟩)
      · exact Or.inr (Or.inr hg)
    · rintro (⟨hg, ho, he⟩ | ⟨hg, he⟩ | hg)
      · exact Or.inl ⟨Or.inl ⟨hg, ho⟩, he⟩
      · exact Or.inl ⟨Or.inr hg, he⟩
      · exact Or.inr hg

/-- **A grant is alive exactly if some event made it and no later one ends it.** -/
theorem mem_live {h : List E} {g : γ} :
    g ∈ R.live h ↔
      ∃ pre e post, h = pre ++ e :: post ∧ R.grants e = some g ∧ R.Outlives post g := by
  constructor
  · induction h using List.reverseRecOn with
    | nil => exact fun hg => absurd hg List.not_mem_nil
    | append_singleton h e ih =>
      rw [live_snoc, mem_next]
      rintro (⟨hg, he⟩ | hg)
      · obtain ⟨pre, e', post, rfl, hgrant, hout⟩ := ih hg
        refine ⟨pre, e', post ++ [e], by simp, hgrant, ?_⟩
        simp only [Outlives, List.forall_mem_append, List.forall_mem_singleton]
        exact ⟨hout, he⟩
      · exact ⟨h, e, [], by simp, hg, fun _ he => absurd he List.not_mem_nil⟩
  · rintro ⟨pre, e, post, rfl, hgrant, hout⟩
    rw [← List.singleton_append, ← List.append_assoc, mem_live_append, live_snoc, mem_next]
    exact Or.inl ⟨Or.inr hgrant, hout⟩

/-- What lives was granted. -/
theorem live_sublist (h : List E) : (R.live h).Sublist (R.granted h) := by
  induction h using List.reverseRecOn with
  | nil => exact List.Sublist.refl _
  | append_singleton h e ih =>
    rw [live_snoc, granted_append]
    refine (List.filter_sublist.trans ih).append ?_
    rw [granted, List.filterMap_cons, List.filterMap_nil]
    cases R.grants e <;> exact List.Sublist.refl _

end Lifetimes
