import LayaWatch.Lib.Machine
import Mathlib.Order.Nat

/-!
# Fair behaviours of a machine

What a machine does for ever: a `Behaviour` is an infinite sequence of states, and
from each to the next is one step of the machine or none. A set of steps is treated
fairly (`FairFor`) where, from no point on, one of them is always possible and none
is taken. From fairness follows what a machine must get to (`FairFor.leadsTo`): a
property that lasts until its goal is reached, and throughout which some step of a
fair set is possible that reaches it, is not the last word.
-/

universe u v

namespace Machine

variable {σ : Type u} {α : Type v}

/-- An infinite behaviour; `none` is a moment in which nothing is done. -/
structure Behaviour (M : Machine σ α) where
  /-- the state at each moment -/
  state : ℕ → σ
  /-- the step that is taken then -/
  act : ℕ → Option α
  /-- each state comes from the one before -/
  moves : ∀ i, (act i = none ∧ state (i + 1) = state i) ∨
    ∃ a, act i = some a ∧ M.step (state i) a = some (state (i + 1))

/-- A step of the set is possible. -/
def Enabled (M : Machine σ α) (A : α → Prop) (s : σ) : Prop := ∃ a t, A a ∧ M.step s a = some t

namespace Behaviour

variable {M : Machine σ α} {A : α → Prop} {P Q : σ → Prop}

/-- If from some moment on a step of the set is always possible, one is taken. -/
def FairFor (b : Behaviour M) (A : α → Prop) : Prop :=
  ∀ i, (∀ j, i ≤ j → M.Enabled A (b.state j)) → ∃ j a, i ≤ j ∧ A a ∧ b.act j = some a

/-- **Progress.** Where `P` lasts until `Q`, and a step of a fair set that leads to `Q`
is possible as long as `P`, `Q` comes. -/
theorem FairFor.leadsTo {b : Behaviour M} (hfair : b.FairFor A)
    (hlasts : ∀ s a t, P s → M.step s a = some t → P t ∨ Q t)
    (hgoal : ∀ s a t, P s → A a → M.step s a = some t → Q t)
    (hcan : ∀ s, P s → M.Enabled A s) {i : ℕ} (hi : P (b.state i)) :
    ∃ j, i ≤ j ∧ Q (b.state j) := by
  by_contra hnever
  -- then `P` lasts for ever, and the fair step is taken after all
  have hP : ∀ j, i ≤ j → P (b.state j) := by
    intro j hij
    induction j, hij using Nat.le_induction with
    | base => exact hi
    | succ j hij ih =>
      obtain ⟨-, hsame⟩ | ⟨a, -, ha⟩ := b.moves j
      · rwa [hsame]
      · refine (hlasts _ _ _ ih ha).resolve_right fun hQ => ?_
        exact hnever ⟨j + 1, Nat.le_succ_of_le hij, hQ⟩
  obtain ⟨j, a, hij, hA, hact⟩ := hfair i fun j hij => hcan _ (hP j hij)
  obtain ⟨hnone, -⟩ | ⟨a', ha', hstep⟩ := b.moves j
  · rw [hact] at hnone
    cases hnone
  · obtain rfl : a = a' := Option.some.inj (hact.symm.trans ha')
    exact hnever ⟨j + 1, Nat.le_succ_of_le hij, hgoal _ _ _ (hP j hij) hA hstep⟩

end Behaviour

/-! ## Runs that come to rest -/

variable {M : Machine σ α} {s : σ} {l : List α}

/-- Where the first steps of a list lead. -/
def stateAt (M : Machine σ α) (s : σ) (l : List α) (i : ℕ) : σ := M.final s (l.take i)

/-- What can be computed to its end can be computed up to each of its steps. -/
theorem exec_take (h : (M.exec s l).isSome = true) (i : ℕ) :
    (M.exec s (l.take i)).isSome = true := by
  rw [← List.take_append_drop i l, exec_append] at h
  rcases htake : M.exec s (l.take i) with _ | t
  · rw [htake] at h
    cases h
  · rfl

/-- The behaviour that takes the steps of a list, then none. -/
def resting (h : (M.exec s l).isSome = true) : Behaviour M where
  state := M.stateAt s l
  act i := l[i]?
  moves i := by
    rcases hi : l[i]? with _ | a
    · have hlen : l.length ≤ i := List.getElem?_eq_none_iff.mp hi
      refine Or.inl ⟨rfl, ?_⟩
      rw [stateAt, stateAt, List.take_of_length_le hlen,
        List.take_of_length_le (Nat.le_succ_of_le hlen)]
    · refine Or.inr ⟨a, rfl, ?_⟩
      have hnext := exec_final (exec_take h (i + 1))
      rw [List.take_add_one, hi, Option.toList_some, exec_append,
        exec_final (exec_take h i), Option.bind_some] at hnext
      obtain ⟨t, ht, hlast⟩ := Option.bind_eq_some_iff.mp hnext
      rw [stateAt, stateAt, ht, List.take_add_one, hi, Option.toList_some]
      exact hlast

/-- It is fair to all steps that are impossible where it comes to rest. -/
theorem resting_fairFor (h : (M.exec s l).isSome = true) {A : α → Prop}
    (hrest : ¬M.Enabled A (M.final s l)) : (resting h).FairFor A := by
  intro i hall
  refine absurd (hall (max i l.length) (Nat.le_max_left _ _)) ?_
  rwa [show (resting h).state (max i l.length) = M.final s l from
    congrArg (M.final s) (List.take_of_length_le (Nat.le_max_right _ _))]

end Machine
