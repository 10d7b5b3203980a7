import Mathlib.Logic.Basic
import Mathlib.Data.List.Basic
import Mathlib.Data.List.Induction

/-!
# Machines: labelled steps, runs and invariants

A `Machine` is a state type with a set of initial states and a partial step
function; every choice its environment has (which thread moves, what the clock
says, whether an operation fails) is in the label. What is here is what every
development over such a machine needs once:

* `Run` — finite runs, kept as the list of their events, so that a condition on
  the steps of a run can look at the state before each of them;
* `exec`, `execOk` — the same runs computed from a list of labels, for concrete
  runs, without and with a guard on the steps;
* `Run.invariant` — the induction over a run, with a guard on its steps;
* `Run.count_le` — a measure bounds how many steps of a kind a run has;
* `outputs` — what the steps of a run put out, in order.
-/

universe u v w

/-- A machine: its initial states, and what one labelled step does to a state.
`none` is a step that is not enabled. -/
structure Machine (σ : Type u) (α : Type v) where
  /-- the states a run may start in -/
  init : σ → Prop
  /-- one labelled step -/
  step : σ → α → Option σ

namespace Machine

/-- One step of a run: the state before it, its label, the state after it. -/
structure Event (σ : Type u) (α : Type v) where
  /-- the state before the step -/
  pre : σ
  /-- the label of the step -/
  act : α
  /-- the state after the step -/
  post : σ

variable {σ : Type u} {α : Type v} (M : Machine σ α)

/-- `M.Run s es t`: the events `es`, oldest first, lead from `s` to `t`. -/
inductive Run (s : σ) : List (Event σ α) → σ → Prop
  /-- the run without a step -/
  | refl : Run s [] s
  /-- one more step at the end -/
  | snoc {t u : σ} {es : List (Event σ α)} {a : α} :
      Run s es t → M.step t a = some u → Run s (es ++ [⟨t, a, u⟩]) u

/-- A state that some run from an initial state reaches. -/
def Reachable (t : σ) : Prop := ∃ s es, M.init s ∧ M.Run s es t

/-- Run the labels in order; `none` as soon as one is not enabled. -/
def exec : σ → List α → Option σ
  | s, [] => some s
  | s, a :: rest => (M.step s a).bind fun t => exec t rest

variable {M}

/-- Put a step before a run. -/
theorem Run.cons {s t u : σ} {es : List (Event σ α)} {a : α} (hs : M.step s a = some t)
    (hr : M.Run t es u) : M.Run s (⟨s, a, t⟩ :: es) u := by
  induction hr with
  | refl => exact show M.Run s ([] ++ [⟨s, a, t⟩]) t from Run.snoc Run.refl hs
  | snoc _ hstep ih => exact Run.snoc ih hstep

/-- Two runs, one after the other. -/
theorem Run.append {s t u : σ} {es fs : List (Event σ α)} (h : M.Run s es t)
    (h' : M.Run t fs u) : M.Run s (es ++ fs) u := by
  induction h' with
  | refl => rwa [List.append_nil]
  | snoc _ hstep ih =>
    rw [← List.append_assoc]
    exact Run.snoc ih hstep

/-- A run of two parts is two runs. -/
theorem Run.of_append {s t : σ} {es fs : List (Event σ α)} (h : M.Run s (es ++ fs) t) :
    ∃ u, M.Run s es u ∧ M.Run u fs t := by
  induction fs using List.reverseRecOn generalizing t with
  | nil => exact ⟨t, by rwa [List.append_nil] at h, Run.refl⟩
  | append_singleton fs e ih =>
    rw [← List.append_assoc] at h
    generalize hall : es ++ fs ++ [e] = all at h
    cases h with
    | refl => exact absurd hall (List.append_ne_nil_of_right_ne_nil _ (List.cons_ne_nil _ _))
    | snoc hrun hstep =>
      obtain ⟨hinit, hlast⟩ := List.append_inj' hall rfl
      obtain rfl := List.singleton_inj.mp hlast
      obtain ⟨u, hfirst, hsecond⟩ := ih (hinit ▸ hrun)
      exact ⟨u, hfirst, Run.snoc hsecond hstep⟩

theorem Run.eq_of_nil {s t : σ} (h : M.Run s [] t) : t = s := by
  generalize hnil : ([] : List (Event σ α)) = es at h
  cases h with
  | refl => rfl
  | snoc _ _ => exact absurd hnil.symm (List.append_ne_nil_of_right_ne_nil _ (List.cons_ne_nil _ _))

/-- A run that starts with a step is that step, and a run after it. -/
theorem Run.of_cons {s t : σ} {e : Event σ α} {es : List (Event σ α)} (h : M.Run s (e :: es) t) :
    e.pre = s ∧ M.step s e.act = some e.post ∧ M.Run e.post es t := by
  obtain ⟨u, hfirst, hsecond⟩ := Run.of_append (show M.Run s ([e] ++ es) t from h)
  generalize hone : [e] = one at hfirst
  cases hfirst with
  | refl => cases hone
  | @snoc v w fs a hrun hstep =>
    obtain ⟨hnil, hlast⟩ := List.append_inj' (show [] ++ [e] = fs ++ [⟨v, a, u⟩] from hone) rfl
    subst hnil
    obtain rfl := List.singleton_inj.mp hlast
    obtain rfl := hrun.eq_of_nil
    exact ⟨rfl, hstep, hsecond⟩

theorem exec_append (s : σ) (l l' : List α) :
    M.exec s (l ++ l') = (M.exec s l).bind fun t => M.exec t l' := by
  induction l generalizing s with
  | nil => rfl
  | cons a rest ih =>
    rw [List.cons_append, exec, exec, Option.bind_assoc]
    exact Option.bind_congr fun t _ => ih t

/-- The events of a computed run. -/
def events (M : Machine σ α) : σ → List α → List (Event σ α)
  | _, [] => []
  | s, a :: rest =>
    match M.step s a with
    | some t => ⟨s, a, t⟩ :: events M t rest
    | none => []

/-- A computed run is a run. -/
theorem Run.of_events {l : List α} : ∀ {s t : σ}, M.exec s l = some t →
    M.Run s (M.events s l) t ∧ (M.events s l).map Event.act = l := by
  induction l with
  | nil =>
    intro s t h
    obtain rfl : s = t := Option.some.inj h
    exact ⟨Run.refl, rfl⟩
  | cons a rest ih =>
    intro s t h
    obtain ⟨u, hu, hrest⟩ := Option.bind_eq_some_iff.mp h
    obtain ⟨hrun, hacts⟩ := ih hrest
    have hevents : M.events s (a :: rest) = ⟨s, a, u⟩ :: M.events u rest := by
      simp only [events, hu]
    rw [hevents, List.map_cons, hacts]
    exact ⟨Run.cons hu hrun, rfl⟩

/-- A computed run is a run, and its events carry the labels given. -/
theorem Run.of_exec {l : List α} {s t : σ} (h : M.exec s l = some t) :
    ∃ es, M.Run s es t ∧ es.map Event.act = l := ⟨_, Run.of_events h⟩

/-- Where a computed run ends. -/
def final (M : Machine σ α) (s : σ) (l : List α) : σ := (M.exec s l).getD s

theorem exec_final {s : σ} {l : List α} (h : (M.exec s l).isSome = true) :
    M.exec s l = some (M.final s l) := by
  obtain ⟨t, ht⟩ := Option.isSome_iff_exists.mp h
  rw [final, ht]
  rfl

/-- A run that can be computed is one, to its last state. -/
theorem Run.of_final {s : σ} {l : List α} (h : (M.exec s l).isSome = true) :
    M.Run s (M.events s l) (M.final s l) := (Run.of_events (exec_final h)).1

theorem step_final {s : σ} {a : α} (h : (M.exec s [a]).isSome = true) :
    M.step s a = some (M.final s [a]) := by
  obtain ⟨t, ht, hnil⟩ := Option.bind_eq_some_iff.mp (exec_final h)
  rw [ht, ← Option.some.inj hnil]

/-- Run the labels in order, as long as the guard allows each of them. -/
def execOk (M : Machine σ α) (G : σ → α → Prop) [∀ s a, Decidable (G s a)] :
    σ → List α → Option σ
  | s, [] => some s
  | s, a :: rest => if G s a then (M.step s a).bind fun t => execOk M G t rest else none

/-- A run computed under a guard is a run the guard allows. -/
theorem Run.of_execOk {G : σ → α → Prop} [∀ s a, Decidable (G s a)] {l : List α} :
    ∀ {s t : σ}, M.execOk G s l = some t → ∃ es, M.Run s es t ∧ ∀ e ∈ es, G e.pre e.act := by
  induction l with
  | nil =>
    intro s t h
    obtain rfl : s = t := Option.some.inj h
    exact ⟨[], Run.refl, fun e he => by cases he⟩
  | cons a rest ih =>
    intro s t h
    by_cases hG : G s a
    · rw [execOk, if_pos hG] at h
      obtain ⟨u, hu, hrest⟩ := Option.bind_eq_some_iff.mp h
      obtain ⟨es, hes, hall⟩ := ih hrest
      refine ⟨⟨s, a, u⟩ :: es, Run.cons hu hes, fun e he => ?_⟩
      rcases List.mem_cons.mp he with rfl | he
      · exact hG
      · exact hall e he
    · rw [execOk, if_neg hG] at h
      cases h

/-- Every event of a run is a step of the machine. -/
theorem Run.step_of_mem {s t : σ} {es : List (Event σ α)} (h : M.Run s es t) :
    ∀ e ∈ es, M.step e.pre e.act = some e.post := by
  induction h with
  | refl => intro e he; cases he
  | snoc _ hstep ih =>
    intro e he
    rcases List.mem_append.mp he with he | he
    · exact ih e he
    · rw [List.mem_singleton.mp he]
      exact hstep

/-- The last state of a run is its first, or the state after one of its steps. -/
theorem Run.eq_or_post {s t : σ} {es : List (Event σ α)} (h : M.Run s es t) :
    t = s ∨ ∃ e ∈ es, e.post = t := by
  cases h with
  | refl => exact Or.inl rfl
  | snoc _ _ => exact Or.inr ⟨_, List.mem_append_right _ (List.mem_singleton_self _), rfl⟩

/-- **The run rule.** A property that every step allowed by the guard `G`
preserves holds at the end of a run whose steps the guard allows, and on both
sides of every one of its steps. -/
theorem Run.invariant {I : σ → Prop} {G : σ → α → Prop}
    (hstep : ∀ s a t, I s → G s a → M.step s a = some t → I t)
    {s t : σ} {es : List (Event σ α)} (h : M.Run s es t) (hs : I s)
    (hG : ∀ e ∈ es, G e.pre e.act) : I t ∧ ∀ e ∈ es, I e.pre ∧ I e.post := by
  induction h with
  | refl => exact ⟨hs, fun e he => by cases he⟩
  | @snoc t u es a _ hsome ih =>
    obtain ⟨ht, hes⟩ := ih fun e he => hG e (List.mem_append_left _ he)
    have hlast : G t a := hG ⟨t, a, u⟩ (List.mem_append_right _ (List.mem_singleton_self _))
    have hu : I u := hstep t a u ht hlast hsome
    refine ⟨hu, fun e he => ?_⟩
    rcases List.mem_append.mp he with he | he
    · exact hes e he
    · rw [List.mem_singleton.mp he]
      exact ⟨ht, hu⟩

/-- The run rule for what depends on the steps so far. -/
theorem Run.history {H : List (Event σ α) → σ → Prop} {G : σ → α → Prop}
    (hstep : ∀ es s a t, H es s → G s a → M.step s a = some t → H (es ++ [⟨s, a, t⟩]) t)
    {s t : σ} {es : List (Event σ α)} (h : M.Run s es t) (hs : H [] s)
    (hG : ∀ e ∈ es, G e.pre e.act) : H es t := by
  induction h with
  | refl => exact hs
  | @snoc t u es a _ hsome ih =>
    have hlast : G t a := hG ⟨t, a, u⟩ (List.mem_append_right _ (List.mem_singleton_self _))
    exact hstep es t a u (ih fun e he => hG e (List.mem_append_left _ he)) hlast hsome

/-- **The exact guard.** Where steps that the guard allows keep an invariant, and a step
that ends well from it was allowed, a run ends well throughout exactly if the guard allows
all of its steps. -/
theorem Run.forall_iff {I Good : σ → Prop} {G : σ → α → Prop}
    (hstep : ∀ s a t, I s → G s a → M.step s a = some t → I t)
    (hgood : ∀ s, I s → Good s)
    (hguard : ∀ s a t, I s → M.step s a = some t → Good t → G s a)
    {s t : σ} {es : List (Event σ α)} (h : M.Run s es t) (hs : I s) :
    (∀ e ∈ es, Good e.post) ↔ ∀ e ∈ es, G e.pre e.act := by
  constructor
  · intro hall
    have hboth := h.history (G := fun _ _ => True)
      (H := fun es t => (∀ e ∈ es, Good e.post) → I t ∧ ∀ e ∈ es, G e.pre e.act) ?_
      (fun _ => ⟨hs, fun e he => by cases he⟩) (fun _ _ => trivial)
    · exact (hboth hall).2
    · intro es s a t ih _ hsome hall
      obtain ⟨hI, hG⟩ := ih fun e he => hall e (List.mem_append_left _ he)
      have hlast := hall ⟨s, a, t⟩ (List.mem_append_right _ (List.mem_singleton_self _))
      have hallowed := hguard s a t hI hsome hlast
      refine ⟨hstep s a t hI hallowed hsome, fun e he => ?_⟩
      rcases List.mem_append.mp he with he | he
      · exact hG e he
      · rw [List.mem_singleton.mp he]
        exact hallowed
  · intro hG e he
    exact hgood e.post ((h.invariant hstep hs hG).2 e he).2

/-- **Progress.** Where the steps that count lower a measure and no other step
raises it, a run has no more of them than the measure was at its start. -/
theorem Run.count_le {I : σ → Prop} {G : σ → α → Prop} {f : σ → ℕ} {p : α → Bool}
    (hstep : ∀ s a t, I s → G s a → M.step s a = some t →
      I t ∧ f t + (if p a then 1 else 0) ≤ f s)
    {s t : σ} {es : List (Event σ α)} (h : M.Run s es t) (hs : I s)
    (hG : ∀ e ∈ es, G e.pre e.act) : es.countP (fun e => p e.act) + f t ≤ f s := by
  induction h with
  | refl => simp only [List.countP_nil, Nat.zero_add, Nat.le_refl]
  | @snoc t u es a hrun hsome ih =>
    have hbefore := ih fun e he => hG e (List.mem_append_left _ he)
    have ht := (hrun.invariant (fun s a t hI hg hst => (hstep s a t hI hg hst).1) hs
      fun e he => hG e (List.mem_append_left _ he)).1
    have hlast : G t a := hG ⟨t, a, u⟩ (List.mem_append_right _ (List.mem_singleton_self _))
    have hdrop := (hstep t a u ht hlast hsome).2
    rw [List.countP_append, List.countP_singleton]
    dsimp only
    omega

/-- The run rule without a guard, over every reachable state. -/
theorem Reachable.invariant {I : σ → Prop} (hinit : ∀ s, M.init s → I s)
    (hstep : ∀ s a t, I s → M.step s a = some t → I t) {t : σ} (h : M.Reachable t) : I t := by
  obtain ⟨s, es, hs, hrun⟩ := h
  exact (hrun.invariant (G := fun _ _ => True) (fun s a t hI _ => hstep s a t hI) (hinit s hs)
    fun _ _ => trivial).1

/-- A reachable state steps to a reachable state. -/
theorem Reachable.step {s t : σ} {a : α} (h : M.Reachable s) (hs : M.step s a = some t) :
    M.Reachable t := by
  obtain ⟨s₀, es, h₀, hrun⟩ := h
  exact ⟨s₀, _, h₀, Run.snoc hrun hs⟩

/-- A property of each event and what came before it, event by event. -/
theorem forall_split_iff {es : List (Event σ α)} {P : List (Event σ α) → Event σ α → Prop} :
    (∀ before e after, es = before ++ e :: after → P before e) ↔
      ∀ (i : ℕ) (hi : i < es.length), P (es.take i) es[i] := by
  constructor
  · intro h i hi
    refine h (es.take i) es[i] (es.drop (i + 1)) ?_
    rw [List.getElem_cons_drop, List.take_append_drop]
  · rintro h before e after rfl
    have hi : before.length < (before ++ e :: after).length := by simp
    have hat := h before.length hi
    rwa [List.take_left, List.getElem_append_right (Nat.le_refl _),
      show (e :: after)[before.length - before.length] = e by simp only [Nat.sub_self,
        List.getElem_cons_zero]] at hat

/-! ## What a run puts out -/

/-- What the steps of a run put out, in order; `f` says what one step does. -/
def outputs {β : Type w} (f : σ → α → List β) (es : List (Event σ α)) : List β :=
  es.flatMap fun e => f e.pre e.act

section Outputs

variable {β : Type w} (f : σ → α → List β)

@[simp] theorem outputs_nil : outputs f [] = [] := rfl

@[simp] theorem outputs_snoc (es : List (Event σ α)) (e : Event σ α) :
    outputs f (es ++ [e]) = outputs f es ++ f e.pre e.act := by
  rw [outputs, List.flatMap_append, List.flatMap_singleton]
  rfl

theorem mem_outputs {f : σ → α → List β} {es : List (Event σ α)} {b : β} :
    b ∈ outputs f es ↔ ∃ e ∈ es, b ∈ f e.pre e.act := List.mem_flatMap

end Outputs

end Machine
