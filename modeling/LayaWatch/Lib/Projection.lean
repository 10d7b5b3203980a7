import LayaWatch.Lib.Machine

/-!
# A part of a machine

A machine may have another one as a part, whose state it keeps and whose steps are among its
own. Its runs are then runs of the part, with the steps that leave the part alone taken out
(`Machine.Run.part`).
-/

universe u v w x

namespace Machine

variable {σ : Type u} {α : Type v} {τ : Type w} {β : Type x}

/-- The events of the part: `f` is its state, `g` says which of its steps a step is. -/
def partEvents (f : σ → τ) (g : σ → α → Option β) (es : List (Event σ α)) : List (Event τ β) :=
  es.filterMap fun e => (g e.pre e.act).map fun b => ⟨f e.pre, b, f e.post⟩

variable {M : Machine σ α} {N : Machine τ β} {f : σ → τ} {g : σ → α → Option β}

@[simp] theorem partEvents_nil : partEvents f g [] = [] := rfl

theorem partEvents_snoc (es : List (Event σ α)) (e : Event σ α) :
    partEvents f g (es ++ [e]) = partEvents f g es ++
      ((g e.pre e.act).map fun b => (⟨f e.pre, b, f e.post⟩ : Event τ β)).toList := by
  rw [partEvents, List.filterMap_append, List.filterMap_cons, List.filterMap_nil]
  cases g e.pre e.act <;> rfl

/-- **The run of a part.** -/
theorem Run.part (hstep : ∀ s a t, M.step s a = some t →
      match g s a with
      | some b => N.step (f s) b = some (f t)
      | none => f t = f s)
    {s t : σ} {es : List (Event σ α)} (h : M.Run s es t) :
    N.Run (f s) (partEvents f g es) (f t) := by
  induction h with
  | refl => exact Run.refl
  | @snoc t u es a _ hsome ih =>
    have hpart := hstep t a u hsome
    rw [partEvents_snoc]
    dsimp only
    cases hg : g t a with
    | none =>
      rw [hg] at hpart
      rw [Option.map_none, Option.toList_none, List.append_nil, hpart]
      exact ih
    | some b =>
      rw [hg] at hpart
      exact ih.snoc hpart

end Machine
