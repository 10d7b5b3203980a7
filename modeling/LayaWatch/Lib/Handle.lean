import LayaWatch.Lib.Prog

/-!
# Connections that are closed behind their use

A database connection: what is committed, and what the transaction that is open on it
has made of that. Statements see the work of the transaction; `close` throws away what
was not committed. `owned` is the shape in which programs use a connection: they close
it however they end.
-/

universe u v w

/-- A connection. -/
structure Handle (σ : Type u) where
  /-- what is committed -/
  committed : σ
  /-- what the open transaction has made of it -/
  work : Option σ := none

namespace Handle

variable {σ : Type u} {ε : Type v} {α : Type w}

/-- What statements see. -/
def visible (h : Handle σ) : σ := h.work.getD h.committed

/-- The connection with this committed, and no transaction open. -/
def clean (s : σ) : Handle σ := ⟨s, none⟩

@[simp] theorem committed_clean (s : σ) : (clean s).committed = s := rfl

@[simp] theorem visible_clean (s : σ) : (clean s).visible = s := rfl

/-- A query. -/
def query (f : σ → α) : Prog (Handle σ) ε α := Prog.get fun h => f h.visible

/-- A data change; it opens a transaction if none is open. -/
def change (f : σ → σ) : Prog (Handle σ) ε PUnit :=
  Prog.modify fun h => ⟨h.committed, some (f h.visible)⟩

/-- `close`: the open transaction is rolled back. -/
def close : Prog (Handle σ) ε PUnit := Prog.modify fun h => clean h.committed

/-- `try: x` with `finally: close`. -/
def owned (x : Prog (Handle σ) ε α) : Prog (Handle σ) ε α := Prog.ensure x fun _ => close

/-- A program on the database, each of whose changes is committed before it ends. -/
def committing (x : Prog σ ε α) : Prog (Handle σ) ε α := Prog.zoom visible (fun s _ => clean s) x

/-- What is used and closed has the outcome that it had before it was closed. -/
theorem owned_run (x : Prog (Handle σ) ε α) (h : Handle σ) :
    owned x h = ((x h).1, clean (x h).2.committed) := by
  unfold owned Prog.ensure
  rcases x h with ⟨e | a, t⟩
  · rfl
  · rfl

theorem committing_run (x : Prog σ ε α) (s : σ) :
    committing x (clean s) = ((x s).1, clean (x s).2) := rfl

/-! ## What is not committed -/

theorem query_keeps (f : σ → α) : (query f : Prog (Handle σ) ε α).Keeps committed := .get _

theorem change_keeps (f : σ → σ) : (change f : Prog (Handle σ) ε PUnit).Keeps committed :=
  .modify fun _ => rfl

/-- **What is changed and never committed is lost** when its owner closes the
connection. -/
theorem owned_lost {x : Prog (Handle σ) ε α} (hx : x.Keeps committed) (s : σ) :
    owned x (clean s) = ((x (clean s)).1, clean s) := by
  rw [owned_run, hx (clean s)]
  rfl

end Handle
