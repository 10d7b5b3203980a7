import LayaWatch.Lib.Machine

/-!
# Connections to one write-ahead-log database

Any number of connections run statements against one database. A statement
outside a write transaction reads the committed state. The first data change of
a connection takes the single write lock, works on a copy of the committed
state as it is then, and holds the lock to its commit; until the commit no
other connection sees the change, and a data change of another connection
waits. Beside the connections there is an environment with a state of its own,
whose steps change the database atomically while nobody holds the lock.

What a connection does next is given by its control point (`Client.code`), so
loops and data that a program carries between statements are the client's own.

`Outline` is a proof outline for such a system: what holds of the committed
database (`I`), what a connection outside a transaction knows (`J`), and what
holds of the working copy of the one inside (`T`). `Outline.sound` is the
soundness of the outline over every interleaving, under a guard on the
statements that run; `Outline.serial` reads off it that the commits are a serial
history.
-/

universe u v w x

namespace Wal

/-- One statement, with the control point it continues at. -/
inductive Stmt (σ : Type u) (π : Type v) where
  /-- a query: continue with the state it reads -/
  | select (k : σ → π)
  /-- an insert, update or delete: the change, and how to continue with the
  state before it (which says how many rows it touches) -/
  | dml (change : σ → σ) (k : σ → π)
  /-- make the open transaction durable; without one, nothing -/
  | commit (k : π)
  /-- throw the open transaction away; without one, nothing -/
  | rollback (k : π)

namespace Stmt

variable {σ : Type u} {π : Type v} {π' : Type w}

/-- The same statement at other control points. -/
def map (f : π → π') : Stmt σ π → Stmt σ π'
  | select k => select fun d => f (k d)
  | dml change k => dml change fun d => f (k d)
  | commit k => commit (f k)
  | rollback k => rollback (f k)

variable {f : π → π'} {st : Option (Stmt σ π)}

theorem map_eq_select {k' : σ → π'} (h : st.map (map f) = some (select k')) :
    ∃ k, st = some (select k) ∧ k' = fun d => f (k d) := by
  obtain ⟨st, rfl, hmap⟩ := Option.map_eq_some_iff.mp h
  cases st with
  | select k => exact ⟨k, rfl, (select.inj hmap).symm⟩
  | _ => cases hmap

theorem map_eq_dml {u : σ → σ} {k' : σ → π'} (h : st.map (map f) = some (dml u k')) :
    ∃ k, st = some (dml u k) ∧ k' = fun d => f (k d) := by
  obtain ⟨st, rfl, hmap⟩ := Option.map_eq_some_iff.mp h
  cases st with
  | dml u' k =>
    obtain ⟨rfl, hk⟩ := dml.inj hmap
    exact ⟨k, rfl, hk.symm⟩
  | _ => cases hmap

theorem map_eq_commit {k' : π'} (h : st.map (map f) = some (commit k')) :
    ∃ k, st = some (commit k) ∧ k' = f k := by
  obtain ⟨st, rfl, hmap⟩ := Option.map_eq_some_iff.mp h
  cases st with
  | commit k => exact ⟨k, rfl, (commit.inj hmap).symm⟩
  | _ => cases hmap

theorem map_eq_rollback {k' : π'} (h : st.map (map f) = some (rollback k')) :
    ∃ k, st = some (rollback k) ∧ k' = f k := by
  obtain ⟨st, rfl, hmap⟩ := Option.map_eq_some_iff.mp h
  cases st with
  | rollback k => exact ⟨k, rfl, (rollback.inj hmap).symm⟩
  | _ => cases hmap

end Stmt

/-- The programs of a system: what each control point does next (`none` at the
end), where a new connection may start, and the steps of the environment. -/
structure Client (σ : Type u) (τ : Type v) (π : Type w) (ε : Type x) where
  /-- the next statement -/
  code : π → Option (Stmt σ π)
  /-- the control points a connection may start at -/
  start : π → Bool
  /-- an atomic step of the environment -/
  ext : ε → σ → τ → Option (σ × τ)

/-- The database, the environment and the connections. -/
structure World (σ : Type u) (τ : Type v) (π : Type w) where
  /-- the committed database -/
  disk : σ
  /-- the state of the environment -/
  env : τ
  /-- the holder of the write lock and its working copy -/
  txn : Option (ℕ × σ)
  /-- the control points of the connections; `none` once closed -/
  conns : List (Option π)

/-- Who moves. -/
inductive Act (π : Type w) (ε : Type x) where
  /-- connection `i` runs its next statement -/
  | stmt (i : ℕ)
  /-- connection `i` is closed, by an error or at its end: an open transaction
  is rolled back -/
  | close (i : ℕ)
  /-- a new connection -/
  | connect (p : π)
  /-- the environment -/
  | ext (e : ε)

variable {σ : Type u} {τ : Type v} {π : Type w} {ε : Type x}

/-! ## A program by itself -/

/-- A program from `p` to its end with no other connection about: `d` is committed,
and `v` is what it sees. The number bounds its statements; the end is the control
point and the committed state. -/
def alone (code : π → Option (Stmt σ π)) : ℕ → π → σ → σ → Option (π × σ)
  | 0, _, _, _ => none
  | n + 1, p, d, v =>
    match code p with
    | none => some (p, d)
    | some (.select k) => alone code n (k v) d v
    | some (.dml change k) => alone code n (k v) d (change v)
    | some (.commit k) => alone code n k v v
    | some (.rollback k) => alone code n k d d

section Alone

variable {code : π → Option (Stmt σ π)} {n : ℕ} {p : π} {d v : σ}

theorem alone_done (h : code p = none) : alone code (n + 1) p d v = some (p, d) := by
  simp only [alone, h]

theorem alone_select {k : σ → π} (h : code p = some (.select k)) :
    alone code (n + 1) p d v = alone code n (k v) d v := by
  simp only [alone, h]

theorem alone_dml {change : σ → σ} {k : σ → π} (h : code p = some (.dml change k)) :
    alone code (n + 1) p d v = alone code n (k v) d (change v) := by
  simp only [alone, h]

theorem alone_commit {k : π} (h : code p = some (.commit k)) :
    alone code (n + 1) p d v = alone code n k v v := by
  simp only [alone, h]

theorem alone_rollback {k : π} (h : code p = some (.rollback k)) :
    alone code (n + 1) p d v = alone code n k d d := by
  simp only [alone, h]

/-- A program that ends within a bound ends the same within a larger one. -/
theorem alone_mono {r : π × σ} : ∀ {n m : ℕ} {p : π} {d v : σ}, alone code n p d v = some r →
    n ≤ m → alone code m p d v = some r := by
  intro n
  induction n with
  | zero =>
    intro m p d v h
    cases h
  | succ n ih =>
    intro m p d v h hle
    obtain ⟨m, rfl⟩ : ∃ k, m = k + 1 := ⟨m - 1, by omega⟩
    have hle := Nat.le_of_succ_le_succ hle
    rcases hcode : code p with _ | k | ⟨change, k⟩ | k | k
    · rw [alone_done hcode] at h ⊢
      exact h
    · rw [alone_select hcode] at h ⊢
      exact ih h hle
    · rw [alone_dml hcode] at h ⊢
      exact ih h hle
    · rw [alone_commit hcode] at h ⊢
      exact ih h hle
    · rw [alone_rollback hcode] at h ⊢
      exact ih h hle

/-- What holds behind a statement with no other connection about, of the control point,
what is committed and what it sees. -/
def Stmt.Keeps (I : π → σ → σ → Prop) (d v : σ) : Stmt σ π → Prop
  | .select k => I (k v) d v
  | .dml change k => I (k v) d (change v)
  | .commit k => I k v v
  | .rollback k => I k d d

/-- **The rule of a program by itself.** What every statement keeps holds at its end. -/
theorem alone_keeps {I : π → σ → σ → Prop}
    (hstep : ∀ p st d v, I p d v → code p = some st → st.Keeps I d v) :
    ∀ {n : ℕ} {p q : π} {d v d' : σ}, I p d v → alone code n p d v = some (q, d') →
      ∃ v', I q d' v' := by
  intro n
  induction n with
  | zero =>
    intro p q d v d' _ h
    cases h
  | succ n ih =>
    intro p q d v d' hI h
    rcases hcode : code p with _ | st
    · rw [alone_done hcode] at h
      obtain ⟨rfl, rfl⟩ := Prod.mk.injEq .. ▸ Option.some.inj h
      exact ⟨v, hI⟩
    have hkeeps := hstep p st d v hI hcode
    rcases st with k | ⟨change, k⟩ | k | k
    · exact ih hkeeps (alone_select hcode ▸ h)
    · exact ih hkeeps (alone_dml hcode ▸ h)
    · exact ih hkeeps (alone_commit hcode ▸ h)
    · exact ih hkeeps (alone_rollback hcode ▸ h)

/-- By itself the program gets from one control point to another, with what is
committed and what it sees. -/
inductive Leads (code : π → Option (Stmt σ π)) : π → σ → σ → π → σ → σ → Prop where
  /-- it is there -/
  | refl {p : π} {d v : σ} : Leads code p d v p d v
  /-- a query first -/
  | select {p q : π} {d v d' v' : σ} {k : σ → π} : code p = some (.select k) →
      Leads code (k v) d v q d' v' → Leads code p d v q d' v'
  /-- a change first -/
  | dml {p q : π} {d v d' v' : σ} {change : σ → σ} {k : σ → π} :
      code p = some (.dml change k) → Leads code (k v) d (change v) q d' v' →
        Leads code p d v q d' v'
  /-- a commit first -/
  | commit {p q k : π} {d v d' v' : σ} : code p = some (.commit k) →
      Leads code k v v q d' v' → Leads code p d v q d' v'
  /-- a rollback first -/
  | rollback {p q k : π} {d v d' v' : σ} : code p = some (.rollback k) →
      Leads code k d d q d' v' → Leads code p d v q d' v'

theorem Leads.trans {p q r : π} {d v d' v' d'' v'' : σ} (h : Leads code p d v q d' v')
    (h' : Leads code q d' v' r d'' v'') : Leads code p d v r d'' v'' := by
  induction h with
  | refl => exact h'
  | select hcode _ ih => exact .select hcode (ih h')
  | dml hcode _ ih => exact .dml hcode (ih h')
  | commit hcode _ ih => exact .commit hcode (ih h')
  | rollback hcode _ ih => exact .rollback hcode (ih h')

/-- A program that gets to an end ends there. -/
theorem Leads.ends {p q : π} {d v d' v' : σ} (h : Leads code p d v q d' v')
    (hend : code q = none) : ∃ n, alone code n p d v = some (q, d') := by
  induction h with
  | refl => exact ⟨1, alone_done hend⟩
  | select hcode _ ih =>
    obtain ⟨n, hn⟩ := ih hend
    exact ⟨n + 1, (alone_select hcode).trans hn⟩
  | dml hcode _ ih =>
    obtain ⟨n, hn⟩ := ih hend
    exact ⟨n + 1, (alone_dml hcode).trans hn⟩
  | commit hcode _ ih =>
    obtain ⟨n, hn⟩ := ih hend
    exact ⟨n + 1, (alone_commit hcode).trans hn⟩
  | rollback hcode _ ih =>
    obtain ⟨n, hn⟩ := ih hend
    exact ⟨n + 1, (alone_rollback hcode).trans hn⟩

end Alone

namespace World

/-- What connection `i` reads: its working copy, or the committed state. -/
def view (s : World σ τ π) (i : ℕ) : σ :=
  match s.txn with
  | some (j, w) => if j = i then w else s.disk
  | none => s.disk

/-- Move connection `i` to control point `p`. -/
def goto (s : World σ τ π) (i : ℕ) (p : π) : World σ τ π :=
  { s with conns := s.conns.set i (some p) }

/-- One statement of connection `i`; `none` when it has to wait for the lock. -/
def run (s : World σ τ π) (i : ℕ) : Stmt σ π → Option (World σ τ π)
  | .select k => some (s.goto i (k (s.view i)))
  | .dml change k =>
    match s.txn with
    | none => some { s.goto i (k s.disk) with txn := some (i, change s.disk) }
    | some (j, w) =>
      if j = i then some { s.goto i (k w) with txn := some (i, change w) } else none
  | .commit k =>
    match s.txn with
    | none => some (s.goto i k)
    | some (j, w) =>
      if j = i then some { s.goto i k with disk := w, txn := none } else some (s.goto i k)
  | .rollback k =>
    match s.txn with
    | none => some (s.goto i k)
    | some (j, _) =>
      if j = i then some { s.goto i k with txn := none } else some (s.goto i k)

section Own

variable {s : World σ τ π} {i : ℕ} {w : σ} {k : π}

theorem view_own (htxn : s.txn = some (i, w)) : s.view i = w := by
  rw [view, htxn]
  exact if_pos rfl

theorem view_outside (hout : ∀ w, s.txn ≠ some (i, w)) : s.view i = s.disk := by
  unfold view
  split
  · next j w htxn =>
    refine if_neg ?_
    rintro rfl
    exact hout w htxn
  · rfl

theorem run_commit_own (htxn : s.txn = some (i, w)) :
    s.run i (.commit k) = some { s.goto i k with disk := w, txn := none } := by
  rw [run, htxn]
  exact if_pos rfl

theorem run_commit_outside (hout : ∀ w, s.txn ≠ some (i, w)) :
    s.run i (.commit k) = some (s.goto i k) := by
  rw [run]
  split
  · rfl
  · next j w htxn =>
    refine if_neg ?_
    rintro rfl
    exact hout w htxn

theorem run_rollback_own (htxn : s.txn = some (i, w)) :
    s.run i (.rollback k) = some { s.goto i k with txn := none } := by
  rw [run, htxn]
  exact if_pos rfl

theorem run_rollback_outside (hout : ∀ w, s.txn ≠ some (i, w)) :
    s.run i (.rollback k) = some (s.goto i k) := by
  rw [run]
  split
  · rfl
  · next j w htxn =>
    refine if_neg ?_
    rintro rfl
    exact hout w htxn

end Own

/-- Close connection `i`. -/
def close (s : World σ τ π) (i : ℕ) : World σ τ π :=
  { s with
    conns := s.conns.set i none
    txn := match s.txn with
      | some (j, w) => if j = i then none else some (j, w)
      | none => none }

end World

namespace Client

variable (C : Client σ τ π ε)

/-- The control point of connection `i`, if it is open. -/
def pcOf (s : World σ τ π) (i : ℕ) : Option π := (s.conns[i]?).join

/-- One step of the system. -/
def step (s : World σ τ π) : Act π ε → Option (World σ τ π)
  | .stmt i => (pcOf s i).bind fun p => (C.code p).bind (s.run i)
  | .close i => some (s.close i)
  | .connect p => if C.start p then some { s with conns := s.conns ++ [some p] } else none
  | .ext e =>
    match s.txn with
    | some _ => none
    | none => (C.ext e s.disk s.env).map fun r => { s with disk := r.1, env := r.2 }

/-- The system as a machine, from the given initial worlds. -/
def machine (init : World σ τ π → Prop) : Machine (World σ τ π) (Act π ε) := ⟨init, C.step⟩

variable {C}

theorem lt_of_pcOf {s : World σ τ π} {i : ℕ} {p : π} (h : pcOf s i = some p) :
    i < s.conns.length := by
  rcases Nat.lt_or_ge i s.conns.length with hlt | hge
  · exact hlt
  · rw [pcOf, List.getElem?_eq_none hge] at h
    cases h

theorem pcOf_goto {s : World σ τ π} {i : ℕ} {p q : π} (h : pcOf s i = some p) (j : ℕ) :
    pcOf (s.goto i q) j = if j = i then some q else pcOf s j := by
  have hlt := lt_of_pcOf h
  by_cases hj : j = i
  · subst hj
    rw [if_pos rfl, pcOf, World.goto, List.getElem?_set_self hlt]
    rfl
  · rw [if_neg hj, pcOf, World.goto, List.getElem?_set_ne (Ne.symm hj), pcOf]

theorem pcOf_close {s : World σ τ π} {i j : ℕ} {p : π} (h : pcOf (s.close i) j = some p) :
    j ≠ i ∧ pcOf s j = some p := by
  have hne : j ≠ i := by
    rintro rfl
    rw [pcOf, World.close, List.getElem?_set] at h
    by_cases hlt : j < s.conns.length <;> simp [hlt] at h
  refine ⟨hne, ?_⟩
  rw [pcOf, World.close, List.getElem?_set_ne (Ne.symm hne)] at h
  exact h

end Client

/-! ## Proof outlines -/

/-- A proof outline for a client under the guard `ok`, which looks at the state
a statement reads, the environment and the control point. `I` holds of the
committed database, `J` is what a connection outside a transaction knows, `T`
what holds of the working copy of the one inside; `commitTxn` and `ext` are the
places where the database changes, so there `J` must be stable. -/
structure Outline (C : Client σ τ π ε) (ok : σ → τ → π → Prop) where
  /-- the invariant of the committed database -/
  I : σ → τ → Prop
  /-- what a connection outside a transaction knows -/
  J : σ → τ → π → Prop
  /-- what holds inside a transaction: committed state, environment, working copy -/
  T : σ → τ → σ → π → Prop
  /-- a new connection -/
  start : ∀ {d e p}, I d e → C.start p = true → J d e p
  /-- a query outside a transaction -/
  select : ∀ {d e p k}, I d e → J d e p → C.code p = some (.select k) → ok d e p → J d e (k d)
  /-- a query inside a transaction -/
  selectTxn : ∀ {d e w p k}, I d e → T d e w p → C.code p = some (.select k) → ok w e p →
    T d e w (k w)
  /-- the first change of a transaction -/
  dml : ∀ {d e p u k}, I d e → J d e p → C.code p = some (.dml u k) → ok d e p →
    T d e (u d) (k d)
  /-- a later change of a transaction -/
  dmlTxn : ∀ {d e w p u k}, I d e → T d e w p → C.code p = some (.dml u k) → ok w e p →
    T d e (u w) (k w)
  /-- a commit with nothing to commit -/
  commit : ∀ {d e p k}, I d e → J d e p → C.code p = some (.commit k) → J d e k
  /-- a commit -/
  commitTxn : ∀ {d e w p k}, I d e → T d e w p → C.code p = some (.commit k) →
    I w e ∧ J w e k ∧ ∀ q, J d e q → J w e q
  /-- a rollback with nothing to throw away -/
  rollback : ∀ {d e p k}, I d e → J d e p → C.code p = some (.rollback k) → J d e k
  /-- a rollback -/
  rollbackTxn : ∀ {d e w p k}, I d e → T d e w p → C.code p = some (.rollback k) → J d e k
  /-- a step of the environment -/
  ext : ∀ {x d e d' e'}, I d e → C.ext x d e = some (d', e') →
    I d' e' ∧ ∀ q, J d e q → J d' e' q

/-- The guard, at a step of the system. -/
def Allowed (ok : σ → τ → π → Prop) (s : World σ τ π) : Act π ε → Prop
  | .stmt i => ∀ p, Client.pcOf s i = some p → ok (s.view i) s.env p
  | _ => True

instance {ok : σ → τ → π → Prop} [∀ d e p, Decidable (ok d e p)] (s : World σ τ π)
    (a : Act π ε) : Decidable (Allowed ok s a) :=
  match a with
  | .stmt i =>
    match h : Client.pcOf s i with
    | none => isTrue fun p hp => by rw [h] at hp; cases hp
    | some p => decidable_of_iff (ok (s.view i) s.env p)
        ⟨fun hok q hq => Option.some.inj (h.symm.trans hq) ▸ hok, fun hall => hall p h⟩
  | .close _ => isTrue trivial
  | .connect _ => isTrue trivial
  | .ext _ => isTrue trivial

namespace Outline

variable {C : Client σ τ π ε} {ok : σ → τ → π → Prop} (O : Outline C ok)

/-- What the outline says of connection `i` at control point `p`. -/
def At (s : World σ τ π) (i : ℕ) (p : π) : Prop :=
  match s.txn with
  | some (j, w) => if j = i then O.T s.disk s.env w p else O.J s.disk s.env p
  | none => O.J s.disk s.env p

/-- What the outline says of a world: the invariant, every connection's
assertion, and that the holder of the lock is a connection that exists. -/
structure Holds (s : World σ τ π) : Prop where
  /-- the invariant of the committed database -/
  inv : O.I s.disk s.env
  /-- the assertion of every open connection -/
  conn : ∀ i p, Client.pcOf s i = some p → O.At s i p
  /-- the holder of the lock exists -/
  holder : ∀ j w, s.txn = some (j, w) → j < s.conns.length

variable {O}


/-- A statement moves its own connection; what the others know has to carry
over. -/
theorem holds_move {s t : World σ τ π} {i : ℕ} {p q : π} (h : O.Holds s)
    (hp : Client.pcOf s i = some p) (hconns : t.conns = (s.goto i q).conns)
    (hI : O.I t.disk t.env) (hq : O.At t i q)
    (hother : ∀ j r, j ≠ i → O.At s j r → O.At t j r)
    (hlock : ∀ j w, t.txn = some (j, w) → j = i ∨ ∃ w', s.txn = some (j, w')) : O.Holds t := by
  refine ⟨hI, fun j r hr => ?_, fun j w hw => ?_⟩
  · have hr' : Client.pcOf (s.goto i q) j = some r := by
      rw [Client.pcOf, ← hconns]
      exact hr
    rw [Client.pcOf_goto hp] at hr'
    by_cases hj : j = i
    · rw [if_pos hj] at hr'
      obtain rfl := Option.some.inj hr'
      rw [hj]
      exact hq
    · rw [if_neg hj] at hr'
      exact hother j r hj (h.conn j r hr')
  · rw [hconns, World.goto, List.length_set]
    rcases hlock j w hw with rfl | ⟨w', hw'⟩
    · exact Client.lt_of_pcOf hp
    · exact h.holder j w' hw'

/-- A statement that leaves disk and lock alone. -/
theorem holds_goto {s : World σ τ π} {i : ℕ} {p q : π} (h : O.Holds s)
    (hp : Client.pcOf s i = some p) (hq : O.At s i q) : O.Holds (s.goto i q) :=
  holds_move h hp rfl h.inv hq (fun _ _ _ hr => hr) fun _ w hw => Or.inr ⟨w, hw⟩

/-- Inside its transaction, a connection knows what holds of the working copy. -/
theorem at_own {s : World σ τ π} {i : ℕ} {p : π} {w : σ} (htxn : s.txn = some (i, w)) :
    O.At s i p ↔ O.T s.disk s.env w p := by
  rw [At, htxn]
  exact iff_of_eq (if_pos rfl)

/-- Outside, it knows what holds of the committed state. -/
theorem at_outside {s : World σ τ π} {i : ℕ} {p : π} (hout : ∀ w, s.txn ≠ some (i, w)) :
    O.At s i p ↔ O.J s.disk s.env p := by
  unfold At
  split
  · next j w htxn =>
    refine iff_of_eq (if_neg ?_)
    rintro rfl
    exact hout w htxn
  · rfl

/-- The lock has one holder. -/
theorem outside_of_own {s : World σ τ π} {i l : ℕ} {w : σ} (htxn : s.txn = some (i, w))
    (hl : l ≠ i) (w' : σ) : s.txn ≠ some (l, w') := by
  rw [htxn]
  intro hsame
  exact hl (Prod.mk.inj (Option.some.inj hsame)).1.symm

/-- A transaction that ends leaves a committed state, and nobody holds the lock. -/
theorem holds_ended {s : World σ τ π} {i : ℕ} {p k : π} {w d : σ} (h : O.Holds s)
    (hp : Client.pcOf s i = some p) (htxn : s.txn = some (i, w)) (hI : O.I d s.env)
    (hk : O.J d s.env k) (hstable : ∀ q, O.J s.disk s.env q → O.J d s.env q) :
    O.Holds { s.goto i k with disk := d, txn := none } := by
  refine holds_move h hp rfl hI hk (fun l r hl hr => ?_) fun l w hw => by cases hw
  exact hstable r ((at_outside (outside_of_own htxn hl)).mp hr)

theorem step_select {s t : World σ τ π} {i : ℕ} {p : π} {k : σ → π} (h : O.Holds s)
    (hp : Client.pcOf s i = some p) (hcode : C.code p = some (.select k))
    (hok : ok (s.view i) s.env p) (ht : s.run i (.select k) = some t) : O.Holds t := by
  obtain rfl := Option.some.inj ht
  refine holds_goto h hp ?_
  have hat := h.conn i p hp
  by_cases hown : ∃ w, s.txn = some (i, w)
  · obtain ⟨w, htxn⟩ := hown
    rw [World.view_own htxn] at hok ⊢
    rw [at_own htxn] at hat ⊢
    exact O.selectTxn h.inv hat hcode hok
  · have hout := not_exists.mp hown
    rw [World.view_outside hout] at hok ⊢
    rw [at_outside hout] at hat ⊢
    exact O.select h.inv hat hcode hok

/-- A transaction that goes on has the lock, which no other connection held. -/
theorem holds_changed {s : World σ τ π} {i : ℕ} {p q : π} {w : σ} (h : O.Holds s)
    (hp : Client.pcOf s i = some p) (hfree : ∀ l, l ≠ i → ∀ w, s.txn ≠ some (l, w))
    (hT : O.T s.disk s.env w q) : O.Holds { s.goto i q with txn := some (i, w) } := by
  refine holds_move h hp rfl h.inv ((at_own rfl).mpr hT) (fun l r hl hr => ?_)
    fun l w hw => Or.inl ?_
  · exact (at_outside (outside_of_own rfl hl)).mpr ((at_outside (hfree l hl)).mp hr)
  · exact (Prod.mk.inj (Option.some.inj hw)).1.symm

theorem step_dml {s t : World σ τ π} {i : ℕ} {p : π} {u : σ → σ} {k : σ → π} (h : O.Holds s)
    (hp : Client.pcOf s i = some p) (hcode : C.code p = some (.dml u k))
    (hok : ok (s.view i) s.env p) (ht : s.run i (.dml u k) = some t) : O.Holds t := by
  have hat := h.conn i p hp
  rw [World.run] at ht
  rcases htxn : s.txn with _ | ⟨j, w⟩
  · -- the lock is free: the transaction starts from the committed state
    have hnobody : ∀ l w, s.txn ≠ some (l, w) := by
      intro l w hsome
      rw [htxn] at hsome
      cases hsome
    rw [World.view_outside (hnobody i)] at hok
    rw [at_outside (hnobody i)] at hat
    rw [htxn] at ht
    obtain rfl := Option.some.inj ht
    exact holds_changed h hp (fun l _ => hnobody l) (O.dml h.inv hat hcode hok)
  · rw [htxn] at ht
    by_cases hj : j = i
    · subst hj
      rw [World.view_own htxn] at hok
      rw [at_own htxn] at hat
      obtain rfl := Option.some.inj ((if_pos rfl).symm.trans ht)
      exact holds_changed h hp (fun l hl => outside_of_own htxn hl) (O.dmlTxn h.inv hat hcode hok)
    · -- another connection has the lock
      cases (if_neg hj).symm.trans ht

theorem step_commit {s t : World σ τ π} {i : ℕ} {p : π} {k : π} (h : O.Holds s)
    (hp : Client.pcOf s i = some p) (hcode : C.code p = some (.commit k))
    (ht : s.run i (.commit k) = some t) : O.Holds t := by
  have hat := h.conn i p hp
  by_cases hown : ∃ w, s.txn = some (i, w)
  · obtain ⟨w, htxn⟩ := hown
    rw [World.run_commit_own htxn] at ht
    rw [at_own htxn] at hat
    obtain rfl := Option.some.inj ht
    obtain ⟨hI, hk, hstable⟩ := O.commitTxn h.inv hat hcode
    exact holds_ended h hp htxn hI hk hstable
  · have hout := not_exists.mp hown
    rw [World.run_commit_outside hout] at ht
    rw [at_outside hout] at hat
    obtain rfl := Option.some.inj ht
    exact holds_goto h hp ((at_outside hout).mpr (O.commit h.inv hat hcode))

theorem step_rollback {s t : World σ τ π} {i : ℕ} {p : π} {k : π} (h : O.Holds s)
    (hp : Client.pcOf s i = some p) (hcode : C.code p = some (.rollback k))
    (ht : s.run i (.rollback k) = some t) : O.Holds t := by
  have hat := h.conn i p hp
  by_cases hown : ∃ w, s.txn = some (i, w)
  · obtain ⟨w, htxn⟩ := hown
    rw [World.run_rollback_own htxn] at ht
    rw [at_own htxn] at hat
    obtain rfl := Option.some.inj ht
    exact holds_ended h hp htxn h.inv (O.rollbackTxn h.inv hat hcode) fun _ hq => hq
  · have hout := not_exists.mp hown
    rw [World.run_rollback_outside hout] at ht
    rw [at_outside hout] at hat
    obtain rfl := Option.some.inj ht
    exact holds_goto h hp ((at_outside hout).mpr (O.rollback h.inv hat hcode))

theorem step_close {s : World σ τ π} {i : ℕ} (h : O.Holds s) : O.Holds (s.close i) := by
  refine ⟨h.inv, fun l r hr => ?_, fun j w hw => ?_⟩
  · obtain ⟨hl, hr⟩ := Client.pcOf_close hr
    have hr' := h.conn l r hr
    rcases htxn : s.txn with _ | ⟨j, w⟩
    · simp only [At, htxn] at hr'
      simp only [At, World.close, htxn]
      exact hr'
    · by_cases hj : j = i
      · have hjl : j ≠ l := fun hh => hl (hh.symm.trans hj)
        simp only [At, htxn, if_neg hjl] at hr'
        simp only [At, World.close, htxn, if_pos hj]
        exact hr'
      · simp only [At, htxn] at hr'
        simp only [At, World.close, htxn, if_neg hj]
        exact hr'
  · have hlen : (s.close i).conns.length = s.conns.length := List.length_set
    rw [hlen]
    rcases htxn : s.txn with _ | ⟨j', w'⟩
    · simp [World.close, htxn] at hw
    · by_cases hj : j' = i
      · simp [World.close, htxn, hj] at hw
      · simp only [World.close, htxn, if_neg hj] at hw
        obtain ⟨rfl, -⟩ := Prod.mk.inj (Option.some.inj hw)
        exact h.holder j' w' htxn

theorem step_connect {s : World σ τ π} {p : π} (h : O.Holds s) (hs : C.start p = true) :
    O.Holds { s with conns := s.conns ++ [some p] } := by
  refine ⟨h.inv, fun j r hr => ?_, fun j w hw => ?_⟩
  · rcases Nat.lt_trichotomy j s.conns.length with hj | hj | hj
    · rw [Client.pcOf, List.getElem?_append_left hj] at hr
      exact h.conn j r hr
    · subst hj
      rw [Client.pcOf, List.getElem?_concat_length] at hr
      obtain rfl := Option.some.inj hr
      have hJ := O.start h.inv hs
      rcases htxn : s.txn with _ | ⟨j, w⟩
      · simp only [At]
        exact hJ
      · have hne : j ≠ s.conns.length := Nat.ne_of_lt (h.holder j w htxn)
        simp only [At, if_neg hne]
        exact hJ
    · rw [Client.pcOf, List.getElem?_eq_none (by rw [List.length_append]; exact hj)] at hr
      cases hr
  · rw [List.length_append]
    exact Nat.lt_succ_of_lt (h.holder j w hw)

/-- One step the guard allows keeps the outline. -/
theorem step {s t : World σ τ π} {a : Act π ε} (h : O.Holds s) (hok : Allowed ok s a)
    (ht : C.step s a = some t) : O.Holds t := by
  cases a with
  | stmt i =>
    obtain ⟨p, hp, ht⟩ := Option.bind_eq_some_iff.mp ht
    obtain ⟨c, hc, ht⟩ := Option.bind_eq_some_iff.mp ht
    cases c with
    | select k => exact step_select h hp hc (hok p hp) ht
    | dml u k => exact step_dml h hp hc (hok p hp) ht
    | commit k => exact step_commit h hp hc ht
    | rollback k => exact step_rollback h hp hc ht
  | close i =>
    obtain rfl := Option.some.inj ht
    exact step_close h
  | connect p =>
    unfold Client.step at ht
    by_cases hs : C.start p = true
    · simp only [if_pos hs] at ht
      obtain rfl := Option.some.inj ht
      exact step_connect h hs
    · simp [hs] at ht
  | ext x =>
    unfold Client.step at ht
    rcases htxn : s.txn with _ | ⟨j, w⟩
    · simp only [htxn] at ht
      obtain ⟨⟨d', e'⟩, hx, rfl⟩ := Option.map_eq_some_iff.mp ht
      obtain ⟨hI, hstable⟩ := O.ext h.inv hx
      refine ⟨hI, fun l r hr => ?_, fun j w hw => by cases hw⟩
      have hr' := h.conn l r hr
      simp only [At, htxn] at hr' ⊢
      exact hstable r hr'
    · simp [htxn] at ht

/-- **Soundness.** Over every interleaving whose statements the guard allows,
the outline holds in every world of the run. -/
theorem sound {init : World σ τ π → Prop} {s t : World σ τ π}
    {es : List (Machine.Event (World σ τ π) (Act π ε))} (hrun : (C.machine init).Run s es t)
    (hs : O.Holds s) (hok : ∀ e ∈ es, Allowed ok e.pre e.act) :
    O.Holds t ∧ ∀ e ∈ es, O.Holds e.pre ∧ O.Holds e.post :=
  hrun.invariant (I := O.Holds) (G := Allowed ok) (fun _ _ _ h ha hst => step h ha hst) hs hok

end Outline

/-! ## Where a connection goes -/

/-- Where a statement continues that reads `d`. -/
def Stmt.next (d : σ) : Stmt σ π → π
  | select k | dml _ k => k d
  | commit k | rollback k => k

/-- A statement moves its own connection, to where it continues on what it reads. -/
theorem World.run_conns {s t : World σ τ π} {i : ℕ} {st : Stmt σ π} (h : s.run i st = some t) :
    t.conns = (s.goto i (st.next (s.view i))).conns := by
  cases st with
  | select k =>
    obtain rfl := Option.some.inj h
    rfl
  | dml change k =>
    rw [run] at h
    rcases htxn : s.txn with _ | ⟨j, w⟩
    · rw [htxn] at h
      obtain rfl := Option.some.inj h
      rw [view, htxn]
      rfl
    · rw [htxn] at h
      dsimp only at h
      by_cases hj : j = i
      · rw [if_pos hj] at h
        obtain rfl := Option.some.inj h
        rw [view, htxn]
        dsimp only
        rw [if_pos hj]
        rfl
      · rw [if_neg hj] at h
        cases h
  | commit k | rollback k =>
    rw [run] at h
    rcases htxn : s.txn with _ | ⟨j, w⟩
    · rw [htxn] at h
      obtain rfl := Option.some.inj h
      rfl
    · rw [htxn] at h
      dsimp only at h
      split at h <;> obtain rfl := Option.some.inj h <;> rfl

/-- A connection is where it was, or new, or, if it moves, where its statement continues. -/
theorem Client.pcOf_step {C : Client σ τ π ε} {s t : World σ τ π} {a : Act π ε}
    (h : C.step s a = some t) {j : ℕ} {q : π} (hq : pcOf t j = some q) :
    (a ≠ .stmt j ∧ pcOf s j = some q) ∨
      (a = .connect q ∧ C.start q = true ∧ j = s.conns.length) ∨
      ∃ p st, a = .stmt j ∧ pcOf s j = some p ∧ C.code p = some st ∧ st.next (s.view j) = q := by
  cases a with
  | stmt i =>
    obtain ⟨p, hp, h⟩ := Option.bind_eq_some_iff.mp h
    obtain ⟨st, hcode, h⟩ := Option.bind_eq_some_iff.mp h
    have hmoved : pcOf (s.goto i (st.next (s.view i))) j = some q := by
      rw [pcOf, ← World.run_conns h]
      exact hq
    rw [pcOf_goto hp] at hmoved
    by_cases hj : j = i
    · subst hj
      rw [if_pos rfl] at hmoved
      exact Or.inr (Or.inr ⟨p, st, rfl, hp, hcode, Option.some.inj hmoved⟩)
    · rw [if_neg hj] at hmoved
      exact Or.inl ⟨fun ha => hj (Act.stmt.inj ha).symm, hmoved⟩
  | close i =>
    obtain rfl := Option.some.inj h
    exact Or.inl ⟨nofun, (pcOf_close hq).2⟩
  | connect p =>
    rw [step] at h
    by_cases hs : C.start p = true
    · rw [if_pos hs] at h
      obtain rfl := Option.some.inj h
      rcases Nat.lt_trichotomy j s.conns.length with hj | hj | hj
      · rw [pcOf, List.getElem?_append_left hj] at hq
        exact Or.inl ⟨nofun, hq⟩
      · rw [pcOf, hj, List.getElem?_concat_length] at hq
        obtain rfl := Option.some.inj hq
        exact Or.inr (Or.inl ⟨rfl, hs, hj⟩)
      · rw [pcOf, List.getElem?_eq_none (by rw [List.length_append]; exact hj)] at hq
        cases hq
    · rw [if_neg hs] at h
      cases h
  | ext x =>
    rw [step] at h
    rcases htxn : s.txn with _ | _
    · rw [htxn] at h
      obtain ⟨d', -, rfl⟩ := Option.map_eq_some_iff.mp h
      exact Or.inl ⟨nofun, hq⟩
    · rw [htxn] at h
      cases h

/-- No connection is forgotten. -/
theorem Client.length_step {C : Client σ τ π ε} {s t : World σ τ π} {a : Act π ε}
    (h : C.step s a = some t) : s.conns.length ≤ t.conns.length := by
  cases a with
  | stmt i =>
    obtain ⟨p, -, h⟩ := Option.bind_eq_some_iff.mp h
    obtain ⟨st, -, h⟩ := Option.bind_eq_some_iff.mp h
    refine Nat.le_of_eq ?_
    rw [World.run_conns h, World.goto, List.length_set]
  | close i =>
    obtain rfl := Option.some.inj h
    refine Nat.le_of_eq ?_
    rw [World.close, List.length_set]
  | connect p =>
    rw [step] at h
    by_cases hs : C.start p = true
    · rw [if_pos hs] at h
      obtain rfl := Option.some.inj h
      rw [List.length_append]
      exact Nat.le_add_right _ _
    · rw [if_neg hs] at h
      cases h
  | ext x =>
    rw [step] at h
    rcases htxn : s.txn with _ | _
    · rw [htxn] at h
      obtain ⟨d', -, rfl⟩ := Option.map_eq_some_iff.mp h
      exact Nat.le_refl _
    · rw [htxn] at h
      cases h

/-! ## The order of the commits -/

/-- The control point that a step makes a transaction durable from. -/
def Client.committed (C : Client σ τ π ε) (s : World σ τ π) : Act π ε → List π
  | .stmt i =>
    match Client.pcOf s i, s.txn with
    | some p, some (j, _) =>
      match C.code p with
      | some (.commit _) => if j = i then [p] else []
      | _ => []
    | _, _ => []
  | _ => []

/-- A step changes what is committed by making a transaction durable, or by the
environment. -/
theorem Client.committed_cases {C : Client σ τ π ε} {s t : World σ τ π} {a : Act π ε}
    (h : C.step s a = some t) : (C.committed s a = [] ∧ t.disk = s.disk) ∨
      (∃ x d', a = .ext x ∧ C.ext x s.disk s.env = some d') ∨
      ∃ i p w k, a = .stmt i ∧ Client.pcOf s i = some p ∧ s.txn = some (i, w) ∧
        C.code p = some (.commit k) ∧ C.committed s a = [p] ∧ t.disk = w := by
  cases a with
  | stmt i =>
    obtain ⟨p, hp, h⟩ := Option.bind_eq_some_iff.mp h
    obtain ⟨st, hcode, h⟩ := Option.bind_eq_some_iff.mp h
    rcases htxn : s.txn with _ | ⟨j, w⟩
    · refine Or.inl ⟨by simp only [committed, hp, htxn], ?_⟩
      cases st <;> simp only [World.run, htxn, Option.some.injEq] at h <;> subst h <;> rfl
    · by_cases hj : j = i
      · subst hj
        cases st with
        | commit k =>
          refine Or.inr (Or.inr ⟨j, p, w, k, rfl, hp, rfl, hcode, ?_, ?_⟩)
          · simp only [committed, hp, htxn, hcode, if_true]
          · simp only [World.run, htxn, if_true, Option.some.injEq] at h
            rw [← h]
        | _ =>
          refine Or.inl ⟨by simp only [committed, hp, htxn, hcode], ?_⟩
          simp only [World.run, htxn, if_true, Option.some.injEq] at h
          rw [← h]
          rfl
      · refine Or.inl ⟨?_, ?_⟩
        · simp only [committed, hp, htxn, hcode, if_neg hj]
          cases st <;> rfl
        · cases st <;> simp only [World.run, htxn, if_neg hj, Option.some.injEq, reduceCtorEq] at h
            <;> subst h <;> rfl
  | close i =>
    obtain rfl := Option.some.inj h
    exact Or.inl ⟨rfl, rfl⟩
  | connect p =>
    by_cases hs : C.start p = true
    · rw [Client.step, if_pos hs] at h
      obtain rfl := Option.some.inj h
      exact Or.inl ⟨rfl, rfl⟩
    · rw [Client.step, if_neg hs] at h
      cases h
  | ext x =>
    rcases htxn : s.txn with _ | ⟨j, w⟩
    · simp only [Client.step, htxn] at h
      obtain ⟨d', hx, -⟩ := Option.map_eq_some_iff.mp h
      exact Or.inr (Or.inl ⟨x, d', rfl, hx⟩)
    · simp only [Client.step, htxn, reduceCtorEq] at h

/-- **Serial history.** Where a transaction that is about to commit holds what
`serial` makes of the committed state, and the environment changes nothing, what is
committed after a run is what `serial` makes of the state before it, commit after
commit. -/
theorem Outline.serial {C : Client σ τ π ε} {ok : σ → τ → π → Prop} (O : Outline C ok)
    {serial : σ → π → Option σ}
    (hcommit : ∀ {d e w p k}, O.T d e w p → C.code p = some (.commit k) → serial d p = some w)
    (hext : ∀ x d e, C.ext x d e = none) {init : World σ τ π → Prop} {s t : World σ τ π}
    {es : List (Machine.Event (World σ τ π) (Act π ε))} (hrun : (C.machine init).Run s es t)
    (hs : O.Holds s) (hok : ∀ e ∈ es, Allowed ok e.pre e.act) :
    (Machine.outputs C.committed es).foldlM serial s.disk = some t.disk := by
  have hboth := hrun.history (G := Allowed ok)
    (H := fun es t => O.Holds t ∧
      (Machine.outputs C.committed es).foldlM serial s.disk = some t.disk) ?_ ⟨hs, rfl⟩ hok
  · exact hboth.2
  · rintro es u a v ⟨hu, hserial⟩ ha hstep
    refine ⟨O.step hu ha hstep, ?_⟩
    rw [Machine.outputs_snoc, List.foldlM_append, hserial]
    obtain ⟨hnone, hdisk⟩ | ⟨x, d', -, hx⟩ | ⟨i, p, w, k, -, hp, htxn, hcode, hone, hdisk⟩ :=
      Client.committed_cases hstep
    · simp [hnone, hdisk]
    · rw [hext] at hx
      cases hx
    · have hat := hu.conn i p hp
      simp only [Outline.At, htxn, if_true] at hat
      simp [hone, hdisk, hcommit hat hcode]

/-! ## Stable knowledge -/

/-- The common shape of an outline: a connection knows the same kind of thing
(`Knows`) of the committed database and of its own copy, every change is a step
along `Grows`, which all knowledge survives, and a rollback is the end of what a
connection knew. -/
structure Discipline (C : Client σ τ π ε) (ok : σ → τ → π → Prop) where
  /-- the invariant of the database, also inside a transaction -/
  I : σ → τ → Prop
  /-- what a connection knows of the database it reads -/
  Knows : σ → τ → π → Prop
  /-- how the connections may change the database -/
  Grows : σ → σ → Prop
  /-- changes compose -/
  trans : ∀ {d d' d''}, Grows d d' → Grows d' d'' → Grows d d''
  /-- knowledge survives the changes of others -/
  stable : ∀ {d w e p}, Grows d w → Knows d e p → Knows w e p
  /-- a new connection -/
  start : ∀ {d e p}, I d e → C.start p = true → Knows d e p
  /-- a query -/
  select : ∀ {d e p k}, I d e → Knows d e p → C.code p = some (.select k) → ok d e p →
    Knows d e (k d)
  /-- a change -/
  dml : ∀ {d e p u k}, I d e → Knows d e p → C.code p = some (.dml u k) → ok d e p →
    I (u d) e ∧ Grows d (u d) ∧ Knows (u d) e (k d)
  /-- a commit -/
  commit : ∀ {d e p k}, I d e → Knows d e p → C.code p = some (.commit k) → Knows d e k
  /-- a rollback -/
  rollback : ∀ {d e p k}, I d e → C.code p = some (.rollback k) → Knows d e k
  /-- a step of the environment -/
  ext : ∀ {x d e d' e'}, I d e → C.ext x d e = some (d', e') →
    I d' e' ∧ ∀ q, Knows d e q → Knows d' e' q

/-- A discipline is an outline. -/
def Discipline.outline {C : Client σ τ π ε} {ok : σ → τ → π → Prop} (D : Discipline C ok) :
    Outline C ok where
  I := D.I
  J := D.Knows
  T d e w p := D.I w e ∧ D.Knows w e p ∧ D.Grows d w
  start := D.start
  select := D.select
  selectTxn := fun _ hT hcode hok => ⟨hT.1, D.select hT.1 hT.2.1 hcode hok, hT.2.2⟩
  dml := fun hI hJ hcode hok => by
    obtain ⟨hI', hG, hK⟩ := D.dml hI hJ hcode hok
    exact ⟨hI', hK, hG⟩
  dmlTxn := fun _ hT hcode hok => by
    obtain ⟨hI', hG, hK⟩ := D.dml hT.1 hT.2.1 hcode hok
    exact ⟨hI', hK, D.trans hT.2.2 hG⟩
  commit := D.commit
  commitTxn := fun _ hT hcode =>
    ⟨hT.1, D.commit hT.1 hT.2.1 hcode, fun _ hq => D.stable hT.2.2 hq⟩
  rollback := fun hI _ hcode => D.rollback hI hcode
  rollbackTxn := fun hI _ hcode => D.rollback hI hcode
  ext := D.ext

/-- What a discipline gives for the world as a whole. -/
theorem Discipline.view {C : Client σ τ π ε} {ok : σ → τ → π → Prop} (D : Discipline C ok)
    {s : World σ τ π} (h : D.outline.Holds s) {i : ℕ} {p : π} (hp : Client.pcOf s i = some p) :
    D.I (s.view i) s.env ∧ D.Knows (s.view i) s.env p := by
  have hat := h.conn i p hp
  unfold Outline.At at hat
  unfold World.view
  rcases htxn : s.txn with _ | ⟨j, w⟩
  · rw [htxn] at hat
    exact ⟨h.inv, hat⟩
  · simp only [htxn] at hat ⊢
    by_cases hj : j = i
    · simp only [if_pos hj] at hat ⊢
      exact ⟨hat.1, hat.2.1⟩
    · simp only [if_neg hj] at hat ⊢
      exact ⟨h.inv, hat⟩

end Wal
