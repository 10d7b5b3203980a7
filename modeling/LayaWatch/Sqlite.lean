import LayaWatch.Schema
import LayaWatch.Lib.Prog

/-!
# Statements on a connection

The part of the `sqlite3` module that the writer's transaction uses, and the
insert helpers of `store/queries.py`. Each statement may fail: `Conn.faults`
says which do (a busy or full database, an I/O error), so a property of every
list of faults is one of every failure at every statement. Binding a string
that UTF-8 cannot encode raises `UnicodeEncodeError`, which is no
`sqlite3.Error`. A `ROLLBACK` of an open transaction succeeds.
-/

namespace LayaWatch

/-- `sqlite3.Error`. -/
inductive SqliteError where
  /-- `OperationalError`; `busy` is `_is_busy` of its message -/
  | operational (busy : Bool)
  /-- another one, `IntegrityError` say -/
  | other
  deriving DecidableEq, Repr

/-- What a statement, or the code between two, may raise. -/
inductive PyError where
  /-- an `sqlite3.Error` -/
  | sqlite (e : SqliteError)
  /-- `UnicodeEncodeError` -/
  | unicodeEncode
  /-- `KeyError` -/
  | keyError
  deriving DecidableEq, Repr

/-- A connection in autocommit mode (`isolation_level = None`). -/
structure Conn where
  /-- the committed database -/
  disk : Db
  /-- the database as the open transaction sees it -/
  txn : Option Db
  /-- whether the next statements fail, and how; past the end they do not -/
  faults : List (Option SqliteError)

/-- A program on a connection. -/
abbrev Sql : Type → Type := Prog Conn PyError

namespace Conn

/-- The text columns of a statement can be bound. -/
def bindable (binds : List (Option PyStr)) : Bool :=
  binds.all fun s => (PyStr.orEmpty s).encodable

/-- `conn.execute`: bind, step, and read or change the database. -/
def execute {α : Type} (binds : List (Option PyStr)) (action : Db → Except SqliteError (α × Db)) :
    Sql α := fun c =>
  if bindable binds then
    let view := c.txn.getD c.disk
    let rest := c.faults.tail
    match c.faults.head?.join with
    | some e => (.error (.sqlite e), { c with faults := rest })
    | none =>
      match action view with
      | .error e => (.error (.sqlite e), { c with faults := rest })
      | .ok (a, db) =>
        match c.txn with
        | some _ => (.ok a, { c with txn := some db, faults := rest })
        | none => (.ok a, { c with disk := db, faults := rest })
  else (.error .unicodeEncode, c)

/-- `BEGIN IMMEDIATE`. -/
def beginImmediate : Sql PUnit := fun c =>
  let rest := c.faults.tail
  match c.faults.head?.join, c.txn with
  | some e, _ => (.error (.sqlite e), { c with faults := rest })
  | none, some _ => (.error (.sqlite (.operational false)), { c with faults := rest })
  | none, none => (.ok ⟨⟩, { c with txn := some c.disk, faults := rest })

/-- `COMMIT`. -/
def commit : Sql PUnit := fun c =>
  let rest := c.faults.tail
  match c.faults.head?.join, c.txn with
  | some e, _ => (.error (.sqlite e), { c with faults := rest })
  | none, none => (.error (.sqlite (.operational false)), { c with faults := rest })
  | none, some db => (.ok ⟨⟩, { c with disk := db, txn := none, faults := rest })

/-- `_rollback`. -/
def rollback (c : Conn) : Conn := { c with txn := none }

end Conn

/-! ## Insert helpers -/

namespace TraceColumns

/-- The text columns; `tags` and `meta` are ASCII. -/
def binds (t : TraceColumns) : List (Option PyStr) :=
  [t.id, t.route, t.method, t.model, t.routeReason, t.lang, t.clientKeyId, t.sessionId,
    t.errorCode, t.errorMessage]

end TraceColumns

namespace Observation

/-- The text columns; `meta` is ASCII. -/
def binds (o : Observation) : List (Option PyStr) :=
  [o.id, o.traceId, o.parentId, o.name, o.type, o.status, o.model, o.input, o.output]

end Observation

namespace Score

/-- The text columns, and the value when it is text. -/
def binds (s : Score) : List (Option PyStr) :=
  [s.id, s.traceId, s.name,
    match s.value with
    | .text v => some v
    | _ => none,
    s.dataType, s.source, s.comment]

end Score

namespace LogEntry

/-- The text columns. -/
def binds (e : LogEntry) : List (Option PyStr) := [e.level, e.source, e.traceId, e.message]

end LogEntry

namespace Db

/-- The `rowid` that the next row of `traces` gets. -/
def nextRowid (db : Db) : ℕ := (db.traces.map TraceRow.rowid).foldl max 0 + 1

/-- `db` with the row of `t` in `traces`. -/
def addTrace (db : Db) (t : Trace) : Db :=
  { db with traces := db.traces ++ [⟨t.toTraceColumns, db.nextRowid⟩] }

/-- `db` with `o` in `observations`. -/
def addObservation (db : Db) (o : Observation) : Db :=
  { db with observations := db.observations ++ [o] }

/-- `db` with `s` in `scores`. -/
def addScore (db : Db) (s : Score) : Db := { db with scores := db.scores ++ [s] }

/-- `db` with `e` in `log_entry`. -/
def addLog (db : Db) (e : LogEntry) : Db :=
  { db with logEntry := db.logEntry ++ [⟨e, db.logSeq + 1⟩], logSeq := db.logSeq + 1 }

/-- A trace with this id is stored. -/
def hasTrace (db : Db) (id : PyStr) : Bool := db.traces.any fun row => row.id == id

end Db

open Conn

/-- One row of `insert_trace`: the primary key is checked. -/
def insertTraceRow (t : Trace) : Sql PUnit :=
  execute t.binds fun db =>
    if db.hasTrace t.id then .error .other else .ok (⟨⟩, db.addTrace t)

/-- `insert_trace`. -/
def insertTrace (traces : List Trace) : Sql PUnit := Prog.each insertTraceRow traces

/-- One row of `insert_observations`: the primary key and the foreign key are
checked. -/
def insertObservationRow (o : Observation) : Sql PUnit :=
  execute o.binds fun db =>
    if (db.observations.any fun row => row.id == o.id) || !db.hasTrace o.traceId then
      .error .other
    else .ok (⟨⟩, db.addObservation o)

/-- `insert_observations`. -/
def insertObservations (observations : List Observation) : Sql PUnit :=
  Prog.each insertObservationRow observations

/-- One row of `insert_scores`: the primary key, the foreign key and `NOT NULL`
are checked. -/
def insertScoreRow (s : Score) : Sql PUnit :=
  execute s.binds fun db =>
    if (db.scores.any fun row => row.id == s.id) || !db.hasTrace s.traceId ||
        decide (s.value = .null) then
      .error .other
    else .ok (⟨⟩, db.addScore s)

/-- `insert_scores`. -/
def insertScores (scores : List Score) : Sql PUnit := Prog.each insertScoreRow scores

/-- One row of `INSERT INTO log_entry`. -/
def insertLogRow (e : LogEntry) : Sql PUnit :=
  execute e.binds fun db => .ok (⟨⟩, db.addLog e)

/-- `load_rollup_row`, as a statement. -/
def selectRollupRow (step : RollupStep) (key : RollupKey) : Sql (Option Stats) :=
  execute [key.model, key.route] fun db => .ok (loadRollupRow db step key, db)

/-- `upsert_rollup`, as a statement. -/
def upsertRollupRow (row : RollupStep × RollupKey × Stats) : Sql PUnit :=
  execute [row.2.1.model, row.2.1.route] fun db =>
    .ok (⟨⟩, upsertRollup row.1 row.2.1 row.2.2 db)

/-! ## What a statement of an open transaction does -/

/-- The transaction is open, over `disk` on disk, and sees `db`. -/
def Conn.Sees (disk db : Db) (c : Conn) : Prop := c.disk = disk ∧ c.txn = some db

/-- How a statement fails: nothing on disk has changed, and a
`UnicodeEncodeError` has its reason in `unbindable`. -/
def Conn.Fails (disk : Db) (unbindable : Prop) (e : PyError) (c : Conn) : Prop :=
  c.disk = disk ∧ (e = .unicodeEncode → unbindable) ∧ e ≠ .keyError

theorem Conn.fails_sqlite {disk : Db} {unbindable : Prop} {c : Conn} (hc : c.disk = disk)
    (e : SqliteError) : Fails disk unbindable (.sqlite e) c := by
  refine ⟨hc, ?_, ?_⟩ <;> intro h <;> cases h

/-- A statement either acts on what the transaction sees or fails. -/
theorem Conn.execute_ends {α : Type} {binds : List (Option PyStr)}
    {action : Db → Except SqliteError (α × Db)} {disk db : Db} {unbindable : Prop}
    {Q : α → Db → Prop} (hb : bindable binds = false → unbindable)
    (ha : ∀ a db', action db = .ok (a, db') → Q a db') {c : Conn} (hc : c.Sees disk db) :
    (execute binds action).Ends c (fun a c' => ∃ db', c'.Sees disk db' ∧ Q a db')
      (Conn.Fails disk unbindable) := by
  obtain ⟨hdisk, htxn⟩ := hc
  unfold Prog.Ends execute
  by_cases hbind : bindable binds = true
  · rw [if_pos hbind]
    dsimp only
    rcases hf : c.faults.head?.join with _ | e
    · rw [htxn]
      dsimp only [Option.getD_some]
      rcases hact : action db with e | ⟨a, db'⟩
      · exact fails_sqlite hdisk e
      · exact ⟨db', ⟨hdisk, rfl⟩, ha a db' hact⟩
    · exact fails_sqlite hdisk e
  · rw [if_neg hbind]
    refine ⟨hdisk, fun _ => hb (Bool.eq_false_iff.mpr hbind), ?_⟩
    intro h
    cases h

/-- A statement that changes the database by `f`, if it does not fail. -/
theorem Conn.execute_update {binds : List (Option PyStr)}
    {action : Db → Except SqliteError (PUnit × Db)} {disk db : Db} {unbindable : Prop}
    {f : Db → Db} (hb : bindable binds = false → unbindable)
    (ha : ∀ u db', action db = .ok (u, db') → db' = f db) {c : Conn} (hc : c.Sees disk db) :
    (execute binds action).Ends c (fun _ c' => c'.Sees disk (f db))
      (Conn.Fails disk unbindable) := by
  refine (execute_ends (Q := fun _ db' => db' = f db) hb ha hc).mono (fun _ c' h => ?_)
    fun _ _ h => h
  obtain ⟨db', hsees, rfl⟩ := h
  exact hsees

/-- `BEGIN IMMEDIATE` opens a transaction on what is on disk. -/
theorem Conn.beginImmediate_ends {disk : Db} {unbindable : Prop} {c : Conn}
    (hdisk : c.disk = disk) (htxn : c.txn = none) :
    beginImmediate.Ends c (fun _ c' => c'.Sees disk disk) (Fails disk unbindable) := by
  unfold Prog.Ends beginImmediate
  rw [htxn]
  dsimp only
  rcases hf : c.faults.head?.join with _ | e
  · exact ⟨hdisk, by rw [hdisk]⟩
  · exact fails_sqlite hdisk e

/-- `COMMIT` puts what the transaction sees on disk. -/
theorem Conn.commit_ends {disk db : Db} {unbindable : Prop} {c : Conn} (hc : c.Sees disk db) :
    commit.Ends c (fun _ c' => c'.disk = db ∧ c'.txn = none) (Fails disk unbindable) := by
  obtain ⟨hdisk, htxn⟩ := hc
  unfold Prog.Ends commit
  rw [htxn]
  dsimp only
  rcases hf : c.faults.head?.join with _ | e
  · exact ⟨rfl, rfl⟩
  · exact fails_sqlite hdisk e

section Inserts

variable {disk db : Db} {unbindable : Prop} {c : Conn}

theorem insertTraceRow_ends {t : Trace} (hb : bindable t.binds = false → unbindable)
    (hc : c.Sees disk db) :
    (insertTraceRow t).Ends c (fun _ c' => c'.Sees disk (db.addTrace t))
      (Fails disk unbindable) := by
  refine execute_update (f := fun db => db.addTrace t) hb (fun u db' h => ?_) hc
  split at h
  · cases h
  · exact (Prod.mk.inj (Except.ok.inj h)).2.symm

theorem insertObservationRow_ends {o : Observation} (hb : bindable o.binds = false → unbindable)
    (hc : c.Sees disk db) :
    (insertObservationRow o).Ends c (fun _ c' => c'.Sees disk (db.addObservation o))
      (Fails disk unbindable) := by
  refine execute_update (f := fun db => db.addObservation o) hb (fun u db' h => ?_) hc
  split at h
  · cases h
  · exact (Prod.mk.inj (Except.ok.inj h)).2.symm

theorem insertScoreRow_ends {s : Score} (hb : bindable s.binds = false → unbindable)
    (hc : c.Sees disk db) :
    (insertScoreRow s).Ends c (fun _ c' => c'.Sees disk (db.addScore s))
      (Fails disk unbindable) := by
  refine execute_update (f := fun db => db.addScore s) hb (fun u db' h => ?_) hc
  split at h
  · cases h
  · exact (Prod.mk.inj (Except.ok.inj h)).2.symm

theorem insertLogRow_ends {e : LogEntry} (hb : bindable e.binds = false → unbindable)
    (hc : c.Sees disk db) :
    (insertLogRow e).Ends c (fun _ c' => c'.Sees disk (db.addLog e)) (Fails disk unbindable) :=
  execute_update (f := fun db => db.addLog e) hb
    (fun _ _ h => (Prod.mk.inj (Except.ok.inj h)).2.symm) hc

theorem selectRollupRow_ends {step : RollupStep} {key : RollupKey}
    (hb : bindable [some key.model, some key.route] = false → unbindable) (hc : c.Sees disk db) :
    (selectRollupRow step key).Ends c
      (fun row c' => row = loadRollupRow db step key ∧ c'.Sees disk db)
      (Fails disk unbindable) := by
  refine (execute_ends (Q := fun row db' => row = loadRollupRow db step key ∧ db' = db) hb
    (fun a db' h => ?_) hc).mono (fun _ c' h => ?_) fun _ _ h => h
  · obtain ⟨rfl, rfl⟩ := Prod.mk.inj (Except.ok.inj h)
    exact ⟨rfl, rfl⟩
  · obtain ⟨db', hsees, rfl, rfl⟩ := h
    exact ⟨rfl, hsees⟩

theorem upsertRollupRow_ends {row : RollupStep × RollupKey × Stats}
    (hb : bindable [some row.2.1.model, some row.2.1.route] = false → unbindable)
    (hc : c.Sees disk db) :
    (upsertRollupRow row).Ends c
      (fun _ c' => c'.Sees disk (upsertRollup row.1 row.2.1 row.2.2 db))
      (Fails disk unbindable) :=
  execute_update (f := upsertRollup row.1 row.2.1 row.2.2) hb
    (fun _ _ h => (Prod.mk.inj (Except.ok.inj h)).2.symm) hc

end Inserts

end LayaWatch
