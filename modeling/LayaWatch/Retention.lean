import LayaWatch.Commit
import LayaWatch.Lib.Wal
import Mathlib.Data.Prod.Lex
import Mathlib.Data.List.Dedup

/-!
# Retention passes

`store/retention.py`: one pass is a program of single statements on its own
connection, beside the writer, whose commits are the steps of the environment.
The control points of a pass are the places between two statements, with the
local variables that are live there. The first upsert of a pass opens its
transaction, which lasts to the commit before the deletes; each delete of a
chunk is a transaction of its own. (Checkpoint, `VACUUM` and `PRAGMA optimize`
do not change the tables and are left out.)
-/

namespace LayaWatch

/-- The order in which SQLite visits rows where the query fixes none. -/
structure ScanOrder where
  /-- the visiting order -/
  scan : ∀ {α : Type}, List α → List α
  /-- every row is visited once -/
  perm : ∀ {α : Type} (l : List α), (scan l).Perm l

/-- Rows are visited as they were inserted. -/
def ScanOrder.insertion : ScanOrder := ⟨fun l => l, fun l => List.Perm.refl l⟩

/-- The arguments of `apply`, and the cutoffs it computes from the clock. -/
structure Pass where
  /-- `max_traces` -/
  maxTraces : ℕ
  /-- `max_logs` -/
  maxLogs : ℕ
  /-- `age_cutoff` -/
  ageCutoff : ℚ
  /-- `rollup_cutoff` -/
  rollupCutoff : ℚ
  /-- `payload_cutoff` -/
  payloadCutoff : ℚ
  /-- `session_cutoff` -/
  sessionCutoff : ℚ

/-- `_DELETE_CHUNK`. -/
def deleteChunk : ℕ := 500

/-! ## Pending keys -/

/-- `ORDER BY ts_start DESC, rowid DESC`. -/
def newestFirst (a b : TraceRow) : Bool :=
  decide (b.tsStart < a.tsStart ∨ a.tsStart = b.tsStart ∧ b.rowid ≤ a.rowid)

/-- `SELECT rowid FROM traces ORDER BY .. LIMIT -1 OFFSET ?`. -/
def overCap (maxTraces : ℕ) (traces : List TraceRow) : List ℕ :=
  ((traces.insertionSort fun a b => newestFirst a b = true).drop maxTraces).map TraceRow.rowid

/-- The rows of the first prune predicate. -/
def agedRows (pass : Pass) (db : Db) : List TraceRow :=
  db.traces.filter fun row => decide (row.tsStart < pass.ageCutoff)

/-- The rows of the second prune predicate. -/
def cappedRows (pass : Pass) (db : Db) : List TraceRow :=
  db.traces.filter fun row => decide (row.rowid ∈ overCap pass.maxTraces db.traces)

/-- The keys of one row in `_pending_keys`. -/
def pendingOf (pass : Pass) (row : TraceColumns) : List RollupKey :=
  let bucket := floorBucket row.tsStart .ten
  if (bucket : ℚ) < pass.rollupCutoff then []
  else
    let model := PyStr.orEmpty row.model
    (⟨bucket, .requests, model, row.route, 0⟩ ::
      if 400 ≤ row.status then [⟨bucket, .errors, [], [], row.status⟩] else []) ++
    [⟨bucket, .latency, model, row.route, 0⟩, ⟨bucket, .queue, model, row.route, 0⟩]

/-- The name of a metric. -/
def Metric.name : Metric → PyStr
  | .requests => py "requests"
  | .errors => py "errors"
  | .latency => py "latency"
  | .queue => py "queue"

/-- The key as the tuple that `sorted` compares. -/
def RollupKey.tuple (key : RollupKey) : ℤ ×ₗ PyStr ×ₗ PyStr ×ₗ PyStr ×ₗ ℤ :=
  toLex (key.bucket, toLex (key.metric.name, toLex (key.model, toLex (key.route, key.status))))

/-- `sorted(_pending_keys(..))`, from the rows of both queries. -/
def pendingKeys (pass : Pass) (rows : List TraceRow) : List RollupKey :=
  ((rows.flatMap fun row => pendingOf pass row.toTraceColumns).dedup).insertionSort
    fun a b => a.tuple ≤ b.tuple

/-! ## Rebuilding -/

/-- `COALESCE(model, '') = ? AND route = ?` for a key. -/
def sameModelRoute (key : RollupKey) (row : TraceRow) : Bool :=
  decide (PyStr.orEmpty row.model = key.model ∧ row.route = key.route)

/-- The `WHERE` clause of `_gather_stats`. -/
def gathered (key : RollupKey) (row : TraceRow) : Bool :=
  decide ((key.bucket : ℚ) ≤ row.tsStart ∧
    row.tsStart < (key.bucket : ℚ) + RollupStep.ten.seconds) &&
  match key.metric with
  | .errors => decide (row.status = key.status)
  | _ => sameModelRoute key row

/-- `_gather_stats`. -/
def gatherStats (db : Db) (key : RollupKey) : Option Stats :=
  let rows := db.traces.filter (gathered key)
  if key.metric.isCounter then
    if rows.length = 0 then none else some (counterStats rows.length)
  else
    let values := rows.map fun row =>
      if key.metric = .latency then row.durationMs else row.queueMs
    if values.isEmpty then none else some (summarize values).toStats

/-- What it finds: the row of the counter events, or the summary of the samples. -/
theorem gatherStats_some {db : Db} {key : RollupKey} {stats : Stats}
    (h : gatherStats db key = some stats) :
    (key.metric.isCounter = true ∧ ∃ n, n ≠ 0 ∧ stats = counterStats n) ∨
    key.metric.isCounter = false ∧ ∃ values, values ≠ [] ∧ stats = (summarize values).toStats := by
  unfold gatherStats at h
  rcases hm : key.metric.isCounter with - | -
  · simp only [hm, Bool.false_eq_true, if_false] at h
    generalize (db.traces.filter (gathered key)).map (fun row =>
      if key.metric = .latency then row.durationMs else row.queueMs) = values at h
    rcases values with _ | ⟨value, values⟩
    · cases h
    · exact Or.inr ⟨rfl, _, List.cons_ne_nil value values, (Option.some.inj h).symm⟩
  · simp only [hm, if_true] at h
    split at h
    · cases h
    · rename_i hne
      exact Or.inl ⟨rfl, _, hne, (Option.some.inj h).symm⟩

/-- The parents that `_cascade_parents` looks at, each where it is first seen. -/
def cascadeTargets (pending : List RollupKey) : List RollupPk :=
  let all := pending.flatMap fun key => RollupStep.parents.map fun step => (step, key.parent step)
  all.reverse.dedup.reverse

/-- `want`. -/
def childCount (children : List Stats) : ℕ := (children.map StatsOf.count).sum

/-- `merged`: the loop over the children. -/
def mergeChildren (metric : Metric) (children : List Stats) : Option Stats :=
  children.foldl (fun merged child => some (mergeStats metric merged child)) none

/-- The upsert of a rebuilt parent. -/
def writeParent (pk : RollupPk) (children : List Stats) (db : Db) : Db :=
  match mergeChildren pk.2.metric children with
  | none => db
  | some merged => upsertRollup pk.1 pk.2 merged db

/-! ## Chunked deletes -/

/-- What both prune predicates select. -/
def doomed (pass : Pass) (db : Db) (row : TraceRow) : Bool :=
  decide (row.tsStart < pass.ageCutoff) ||
    decide (row.rowid ∈ overCap pass.maxTraces db.traces)

/-- The `rowid`s of one chunk of `_prune_traces`. -/
def traceVictims (order : ScanOrder) (pass : Pass) (db : Db) : List ℕ :=
  ((order.scan (db.traces.filter (doomed pass db))).take deleteChunk).map TraceRow.rowid

/-- One statement of `_prune_traces`, with its row count; observations and scores
follow their trace. -/
def pruneTracesChunk (order : ScanOrder) (pass : Pass) (db : Db) : Db × ℕ :=
  let victims := traceVictims order pass db
  let gone := db.traces.filter fun row => decide (row.rowid ∈ victims)
  let ids := gone.map fun row => row.id
  ({ db with
      traces := db.traces.filter fun row => !decide (row.rowid ∈ victims)
      observations := db.observations.filter fun o => !decide (o.traceId ∈ ids)
      scores := db.scores.filter fun s => !decide (s.traceId ∈ ids) }, gone.length)

/-- `ORDER BY ts DESC, id DESC`. -/
def newestLogFirst (a b : LogRow) : Bool :=
  decide (b.ts < a.ts ∨ a.ts = b.ts ∧ b.id ≤ a.id)

/-- One statement of `_prune_logs`. -/
def pruneLogsChunk (order : ScanOrder) (pass : Pass) (db : Db) : Db × ℕ :=
  let capped := ((db.logEntry.insertionSort fun a b => newestLogFirst a b = true).drop
    pass.maxLogs).map LogRow.id
  let victims := ((order.scan (db.logEntry.filter fun row =>
    decide (row.ts < pass.ageCutoff) || decide (row.id ∈ capped))).take deleteChunk).map LogRow.id
  let gone := db.logEntry.filter fun row => decide (row.id ∈ victims)
  ({ db with logEntry := db.logEntry.filter fun row => !decide (row.id ∈ victims) }, gone.length)

/-- One statement of `_prune_rollups`. -/
def pruneRollupsChunk (order : ScanOrder) (pass : Pass) (db : Db) : Db × ℕ :=
  let old := db.metricRollup.entries.filter fun e =>
    decide ((e.1.2.bucket : ℚ) < pass.rollupCutoff)
  let victims := ((order.scan old).take deleteChunk).map fun e => e.1.2.bucket
  ({ db with metricRollup := db.metricRollup.filter fun e => !decide (e.1.2.bucket ∈ victims) },
    (db.metricRollup.entries.filter fun e => decide (e.1.2.bucket ∈ victims)).length)

/-- One statement of `_null_payloads`. -/
def nullPayloadsChunk (order : ScanOrder) (pass : Pass) (db : Db) : Db × ℕ :=
  let old := db.observations.filter fun o =>
    (db.traces.any fun t => t.id == o.traceId && decide (t.tsStart < pass.payloadCutoff)) &&
      (o.input.isSome || o.output.isSome)
  let victims := ((order.scan old).take deleteChunk).map Observation.id
  ({ db with observations := db.observations.map fun o =>
      if o.id ∈ victims then { o with input := none, output := none } else o },
    (db.observations.filter fun o => decide (o.id ∈ victims)).length)

/-- One statement of `_prune_sessions`. -/
def pruneSessionsChunk (order : ScanOrder) (pass : Pass) (db : Db) : Db × ℕ :=
  let victims := ((order.scan (db.sessions.filter fun s =>
    decide (s.expiresAt < pass.sessionCutoff))).take deleteChunk).map SessionRow.id
  ({ db with sessions := db.sessions.filter fun s => !decide (s.id ∈ victims) },
    (db.sessions.filter fun s => decide (s.id ∈ victims)).length)

/-- The chunked loops of a pass, in their order. -/
inductive Chunk where
  /-- `_prune_traces` -/
  | traces
  /-- `_prune_logs` -/
  | logs
  /-- `_prune_rollups` -/
  | rollups
  /-- `_null_payloads` -/
  | payloads
  /-- `_prune_sessions` -/
  | sessions
  deriving DecidableEq, Repr

namespace Chunk

/-- One statement of the loop. -/
def run (order : ScanOrder) (pass : Pass) (db : Db) : Chunk → Db × ℕ
  | traces => pruneTracesChunk order pass db
  | logs => pruneLogsChunk order pass db
  | rollups => pruneRollupsChunk order pass db
  | payloads => nullPayloadsChunk order pass db
  | sessions => pruneSessionsChunk order pass db

/-- The loop after this one. -/
def next : Chunk → Option Chunk
  | traces => some logs
  | logs => some rollups
  | rollups => some payloads
  | payloads => some sessions
  | sessions => none

end Chunk

/-! ## The program of a pass -/

/-- What a pass has counted so far: rows built, and rows deleted by each loop. -/
structure PassCounts where
  /-- `pending_rollups_built` -/
  built : ℕ := 0
  /-- `pending_parents_built` -/
  parents : ℕ := 0
  /-- the counts of the chunked loops -/
  pruned : Chunk → ℕ := fun _ => 0

/-- Count the rows of a chunk. -/
def PassCounts.add (counts : PassCounts) (chunk : Chunk) (n : ℕ) : PassCounts :=
  { counts with pruned := fun c => if c = chunk then counts.pruned c + n else counts.pruned c }

/-- The places between two statements of `apply`. `rows` are the rows the two
queries of `_pending_keys` have returned so far. -/
inductive PassPoint where
  /-- before the first query of `_pending_keys` -/
  | scanAge
  /-- before the second -/
  | scanCap (rows : List TraceRow)
  /-- `_build_pending`: before the row of `key` is loaded -/
  | buildLoad (rows : List TraceRow) (key : RollupKey) (todo : List RollupKey)
      (counts : PassCounts)
  /-- `_build_pending`: before `_gather_stats` of `key` -/
  | gather (rows : List TraceRow) (key : RollupKey) (todo : List RollupKey) (counts : PassCounts)
  /-- `_build_pending`: before the upsert of `key` -/
  | build (rows : List TraceRow) (key : RollupKey) (stats : Stats) (todo : List RollupKey)
      (counts : PassCounts)
  /-- `_cascade_parents`: before the children of `pk` are read -/
  | children (rows : List TraceRow) (pk : RollupPk) (todo : List RollupPk) (counts : PassCounts)
  /-- `_cascade_parents`: before the row of the parent `pk` is loaded -/
  | loadParent (rows : List TraceRow) (pk : RollupPk) (kids : List Stats) (todo : List RollupPk)
      (counts : PassCounts)
  /-- `_cascade_parents`: before the upsert of the parent `pk` -/
  | parent (rows : List TraceRow) (pk : RollupPk) (kids : List Stats) (todo : List RollupPk)
      (counts : PassCounts)
  /-- before the commit of the rollups -/
  | commitRollups (rows : List TraceRow) (counts : PassCounts)
  /-- before a chunk of a loop -/
  | chunk (rows : List TraceRow) (loop : Chunk) (counts : PassCounts)
  /-- before the commit of a chunk that deleted `n` rows -/
  | commitChunk (rows : List TraceRow) (loop : Chunk) (n : ℕ) (counts : PassCounts)
  /-- before the last commit -/
  | lastCommit (counts : PassCounts)
  /-- the pass is over -/
  | done (counts : PassCounts)

/-- A pass at one of its points. -/
structure PassPc where
  /-- its arguments -/
  pass : Pass
  /-- where it is -/
  point : PassPoint

namespace PassPoint

/-- `_cascade_parents` with `todo` to come, then the commit. -/
def cascading (rows : List TraceRow) (todo : List RollupPk) (counts : PassCounts) : PassPoint :=
  match todo with
  | [] => commitRollups rows counts
  | pk :: todo => children rows pk todo counts

/-- `_build_pending` with `todo` to come, then `_cascade_parents`. -/
def building (pass : Pass) (rows : List TraceRow) (todo : List RollupKey) (counts : PassCounts) :
    PassPoint :=
  match todo with
  | [] => cascading rows (cascadeTargets (pendingKeys pass rows)) counts
  | key :: todo => buildLoad rows key todo counts

/-- After the commit of a chunk: the next one, the next loop, or the end. -/
def afterChunk (rows : List TraceRow) (loop : Chunk) (n : ℕ) (counts : PassCounts) : PassPoint :=
  if n < deleteChunk then
    match loop.next with
    | some loop => chunk rows loop counts
    | none => lastCommit counts
  else chunk rows loop counts

end PassPoint

open PassPoint

/-- The next statement of a pass. -/
def passCode (order : ScanOrder) (pass : Pass) : PassPoint → Option (Wal.Stmt Db PassPoint)
  | scanAge => some (.select fun db => scanCap (agedRows pass db))
  | scanCap rows => some (.select fun db =>
      let rows := rows ++ cappedRows pass db
      building pass rows (pendingKeys pass rows) {})
  | buildLoad rows key todo counts => some (.select fun db =>
      match loadRollupRow db .ten key with
      | some _ => building pass rows todo counts
      | none => gather rows key todo counts)
  | gather rows key todo counts => some (.select fun db =>
      match gatherStats db key with
      | none => building pass rows todo counts
      | some stats => build rows key stats todo counts)
  | build rows key stats todo counts => some (.dml (upsertRollup .ten key stats) fun _ =>
      building pass rows todo { counts with built := counts.built + 1 })
  | children rows pk todo counts => some (.select fun db =>
      match childRows db pk.1 pk.2 with
      | [] => cascading rows todo counts
      | kids => loadParent rows pk kids todo counts)
  | loadParent rows pk kids todo counts => some (.select fun db =>
      match loadRollupRow db pk.1 pk.2 with
      | some row =>
        if row.count = childCount kids then cascading rows todo counts
        else parent rows pk kids todo counts
      | none => parent rows pk kids todo counts)
  | parent rows pk kids todo counts => some (.dml (writeParent pk kids) fun _ =>
      cascading rows todo { counts with parents := counts.parents + 1 })
  | commitRollups rows counts => some (.commit (chunk rows .traces counts))
  | chunk rows loop counts => some (.dml (fun db => (loop.run order pass db).1) fun db =>
      commitChunk rows loop (loop.run order pass db).2
        (counts.add loop (loop.run order pass db).2))
  | commitChunk rows loop n counts => some (.commit (afterChunk rows loop n counts))
  | lastCommit counts => some (.commit (done counts))
  | done _ => none

/-- Where a pass commits, and what it goes on with. -/
theorem passCode_commit {order : ScanOrder} {pass : Pass} {point k : PassPoint}
    (hcode : passCode order pass point = some (.commit k)) :
    (∃ rows loop n counts, point = commitChunk rows loop n counts ∧
      k = afterChunk rows loop n counts) ∨
    (∃ rows counts, point = commitRollups rows counts ∧ k = chunk rows .traces counts) ∨
    ∃ counts, point = lastCommit counts ∧ k = done counts := by
  cases point with
  | commitChunk rows loop n counts =>
    exact Or.inl ⟨rows, loop, n, counts, rfl, (Wal.Stmt.commit.inj (Option.some.inj hcode)).symm⟩
  | commitRollups rows counts =>
    exact Or.inr (Or.inl ⟨rows, counts, rfl, (Wal.Stmt.commit.inj (Option.some.inj hcode)).symm⟩)
  | lastCommit counts =>
    exact Or.inr (Or.inr ⟨counts, rfl, (Wal.Stmt.commit.inj (Option.some.inj hcode)).symm⟩)
  | _ => cases hcode

/-! ## The system -/

/-- The running writer, as retention sees it: its open buckets, and the traces it
has committed. -/
structure WriterEnv where
  /-- `_open` -/
  buckets : Buckets := Dict.empty
  /-- the traces of its committed batches -/
  committed : List Trace := []

/-- A call of `_commit`, at time `now`. -/
structure WriterCommit where
  /-- the batch -/
  batch : List Item
  /-- `close_all` -/
  closeAll : Bool
  /-- the clock -/
  now : ℚ
  /-- how its statements fail -/
  faults : List (Option SqliteError) := []

/-- The writer's step: a commit that succeeds. -/
def WriterCommit.run (c : WriterCommit) (db : Db) (env : WriterEnv) : Option (Db × WriterEnv) :=
  match commitBatch c.batch c.closeAll c.now c.faults ⟨db, env.buckets⟩ with
  | (some (.committed _), s) =>
    some (s.db, ⟨s.buckets, env.committed ++ Item.traces c.batch⟩)
  | _ => none

/-- Passes beside the writer; no pass has a rollup cutoff past `floor`. -/
def retention (order : ScanOrder) (floor : ℚ) : Wal.Client Db WriterEnv PassPc WriterCommit where
  code p := (passCode order p.pass p.point).map (Wal.Stmt.map (PassPc.mk p.pass))
  start p := (match p.point with
    | scanAge => true
    | _ => false) && decide (p.pass.rollupCutoff ≤ floor)
  ext c db env := c.run db env

section

variable {order : ScanOrder} {floor : ℚ} {p : PassPc}

/-- A pass rolls back only when its connection is closed. -/
theorem retention_noRollback (k : PassPc) :
    (retention order floor).code p ≠ some (.rollback k) := by
  intro h
  obtain ⟨k', hpass, -⟩ := Wal.Stmt.map_eq_rollback h
  generalize p.point = point at hpass
  cases point <;> cases hpass

theorem retention_start (h : (retention order floor).start p = true) :
    p.point = scanAge ∧ p.pass.rollupCutoff ≤ floor := by
  obtain ⟨hpoint, hcut⟩ := Bool.and_eq_true_iff.mp h
  refine ⟨?_, of_decide_eq_true hcut⟩
  generalize p.point = point at hpoint ⊢
  cases point with
  | scanAge => rfl
  | _ => cases hpoint

end

/-- A world of retention. -/
abbrev RetentionWorld : Type := Wal.World Db WriterEnv PassPc

/-- What a commit of the writer does. -/
theorem WriterCommit.run_eq {c : WriterCommit} {db : Db} {env : WriterEnv} {r : Db × WriterEnv}
    (h : c.run db env = some r) :
    (⟨r.1, r.2.buckets⟩ : Store) = batchEffect c.batch c.closeAll c.now ⟨db, env.buckets⟩ ∧
      r.2.committed = env.committed ++ Item.traces c.batch := by
  have hspec := commitBatch_spec c.batch c.closeAll c.now c.faults ⟨db, env.buckets⟩
  unfold WriterCommit.run at h
  rcases hrun : commitBatch c.batch c.closeAll c.now c.faults ⟨db, env.buckets⟩ with ⟨ending, s⟩
  rw [hrun] at h hspec
  rcases ending with _ | _ | _ | _ | _
  case some.committed =>
    obtain rfl := Option.some.inj h
    exact ⟨hspec, rfl⟩
  all_goals cases h

end LayaWatch
