import LayaWatch.RetentionCounts

/-!
# Is every trace rolled up before it is pruned?

A pass first asks which keys the rows it is about to delete belong to and builds
the missing rollup rows, then deletes; what it deletes is computed again by each
`DELETE`. A trace that an earlier process left without rollup rows, and that is
pushed past the cap only by traces the writer commits after the query, is
deleted without having been rolled up (`pushed_past_cap_lost`).

A trace that the writer committed in this run always has a row or is in an open
bucket, and a trace of a key the queries have returned has a row once the rollup
phase is over (`Settled`). So a pass is safe as long as its `DELETE`s stay, for
the traces the run started with, within the keys its queries have returned
(`pruned_rolled_up`).
-/

namespace LayaWatch

/-! ## What a commit keeps -/

/-- The row of a key at a step exists. -/
def HasRow (db : Db) (step : RollupStep) (key : RollupKey) : Prop :=
  (loadRollupRow db step key).isSome = true

instance (db : Db) (step : RollupStep) (key : RollupKey) : Decidable (HasRow db step key) :=
  inferInstanceAs (Decidable (_ = true))

theorem hasRow_upsert {db : Db} {step step' : RollupStep} {key key' : RollupKey} {stats : Stats} :
    HasRow (upsertRollup step key stats db) step' key' ↔
      (step', key') = (step, key) ∨ HasRow db step' key' := by
  unfold HasRow
  by_cases heq : (step', key') = (step, key)
  · obtain ⟨rfl, rfl⟩ := Prod.mk.inj heq
    simp
  · rw [loadRollupRow_upsert_ne heq]
    simp [heq]

theorem hasRow_upsertRows {rows : List RollupRow} {step : RollupStep} {key : RollupKey} :
    ∀ {db : Db}, HasRow (upsertRows rows db) step key ↔
      (∃ row ∈ rows, (step, key) = (row.1, row.2.1)) ∨ HasRow db step key := by
  induction rows with
  | nil => intro db; simp [upsertRows]
  | cons row rows ih =>
    intro db
    have hcons : upsertRows (row :: rows) db =
        upsertRows rows (upsertRollup row.1 row.2.1 row.2.2 db) := rfl
    rw [hcons, ih, hasRow_upsert, List.exists_mem_cons_iff, or_left_comm, or_assoc]

theorem upsertRows_traces {rows : List RollupRow} : ∀ {db : Db},
    (upsertRows rows db).traces = db.traces := by
  induction rows with
  | nil => intro db; rfl
  | cons row rows ih =>
    intro db
    have hrows : (upsertRows rows (upsertRollup row.1 row.2.1 row.2.2 db)).traces =
        (upsertRollup row.1 row.2.1 row.2.2 db).traces := ih
    exact hrows

/-- Closing a due bucket: raw traces stay, rows stay, and a key without a row has
the bucket it had. -/
theorem closeDue_keeps {s : Store} (hok : BucketsOk s.buckets) (due : RollupKey) :
    BucketsOk (closeDue s due).buckets ∧ (closeDue s due).db.traces = s.db.traces ∧
      (∀ step key, HasRow s.db step key → HasRow (closeDue s due).db step key) ∧
      ∀ key, ¬HasRow (closeDue s due).db .ten key →
        openSamples (closeDue s due).buckets key = openSamples s.buckets key := by
  unfold closeDue
  rcases hget : s.buckets.get due with _ | bucket
  · exact ⟨hok, rfl, fun _ _ h => h, fun _ _ => rfl⟩
  · obtain ⟨stats, hstats, -⟩ := Bucket.stats_spec (hok due bucket hget).1
    have hclose : closeBucket s.db due bucket = upsertRows (rowsOf s.db due stats) s.db := by
      unfold closeBucket
      rw [hstats]
      rfl
    dsimp only
    rw [hclose]
    refine ⟨fun key b hkey => ?_, upsertRows_traces,
      fun step key h => hasRow_upsertRows.mpr (Or.inr h), fun key hno => ?_⟩
    · by_cases heq : key = due
      · rw [heq, Dict.get_erase_self] at hkey
        cases hkey
      · rw [Dict.get_erase_ne _ heq] at hkey
        exact hok key b hkey
    · have hne : key ≠ due := by
        rintro rfl
        exact hno (hasRow_upsertRows.mpr (Or.inl ⟨_, List.mem_cons_self .., rfl⟩))
      rw [openSamples, Dict.get_erase_ne _ hne, openSamples]

theorem closeAllDue_keeps (due : List RollupKey) : ∀ {s : Store}, BucketsOk s.buckets →
    BucketsOk (due.foldl closeDue s).buckets ∧ (due.foldl closeDue s).db.traces = s.db.traces ∧
      (∀ step key, HasRow s.db step key → HasRow (due.foldl closeDue s).db step key) ∧
      ∀ key, ¬HasRow (due.foldl closeDue s).db .ten key →
        openSamples (due.foldl closeDue s).buckets key = openSamples s.buckets key := by
  induction due with
  | nil => exact fun hok => ⟨hok, rfl, fun _ _ h => h, fun _ _ => rfl⟩
  | cons key due ih =>
    intro s hok
    obtain ⟨hok₁, htraces₁, hrows₁, hopen₁⟩ := closeDue_keeps hok key
    obtain ⟨hok₂, htraces₂, hrows₂, hopen₂⟩ := ih hok₁
    refine ⟨hok₂, htraces₂.trans htraces₁, fun step k h => hrows₂ step k (hrows₁ step k h),
      fun k hno => ?_⟩
    rw [List.foldl_cons, hopen₂ k hno]
    exact hopen₁ k fun h => hno (hrows₂ .ten k h)

/-- A batch inserts its kept traces and no others. -/
theorem insertBatch_traces {db : Db} {kept : List Trace} {logs : List LogEntry} {row : TraceRow}
    (h : row ∈ (insertBatch db kept logs).traces) :
    row ∈ db.traces ∨ ∃ t ∈ kept, t.toTraceColumns = row.toTraceColumns := by
  unfold insertBatch at h
  rw [foldl_keeps Db.traces Db.addLog fun _ _ => rfl,
    foldl_keeps Db.traces Db.addScore fun _ _ => rfl,
    foldl_keeps Db.traces Db.addObservation fun _ _ => rfl] at h
  induction kept generalizing db with
  | nil => exact Or.inl h
  | cons t kept ih =>
    rcases ih h with hrow | ⟨t', ht', heq⟩
    · rcases List.mem_append.mp hrow with hrow | hrow
      · exact Or.inl hrow
      · rw [List.mem_singleton.mp hrow]
        exact Or.inr ⟨t, List.mem_cons_self .., rfl⟩
    · exact Or.inr ⟨t', List.mem_cons_of_mem t ht', heq⟩

/-- What a committed batch keeps, and what it adds. -/
theorem batchEffect_keeps {s : Store} (hok : BucketsOk s.buckets) (batch : List Item)
    (closeAll : Bool) (now : ℚ) : BucketsOk (batchEffect batch closeAll now s).buckets ∧
      (∀ row ∈ (batchEffect batch closeAll now s).db.traces, row ∈ s.db.traces ∨
        ∃ t ∈ Item.traces batch, t.toTraceColumns = row.toTraceColumns) ∧
      (∀ step key, HasRow s.db step key →
        HasRow (batchEffect batch closeAll now s).db step key) ∧
      ∀ key, ¬HasRow (batchEffect batch closeAll now s).db .ten key →
        openSamples (batchEffect batch closeAll now s).buckets key = openSamples s.buckets key ++
          samplesOf (fun k => decide (k = key)) (Item.traces batch) := by
  have hwork := (sum_workOf (AddMonoidHom.id _) (fun _ => true) hok batch).1
  obtain ⟨hok', htraces, hrows, hopen⟩ := closeAllDue_keeps
    (dueOf (workOf s.buckets batch) closeAll now) (s := batchOpen batch s) hwork
  have heffect : batchEffect batch closeAll now s =
      (dueOf (workOf s.buckets batch) closeAll now).foldl closeDue (batchOpen batch s) := rfl
  rw [heffect]
  refine ⟨hok', fun row hrow => ?_, fun step key h => hrows step key ?_, fun key hno => ?_⟩
  · rw [htraces] at hrow
    rcases insertBatch_traces hrow with h | ⟨t, ht, heq⟩
    · exact Or.inl h
    · exact Or.inr ⟨t, (List.mem_filter.mp ht).1, heq⟩
  · unfold HasRow batchOpen loadRollupRow
    rw [insertBatch_metricRollup]
    exact h
  · exact (hopen key hno).trans (openSamples_workOf s.buckets batch key)

/-! ## The invariant -/

/-- The running writer still holds the sample of a row: it has committed the
trace, and the open bucket of the key holds the samples of all its traces. -/
def HeldOpen (env : WriterEnv) (row : TraceColumns) (key : RollupKey) : Prop :=
  (∃ t ∈ env.committed, t.toTraceColumns = row) ∧
    ∃ bucket, env.buckets.get key = some bucket ∧
      bucket.samples key.metric = samplesOf (fun k => decide (k = key)) env.committed

/-- A row of `traces` is rolled up: each of its keys has a 10 s row or an open
bucket that holds the sample. -/
def RolledUp (db : Db) (env : WriterEnv) (row : TraceColumns) : Prop :=
  ∀ c ∈ contributions row, HasRow db .ten c.1 ∨ HeldOpen env row c.1

/-- Where the raw traces come from, and where their samples are. `start` is the
database that the run starts with. -/
structure Sourced (floor : ℚ) (start db : Db) (env : WriterEnv) : Prop where
  /-- a raw trace was there at the start, or the writer has committed it -/
  origin : ∀ row ∈ db.traces, start.hasTrace row.id = true ∨
    ∃ t ∈ env.committed, t.toTraceColumns = row.toTraceColumns
  /-- rows of the start that are not old are still there -/
  rows : ∀ key : RollupKey, floor ≤ key.bucket → HasRow start .ten key → HasRow db .ten key
  /-- without a row, the open bucket of a key has all the samples of the run -/
  held : ∀ key : RollupKey, floor ≤ key.bucket → ¬HasRow db .ten key →
    openSamples env.buckets key = samplesOf (fun k => decide (k = key)) env.committed
  /-- the open buckets have the shape the program gives them -/
  buckets : BucketsOk env.buckets

variable {floor : ℚ} {start db : Db} {env : WriterEnv}

/-- A trace committed in this run is rolled up. -/
theorem Sourced.rolledUp (h : Sourced floor start db env) {row : TraceColumns}
    (hcommitted : ∃ t ∈ env.committed, t.toTraceColumns = row)
    (hfloor : floor ≤ floorBucket row.tsStart .ten) : RolledUp db env row := by
  intro c hc
  by_cases hrow : HasRow db .ten c.1
  · exact Or.inl hrow
  · refine Or.inr ⟨hcommitted, ?_⟩
    have hheld := h.held c.1 (by rwa [(mem_contributions hc).2]) hrow
    rcases hget : env.buckets.get c.1 with _ | bucket
    · -- without an open bucket there would be no sample of the key
      exfalso
      obtain ⟨t, ht, rfl⟩ := hcommitted
      have hmem : c.2 ∈ samplesOf (fun k => decide (k = c.1)) env.committed :=
        List.mem_map_of_mem (List.mem_filter.mpr
          ⟨List.mem_flatMap.mpr ⟨t, ht, hc⟩, decide_eq_true rfl⟩)
      rw [← hheld, openSamples, hget] at hmem
      cases hmem
    · refine ⟨bucket, rfl, ?_⟩
      rw [← hheld, openSamples, hget]
      rfl

/-- A key is settled: it has a row, or the running writer has committed every raw
trace of it. -/
def KeySettled (db : Db) (env : WriterEnv) (key : RollupKey) : Prop :=
  HasRow db .ten key ∨ ∀ row ∈ db.traces, ∀ c ∈ contributions row.toTraceColumns, c.1 = key →
    ∃ t ∈ env.committed, t.toTraceColumns = row.toTraceColumns

/-- The commits of the writer keep where traces come from, and settled keys. -/
theorem Sourced.writer (h : Sourced floor start db env) {c : WriterCommit} {r : Db × WriterEnv}
    (hc : c.run db env = some r) : Sourced floor start r.1 r.2 ∧
      ∀ key, KeySettled db env key → KeySettled r.1 r.2 key := by
  obtain ⟨hstore, hcom⟩ := WriterCommit.run_eq hc
  obtain ⟨hok, htraces, hrows, hopen⟩ :=
    batchEffect_keeps (s := ⟨db, env.buckets⟩) h.buckets c.batch c.closeAll c.now
  rw [← hstore] at hok htraces hrows hopen
  have horigin : ∀ row ∈ r.1.traces, row ∈ db.traces ∨
      ∃ t ∈ r.2.committed, t.toTraceColumns = row.toTraceColumns := by
    intro row hrow
    rcases htraces row hrow with hold | ⟨t, ht, heq⟩
    · exact Or.inl hold
    · exact Or.inr ⟨t, hcom ▸ List.mem_append_right _ ht, heq⟩
  have hmore : ∀ row : TraceColumns, (∃ t ∈ env.committed, t.toTraceColumns = row) →
      ∃ t ∈ r.2.committed, t.toTraceColumns = row :=
    fun row ⟨t, ht, heq⟩ => ⟨t, hcom ▸ List.mem_append_left _ ht, heq⟩
  refine ⟨⟨fun row hrow => ?_, fun key hfloor hstart => hrows .ten key (h.rows key hfloor hstart),
    fun key hfloor hno => ?_, hok⟩, fun key hkey => ?_⟩
  · rcases horigin row hrow with hold | hnew
    · exact (h.origin row hold).imp_right (hmore _)
    · exact Or.inr hnew
  · rw [hopen key hno, h.held key hfloor fun hrow => hno (hrows .ten key hrow), hcom,
      samplesOf_append]
  · rcases hkey with hrow | hall
    · exact Or.inl (hrows .ten key hrow)
    · refine Or.inr fun row hrow d hd hdk => ?_
      rcases horigin row hrow with hold | hnew
      · exact hmore _ (hall row hold d hd hdk)
      · exact hnew

/-! ## What a pass knows -/

/-- What the changes of a pass do: rows that are not old stay, and no raw trace is
added. -/
structure Shrinks (floor : ℚ) (db w : Db) : Prop where
  /-- the rows -/
  rows : ∀ key : RollupKey, floor ≤ key.bucket → HasRow db .ten key → HasRow w .ten key
  /-- the raw traces -/
  traces : ∀ row ∈ w.traces, row ∈ db.traces

theorem Shrinks.settled {w : Db} (h : Shrinks floor db w) {key : RollupKey}
    (hfloor : floor ≤ key.bucket) (hkey : KeySettled db env key) : KeySettled w env key :=
  hkey.imp (h.rows key hfloor) fun hall row hrow => hall row (h.traces row hrow)

theorem Shrinks.sourced {w : Db} (h : Shrinks floor db w) (hs : Sourced floor start db env) :
    Sourced floor start w env where
  origin row hrow := hs.origin row (h.traces row hrow)
  rows key hfloor hstart := h.rows key hfloor (hs.rows key hfloor hstart)
  held key hfloor hno := hs.held key hfloor fun hrow => hno (h.rows key hfloor hrow)
  buckets := hs.buckets

namespace PassPoint

/-- The rows that both queries of `_pending_keys` have returned, once they have
and as long as they matter. -/
def scanned : PassPoint → Option (List TraceRow)
  | buildLoad rows _ _ _ | gather rows _ _ _ | build rows _ _ _ _ | children rows _ _ _
  | loadParent rows _ _ _ _ | parent rows _ _ _ _ | commitRollups rows _ | chunk rows _ _
  | commitChunk rows _ _ _ => some rows
  | scanAge | scanCap _ | lastCommit _ | done _ => none

/-- The pending keys that `_build_pending` has not looked at yet. -/
def unbuilt : PassPoint → List RollupKey
  | buildLoad _ key todo _ | gather _ key todo _ | build _ key _ todo _ => key :: todo
  | _ => []

/-- The pending keys, but the unbuilt ones, are settled. -/
def Knows (floor : ℚ) (db : Db) (env : WriterEnv) (pass : Pass) (point : PassPoint) : Prop :=
  ∀ rows, point.scanned = some rows → ∀ key ∈ pendingKeys pass rows, floor ≤ key.bucket →
    key ∈ point.unbuilt ∨ KeySettled db env key

variable {pass : Pass} {rows : List TraceRow} {counts : PassCounts}

theorem knows_cascading {todo : List RollupPk}
    (h : ∀ key ∈ pendingKeys pass rows, floor ≤ key.bucket → KeySettled db env key) :
    (cascading rows todo counts).Knows floor db env pass := by
  intro rows' hrows key hkey hfloor
  refine Or.inr (h key ?_ hfloor)
  cases todo with
  | nil => exact Option.some.inj hrows ▸ hkey
  | cons pk todo => exact Option.some.inj hrows ▸ hkey

theorem knows_building {todo : List RollupKey}
    (h : ∀ key ∈ pendingKeys pass rows, floor ≤ key.bucket →
      key ∈ todo ∨ KeySettled db env key) :
    (building pass rows todo counts).Knows floor db env pass := by
  cases todo with
  | nil =>
    refine knows_cascading fun key hkey hfloor => ?_
    rcases h key hkey hfloor with hnil | hsettled
    · cases hnil
    · exact hsettled
  | cons key todo =>
    intro rows' hrows k hk hfloor
    exact h k (Option.some.inj hrows ▸ hk) hfloor

theorem knows_afterChunk {loop : Chunk} {n : ℕ}
    (h : ∀ key ∈ pendingKeys pass rows, floor ≤ key.bucket → KeySettled db env key) :
    (afterChunk rows loop n counts).Knows floor db env pass := by
  intro rows' hrows key hkey hfloor
  refine Or.inr (h key ?_ hfloor)
  unfold afterChunk at hrows
  split at hrows
  · cases hnext : loop.next with
    | none => rw [hnext] at hrows; cases hrows
    | some loop' => rw [hnext] at hrows; exact Option.some.inj hrows ▸ hkey
  · exact Option.some.inj hrows ▸ hkey

/-- Once nothing is unbuilt, everything pending is settled. -/
theorem Knows.settled {point : PassPoint} (h : point.Knows floor db env pass)
    (hscanned : point.scanned = some rows) (hbuilt : point.unbuilt = []) :
    ∀ key ∈ pendingKeys pass rows, floor ≤ key.bucket → KeySettled db env key := by
  intro key hkey hfloor
  rcases h rows hscanned key hkey hfloor with hun | hsettled
  · rw [hbuilt] at hun
    cases hun
  · exact hsettled

/-- When the first unbuilt key is settled, the others are left. -/
theorem Knows.tail {point : PassPoint} {key : RollupKey} {todo : List RollupKey}
    (h : point.Knows floor db env pass) (hscanned : point.scanned = some rows)
    (hunbuilt : point.unbuilt = key :: todo) (hkey : KeySettled db env key) :
    ∀ k ∈ pendingKeys pass rows, floor ≤ k.bucket → k ∈ todo ∨ KeySettled db env k := by
  intro k hk hfloor
  rcases h rows hscanned k hk hfloor with hun | hsettled
  · rw [hunbuilt] at hun
    rcases List.mem_cons.mp hun with rfl | hmem
    · exact Or.inr hkey
    · exact Or.inl hmem
  · exact Or.inr hsettled

end PassPoint

open PassPoint

/-- `_gather_stats` finds every trace of its key. -/
theorem gathered_of_mem {row : TraceRow} {c : RollupKey × ℚ}
    (hc : c ∈ contributions row.toTraceColumns) : gathered c.1 row = true := by
  have hle := floorBucket_le row.tsStart .ten
  have hlt := lt_floorBucket_add row.tsStart .ten
  have hwindow : decide ((c.1.bucket : ℚ) ≤ row.tsStart ∧
      row.tsStart < (c.1.bucket : ℚ) + RollupStep.ten.seconds) = true := by
    rw [(mem_contributions hc).2]
    exact decide_eq_true ⟨hle, hlt⟩
  unfold gathered
  rw [hwindow, Bool.true_and]
  unfold contributions at hc
  rw [List.cons_append, List.mem_cons, List.mem_append, List.mem_cons, List.mem_singleton] at hc
  rcases hc with rfl | hc | rfl | rfl
  · exact decide_eq_true ⟨rfl, rfl⟩
  · split at hc
    · rw [List.mem_singleton.mp hc]
      exact decide_eq_true rfl
    · cases hc
  · exact decide_eq_true ⟨rfl, rfl⟩
  · exact decide_eq_true ⟨rfl, rfl⟩

/-- It finds something where a trace of the key is. -/
theorem gatherStats_ne_none {row : TraceRow} (hrow : row ∈ db.traces) {c : RollupKey × ℚ}
    (hc : c ∈ contributions row.toTraceColumns) : gatherStats db c.1 ≠ none := by
  intro h
  have hmem : row ∈ db.traces.filter (gathered c.1) :=
    List.mem_filter.mpr ⟨hrow, gathered_of_mem hc⟩
  unfold gatherStats at h
  generalize db.traces.filter (gathered c.1) = rows at h hmem
  rcases rows with _ | ⟨row', rows⟩
  · cases hmem
  · rcases hm : c.1.metric.isCounter with - | - <;> simp [hm] at h

/-- When it finds nothing, no raw trace of the key is left. -/
theorem settled_of_gather {key : RollupKey} (h : gatherStats db key = none) :
    KeySettled db env key := by
  refine Or.inr fun row hrow c hc hkey => ?_
  exact absurd (hkey ▸ h) (gatherStats_ne_none hrow hc)

/-- A query of a pass keeps what it knows. -/
theorem knows_select {order : ScanOrder} {pass : Pass} {point : PassPoint} {k : Db → PassPoint}
    (h : point.Knows floor db env pass)
    (hcode : passCode order pass point = some (.select k)) :
    (k db).Knows floor db env pass := by
  cases point with
  | scanAge =>
    obtain rfl := Wal.Stmt.select.inj (Option.some.inj hcode)
    exact fun rows hrows => by cases hrows
  | scanCap rows =>
    obtain rfl := Wal.Stmt.select.inj (Option.some.inj hcode)
    exact knows_building fun key hkey _ => Or.inl hkey
  | buildLoad rows key todo counts =>
    obtain rfl := Wal.Stmt.select.inj (Option.some.inj hcode)
    dsimp only
    split
    · rename_i row hrow
      exact knows_building (h.tail rfl rfl (Or.inl (by rw [HasRow, hrow]; rfl)))
    · exact h
  | gather rows key todo counts =>
    obtain rfl := Wal.Stmt.select.inj (Option.some.inj hcode)
    dsimp only
    split
    · rename_i hnone
      exact knows_building (h.tail rfl rfl (settled_of_gather hnone))
    · exact h
  | children rows pk todo counts =>
    obtain rfl := Wal.Stmt.select.inj (Option.some.inj hcode)
    dsimp only
    split
    · exact knows_cascading (h.settled rfl rfl)
    · exact h
  | loadParent rows pk kids todo counts =>
    obtain rfl := Wal.Stmt.select.inj (Option.some.inj hcode)
    dsimp only
    split
    · split
      · exact knows_cascading (h.settled rfl rfl)
      · exact h
    · exact h
  | _ => cases hcode

/-- Chunks delete raw traces and old rows only. -/
theorem shrinks_chunk (order : ScanOrder) {pass : Pass} (hcut : pass.rollupCutoff ≤ floor)
    (loop : Chunk) : Shrinks floor db (loop.run order pass db).1 := by
  constructor
  · intro key hfloor hrow
    rcases chunk_metricRollup order pass db loop with hsame | ⟨victims, hold, hfilter⟩
    · rwa [HasRow, loadRollupRow, hsame]
    · obtain ⟨row, hget⟩ := Option.isSome_iff_exists.mp hrow
      rw [HasRow, loadRollupRow, hfilter, Dict.get_filter hget]
      · rfl
      · have hnot : key.bucket ∉ victims := fun hmem =>
          absurd (hold _ hmem) (not_lt.mpr (hcut.trans hfloor))
        simp [hnot]
  · intro row hrow
    cases loop with
    | traces => exact (List.mem_filter.mp hrow).1
    | _ => exact hrow

theorem shrinks_upsert (step : RollupStep) (key : RollupKey) (stats : Stats) :
    Shrinks floor db (upsertRollup step key stats db) :=
  ⟨fun _ _ hrow => hasRow_upsert.mpr (Or.inr hrow), fun _ hrow => hrow⟩

theorem shrinks_writeParent (pk : RollupPk) (kids : List Stats) :
    Shrinks floor db (writeParent pk kids db) := by
  unfold writeParent
  split
  · exact ⟨fun _ _ hrow => hrow, fun _ hrow => hrow⟩
  · exact shrinks_upsert pk.1 pk.2 _

/-- What a pass knows survives changes. -/
theorem Shrinks.knows {w : Db} (hw : Shrinks floor db w) {pass : Pass} {point : PassPoint}
    (h : point.Knows floor db env pass) : point.Knows floor w env pass :=
  fun rows hrows key hkey hfloor =>
    (h rows hrows key hkey hfloor).imp_right (hw.settled hfloor)

/-- A change of a pass shrinks the database and keeps what the pass knows. -/
theorem knows_dml {order : ScanOrder} {pass : Pass} (hcut : pass.rollupCutoff ≤ floor)
    {point : PassPoint} {u : Db → Db} {k : Db → PassPoint} (h : point.Knows floor db env pass)
    (hcode : passCode order pass point = some (.dml u k)) :
    Shrinks floor db (u db) ∧ (k db).Knows floor (u db) env pass := by
  cases point with
  | build rows key stats todo counts =>
    obtain ⟨rfl, rfl⟩ := Wal.Stmt.dml.inj (Option.some.inj hcode)
    have hw : Shrinks floor db (upsertRollup .ten key stats db) := shrinks_upsert .ten key stats
    exact ⟨hw, knows_building ((hw.knows h).tail rfl rfl
      (Or.inl (hasRow_upsert.mpr (Or.inl rfl))))⟩
  | parent rows pk kids todo counts =>
    obtain ⟨rfl, rfl⟩ := Wal.Stmt.dml.inj (Option.some.inj hcode)
    have hw : Shrinks floor db (writeParent pk kids db) := shrinks_writeParent pk kids
    exact ⟨hw, knows_cascading ((hw.knows h).settled rfl rfl)⟩
  | chunk rows loop counts =>
    obtain ⟨rfl, rfl⟩ := Wal.Stmt.dml.inj (Option.some.inj hcode)
    have hw : Shrinks floor db (loop.run order pass db).1 := shrinks_chunk order hcut loop
    exact ⟨hw, hw.knows h⟩
  | _ => cases hcode

/-- A commit of a pass keeps what it knows. -/
theorem knows_commit {order : ScanOrder} {pass : Pass} {point k : PassPoint}
    (h : point.Knows floor db env pass) (hcode : passCode order pass point = some (.commit k)) :
    k.Knows floor db env pass := by
  obtain ⟨rows, loop, n, counts, rfl, rfl⟩ | ⟨rows, counts, rfl, rfl⟩ | ⟨counts, rfl, rfl⟩ :=
    passCode_commit hcode
  · exact knows_afterChunk (h.settled rfl rfl)
  · exact h
  · exact fun rows hrows => by cases hrows

/-! ## Every interleaving -/

/-- The proof outline; no statement has to be ruled out. -/
def sourceDiscipline (order : ScanOrder) (floor : ℚ) (start : Db) :
    Wal.Discipline (retention order floor) (fun _ _ _ => True) where
  I := Sourced floor start
  Knows db env p := p.pass.rollupCutoff ≤ floor ∧ p.point.Knows floor db env p.pass
  Grows := Shrinks floor
  trans h h' := ⟨fun key hfloor hrow => h'.rows key hfloor (h.rows key hfloor hrow),
    fun row hrow => h.traces row (h'.traces row hrow)⟩
  stable hw h := ⟨h.1, hw.knows h.2⟩
  start _ hstart := by
    obtain ⟨hpoint, hcut⟩ := retention_start hstart
    refine ⟨hcut, fun rows hrows => ?_⟩
    rw [hpoint] at hrows
    cases hrows
  select _ hK hcode _ := by
    obtain ⟨k, hpass, rfl⟩ := Wal.Stmt.map_eq_select hcode
    exact ⟨hK.1, knows_select hK.2 hpass⟩
  dml hI hK hcode _ := by
    obtain ⟨k, hpass, rfl⟩ := Wal.Stmt.map_eq_dml hcode
    obtain ⟨hw, hk⟩ := knows_dml hK.1 hK.2 hpass
    exact ⟨hw.sourced hI, hw, hK.1, hk⟩
  commit _ hK hcode := by
    obtain ⟨k, hpass, rfl⟩ := Wal.Stmt.map_eq_commit hcode
    exact ⟨hK.1, knows_commit hK.2 hpass⟩
  rollback _ hcode := absurd hcode (retention_noRollback _)
  ext hI hc := by
    obtain ⟨hI', hsettled⟩ := hI.writer hc
    exact ⟨hI', fun q hq => ⟨hq.1, fun rows hrows key hkey hfloor =>
      (hq.2 rows hrows key hkey hfloor).imp_right (hsettled key)⟩⟩

/-- The writer has just started on `start`: nothing open, nothing committed, no
pass running. -/
def RetentionWorld.restarted (start : Db) : RetentionWorld := ⟨start, {}, none, []⟩

theorem sourced_restarted (floor : ℚ) (start : Db) : Sourced floor start start {} where
  origin row hrow := Or.inl (List.any_eq_true.mpr ⟨row, hrow, beq_self_eq_true _⟩)
  rows _ _ h := h
  held _ _ _ := rfl
  buckets _ _ h := by cases h

/-- What the next `DELETE` of a pass that has scanned `rows` takes, of what the run
started with, stays within the scan: each of its keys had a row at the start or
is among the pending keys. -/
def WithinScan (order : ScanOrder) (floor : ℚ) (start db : Db) (pass : Pass)
    (rows : List TraceRow) : Prop :=
  ∀ row ∈ db.traces, row.rowid ∈ traceVictims order pass db →
    floor ≤ floorBucket row.tsStart .ten → start.hasTrace row.id = true →
    ∀ c ∈ contributions row.toTraceColumns,
      HasRow start .ten c.1 ∨ c.1 ∈ pendingKeys pass rows

instance (order : ScanOrder) (floor : ℚ) (start db : Db) (pass : Pass) (rows : List TraceRow) :
    Decidable (WithinScan order floor start db pass rows) :=
  inferInstanceAs (Decidable (∀ _ ∈ _, _ → _ → _ → ∀ _ ∈ _, _))

/-- **Nothing is pruned before it is rolled up, within the scan.** From any
database, through every interleaving: when a pass is about to delete a chunk of
traces that stays within its scan, each of them whose bucket is not old is rolled
up. -/
theorem pruned_rolled_up {order : ScanOrder} {floor : ℚ} {start : Db} {s : RetentionWorld}
    (hreach : ((retention order floor).machine (· = RetentionWorld.restarted start)).Reachable s)
    {i : ℕ} {pass : Pass} {rows : List TraceRow} {counts : PassCounts}
    (hpc : Wal.Client.pcOf s i = some ⟨pass, .chunk rows .traces counts⟩)
    (hscan : WithinScan order floor start (s.view i) pass rows) :
    ∀ row ∈ (s.view i).traces, row.rowid ∈ traceVictims order pass (s.view i) →
      floor ≤ floorBucket row.tsStart .ten → RolledUp (s.view i) s.env row.toTraceColumns := by
  obtain ⟨s₀, es, rfl, hrun⟩ := hreach
  have hstart :
      (sourceDiscipline order floor start).outline.Holds (RetentionWorld.restarted start) :=
    ⟨sourced_restarted floor start, fun i p hp => (by cases hp),
      fun j w hw => (by cases hw)⟩
  have hok : ∀ e ∈ es, Wal.Allowed (fun _ _ _ => True) e.pre e.act := by
    intro e _
    cases e.act with
    | stmt i => exact fun _ _ => trivial
    | _ => trivial
  have hholds := ((sourceDiscipline order floor start).outline.sound hrun hstart hok).1
  obtain ⟨hI, -, hknows⟩ := (sourceDiscipline order floor start).view hholds hpc
  intro row hrow hvictim hfloor
  -- a row was there at the restart, or a commit of the run stored it and rolled it up
  rcases hI.origin row hrow with hold | hnew
  · intro c hc
    have hbucket : floor ≤ c.1.bucket := by rwa [(mem_contributions hc).2]
    rcases hscan row hrow hvictim hfloor hold c hc with hhad | hpending
    · exact Or.inl (hI.rows c.1 hbucket hhad)
    · rcases hknows.settled rfl rfl c.1 hpending hbucket with hrow' | hall
      · exact Or.inl hrow'
      · exact hI.rolledUp (hall row hrow c hc rfl) hfloor c hc
  · exact hI.rolledUp hnew hfloor

/-- A database with one trace that no rollup row counts, as a crash leaves it. -/
def crashed : Db := { traces := [⟨(sampleTrace 200).toTraceColumns, 1⟩] }

/-- The commit of a newer trace, in a bucket that stays open. -/
def newerTrace : Wal.Act PassPc WriterCommit :=
  .ext ⟨[⟨0, .trace { sampleTrace 200 with id := py "00000002", tsStart := 200 }⟩], false, 200, []⟩

/-- A pass that keeps one trace, with the newer trace committed before its queries
or after them, up to its first `DELETE`. -/
def passWith (before : Bool) : List (Wal.Act PassPc WriterCommit) :=
  let scan := [.connect ⟨⟨1, 1, 0, 0, 0, 0⟩, .scanAge⟩, .stmt 0, .stmt 0]
  if before then newerTrace :: scan ++ List.replicate 28 (.stmt 0)
  else scan ++ [newerTrace, .stmt 0]

/-- `P` holds of the `DELETE` of `_prune_traces` that connection `i` is about to
run. -/
def atDelete (s : RetentionWorld) (i : ℕ) (P : Pass → List TraceRow → Bool) : Bool :=
  match Wal.Client.pcOf s i with
  | some ⟨pass, .chunk rows .traces _⟩ => P pass rows
  | _ => false

theorem atDelete_spec {s : RetentionWorld} {i : ℕ} {P : Pass → List TraceRow → Bool}
    (h : atDelete s i P = true) : ∃ pass rows counts,
      Wal.Client.pcOf s i = some ⟨pass, .chunk rows .traces counts⟩ ∧ P pass rows = true := by
  unfold atDelete at h
  split at h
  · rename_i hpc
    exact ⟨_, _, _, hpc, h⟩
  · cases h

/-- With the newer trace committed after the queries, the old one is deleted and
counted nowhere. -/
theorem pushed_past_cap_lost : ∃ s i pass rows counts,
    ((retention .insertion 0).machine (· = RetentionWorld.restarted crashed)).Reachable s ∧
    Wal.Client.pcOf s i = some ⟨pass, .chunk rows .traces counts⟩ ∧
    ∃ row ∈ (s.view i).traces, row.rowid ∈ traceVictims .insertion pass (s.view i) ∧
      (0 : ℚ) ≤ floorBucket row.tsStart .ten ∧
      ¬RolledUp (s.view i) s.env row.toTraceColumns := by
  have hend : (((retention .insertion 0).machine (· = RetentionWorld.restarted crashed)).exec
      (RetentionWorld.restarted crashed) (passWith false)).any (fun s => atDelete s 0 fun pass _ =>
        decide (∃ row ∈ (s.view 0).traces, row.rowid ∈ traceVictims .insertion pass (s.view 0) ∧
          (0 : ℚ) ≤ floorBucket row.tsStart .ten ∧ ∃ c ∈ contributions row.toTraceColumns,
            ¬HasRow (s.view 0) .ten c.1 ∧ c.1 ∉ s.env.buckets.keys)) = true := by
    decide +kernel
  obtain ⟨s, hexec, hs⟩ := (Option.any_eq_true _ _).mp hend
  obtain ⟨es, hrun, -⟩ := Machine.Run.of_exec hexec
  obtain ⟨pass, rows, counts, hpc, hdelete⟩ := atDelete_spec hs
  obtain ⟨row, hrow, hvictim, hfloor, c, hc, hno, hclosed⟩ := of_decide_eq_true hdelete
  refine ⟨s, 0, pass, rows, counts, ⟨_, es, rfl, hrun⟩, hpc, row, hrow, hvictim, hfloor,
    fun hrolled => ?_⟩
  rcases hrolled c hc with hhas | ⟨-, bucket, hbucket, -⟩
  · exact hno hhas
  · exact hclosed (Dict.mem_keys.mpr ⟨bucket, hbucket⟩)

/-- With the newer trace committed before, the old one is rolled up first. -/
theorem pushed_past_cap_rolled_up : ∃ s i pass rows counts,
    ((retention .insertion 0).machine (· = RetentionWorld.restarted crashed)).Reachable s ∧
    Wal.Client.pcOf s i = some ⟨pass, .chunk rows .traces counts⟩ ∧
    (traceVictims .insertion pass (s.view i)).length = 1 ∧
    ∀ row ∈ (s.view i).traces, row.rowid ∈ traceVictims .insertion pass (s.view i) →
      (0 : ℚ) ≤ floorBucket row.tsStart .ten →
      RolledUp (s.view i) s.env row.toTraceColumns := by
  have hend : (((retention .insertion 0).machine (· = RetentionWorld.restarted crashed)).exec
      (RetentionWorld.restarted crashed) (passWith true)).any (fun s =>
      atDelete s 0 fun pass rows =>
        decide ((traceVictims .insertion pass (s.view 0)).length = 1 ∧
          WithinScan .insertion 0 crashed (s.view 0) pass rows)) = true := by
    decide +kernel
  obtain ⟨s, hexec, hs⟩ := (Option.any_eq_true _ _).mp hend
  obtain ⟨es, hrun, -⟩ := Machine.Run.of_exec hexec
  obtain ⟨pass, rows, counts, hpc, hdelete⟩ := atDelete_spec hs
  obtain ⟨hone, hscan⟩ := of_decide_eq_true hdelete
  have hreach := (⟨_, es, rfl, hrun⟩ :
    ((retention .insertion 0).machine (· = RetentionWorld.restarted crashed)).Reachable s)
  exact ⟨s, 0, pass, rows, counts, hreach, hpc, hone, pruned_rolled_up hreach hpc hscan⟩

end LayaWatch
