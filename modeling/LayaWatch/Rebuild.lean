import LayaWatch.RetentionSafety
import LayaWatch.Accounting

/-!
# Does retention rebuild the writer's rows?

Before a pass deletes traces, it rebuilds the 10 s rows they contribute to, in
SQL, where the writer groups in Python. Both come down to the samples of a key:
`gatherStats` to those of the rows it finds (`gatherStats_eq`), the writer to
those it has accumulated (`closedRow_eq`), and a row is found for a key exactly
when it contributes to it (`samples_gathered`). So both give the same row for
every set of traces, provided the key is one that a trace can contribute to, as
all keys of `_pending_keys` are. For the others `_gather_stats` counts traces
that have no such key (`rebuild_agrees`).
-/

namespace LayaWatch

/-! ## The writer's rows -/

/-- The open buckets after exactly these traces. -/
def bucketsOf (traces : List Trace) : Buckets := traces.foldl accumulate Dict.empty

/-- The 10 s row with which the bucket of a key is closed, where there is none
yet. -/
def closedRow (traces : List Trace) (key : RollupKey) : Option Stats :=
  ((bucketsOf traces).get key).bind fun bucket =>
    loadRollupRow (closeBucket Db.fresh key bucket) .ten key

/-- The table holds exactly these traces. -/
def Db.Holds (db : Db) (traces : List Trace) : Prop :=
  (db.traces.map TraceRow.toTraceColumns).Perm (traces.map Trace.toTraceColumns)

/-- What `_gather_stats` rebuilds is what the writer would write. -/
structure Agrees (db : Db) (traces : List Trace) (key : RollupKey) : Prop where
  /-- the same row -/
  row : gatherStats db key = closedRow traces key
  /-- and none where the writer has no entry -/
  entry : gatherStats db key = none ↔ (bucketsOf traces).get key = none

/-- The key is one that a trace can contribute to. -/
def RollupKey.Formed (key : RollupKey) : Prop :=
  RollupStep.ten.seconds ∣ key.bucket ∧
  match key.metric with
  | .errors => key.model = [] ∧ key.route = [] ∧ 400 ≤ key.status
  | _ => key.status = 0

/-- The traces that both prune predicates select, in buckets past the rollup
cutoff. -/
def prunedTraces (pass : Pass) (db : Db) : List Trace :=
  (db.traces.filter fun row => doomed pass db row &&
    !decide ((floorBucket row.tsStart .ten : ℚ) < pass.rollupCutoff)).map fun row =>
      ⟨row.toTraceColumns, [], []⟩

/-! ## Samples -/

/-- The statistics of the samples of a metric; none when there is no sample. -/
def statsOfSamples (metric : Metric) (values : List ℚ) : Option Stats :=
  if values.isEmpty then none
  else some (if metric.isCounter then counterStats values.length else (summarize values).toStats)

theorem statsOfSamples_eq_none {metric : Metric} {values : List ℚ} :
    statsOfSamples metric values = none ↔ values = [] := by
  unfold statsOfSamples
  split
  · next h => exact iff_of_true rfl (List.isEmpty_iff.mp h)
  · next h => exact iff_of_false (Option.some_ne_none _) fun heq => h (List.isEmpty_iff.mpr heq)

theorem statsOfSamples_perm {metric : Metric} {values values' : List ℚ}
    (h : values.Perm values') : statsOfSamples metric values = statsOfSamples metric values' := by
  unfold statsOfSamples
  rw [h.isEmpty_eq, h.length_eq, summarize_perm h]

/-- The statistics of a bucket are those of its samples. -/
theorem Bucket.stats_eq (metric : Metric) (bucket : Bucket) :
    bucket.stats metric = statsOfSamples metric (bucket.samples metric) := by
  unfold Bucket.stats Bucket.samples statsOfSamples
  rcases metric.isCounter with - | -
  · rfl
  · rcases bucket.n with _ | n
    · rfl
    · simp [List.replicate_succ]

/-- The open bucket of a key holds its samples, and is there when there is one. -/
theorem bucketsOf_spec (traces : List Trace) (key : RollupKey) :
    BucketsOk (bucketsOf traces) ∧ openSamples (bucketsOf traces) key = keySamples key traces := by
  have hbatch : Item.traces (traces.map fun t => ⟨0, .trace t⟩) = traces := by
    induction traces with
    | nil => rfl
    | cons t traces ih => exact congrArg (t :: ·) ih
  have hwork : bucketsOf traces = workOf Dict.empty (traces.map fun t => ⟨0, .trace t⟩) := by
    rw [workOf, hbatch]
    rfl
  have hempty : BucketsOk Dict.empty := fun key bucket h => by cases h
  rw [hwork]
  refine ⟨(sum_workOf (AddMonoidHom.id _) (fun _ => true) hempty _).1, ?_⟩
  rw [openSamples_workOf, hbatch]
  rfl

/-- The row that the writer closes a key with, by its samples. -/
theorem closedRow_eq (traces : List Trace) (key : RollupKey) :
    closedRow traces key = statsOfSamples key.metric (keySamples key traces) ∧
      ((bucketsOf traces).get key = none ↔ keySamples key traces = []) := by
  obtain ⟨hok, hsamples⟩ := bucketsOf_spec traces key
  rw [← hsamples]
  unfold closedRow openSamples
  rcases hget : (bucketsOf traces).get key with _ | bucket
  · exact ⟨rfl, iff_of_true rfl rfl⟩
  · have hne := (hok key bucket hget).1
    obtain ⟨stats, hstats, -⟩ := Bucket.stats_spec hne
    refine ⟨?_, iff_of_false (Option.some_ne_none bucket) hne⟩
    rw [Option.bind_some, Option.map_some, Option.getD_some, ← Bucket.stats_eq, hstats]
    have hload : loadRollupRow (closeBucket Db.fresh key bucket) .ten key = some stats := by
      simp only [closeBucket, hstats, rowsOf, RollupStep.parents, List.map_cons, List.map_nil,
        List.foldl_cons, List.foldl_nil]
      rw [loadRollupRow_upsert_ne (by simp), loadRollupRow_upsert_ne (by simp),
        loadRollupRow_upsert_self]
      rfl
    exact hload

/-! ## The rows that retention finds -/

/-- The sample of a metric. -/
def Metric.sample (metric : Metric) (t : TraceColumns) : ℚ :=
  if metric.isCounter then 1 else if metric = .latency then t.durationMs else t.queueMs

/-- What `_gather_stats` rebuilds, by the samples of the rows it finds. -/
theorem gatherStats_eq (db : Db) (key : RollupKey) : gatherStats db key =
    statsOfSamples key.metric
      ((db.traces.filter (gathered key)).map fun row => key.metric.sample row.toTraceColumns) := by
  unfold gatherStats statsOfSamples Metric.sample
  generalize db.traces.filter (gathered key) = rows
  rcases rows with _ | ⟨row, rows⟩
  · rcases key.metric.isCounter with - | - <;> rfl
  · rcases key.metric.isCounter with - | -
    · rfl
    · simp

/-- The key of a contribution is formed, and its sample is that of its metric. -/
theorem contributions_formed {t : TraceColumns} {c : RollupKey × ℚ} (hc : c ∈ contributions t) :
    c.1.Formed ∧ c.2 = c.1.metric.sample t := by
  have halign : RollupStep.ten.seconds ∣ c.1.bucket :=
    (mem_contributions hc).2 ▸ seconds_dvd_floorBucket t.tsStart .ten
  unfold contributions at hc
  rw [List.cons_append, List.mem_cons, List.mem_append, List.mem_cons, List.mem_singleton] at hc
  rcases hc with rfl | hc | rfl | rfl
  · exact ⟨⟨halign, rfl⟩, rfl⟩
  · split at hc
    · next hstatus =>
      obtain rfl := List.mem_singleton.mp hc
      exact ⟨⟨halign, rfl, rfl, hstatus⟩, rfl⟩
    · cases hc
  · exact ⟨⟨halign, rfl⟩, rfl⟩
  · exact ⟨⟨halign, rfl⟩, rfl⟩

/-- A formed key is found for exactly the rows that contribute to it. -/
theorem gathered_iff {key : RollupKey} (hkey : key.Formed) (row : TraceRow) :
    gathered key row = true ↔ key ∈ (contributions row.toTraceColumns).map Prod.fst := by
  constructor
  · intro h
    obtain ⟨halign, hdims⟩ := hkey
    obtain ⟨hwindow, hmatch⟩ := Bool.and_eq_true_iff.mp h
    have hbucket := (floorBucket_eq_iff halign).mpr (of_decide_eq_true hwindow)
    obtain ⟨bucket, metric, model, route, status⟩ := key
    cases metric with
    | errors =>
      obtain ⟨rfl, rfl, hstatus⟩ := hdims
      obtain rfl : row.status = status := of_decide_eq_true hmatch
      simp only [contributions, if_pos hstatus, hbucket]
      simp
    | _ =>
      obtain rfl : status = 0 := hdims
      obtain ⟨rfl, rfl⟩ := of_decide_eq_true hmatch
      simp [contributions, hbucket]
  · intro h
    obtain ⟨c, hc, rfl⟩ := List.mem_map.mp h
    exact gathered_of_mem hc

/-- What a row contributes to a key is one sample, or nothing. -/
theorem contributions_filter (key : RollupKey) (t : TraceColumns) :
    ((contributions t).filter fun c => decide (c.1 = key)).map Prod.snd =
      if key ∈ (contributions t).map Prod.fst then [key.metric.sample t] else [] := by
  have hnodup : ((contributions t).map Prod.fst).Nodup := by
    have h := metrics_nodup t
    rw [show (fun c : RollupKey × ℚ => c.1.metric) = RollupKey.metric ∘ Prod.fst from rfl,
      ← List.map_map] at h
    exact h.of_map _
  have hsample : ∀ c ∈ contributions t, c.2 = c.1.metric.sample t :=
    fun c hc => (contributions_formed hc).2
  generalize contributions t = cs at hnodup hsample ⊢
  induction cs with
  | nil => rfl
  | cons c cs ih =>
    obtain ⟨hnew, hnodup⟩ := List.nodup_cons.mp hnodup
    have hrest := ih hnodup fun d hd => hsample d (List.mem_cons_of_mem c hd)
    by_cases hkey : c.1 = key
    · subst hkey
      rw [if_neg hnew] at hrest
      rw [List.filter_cons_of_pos (by simp), List.map_cons, hrest,
        if_pos (List.mem_map_of_mem (List.mem_cons_self ..)), hsample c (List.mem_cons_self ..)]
    · rw [List.filter_cons_of_neg (by simp [hkey]), hrest]
      simp only [List.map_cons, List.mem_cons, Ne.symm hkey, false_or]

/-- The trace contributes to the key. -/
def contributes (key : RollupKey) (t : TraceColumns) : Bool :=
  decide (key ∈ (contributions t).map Prod.fst)

/-- The samples of a key are those of the traces that contribute to it. -/
theorem keySamples_eq (key : RollupKey) (traces : List Trace) : keySamples key traces =
    ((traces.map Trace.toTraceColumns).filter (contributes key)).map key.metric.sample := by
  unfold keySamples samplesOf
  induction traces with
  | nil => rfl
  | cons t traces ih =>
    rw [List.flatMap_cons, List.filter_append, List.map_append, ih, contributions_filter,
      List.map_cons, List.filter_cons]
    by_cases hkey : key ∈ (contributions t.toTraceColumns).map Prod.fst
    · have hcontributes : contributes key t.toTraceColumns = true := decide_eq_true hkey
      rw [if_pos hkey, if_pos hcontributes]
      rfl
    · have hcontributes : ¬contributes key t.toTraceColumns = true :=
        fun h => hkey (of_decide_eq_true h)
      rw [if_neg hkey, if_neg hcontributes]
      rfl

/-- So are the samples that retention finds, for a formed key. -/
theorem samples_gathered {key : RollupKey} (hkey : key.Formed) (db : Db) :
    ((db.traces.filter (gathered key)).map fun row => key.metric.sample row.toTraceColumns) =
      ((db.traces.map TraceRow.toTraceColumns).filter (contributes key)).map
        key.metric.sample := by
  have hfilter : db.traces.filter (gathered key) =
      db.traces.filter (contributes key ∘ TraceRow.toTraceColumns) :=
    List.filter_congr fun row _ => Bool.eq_iff_iff.mpr
      ((gathered_iff hkey row).trans decide_eq_true_iff.symm)
  rw [hfilter, List.filter_map, List.map_map]
  rfl

/-! ## Agreement -/

/-- For a formed key, retention rebuilds the row of the writer. -/
theorem agrees_of_formed {key : RollupKey} (hkey : key.Formed) {db : Db} {traces : List Trace}
    (h : db.Holds traces) : Agrees db traces key := by
  obtain ⟨hrow, hentry⟩ := closedRow_eq traces key
  have hsamples : ((db.traces.filter (gathered key)).map fun row =>
      key.metric.sample row.toTraceColumns).Perm (keySamples key traces) := by
    rw [samples_gathered hkey, keySamples_eq]
    exact (h.filter _).map _
  have hsame : gatherStats db key = statsOfSamples key.metric (keySamples key traces) :=
    (gatherStats_eq db key).trans (statsOfSamples_perm hsamples)
  refine ⟨hsame.trans hrow.symm, ?_⟩
  rw [hsame, hentry]
  exact statsOfSamples_eq_none

/-- A trace in the window of a key, with its dimensions. -/
def traceFor (key : RollupKey) : Trace where
  id := []
  tsStart := key.bucket
  durationMs := 0
  route := key.route
  method := []
  status := key.status
  model := some key.model

/-- A table with one trace. -/
def dbOf (t : Trace) : Db := { traces := [⟨t.toTraceColumns, 1⟩] }

/-- The writer has an entry for the keys that its traces contribute to. -/
theorem entry_iff {traces : List Trace} {key : RollupKey} : (bucketsOf traces).get key ≠ none ↔
    ∃ t ∈ traces, contributes key t.toTraceColumns = true := by
  rw [ne_eq, (closedRow_eq traces key).2, keySamples_eq, List.map_eq_nil_iff,
    List.filter_eq_nil_iff]
  push Not
  simp

/-- It has none for a key that no trace can contribute to. -/
theorem formed_of_entry {traces : List Trace} {key : RollupKey}
    (h : (bucketsOf traces).get key ≠ none) : key.Formed := by
  obtain ⟨t, -, hkey⟩ := entry_iff.mp h
  obtain ⟨c, hc, rfl⟩ := List.mem_map.mp (of_decide_eq_true hkey)
  exact (contributions_formed hc).1

/-- Retention finds a row for every key. -/
theorem gatherStats_traceFor (key : RollupKey) : gatherStats (dbOf (traceFor key)) key =
    statsOfSamples key.metric [key.metric.sample (traceFor key).toTraceColumns] := by
  have hfound : gathered key ⟨(traceFor key).toTraceColumns, 1⟩ = true := by
    have hwindow : (key.bucket : ℚ) ≤ key.bucket ∧
        (key.bucket : ℚ) < key.bucket + RollupStep.ten.seconds :=
      ⟨le_refl _, lt_add_of_pos_right _ (by norm_num [RollupStep.seconds])⟩
    refine Bool.and_eq_true_iff.mpr ⟨decide_eq_true hwindow, ?_⟩
    obtain ⟨bucket, metric, model, route, status⟩ := key
    cases metric <;> exact decide_eq_true (by simp [traceFor, PyStr.orEmpty])
  rw [gatherStats_eq, dbOf, List.filter_cons_of_pos hfound]
  rfl

/-- The pending keys are the keys of the pruned traces. -/
theorem pendingKeys_iff (pass : Pass) (db : Db) (key : RollupKey) :
    key ∈ pendingKeys pass (agedRows pass db ++ cappedRows pass db) ↔
      key ∈ (bucketsOf (prunedTraces pass db)).keys := by
  have hkeys : key ∈ (bucketsOf (prunedTraces pass db)).keys ↔
      ∃ t ∈ prunedTraces pass db, contributes key t.toTraceColumns = true := by
    rw [← entry_iff, ne_eq, Dict.get_eq_none, not_not]
  have hdoomed : ∀ row, row ∈ agedRows pass db ++ cappedRows pass db ↔
      row ∈ db.traces ∧ doomed pass db row = true := by
    intro row
    simp only [List.mem_append, agedRows, cappedRows, List.mem_filter, doomed, Bool.or_eq_true,
      and_or_left]
  rw [hkeys, mem_pendingKeys]
  constructor
  · rintro ⟨row, hrow, hkey⟩
    obtain ⟨hmem, hgone⟩ := (hdoomed row).mp hrow
    rw [pendingOf_eq] at hkey
    split at hkey
    · cases hkey
    · next hpast =>
      refine ⟨⟨row.toTraceColumns, [], []⟩, List.mem_map.mpr ⟨row, ?_, rfl⟩, decide_eq_true hkey⟩
      exact List.mem_filter.mpr ⟨hmem, by rw [hgone, decide_eq_false hpast]; rfl⟩
  · rintro ⟨t, ht, hkey⟩
    obtain ⟨row, hrow, rfl⟩ := List.mem_map.mp ht
    obtain ⟨hmem, hcond⟩ := List.mem_filter.mp hrow
    obtain ⟨hgone, hpast⟩ := Bool.and_eq_true_iff.mp hcond
    refine ⟨row, (hdoomed row).mpr ⟨hmem, hgone⟩, ?_⟩
    rw [pendingOf_eq, if_neg (of_decide_eq_false ((Bool.not_eq_true' _).mp hpast))]
    exact of_decide_eq_true hkey

/-- **Retention's rebuild agrees with the writer** on every set of traces, for
exactly the keys that a trace can contribute to; and the pending keys of a pass
are the keys the writer accumulates for the traces it prunes. -/
theorem rebuild_agrees :
    (∀ key : RollupKey, (∀ db traces, db.Holds traces → Agrees db traces key) ↔ key.Formed) ∧
    ∀ pass db key, key ∈ pendingKeys pass (agedRows pass db ++ cappedRows pass db) ↔
      key ∈ (bucketsOf (prunedTraces pass db)).keys := by
  refine ⟨fun key => ⟨fun h => ?_, fun hkey db traces h => agrees_of_formed hkey h⟩,
    pendingKeys_iff⟩
  have hagrees := h (dbOf (traceFor key)) [traceFor key] (List.Perm.refl _)
  have hentry : (bucketsOf [traceFor key]).get key ≠ none := by
    intro hnone
    have hgather := hagrees.entry.mpr hnone
    rw [gatherStats_traceFor, statsOfSamples_eq_none] at hgather
    exact absurd hgather (List.cons_ne_nil _ _)
  exact formed_of_entry hentry

/-- The key of errors with status 200, which the writer never makes. -/
def okErrors : RollupKey := ⟨0, .errors, [], [], 200⟩

/-- For it, `_gather_stats` counts a request that was answered. -/
theorem gathers_unformed : gatherStats (dbOf (traceFor okErrors)) okErrors = some (counterStats 1) ∧
    (bucketsOf [traceFor okErrors]).get okErrors = none ∧
    ¬∀ db traces key, Db.Holds db traces → Agrees db traces key := by
  have hentry : (bucketsOf [traceFor okErrors]).get okErrors = none := by
    by_contra hentry
    obtain ⟨-, -, -, hstatus⟩ := formed_of_entry hentry
    exact absurd hstatus (by decide)
  have hgather : gatherStats (dbOf (traceFor okErrors)) okErrors = some (counterStats 1) :=
    gatherStats_traceFor okErrors
  refine ⟨hgather, hentry, fun h => ?_⟩
  have hagrees := h (dbOf (traceFor okErrors)) [traceFor okErrors] okErrors (List.Perm.refl _)
  rw [hagrees.entry.mpr hentry] at hgather
  cases hgather

end LayaWatch
