import LayaWatch.Drain
import LayaWatch.Isolation
import LayaWatch.Query
import LayaWatch.Recorder
import LayaWatch.Retention

/-!
# Metrics and sampling

The same finished traces, committed by the same commits, with two choices of which
successes are sampled out: what `metric_rollup` holds then, and what
`metrics_summary` of `store/queries.py` answers. The queue is never full and every
commit succeeds, so a commit does what `batchEffect` says.
-/

namespace LayaWatch

/-! ## Sampling flags -/

namespace Trace

/-- `always_keep` of the recorder, read off a finished trace. -/
def alwaysKept (t : Trace) : Bool :=
  decide (400 ≤ t.status) || PyStr.truthy t.errorCode || PyStr.truthy t.sessionId ||
    match Fields.get (py "source") t.metadata with
    | some (.str s) => decide (s = py "playground")
    | _ => false

/-- The trace, as the recorder finishes it with this draw; `t` has all its spans. -/
def flagged (draw : Bool) (t : Trace) : Trace :=
  if t.alwaysKept || draw then
    { t with metadata := Fields.set (py "sampled") (.bool true) t.metadata }
  else
    { t with
      metadata := Fields.set (py "sampled") (.bool false)
        (Fields.set (py "framework_ms") (.float t.durationMs) t.metadata)
      observations := [] }

end Trace

/-- An item with the flag of its call. -/
def Item.flagged (draws : ℕ → Bool) (item : Item) : Item :=
  match item.load with
  | .trace t => { item with load := .trace (t.flagged (draws item.call)) }
  | .log _ => item

/-- What a commit that succeeds does. -/
def WriterCommit.effect (c : WriterCommit) (s : Store) : Store :=
  batchEffect c.batch c.closeAll c.now s

/-- A commit with the flags of its calls. -/
def WriterCommit.flagged (draws : ℕ → Bool) (c : WriterCommit) : WriterCommit :=
  { c with batch := c.batch.map (Item.flagged draws) }

/-- The store after some commits, with these flags. -/
def storeWith (draws : ℕ → Bool) (commits : List WriterCommit) (s : Store) : Store :=
  commits.foldl (fun s c => (c.flagged draws).effect s) s

/-- The items of some commits. -/
def itemsOf (commits : List WriterCommit) : List Item := commits.flatMap WriterCommit.batch

/-! ## `metrics_summary` -/

/-- What `_window_stats` returns. -/
structure WindowStats where
  /-- `requests_per_s` -/
  requestsPerS : ℚ
  /-- `errors` -/
  errors : ℕ
  /-- `errors_by_status` -/
  errorsByStatus : List (ℤ × ℕ)
  /-- `p50` -/
  p50 : ℚ
  /-- `p95` -/
  p95 : ℚ
  /-- `queue_ms` -/
  queueMs : ℚ
  deriving DecidableEq

/-- `_window_stats`. -/
def windowStats (rows : List TraceColumns) (range : ℚ) : WindowStats :=
  let durations := rows.map TraceColumns.durationMs
  let failed := (rows.map TraceColumns.status).filter fun status => decide (400 ≤ status)
  let errorsByStatus := (failed.dedup.insertionSort (· ≤ ·)).map fun status =>
    (status, failed.count status)
  { requestsPerS := rows.length / range
    errors := (errorsByStatus.map Prod.snd).sum
    errorsByStatus := errorsByStatus
    p50 := percentile durations Pct.p50.quantile
    p95 := percentile durations Pct.p95.quantile
    queueMs := if rows.isEmpty then 0 else (rows.map TraceColumns.queueMs).sum / rows.length }

/-- `SELECT .. FROM traces WHERE ts_start >= ? AND ts_start < ?`. -/
def startedIn (db : Db) (since til : ℚ) : List TraceColumns :=
  (db.traces.map TraceRow.toTraceColumns).filter fun row =>
    decide (since ≤ row.tsStart ∧ row.tsStart < til)

/-- What `metrics_summary` returns: the fields of `_window_stats` stand together. -/
structure MetricsSummary where
  /-- `range_s` -/
  range : ℚ
  /-- `window` -/
  window : ℚ × ℚ
  /-- `prev_window` -/
  prevWindow : ℚ × ℚ
  /-- the current window -/
  current : WindowStats
  /-- the one before, `.._prev` -/
  previous : WindowStats
  /-- `total_requests` -/
  totalRequests : ℕ
  /-- `throttled_5m` -/
  throttled : Option ℕ
  deriving DecidableEq

namespace MetricsSummary

/-- `deltas`: requests, errors, p50, p95 and queue. -/
def deltas (m : MetricsSummary) : List ℚ :=
  [m.current.requestsPerS - m.previous.requestsPerS, (m.current.errors : ℚ) - m.previous.errors,
    m.current.p50 - m.previous.p50, m.current.p95 - m.previous.p95,
    m.current.queueMs - m.previous.queueMs]

end MetricsSummary

/-- `metrics_summary`. -/
def metricsSummary (db : Db) (range now : ℚ) : Except QueryError MetricsSummary :=
  if range ≤ 0 then .error (.text "range must be positive")
  else
    let since := now - range
    let prevSince := since - range
    let throttled := (startedIn db (now - 300) now).countP fun row => decide (row.status = 429)
    .ok {
      range := range
      window := (since, now)
      prevWindow := (prevSince, since)
      current := windowStats (startedIn db since now) range
      previous := windowStats (startedIn db prevSince since) range
      totalRequests := db.traces.length
      throttled := if 0 < throttled then some throttled else none }

/-- The figures of both windows. -/
def figures (db : Db) (range now : ℚ) : Except QueryError (WindowStats × WindowStats) :=
  (metricsSummary db range now).map fun m => (m.current, m.previous)

/-- Whatever is sampled out, rollups and figures are the same. -/
def SamplingBlind (commits : List WriterCommit) (s : Store) (range now : ℚ) : Prop :=
  ∀ draws draws' : ℕ → Bool,
    (storeWith draws commits s).db.metricRollup = (storeWith draws' commits s).db.metricRollup ∧
      figures (storeWith draws commits s).db range now =
        figures (storeWith draws' commits s).db range now

/-! ## Flags -/

namespace Trace

/-- A trace is kept if it always is, or its draw says so. -/
theorem isKept_flagged (draw : Bool) (t : Trace) :
    isKept (t.flagged draw) = (t.alwaysKept || draw) := by
  have hget : Fields.get (py "sampled") (t.flagged draw).metadata =
      some (.bool (t.alwaysKept || draw)) := by
    unfold flagged
    split
    · next h => rw [Fields.get_set, h]
    · next h => rw [Fields.get_set, Bool.eq_false_iff.mpr h]
  unfold isKept
  rw [hget]
  rfl

end Trace

/-- The metadata of a trace that is sampled out after all. -/
theorem Fields.sampled_out (fields : Fields) (capture framework framework' : Json) :
    Fields.set (py "sampled") (.bool false) (Fields.set (py "framework_ms") framework'
        (Fields.set (py "sampled") (.bool true) (Fields.set (py "payload_capture") capture
          (Fields.set (py "framework_ms") framework fields)))) =
      Fields.set (py "sampled") (.bool false) (Fields.set (py "payload_capture") capture
        (Fields.set (py "framework_ms") framework' fields)) := by
  have hsampled : py "sampled" ≠ py "framework_ms" := by decide
  have hcapture : py "payload_capture" ≠ py "framework_ms" := by decide
  have hset : (Fields.get (py "framework_ms")
      (Fields.set (py "framework_ms") framework fields)).isSome = true := by
    rw [Fields.get_set]
    rfl
  have hthere : (Fields.get (py "framework_ms") (Fields.set (py "payload_capture") capture
      (Fields.set (py "framework_ms") framework fields))).isSome = true := by
    rwa [Fields.get_set_ne _ hcapture.symm]
  rw [Fields.set_comm _ hsampled hthere, Fields.set_comm _ hcapture hset, Fields.set_set,
    Fields.set_set]

/-- What the recorder assembles with one draw is what it assembles with the other, with
its flag. -/
theorem Context.assemble_flagged (c : Context) (r : Recorder) (status : ℤ) (duration : ℚ)
    (draw : Bool) : (c.assemble r status duration true).flagged draw =
      c.assemble r status duration (c.alwaysKeep status || draw) := by
  have hkept : (c.assemble r status duration true).alwaysKept = c.alwaysKeep status := by
    have hsource : Fields.get (py "source") (c.assemble r status duration true).metadata =
        Fields.get (py "source") c.fields.metadata := by
      unfold Context.assemble
      dsimp only
      rw [Fields.get_set_ne _ (by decide), Fields.get_set_ne _ (by decide),
        Fields.get_set_ne _ (by decide)]
    unfold Trace.alwaysKept
    rw [hsource]
    rfl
  unfold Trace.flagged
  rw [hkept]
  by_cases h : (c.alwaysKeep status || draw) = true
  · rw [if_pos h, h]
    unfold Context.assemble
    dsimp only
    rw [Fields.set_set]
  · rw [if_neg h, Bool.eq_false_iff.mpr h]
    unfold Context.assemble
    dsimp only
    rw [Fields.sampled_out]
    rfl

/-! ## What flags do not change -/

/-- The rollup pipeline does not look at the flag. -/
theorem accumulate_flagged (work : Buckets) (draw : Bool) (t : Trace) :
    accumulate work (t.flagged draw) = accumulate work t := by
  unfold Trace.flagged
  split <;> rfl

theorem Item.flagged_trace (draws : ℕ → Bool) {item : Item} {t : Trace}
    (h : item.load = .trace t) :
    (item.flagged draws).load = .trace (t.flagged (draws item.call)) := by
  unfold Item.flagged
  rw [h]

theorem Item.flagged_log {draws : ℕ → Bool} {item : Item} {entry : LogEntry}
    (h : item.load = .log entry) : item.flagged draws = item := by
  unfold Item.flagged
  rw [h]

theorem workOf_flagged (draws : ℕ → Bool) (batch : List Item) : ∀ buckets : Buckets,
    workOf buckets (batch.map (Item.flagged draws)) = workOf buckets batch := by
  induction batch with
  | nil => exact fun _ => rfl
  | cons item batch ih =>
    intro buckets
    rcases hload : item.load with t | entry
    · have hflagged := Item.flagged_trace draws hload
      have hcons := ih (accumulate buckets t)
      simp only [workOf, Item.traces, List.map_cons, List.filterMap_cons, hflagged, hload,
        List.foldl_cons, accumulate_flagged] at hcons ⊢
      exact hcons
    · have hcons := ih buckets
      simp only [workOf, Item.traces, List.map_cons, List.filterMap_cons, Item.flagged_log hload,
        hload] at hcons ⊢
      exact hcons

/-- Two stores with the same rollups, stored and open. -/
structure SameRollups (s s' : Store) : Prop where
  /-- the rows -/
  rows : s.db.metricRollup = s'.db.metricRollup
  /-- the open buckets -/
  buckets : s.buckets = s'.buckets

namespace SameRollups

variable {s s' : Store}

theorem upsert (rows : List RollupRow) : ∀ {db db' : Db}, db.metricRollup = db'.metricRollup →
    (rows.foldl (fun db row => upsertRollup row.1 row.2.1 row.2.2 db) db).metricRollup =
      (rows.foldl (fun db row => upsertRollup row.1 row.2.1 row.2.2 db) db').metricRollup := by
  induction rows with
  | nil => exact fun h => h
  | cons row rows ih =>
    intro db db' h
    refine ih ?_
    unfold upsertRollup
    dsimp only
    rw [h]

/-- A closed bucket is merged into the rollup rows only. -/
theorem closeBucket {db db' : Db} (h : db.metricRollup = db'.metricRollup) (key : RollupKey)
    (bucket : Bucket) : (LayaWatch.closeBucket db key bucket).metricRollup =
      (LayaWatch.closeBucket db' key bucket).metricRollup := by
  have hrows : ∀ stats, rowsOf db key stats = rowsOf db' key stats := fun stats => by
    unfold rowsOf loadRollupRow
    rw [h]
  unfold LayaWatch.closeBucket
  rcases bucket.stats key.metric with _ | stats
  · exact h
  · dsimp only
    rw [hrows]
    exact upsert _ h

theorem closeDue (h : SameRollups s s') (key : RollupKey) :
    SameRollups (LayaWatch.closeDue s key) (LayaWatch.closeDue s' key) := by
  unfold LayaWatch.closeDue
  rw [h.buckets]
  rcases s'.buckets.get key with _ | bucket
  · exact h
  · exact ⟨closeBucket h.rows key bucket, rfl⟩

theorem closeAllDue (due : List RollupKey) : ∀ {s s' : Store}, SameRollups s s' →
    SameRollups (due.foldl LayaWatch.closeDue s) (due.foldl LayaWatch.closeDue s') := by
  induction due with
  | nil => exact fun h => h
  | cons key due ih => exact fun h => ih (h.closeDue key)

/-- A commit with other flags does the same to the rollups. -/
theorem commit (h : SameRollups s s') (draws draws' : ℕ → Bool) (c : WriterCommit) :
    SameRollups ((c.flagged draws).effect s) ((c.flagged draws').effect s') := by
  unfold WriterCommit.effect WriterCommit.flagged batchEffect
  dsimp only
  rw [workOf_flagged, workOf_flagged, h.buckets]
  exact closeAllDue _ ⟨by rw [insertBatch_metricRollup, insertBatch_metricRollup, h.rows], rfl⟩

theorem commits (commits : List WriterCommit) (draws draws' : ℕ → Bool) : ∀ {s s' : Store},
    SameRollups s s' → SameRollups (storeWith draws commits s) (storeWith draws' commits s') := by
  induction commits with
  | nil => exact fun h => h
  | cons c commits ih => exact fun h => ih (h.commit draws draws' c)

end SameRollups

/-! ## What they change -/

/-- The traces of some items that are stored with these flags. -/
def storedWith (draws : ℕ → Bool) (items : List Item) : List Trace :=
  keptTraces (items.map (Item.flagged draws))

theorem storedWith_append (draws : ℕ → Bool) (items items' : List Item) :
    storedWith draws (items ++ items') = storedWith draws items ++ storedWith draws items' := by
  unfold storedWith keptTraces Item.traces
  rw [List.map_append, List.filterMap_append, List.filter_append]

/-- The rows of `traces` after some commits. -/
theorem traces_storeWith (draws : ℕ → Bool) (commits : List WriterCommit) : ∀ s : Store,
    (storeWith draws commits s).db.traces.map TraceRow.toTraceColumns =
      s.db.traces.map TraceRow.toTraceColumns ++
        (storedWith draws (itemsOf commits)).map Trace.toTraceColumns := by
  induction commits with
  | nil =>
    intro s
    exact (List.append_nil _).symm
  | cons c commits ih =>
    intro s
    have hcommit : ((c.flagged draws).effect s).db.traces.map TraceRow.toTraceColumns =
        s.db.traces.map TraceRow.toTraceColumns ++
          (storedWith draws c.batch).map Trace.toTraceColumns := by
      unfold WriterCommit.effect batchEffect
      rw [closeAllDue_rows Db.traces fun _ _ _ _ => rfl, insertBatch_columns]
      rfl
    have hitems : itemsOf (c :: commits) = c.batch ++ itemsOf commits := List.flatMap_cons
    rw [hitems, storedWith_append, List.map_append, ← List.append_assoc, ← hcommit]
    exact ih _

/-- A single trace is stored if it is always kept, or its draw says so. -/
theorem storedWith_trace (draws : ℕ → Bool) {item : Item} {t : Trace} (h : item.load = .trace t) :
    storedWith draws [item] =
      if t.alwaysKept || draws item.call then [t.flagged (draws item.call)] else [] := by
  have hflagged := Item.flagged_trace draws h
  unfold storedWith keptTraces Item.traces
  simp only [List.map_cons, List.map_nil, List.filterMap_cons, List.filterMap_nil, hflagged,
    List.filter_cons, List.filter_nil, Trace.isKept_flagged]

theorem storedWith_log (draws : ℕ → Bool) {item : Item} {entry : LogEntry}
    (h : item.load = .log entry) : storedWith draws [item] = [] := by
  unfold storedWith keptTraces Item.traces
  simp only [List.map_cons, List.map_nil, List.filterMap_cons, List.filterMap_nil,
    Item.flagged_log h, h, List.filter_nil]

/-- The rows of stored traces that start in a window. -/
def rowsIn (since til : ℚ) (traces : List Trace) : List TraceColumns :=
  (traces.map Trace.toTraceColumns).filter fun row =>
    decide (since ≤ row.tsStart ∧ row.tsStart < til)

theorem rowsIn_append (since til : ℚ) (traces traces' : List Trace) :
    rowsIn since til (traces ++ traces') = rowsIn since til traces ++ rowsIn since til traces' := by
  unfold rowsIn
  rw [List.map_append, List.filter_append]

theorem startedIn_storeWith (draws : ℕ → Bool) (commits : List WriterCommit) (s : Store)
    (since til : ℚ) : startedIn (storeWith draws commits s).db since til =
      startedIn s.db since til ++ rowsIn since til (storedWith draws (itemsOf commits)) := by
  unfold startedIn rowsIn
  rw [traces_storeWith, List.filter_append]

theorem flagged_tsStart (draw : Bool) (t : Trace) : (t.flagged draw).tsStart = t.tsStart := by
  unfold Trace.flagged
  split <;> rfl

section

variable {since til : ℚ} {items : List Item}

/-- Where no success starts, the flags do not show. -/
theorem rowsIn_flags (draws draws' : ℕ → Bool) (h : ∀ t ∈ Item.traces items,
    t.alwaysKept = false → ¬(since ≤ t.tsStart ∧ t.tsStart < til)) :
    rowsIn since til (storedWith draws items) = rowsIn since til (storedWith draws' items) := by
  induction items with
  | nil => rfl
  | cons item items ih =>
    rw [← List.singleton_append, storedWith_append, storedWith_append, rowsIn_append,
      rowsIn_append]
    rcases hload : item.load with t | entry
    · have htraces : Item.traces (item :: items) = t :: Item.traces items := by
        simp only [Item.traces, List.filterMap_cons, hload]
      rw [htraces] at h
      rw [ih fun t ht => h t (List.mem_cons_of_mem _ ht)]
      congr 1
      rw [storedWith_trace draws hload, storedWith_trace draws' hload]
      by_cases hkept : t.alwaysKept = true
      · unfold Trace.flagged
        simp only [hkept, Bool.true_or, if_true]
      · -- the trace may be stored or not, and is in no window
        have hout := h t (List.mem_cons_self ..) (Bool.eq_false_iff.mpr hkept)
        have hnone : ∀ draw : Bool, rowsIn since til [t.flagged draw] = [] := fun draw => by
          unfold rowsIn
          rw [List.map_singleton, List.filter_cons_of_neg, List.filter_nil]
          rw [decide_eq_true_iff]
          rwa [flagged_tsStart]
        have hnil : rowsIn since til [] = [] := rfl
        split <;> split <;> simp only [hnone, hnil]
    · rw [storedWith_log draws hload, storedWith_log draws' hload]
      congr 1
      refine ih fun t ht => h t ?_
      simp only [Item.traces, List.filterMap_cons, hload] at ht ⊢
      exact ht

/-- Sampling out a trace never adds a row. -/
theorem length_rowsIn_le (since til : ℚ) (items : List Item) :
    (rowsIn since til (storedWith (fun _ => false) items)).length ≤
      (rowsIn since til (storedWith (fun _ => true) items)).length := by
  induction items with
  | nil => exact le_rfl
  | cons item items ih =>
    rw [← List.singleton_append, storedWith_append, storedWith_append, rowsIn_append,
      rowsIn_append, List.length_append, List.length_append]
    refine Nat.add_le_add ?_ ih
    rcases hload : item.load with t | entry
    · rw [storedWith_trace _ hload, storedWith_trace _ hload]
      by_cases hkept : t.alwaysKept = true
      · unfold Trace.flagged
        simp only [hkept, Bool.true_or, if_true, le_refl]
      · simp only [Bool.eq_false_iff.mpr hkept, Bool.false_or, Bool.false_eq_true, if_false]
        exact Nat.zero_le _
    · rw [storedWith_log _ hload, storedWith_log _ hload]

/-- Sampling out a success takes a row from the window it starts in. -/
theorem length_rowsIn_lt {t : Trace} (ht : t ∈ Item.traces items) (hkept : t.alwaysKept = false)
    (hin : since ≤ t.tsStart ∧ t.tsStart < til) :
    (rowsIn since til (storedWith (fun _ => false) items)).length <
      (rowsIn since til (storedWith (fun _ => true) items)).length := by
  obtain ⟨item, hitem, hload⟩ := List.mem_filterMap.mp ht
  obtain ⟨items₁, items₂, rfl⟩ := List.append_of_mem hitem
  have hload : item.load = .trace t := by
    rcases hl : item.load with t' | entry
    · rw [hl] at hload
      exact congrArg Load.trace (Option.some.inj hload)
    · rw [hl] at hload
      cases hload
  have hone : (rowsIn since til (storedWith (fun _ => true) [item])).length = 1 := by
    rw [storedWith_trace _ hload, if_pos (Bool.or_true _)]
    unfold rowsIn
    rw [List.map_singleton, List.filter_cons_of_pos]
    · rfl
    · rw [decide_eq_true_iff]
      rwa [flagged_tsStart]
  have hnone : (rowsIn since til (storedWith (fun _ => false) [item])).length = 0 := by
    rw [storedWith_trace _ hload, hkept]
    rfl
  have h₁ := length_rowsIn_le since til items₁
  have h₂ := length_rowsIn_le since til items₂
  rw [← List.singleton_append, storedWith_append, storedWith_append, storedWith_append,
    storedWith_append, rowsIn_append, rowsIn_append, rowsIn_append, rowsIn_append]
  simp only [List.length_append]
  omega

end

/-! ## The figures -/

theorem figures_eq (db : Db) (range now : ℚ) : figures db range now =
    if range ≤ 0 then .error (.text "range must be positive")
    else .ok (windowStats (startedIn db (now - range) now) range,
      windowStats (startedIn db (now - range - range) (now - range)) range) := by
  unfold figures metricsSummary
  split <;> rfl

/-- Two windows with the same rate have as many rows. -/
theorem length_of_requestsPerS {rows rows' : List TraceColumns} {range : ℚ} (h : 0 < range)
    (heq : windowStats rows range = windowStats rows' range) : rows.length = rows'.length := by
  have hrate : (rows.length : ℚ) / range = rows'.length / range :=
    congrArg WindowStats.requestsPerS heq
  have hlength := (div_left_inj' h.ne').mp hrate
  exact_mod_cast hlength

/-- Figures that do not depend on the flags need as many rows in both windows. -/
theorem length_of_figures {draws draws' : ℕ → Bool} {commits : List WriterCommit} {s : Store}
    {range now : ℚ} (h : 0 < range)
    (heq : figures (storeWith draws commits s).db range now =
      figures (storeWith draws' commits s).db range now) :
    (rowsIn (now - range) now (storedWith draws (itemsOf commits))).length =
        (rowsIn (now - range) now (storedWith draws' (itemsOf commits))).length ∧
      (rowsIn (now - range - range) (now - range) (storedWith draws (itemsOf commits))).length =
        (rowsIn (now - range - range) (now - range)
          (storedWith draws' (itemsOf commits))).length := by
  rw [figures_eq, figures_eq, if_neg h.not_ge, if_neg h.not_ge] at heq
  obtain ⟨hcurrent, hprevious⟩ := Prod.mk.inj (Except.ok.inj heq)
  have hcurrent := length_of_requestsPerS h hcurrent
  have hprevious := length_of_requestsPerS h hprevious
  rw [startedIn_storeWith, startedIn_storeWith, List.length_append, List.length_append]
    at hcurrent hprevious
  exact ⟨Nat.add_left_cancel hcurrent, Nat.add_left_cancel hprevious⟩

/-- The flags show in the figures exactly when a trace that may be sampled out starts in
the window or in the one before. -/
theorem sampling_blind_iff (commits : List WriterCommit) (s : Store) (range now : ℚ) :
    SamplingBlind commits s range now ↔
      ∀ t ∈ Item.traces (itemsOf commits), t.alwaysKept = false →
        ¬(now - 2 * range ≤ t.tsStart ∧ t.tsStart < now) := by
  constructor
  · rintro h t ht hkept ⟨hsince, htil⟩
    have hrange : 0 < range := by linarith
    obtain ⟨hcurrent, hprevious⟩ :=
      length_of_figures hrange (h (fun _ => false) (fun _ => true)).2
    -- a trace counts in the window it lies in exactly when it is sampled
    rcases le_or_gt (now - range) t.tsStart with hin | hin
    · exact (length_rowsIn_lt ht hkept ⟨hin, htil⟩).ne hcurrent
    · exact (length_rowsIn_lt ht hkept ⟨by linarith, hin⟩).ne hprevious
  · intro h draws draws'
    refine ⟨(SameRollups.commits commits draws draws' ⟨rfl, rfl⟩).rows, ?_⟩
    rw [figures_eq, figures_eq]
    split
    · rfl
    · next hrange =>
      have hrange : 0 < range := not_le.mp hrange
      -- no trace of either window depends on the draws
      have hcurrent : ∀ t ∈ Item.traces (itemsOf commits), t.alwaysKept = false →
          ¬(now - range ≤ t.tsStart ∧ t.tsStart < now) := fun t ht hkept hin =>
        h t ht hkept ⟨by linarith [hin.1], hin.2⟩
      have hprevious : ∀ t ∈ Item.traces (itemsOf commits), t.alwaysKept = false →
          ¬(now - range - range ≤ t.tsStart ∧ t.tsStart < now - range) := fun t ht hkept hin =>
        h t ht hkept ⟨by linarith [hin.1], by linarith [hin.2]⟩
      simp only [startedIn_storeWith]
      rw [rowsIn_flags draws draws' hcurrent, rowsIn_flags draws draws' hprevious]

/-- A success that may be sampled out, from 100 s. -/
def successCommit : WriterCommit where
  batch := [⟨0, .trace (sampleTrace 200)⟩]
  closeAll := true
  now := 105

/-- It shows in the request rate of the last 300 s. -/
theorem not_sampling_blind : ¬∀ (commits : List WriterCommit) (s : Store) (range now : ℚ),
    SamplingBlind commits s range now := by
  intro h
  have hfigures := (h [successCommit] {} 300 200 (fun _ => true) (fun _ => false)).2
  have hlength := (length_of_figures (by norm_num) hfigures).1
  revert hlength
  decide +kernel

/-! ## Commits that succeed -/

/-- Commits that all succeed, with these flags, leave this store. -/
theorem storeWith_of_runs (draws : ℕ → Bool) (commits : List WriterCommit) :
    ∀ {s : Store} {committed : List Trace} {r : Db × WriterEnv},
      (commits.map (WriterCommit.flagged draws)).foldlM (fun r c => c.run r.1 r.2)
          (s.db, ⟨s.buckets, committed⟩) = some r →
        (⟨r.1, r.2.buckets⟩ : Store) = storeWith draws commits s := by
  induction commits with
  | nil =>
    rintro s committed r h
    cases h
    rfl
  | cons c commits ih =>
    rintro s committed r h
    rw [List.map_cons, List.foldlM_cons] at h
    obtain ⟨⟨db, env⟩, hrun, hrest⟩ := Option.bind_eq_some_iff.mp h
    have heffect := (WriterCommit.run_eq hrun).1
    have hstep : (c.flagged draws).effect s = ⟨db, env.buckets⟩ := heffect.symm
    exact (ih (s := ⟨db, env.buckets⟩) hrest).trans (congrArg (storeWith draws commits) hstep.symm)

end LayaWatch
