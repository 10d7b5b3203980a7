import LayaWatch.Query
import LayaWatch.Retention
import LayaWatch.Lib.Grouping
import Mathlib.Algebra.BigOperators.Ring.Finset
import Mathlib.Algebra.Order.BigOperators.Group.List

/-!
# Do charts partition the rollups?

`metrics_series` and `metrics_models` of `store/queries.py`: one query reads the
rows of a window, a loop lays out its buckets, and each bucket shows the rows the
query has grouped under it. The query and the loop know of the window separately.

Where the buckets of the rows are aligned, the loop lists every aligned time the
query can return (`Grid`), so the rows of the buckets are the rows of the query,
each once (`charts_partition`). Two corners are left out. A window may fit into 64
bits while the bucket it starts in does not, and binding that bucket fails; and a
queue row without events has an average of 0, whatever its sum.
-/

namespace LayaWatch

/-! ## Parameters -/

namespace Metric

/-- `METRIC_NAMES`. -/
def names : List PyStr := [requests, errors, latency, queue].map name

/-- The metric of a name, `name in METRIC_NAMES`. -/
def ofName (s : PyStr) : Option Metric :=
  [requests, errors, latency, queue].find? fun metric => decide (metric.name = s)

end Metric

/-- The list of the metrics, with its error. -/
def metricsMissing : QueryError :=
  .invalid [.text (py "metrics must name at least one of "), .text (joined Metric.names)]

/-- The loop of `_validate_metrics`. -/
def validateNames (validated : List Metric) : List PyStr → Except QueryError (List Metric)
  | [] => .ok validated
  | name :: names =>
    match Metric.ofName name with
    | none => .error (.invalid [.text (py "unknown metric "), .repr name,
        .text (py " in metrics; must be one of "), .text (joined Metric.names)])
    | some metric =>
      validateNames (if metric ∈ validated then validated else validated ++ [metric]) names

/-- `_validate_metrics`. -/
def validateMetrics (names : List PyStr) : Except QueryError (List Metric) :=
  if names.isEmpty then .error metricsMissing else validateNames [] names

/-- `parse_metrics`. -/
def parseMetrics (metrics : PyStr) : Except QueryError (List Metric) :=
  if metrics.strip.isEmpty then .error metricsMissing
  else validateMetrics ((metrics.splitOn (CodePoint.ofChar ',')).map PyStr.strip)

/-- What `metrics` may be. -/
inductive MetricsArg where
  /-- names with commas between them -/
  | text (metrics : PyStr)
  /-- a list of names -/
  | names (metrics : List PyStr)

/-- The metrics that are asked for. -/
def MetricsArg.parse : MetricsArg → Except QueryError (List Metric)
  | text metrics => parseMetrics metrics
  | names metrics => validateMetrics metrics

/-- `step in ROLLUP_STEPS`. -/
def RollupStep.ofSeconds (n : ℤ) : Option RollupStep :=
  [ten, minute, hour].find? fun step => decide (step.seconds = n)

/-- `step_for_range`. -/
def stepForRange (seconds : ℚ) : RollupStep :=
  if seconds ≤ 900 then .ten else if seconds ≤ 21600 then .minute else .hour

/-- `value or None`. -/
def orNone (value : Option PyStr) : Option PyStr := value.filter fun s => !s.isEmpty

/-! ## Buckets -/

/-- `_MAX_BUCKETS`. -/
def maxBuckets : ℕ := 100000

/-- `while bucket < until`: the buckets from `bucket` on, when `room` more are
allowed. -/
def bucketLoop (untilTs : ℚ) (step : RollupStep) : ℕ → ℤ → Option (List ℤ)
  | 0, bucket => if (bucket : ℚ) < untilTs then none else some []
  | room + 1, bucket =>
    if (bucket : ℚ) < untilTs then
      (bucketLoop untilTs step room (bucket + step.seconds)).map fun buckets => bucket :: buckets
    else some []

/-- The buckets of a window, or the error that there are too many. -/
def chartBuckets (sinceTs untilTs : ℚ) (step : RollupStep) (tooMany : String) :
    Except QueryError (List ℤ) :=
  match bucketLoop untilTs step maxBuckets (floorBucket sinceTs step) with
  | some buckets => .ok buckets
  | none => .error (.text tooMany)

/-! ## Statements -/

/-- A row of `metric_rollup`. -/
abbrev RollupEntry : Type := RollupPk × Stats

/-- A query without an `ORDER BY`. -/
def selectAll {α : Type} (order : ScanOrder) (clauses : List (Clause α)) (rows : List α) :
    Except QueryError (List α) :=
  if clausesBindable clauses then
    .ok (order.scan (rows.filter fun row => clauses.all fun c => c.holds row))
  else .error .crashed

namespace Clause

/-- `step = ?`. -/
def step (step : RollupStep) : Clause RollupEntry :=
  ⟨[.integer step.seconds], fun row => decide (row.1.1 = step)⟩

/-- `bucket >= ?` and `bucket < ?`, from the bucket of `since`. -/
def buckets (sinceTs untilTs : ℚ) (step : RollupStep) : List (Clause RollupEntry) :=
  [⟨[.integer (floorBucket sinceTs step)],
      fun row => decide (floorBucket sinceTs step ≤ row.1.2.bucket)⟩,
    ⟨[.real untilTs], fun row => decide ((row.1.2.bucket : ℚ) < untilTs)⟩]

/-- `metric = 'errors' OR` the dimensions, if any is asked for. -/
def dims (model route : Option PyStr) : List (Clause RollupEntry) :=
  if model.isNone && route.isNone then []
  else [⟨(model.toList ++ route.toList).map SqlValue.text, fun row =>
    decide (row.1.2.metric = .errors) ||
      (model.all (fun m => decide (row.1.2.model = m)) &&
        route.all (fun r => decide (row.1.2.route = r)))⟩]

end Clause

/-! ## Series -/

/-- The value of a point. -/
inductive PointValue where
  /-- a number -/
  | number (x : ℚ)
  /-- the percentiles of the latency -/
  | percentiles (pct : Pct → ℚ)

/-- The number, if it is one. -/
def PointValue.value : PointValue → ℚ
  | number x => x
  | percentiles _ => 0

/-- `_bucket_point`. -/
def bucketPoint (metric : Metric) (rows : List Stats) (step : RollupStep) : PointValue :=
  if rows.isEmpty then
    if metric = .latency then .percentiles fun _ => 0 else .number 0
  else if metric.isCounter then
    let count := (rows.map StatsOf.count).sum
    .number (if metric = .requests then (count : ℚ) / step.seconds else count)
  else if metric = .queue then
    let count := (rows.map StatsOf.count).sum
    let total := (rows.map StatsOf.sum).sum
    .number (if count = 0 then 0 else total / count)
  else
    match rows.map statsOf with
    | [merged] => .percentiles merged.pct
    | stats => .percentiles (mergeRows stats).pct

/-- The points of a metric. -/
structure Series where
  /-- `metric` -/
  metric : Metric
  /-- `points` -/
  points : List (ℤ × PointValue)

/-- The answer of `metrics_series`. -/
structure MetricsSeries where
  /-- `step` -/
  step : RollupStep
  /-- `window` -/
  window : ℚ × ℚ
  /-- `series` -/
  series : List Series
  /-- `note`, `METRICS_NOTE` -/
  note : PyStr := py "percentiles are bucket-level"

/-- `by_key`. -/
def byKey (rows : List RollupEntry) : Dict (ℤ × Metric) (List Stats) :=
  Dict.foldBy (fun row => (row.1.2.bucket, row.1.2.metric)) []
    (fun group row => group ++ [row.2]) rows

/-- The `WHERE` of `metrics_series`. -/
def seriesClauses (names : List Metric) (step : RollupStep) (sinceTs untilTs : ℚ)
    (model route : Option PyStr) : List (Clause RollupEntry) :=
  Clause.step step ::
    ⟨names.map fun metric => .text metric.name, fun row => decide (row.1.2.metric ∈ names)⟩ ::
    (Clause.buckets sinceTs untilTs step ++ Clause.dims (orNone model) (orNone route))

/-- `metrics_series`. (`step` is what `int(step)` gives, if it gives anything.) -/
def metricsSeries (order : ScanOrder) (db : Db) (metrics : MetricsArg) (sinceTs untilTs : ℚ)
    (step : Option ℤ) (model route : Option PyStr) : Except QueryError MetricsSeries := do
  let names ← metrics.parse
  match step.bind RollupStep.ofSeconds with
  | none => .error (.text "step must be one of 10, 60, 3600")
  | some step =>
    if untilTs ≤ sinceTs then .error (.text "since must be before until")
    else do
      let rows ← selectAll order (seriesClauses names step sinceTs untilTs model route)
        db.metricRollup.entries
      let buckets ← chartBuckets sinceTs untilTs step "step is too small for the requested window"
      return {
        step
        window := (sinceTs, untilTs)
        series := names.map fun metric => ⟨metric, buckets.map fun point =>
          (point, bucketPoint metric (((byKey rows).get (point, metric)).getD []) step)⟩ }

/-! ## Model mix -/

/-- The answer of `metrics_models`. -/
structure ModelMix where
  /-- `step` -/
  step : RollupStep
  /-- `window` -/
  window : ℚ × ℚ
  /-- `buckets`: the counts of the models -/
  buckets : List (ℤ × Dict PyStr ℕ)
  /-- `models` -/
  models : List PyStr
  /-- `total` -/
  total : ℕ

/-- `bucket_counts[row["model"]] = bucket_counts.get(row["model"], 0) + int(row["count"])`. -/
def addModel (counts : Dict PyStr ℕ) (row : RollupEntry) : Dict PyStr ℕ :=
  counts.set row.1.2.model ((counts.get row.1.2.model).getD 0 + row.2.count)

/-- The `WHERE` of `metrics_models`. -/
def mixClauses (step : RollupStep) (sinceTs untilTs : ℚ) : List (Clause RollupEntry) :=
  Clause.step step ::
    ⟨[], fun row => decide (row.1.2.metric = .requests ∧ row.1.2.model ≠ [])⟩ ::
    Clause.buckets sinceTs untilTs step

/-- `metrics_models`, at the time `now`. -/
def metricsModels (order : ScanOrder) (db : Db) (sinceTs untilTs : Option ℚ) (now : ℚ) :
    Except QueryError ModelMix :=
  let untilTs := untilTs.getD now
  let sinceTs := sinceTs.getD (untilTs - 900)
  if untilTs ≤ sinceTs then .error (.text "since must be before until")
  else do
    let step := stepForRange (untilTs - sinceTs)
    let rows ← selectAll order (mixClauses step sinceTs untilTs) db.metricRollup.entries
    let countsByBucket :=
      Dict.foldBy (fun row : RollupEntry => row.1.2.bucket) Dict.empty addModel rows
    let buckets ← chartBuckets sinceTs untilTs step "window is too large for model mix buckets"
    return {
      step
      window := (sinceTs, untilTs)
      buckets := buckets.map fun bucket => (bucket, (countsByBucket.get bucket).getD Dict.empty)
      models := (rows.map fun row => row.1.2.model).dedup.insertionSort (· ≤ ·)
      total := (rows.map fun row => row.2.count).sum }

/-! ## What a chart shows -/

/-- In order, every aligned time from the bucket of `since` up to the last one below
`until`. -/
structure Grid (step : RollupStep) (sinceTs untilTs : ℚ) (ts : List ℤ) : Prop where
  /-- strictly increasing -/
  increasing : ts.Pairwise (· < ·)
  /-- without a gap -/
  mem : ∀ t, t ∈ ts ↔ step.seconds ∣ t ∧ floorBucket sinceTs step ≤ t ∧ (t : ℚ) < untilTs

/-- The row is one of the window. -/
def InChart (step : RollupStep) (sinceTs untilTs : ℚ) (row : RollupEntry) : Prop :=
  row.1.1 = step ∧ floorBucket sinceTs step ≤ row.1.2.bucket ∧ (row.1.2.bucket : ℚ) < untilTs

instance (step : RollupStep) (sinceTs untilTs : ℚ) (row : RollupEntry) :
    Decidable (InChart step sinceTs untilTs row) := inferInstanceAs (Decidable (_ ∧ _))

/-- The rows of the window that match a series. -/
def seriesRows (db : Db) (metric : Metric) (step : RollupStep) (sinceTs untilTs : ℚ)
    (model route : Option PyStr) : List RollupEntry :=
  db.metricRollup.entries.filter fun row =>
    decide (InChart step sinceTs untilTs row ∧ row.1.2.metric = metric ∧
      (metric = .errors ∨
        (∀ m ∈ orNone model, row.1.2.model = m) ∧ ∀ r ∈ orNone route, row.1.2.route = r))

/-- The requests rows of the window with a model. -/
def mixRows (db : Db) (step : RollupStep) (sinceTs untilTs : ℚ) : List RollupEntry :=
  db.metricRollup.entries.filter fun row =>
    decide (InChart step sinceTs untilTs row ∧ row.1.2.metric = .requests ∧ row.1.2.model ≠ [])

/-- The rows of a bucket. -/
def rowsAt (rows : List RollupEntry) (t : ℤ) : List RollupEntry :=
  rows.filter fun row => decide (row.1.2.bucket = t)

/-- The counts of the rows. -/
def countOf (rows : List RollupEntry) : ℕ := (rows.map fun row => row.2.count).sum

/-- The sums of the rows. -/
def sumOf (rows : List RollupEntry) : ℚ := (rows.map fun row => row.2.sum).sum

/-- A series shows the rows: each at one of its points, which lie on the grid. -/
structure Series.Shows (series : Series) (step : RollupStep) (sinceTs untilTs : ℚ)
    (rows : List RollupEntry) : Prop where
  /-- the points -/
  grid : Grid step sinceTs untilTs (series.points.map Prod.fst)
  /-- every row is at one point -/
  once : ((series.points.map Prod.fst).flatMap (rowsAt rows)).Perm rows
  /-- what a point shows is made of its rows -/
  value : ∀ p ∈ series.points, ∃ group : List RollupEntry,
    group.Perm (rowsAt rows p.1) ∧
      p.2 = bucketPoint series.metric (group.map Prod.snd) step
  /-- rates add up to the counts -/
  requests : series.metric = .requests →
    (series.points.map fun p => p.2.value * (step.seconds : ℚ)).sum = (countOf rows : ℚ)
  /-- errors add up to the counts -/
  errors : series.metric = .errors →
    (series.points.map fun p => p.2.value).sum = (countOf rows : ℚ)
  /-- averages are those of the rows -/
  queue : series.metric = .queue → ∀ p ∈ series.points,
    p.2.value * (countOf (rowsAt rows p.1) : ℚ) = sumOf (rowsAt rows p.1)

/-- The model mix shows the rows: each in one of its buckets, which lie on the grid. -/
structure ModelMix.Shows (mix : ModelMix) (step : RollupStep) (sinceTs untilTs : ℚ)
    (rows : List RollupEntry) : Prop where
  /-- the buckets -/
  grid : Grid step sinceTs untilTs (mix.buckets.map Prod.fst)
  /-- every row is in one bucket -/
  once : ((mix.buckets.map Prod.fst).flatMap (rowsAt rows)).Perm rows
  /-- the counts of a bucket are those of its rows -/
  counts : ∀ b ∈ mix.buckets, ∀ model, (b.2.get model).getD 0 =
    countOf ((rowsAt rows b.1).filter fun row => decide (row.1.2.model = model))
  /-- the total of the buckets -/
  total_buckets : mix.total = (mix.buckets.map fun b => b.2.total fun _ n => n).sum
  /-- the total of the rows -/
  total_rows : mix.total = countOf rows

/-! ## The loop -/

theorem bucketLoop_grid (untilTs : ℚ) (step : RollupStep) : ∀ {room : ℕ} {bucket : ℤ}
    {ts : List ℤ}, step.seconds ∣ bucket → bucketLoop untilTs step room bucket = some ts →
      ts.Pairwise (· < ·) ∧
        ∀ t, t ∈ ts ↔ step.seconds ∣ t ∧ bucket ≤ t ∧ (t : ℚ) < untilTs := by
  have hend : ∀ {bucket : ℤ}, ¬(bucket : ℚ) < untilTs →
      ∀ t, t ∈ ([] : List ℤ) ↔ step.seconds ∣ t ∧ bucket ≤ t ∧ (t : ℚ) < untilTs := by
    intro bucket hend t
    refine iff_of_false List.not_mem_nil fun h => hend ?_
    have hle : (bucket : ℚ) ≤ t := by exact_mod_cast h.2.1
    exact hle.trans_lt h.2.2
  intro room
  induction room with
  | zero =>
    intro bucket ts _ h
    unfold bucketLoop at h
    split at h
    · cases h
    · rename_i hlt
      obtain rfl := Option.some.inj h
      exact ⟨List.Pairwise.nil, hend hlt⟩
  | succ room ih =>
    intro bucket ts halign h
    unfold bucketLoop at h
    split at h
    · rename_i hlt
      obtain ⟨rest, hrest, rfl⟩ := Option.map_eq_some_iff.mp h
      obtain ⟨hsorted, hmem⟩ := ih (dvd_add halign dvd_rfl) hrest
      have hpos := step.seconds_pos
      refine ⟨List.pairwise_cons.mpr ⟨fun t ht => ?_, hsorted⟩, fun t => ?_⟩
      · have := ((hmem t).mp ht).2.1
        omega
      · rw [List.mem_cons, hmem]
        constructor
        · rintro (rfl | ⟨hdvd, hle, hbelow⟩)
          · exact ⟨halign, le_refl _, hlt⟩
          · exact ⟨hdvd, by omega, hbelow⟩
        · rintro ⟨hdvd, hle, hbelow⟩
          rcases hle.eq_or_lt with heq | hgt
          · exact Or.inl heq.symm
          · -- the next aligned time is a step away
            have hstep := Int.le_of_dvd (sub_pos.mpr hgt) (dvd_sub hdvd halign)
            exact Or.inr ⟨hdvd, by omega, hbelow⟩
    · rename_i hlt
      obtain rfl := Option.some.inj h
      exact ⟨List.Pairwise.nil, hend hlt⟩

/-- The loop ends where there is room for the window. -/
theorem bucketLoop_some {untilTs : ℚ} {step : RollupStep} : ∀ {room : ℕ} {bucket : ℤ},
    untilTs ≤ (bucket : ℚ) + room * step.seconds →
      ∃ ts, bucketLoop untilTs step room bucket = some ts := by
  intro room
  induction room with
  | zero =>
    intro bucket h
    have hend : ¬(bucket : ℚ) < untilTs := by simpa using h
    exact ⟨[], by rw [bucketLoop, if_neg hend]⟩
  | succ room ih =>
    intro bucket h
    unfold bucketLoop
    split
    · have hroom : untilTs ≤ ((bucket + step.seconds : ℤ) : ℚ) + room * step.seconds := by
        push_cast at h ⊢
        linarith
      obtain ⟨ts, hts⟩ := ih hroom
      exact ⟨bucket :: ts, by rw [hts]; rfl⟩
    · exact ⟨[], rfl⟩

/-- The window has no more buckets than are allowed. -/
def WithinCap (step : RollupStep) (sinceTs untilTs : ℚ) : Prop :=
  untilTs ≤ (floorBucket sinceTs step : ℚ) + maxBuckets * step.seconds

instance (step : RollupStep) (sinceTs untilTs : ℚ) : Decidable (WithinCap step sinceTs untilTs) :=
  inferInstanceAs (Decidable (_ ≤ _))

theorem chartBuckets_grid {step : RollupStep} {sinceTs untilTs : ℚ}
    (hcap : WithinCap step sinceTs untilTs) (tooMany : String) :
    ∃ ts, chartBuckets sinceTs untilTs step tooMany = .ok ts ∧ Grid step sinceTs untilTs ts := by
  obtain ⟨ts, hts⟩ := bucketLoop_some hcap
  obtain ⟨hsorted, hmem⟩ := bucketLoop_grid untilTs step (seconds_dvd_floorBucket _ _) hts
  refine ⟨ts, ?_, hsorted, hmem⟩
  unfold chartBuckets
  rw [hts]

/-! ## Rows at their points -/

/-- The buckets of the rows are aligned. -/
def AlignedRollups (db : Db) : Prop :=
  ∀ row ∈ db.metricRollup.entries, row.1.1.seconds ∣ row.1.2.bucket

instance (db : Db) : Decidable (AlignedRollups db) :=
  inferInstanceAs (Decidable (∀ _ ∈ _, _))

/-- Rows of the window are each in one bucket of the grid. -/
theorem Grid.once {step : RollupStep} {sinceTs untilTs : ℚ} {ts : List ℤ}
    (h : Grid step sinceTs untilTs ts) {rows : List RollupEntry}
    (hrows : ∀ row ∈ rows, step.seconds ∣ row.1.2.bucket ∧ InChart step sinceTs untilTs row) :
    (ts.flatMap (rowsAt rows)).Perm rows := by
  refine List.perm_groups (fun row : RollupEntry => row.1.2.bucket)
    (h.increasing.imp fun hlt => ne_of_lt hlt) fun row hrow => ?_
  obtain ⟨halign, hin⟩ := hrows row hrow
  exact (h.mem _).mpr ⟨halign, hin.2⟩

theorem countOf_perm {rows rows' : List RollupEntry} (h : rows.Perm rows') :
    countOf rows = countOf rows' := (h.map _).sum_eq

theorem sumOf_perm {rows rows' : List RollupEntry} (h : rows.Perm rows') :
    sumOf rows = sumOf rows' := (h.map _).sum_eq

/-- The counts of the buckets add up. -/
theorem countOf_flatMap (ts : List ℤ) (rows : List RollupEntry) :
    countOf (ts.flatMap (rowsAt rows)) = (ts.map fun t => countOf (rowsAt rows t)).sum := by
  induction ts with
  | nil => rfl
  | cons t ts ih =>
    rw [List.flatMap_cons, List.map_cons, List.sum_cons, ← ih, countOf, List.map_append,
      List.sum_append, countOf, countOf]

/-! ## Points -/

section

variable (rows : List Stats) (step : RollupStep)

theorem requests_point : (bucketPoint .requests rows step).value * step.seconds =
    ((rows.map StatsOf.count).sum : ℕ) := by
  have hs : (step.seconds : ℚ) ≠ 0 := by exact_mod_cast step.seconds_pos.ne'
  rcases rows with _ | ⟨row, rows⟩
  · simp [bucketPoint, PointValue.value]
  · simp only [bucketPoint, List.isEmpty_cons, Bool.false_eq_true, if_false, Metric.isCounter,
      if_true, PointValue.value]
    exact div_mul_cancel₀ _ hs

theorem errors_point : (bucketPoint .errors rows step).value =
    ((rows.map StatsOf.count).sum : ℕ) := by
  rcases rows with _ | ⟨row, rows⟩
  · simp [bucketPoint, PointValue.value]
  · simp [bucketPoint, PointValue.value, Metric.isCounter]

/-- The average of a queue times its count, where no row has a sum without a count. -/
theorem queue_point (h : ∀ row ∈ rows, row.count = 0 → row.sum = 0) :
    (bucketPoint .queue rows step).value * ((rows.map StatsOf.count).sum : ℕ) =
      (rows.map StatsOf.sum).sum := by
  rcases hrows : rows with _ | ⟨row, rest⟩
  · simp [bucketPoint, PointValue.value]
  · rw [← hrows]
    have hne : rows.isEmpty = false := by rw [hrows]; rfl
    simp only [bucketPoint, hne, Bool.false_eq_true, if_false, Metric.isCounter, if_true,
      reduceCtorEq, PointValue.value]
    split
    · rename_i hzero
      have hsums : ∀ x ∈ rows.map StatsOf.sum, x = 0 := by
        intro x hx
        obtain ⟨row, hrow, rfl⟩ := List.mem_map.mp hx
        exact h row hrow (List.sum_eq_zero_iff.mp hzero _ (List.mem_map_of_mem hrow))
      rw [hzero, List.sum_eq_zero hsums]
      simp
    · rename_i hpos
      exact div_mul_cancel₀ _ (by exact_mod_cast hpos)

end

/-! ## The rows of a query -/

section

variable {step : RollupStep} {sinceTs untilTs : ℚ}

/-- The bucket that a window starts in fits into 64 bits. -/
def Fits (step : RollupStep) (sinceTs : ℚ) : Prop :=
  -(2 ^ 63) ≤ floorBucket sinceTs step ∧ floorBucket sinceTs step < 2 ^ 63

instance (step : RollupStep) (sinceTs : ℚ) : Decidable (Fits step sinceTs) :=
  inferInstanceAs (Decidable (_ ∧ _))

variable (untilTs) in
theorem buckets_bindable (hfits : Fits step sinceTs) (clauses : List (Clause RollupEntry)) :
    clausesBindable (Clause.step step :: (clauses ++ Clause.buckets sinceTs untilTs step)) =
      clausesBindable clauses := by
  have hstep : SqlValue.bindable (.integer step.seconds) = true := by cases step <;> decide
  have hfloor : SqlValue.bindable (.integer (floorBucket sinceTs step)) = true :=
    decide_eq_true hfits
  have hreal : SqlValue.bindable (.real untilTs) = true := rfl
  simp only [clausesBindable, Clause.step, Clause.buckets, List.all_cons, List.all_append,
    List.all_nil, hstep, hfloor, hreal, Bool.and_true, Bool.true_and]

theorem name_encodable (metric : Metric) : metric.name.encodable = true := by
  cases metric <;> decide

/-- The texts of the filters can be bound. -/
def FiltersEncodable (model route : Option PyStr) : Prop :=
  ∀ s ∈ (orNone model).toList ++ (orNone route).toList, s.encodable = true

theorem dims_bindable {model route : Option PyStr}
    (h : ∀ s ∈ model.toList ++ route.toList, s.encodable = true) :
    clausesBindable (Clause.dims model route) = true := by
  unfold Clause.dims
  split
  · rfl
  · simp only [clausesBindable, List.all_cons, List.all_nil, Bool.and_true]
    refine List.all_eq_true.mpr fun v hv => ?_
    obtain ⟨s, hs, rfl⟩ := List.mem_map.mp hv
    exact h s hs

theorem seriesClauses_bindable {names : List Metric} {model route : Option PyStr}
    (hfits : Fits step sinceTs) (htext : FiltersEncodable model route) :
    clausesBindable (seriesClauses names step sinceTs untilTs model route) = true := by
  have hnames : clausesBindable ([⟨names.map fun metric => .text metric.name,
      fun row => decide (row.1.2.metric ∈ names)⟩] : List (Clause RollupEntry)) = true := by
    simp only [clausesBindable, List.all_cons, List.all_nil, Bool.and_true]
    refine List.all_eq_true.mpr fun v hv => ?_
    obtain ⟨metric, -, rfl⟩ := List.mem_map.mp hv
    exact name_encodable metric
  have hrest := (buckets_bindable untilTs hfits _).trans hnames
  unfold seriesClauses
  have happend := clauses_bindable_append (Clause.step step :: ([⟨names.map fun metric =>
    .text metric.name, fun row => decide (row.1.2.metric ∈ names)⟩] ++
      Clause.buckets sinceTs untilTs step)) (Clause.dims (orNone model) (orNone route))
  rw [hrest, dims_bindable htext] at happend
  exact happend

theorem mixClauses_bindable (hfits : Fits step sinceTs) :
    clausesBindable (mixClauses step sinceTs untilTs) = true :=
  (buckets_bindable untilTs hfits [⟨[], _⟩]).trans rfl

theorem dims_holds (model route : Option PyStr) (row : RollupEntry) :
    ((Clause.dims model route).all fun c => c.holds row) =
      decide (row.1.2.metric = .errors ∨
        (∀ m ∈ model, row.1.2.model = m) ∧ ∀ r ∈ route, row.1.2.route = r) := by
  unfold Clause.dims
  rcases model with _ | model <;> rcases route with _ | route <;> simp

theorem seriesClauses_holds (names : List Metric) (model route : Option PyStr)
    (row : RollupEntry) :
    ((seriesClauses names step sinceTs untilTs model route).all fun c => c.holds row) =
      decide (InChart step sinceTs untilTs row ∧ row.1.2.metric ∈ names ∧
        (row.1.2.metric = .errors ∨ (∀ m ∈ orNone model, row.1.2.model = m) ∧
          ∀ r ∈ orNone route, row.1.2.route = r)) := by
  unfold seriesClauses
  rw [List.all_cons, List.all_cons, List.all_append, dims_holds, Bool.eq_iff_iff,
    decide_eq_true_iff]
  simp only [Clause.step, Clause.buckets, List.all_cons, List.all_nil, Bool.and_true,
    Bool.and_eq_true, decide_eq_true_eq]
  unfold InChart
  tauto

theorem mixClauses_holds (row : RollupEntry) :
    ((mixClauses step sinceTs untilTs).all fun c => c.holds row) =
      decide (InChart step sinceTs untilTs row ∧ row.1.2.metric = .requests ∧
        row.1.2.model ≠ []) := by
  rw [Bool.eq_iff_iff, decide_eq_true_iff]
  simp only [mixClauses, Clause.step, Clause.buckets, List.all_cons, List.all_nil, Bool.and_true,
    Bool.and_eq_true, decide_eq_true_eq]
  unfold InChart
  tauto

theorem byKey_get (rows : List RollupEntry) (t : ℤ) (metric : Metric) :
    ((byKey rows).get (t, metric)).getD [] =
      (rows.filter fun row => decide ((row.1.2.bucket, row.1.2.metric) = (t, metric))).map
        Prod.snd := by
  have happend : ∀ (rows : List RollupEntry) (group : List Stats),
      rows.foldl (fun group row => group ++ [row.2]) group = group ++ rows.map Prod.snd := by
    intro rows
    induction rows with
    | nil => exact fun group => (List.append_nil group).symm
    | cons row rows ih =>
      intro group
      rw [List.foldl_cons, ih, List.append_assoc]
      rfl
  exact (Dict.getD_foldBy _ rows (t, metric)).trans (happend _ [])

/-- What the query has grouped under a point are the rows of the series there. -/
theorem group_perm (order : ScanOrder) {names : List Metric} {metric : Metric}
    (hmetric : metric ∈ names) (db : Db) (model route : Option PyStr) (t : ℤ) :
    ((order.scan (db.metricRollup.entries.filter fun row =>
      (seriesClauses names step sinceTs untilTs model route).all fun c => c.holds row)).filter
        fun row => decide ((row.1.2.bucket, row.1.2.metric) = (t, metric))).Perm
      (rowsAt (seriesRows db metric step sinceTs untilTs model route) t) := by
  refine ((order.perm _).filter _).trans (List.Perm.of_eq ?_)
  unfold rowsAt seriesRows
  rw [List.filter_filter, List.filter_filter]
  refine List.filter_congr fun row _ => ?_
  rw [seriesClauses_holds, ← Bool.decide_and, ← Bool.decide_and]
  refine decide_eq_decide.mpr ⟨?_, ?_⟩
  · rintro ⟨hkey, hin, -, hdims⟩
    obtain ⟨hbucket, rfl⟩ := Prod.mk.inj hkey
    exact ⟨hbucket, hin, rfl, hdims⟩
  · rintro ⟨hbucket, hin, rfl, hdims⟩
    exact ⟨Prod.ext hbucket rfl, hin, hmetric, hdims⟩

end

/-! ## Series show their rows -/

/-- A queue row without events has no sum. -/
def EmptyQueues (db : Db) : Prop :=
  ∀ row ∈ db.metricRollup.entries, row.1.2.metric = .queue → row.2.count = 0 → row.2.sum = 0

instance (db : Db) : Decidable (EmptyQueues db) :=
  inferInstanceAs (Decidable (∀ _ ∈ _, _ → _ → _))

section

variable {step : RollupStep} {sinceTs untilTs : ℚ}

/-- Where points add up to the counts of their rows, they add up to all counts. -/
theorem sum_points {points : List (ℤ × PointValue)} {rows : List RollupEntry}
    (honce : ((points.map Prod.fst).flatMap (rowsAt rows)).Perm rows) {f : ℤ × PointValue → ℚ}
    (hf : ∀ p ∈ points, f p = (countOf (rowsAt rows p.1) : ℚ)) :
    (points.map f).sum = (countOf rows : ℚ) :=
  calc (points.map f).sum
      = ((points.map fun p => countOf (rowsAt rows p.1)).map (Nat.cast : ℕ → ℚ)).sum := by
        rw [List.map_map, List.map_congr_left hf]
        rfl
    _ = ((points.map fun p => countOf (rowsAt rows p.1)).sum : ℕ) := (Nat.cast_list_sum _).symm
    _ = (((points.map Prod.fst).map fun t => countOf (rowsAt rows t)).sum : ℕ) := by
        rw [List.map_map]
        rfl
    _ = (countOf rows : ℚ) := by rw [← countOf_flatMap, countOf_perm honce]

/-- A series whose points are made of the rows of their buckets shows the rows. -/
theorem Series.shows_of {series : Series} {rows : List RollupEntry}
    (hgrid : Grid step sinceTs untilTs (series.points.map Prod.fst))
    (honce : ((series.points.map Prod.fst).flatMap (rowsAt rows)).Perm rows)
    (hvalue : ∀ p ∈ series.points, ∃ group : List RollupEntry, group.Perm (rowsAt rows p.1) ∧
      p.2 = bucketPoint series.metric (group.map Prod.snd) step)
    (hempty : series.metric = .queue → ∀ row ∈ rows, row.2.count = 0 → row.2.sum = 0) :
    series.Shows step sinceTs untilTs rows where
  grid := hgrid
  once := honce
  value := hvalue
  requests hmetric := by
    refine sum_points honce fun p hp => ?_
    obtain ⟨group, hperm, hpoint⟩ := hvalue p hp
    rw [hpoint, hmetric, requests_point, ← countOf_perm hperm, countOf, List.map_map]
    rfl
  errors hmetric := by
    refine sum_points honce fun p hp => ?_
    obtain ⟨group, hperm, hpoint⟩ := hvalue p hp
    rw [hpoint, hmetric, errors_point, ← countOf_perm hperm, countOf, List.map_map]
    rfl
  queue hmetric p hp := by
    obtain ⟨group, hperm, hpoint⟩ := hvalue p hp
    have hzero : ∀ row ∈ group.map Prod.snd, row.count = 0 → row.sum = 0 := by
      intro row hrow
      obtain ⟨e, he, rfl⟩ := List.mem_map.mp hrow
      exact hempty hmetric e (List.mem_filter.mp (hperm.mem_iff.mp he)).1
    have havg := queue_point (group.map Prod.snd) step hzero
    rw [List.map_map, List.map_map] at havg
    rw [hpoint, hmetric, ← countOf_perm hperm, ← sumOf_perm hperm]
    exact havg

/-- A series of `metrics_series` shows the rows that match it. -/
theorem series_shows (order : ScanOrder) {db : Db} (halign : AlignedRollups db)
    (hempty : EmptyQueues db) {names : List Metric} {metric : Metric} (hmetric : metric ∈ names)
    (model route : Option PyStr) {ts : List ℤ} (hgrid : Grid step sinceTs untilTs ts)
    {rows : List RollupEntry} (hrows : rows = order.scan (db.metricRollup.entries.filter fun row =>
      (seriesClauses names step sinceTs untilTs model route).all fun c => c.holds row)) :
    (⟨metric, ts.map fun point => (point, bucketPoint metric
      (((byKey rows).get (point, metric)).getD []) step)⟩ : Series).Shows step sinceTs untilTs
        (seriesRows db metric step sinceTs untilTs model route) := by
  have hfst : (ts.map fun point => (point, bucketPoint metric
      (((byKey rows).get (point, metric)).getD []) step)).map Prod.fst = ts := by
    rw [List.map_map]
    exact List.map_id _
  refine Series.shows_of ?_ ?_ (fun p hp => ?_) fun hqueue row hrow => ?_
  · rwa [hfst]
  · rw [hfst]
    refine hgrid.once fun row hrow => ?_
    obtain ⟨hmem, hmatch⟩ := List.mem_filter.mp hrow
    have hin := (of_decide_eq_true hmatch).1
    exact ⟨hin.1 ▸ halign row hmem, hin⟩
  · obtain ⟨t, -, rfl⟩ := List.mem_map.mp hp
    refine ⟨_, group_perm order hmetric db model route t, ?_⟩
    dsimp only
    rw [byKey_get, hrows]
  · obtain ⟨hmem, hmatch⟩ := List.mem_filter.mp hrow
    exact hempty row hmem ((of_decide_eq_true hmatch).2.1.trans hqueue)

/-- What the query of `metrics_series` finds. -/
def seriesFound (order : ScanOrder) (db : Db) (names : List Metric) (step : RollupStep)
    (sinceTs untilTs : ℚ) (model route : Option PyStr) : List RollupEntry :=
  order.scan (db.metricRollup.entries.filter fun row =>
    (seriesClauses names step sinceTs untilTs model route).all fun c => c.holds row)

/-- **`metrics_series` shows the rows that match.** -/
theorem metricsSeries_shows (order : ScanOrder) {db : Db} (halign : AlignedRollups db)
    (hempty : EmptyQueues db) {metrics : MetricsArg} {names : List Metric}
    (hnames : metrics.parse = .ok names) {model route : Option PyStr}
    (htext : FiltersEncodable model route) (hwindow : sinceTs < untilTs)
    (hfits : Fits step sinceTs) (hcap : WithinCap step sinceTs untilTs) :
    ∃ chart, metricsSeries order db metrics sinceTs untilTs (some step.seconds) model route =
        .ok chart ∧ chart.series.map Series.metric = names ∧
      ∀ series ∈ chart.series, series.Shows step sinceTs untilTs
        (seriesRows db series.metric step sinceTs untilTs model route) := by
  obtain ⟨ts, hts, hgrid⟩ := chartBuckets_grid hcap "step is too small for the requested window"
  have hstep : (some step.seconds).bind RollupStep.ofSeconds = some step := by
    cases step <;> decide
  have hfound : selectAll order (seriesClauses names step sinceTs untilTs model route)
      db.metricRollup.entries = .ok (seriesFound order db names step sinceTs untilTs model route) :=
    if_pos (seriesClauses_bindable hfits htext)
  refine ⟨{
    step := step
    window := (sinceTs, untilTs)
    series := names.map fun metric => ⟨metric, ts.map fun point => (point, bucketPoint metric
      (((byKey (seriesFound order db names step sinceTs untilTs model route)).get
        (point, metric)).getD []) step)⟩ }, ?_, ?_, fun series hseries => ?_⟩
  · simp only [metricsSeries, hnames, hstep, not_le.mpr hwindow, if_false]
    change (selectAll order _ _).bind _ = _
    rw [hfound]
    change (chartBuckets _ _ _ _).bind _ = _
    rw [hts]
    rfl
  · exact (List.map_map ..).trans (List.map_id _)
  · obtain ⟨metric, hmetric, rfl⟩ := List.mem_map.mp hseries
    exact series_shows order halign hempty hmetric model route hgrid rfl

/-- The counts of the models of some rows. -/
def modelCounts (rows : List RollupEntry) : Dict PyStr ℕ := rows.foldl addModel Dict.empty

theorem modelCounts_get (rows : List RollupEntry) (model : PyStr) :
    ((modelCounts rows).get model).getD 0 =
      countOf (rows.filter fun row => decide (row.1.2.model = model)) := by
  have hfold : modelCounts rows = Dict.foldBy (fun row : RollupEntry => row.1.2.model) 0
      (fun count row => count + row.2.count) rows := rfl
  rw [hfold, Dict.getD_foldBy, countOf, List.sum_eq_foldl, List.foldl_map]

theorem modelCounts_total (rows : List RollupEntry) :
    (modelCounts rows).total (fun _ n => n) = countOf rows :=
  Dict.total_foldBy (fun row : RollupEntry => row.1.2.model) (fun row => row.2.count) rows

/-- **`metrics_models` shows the requests rows with a model.** -/
theorem metricsModels_shows (order : ScanOrder) {db : Db} (halign : AlignedRollups db) (now : ℚ)
    (hwindow : sinceTs < untilTs) (hstep : stepForRange (untilTs - sinceTs) = step)
    (hfits : Fits step sinceTs) (hcap : WithinCap step sinceTs untilTs) :
    ∃ mix, metricsModels order db (some sinceTs) (some untilTs) now = .ok mix ∧
      mix.Shows step sinceTs untilTs (mixRows db step sinceTs untilTs) := by
  obtain ⟨ts, hts, hgrid⟩ := chartBuckets_grid hcap "window is too large for model mix buckets"
  have hmatch : (db.metricRollup.entries.filter fun row =>
      (mixClauses step sinceTs untilTs).all fun c => c.holds row) =
        mixRows db step sinceTs untilTs :=
    List.filter_congr fun row _ => mixClauses_holds row
  have honce : ∀ {rows : List RollupEntry}, rows.Perm (mixRows db step sinceTs untilTs) →
      (ts.flatMap (rowsAt rows)).Perm rows := by
    refine fun hperm => hgrid.once fun row hrow => ?_
    obtain ⟨hmem, hrow⟩ := List.mem_filter.mp (hperm.mem_iff.mp hrow)
    have hin := (of_decide_eq_true hrow).1
    exact ⟨hin.1 ▸ halign row hmem, hin⟩
  have hfound : selectAll order (mixClauses step sinceTs untilTs) db.metricRollup.entries =
      .ok (order.scan (mixRows db step sinceTs untilTs)) := by
    rw [selectAll, if_pos (mixClauses_bindable hfits), hmatch]
  have hperm := order.perm (mixRows db step sinceTs untilTs)
  generalize order.scan (mixRows db step sinceTs untilTs) = found at hperm hfound
  refine ⟨{
    step := step
    window := (sinceTs, untilTs)
    buckets := ts.map fun bucket => (bucket, ((Dict.foldBy (fun row : RollupEntry =>
      row.1.2.bucket) Dict.empty addModel found).get bucket).getD Dict.empty)
    models := (found.map fun row => row.1.2.model).dedup.insertionSort (· ≤ ·)
    total := countOf found }, ?_, ?_⟩
  · simp only [metricsModels, Option.getD_some, not_le.mpr hwindow, if_false, hstep]
    change (selectAll order _ _).bind _ = _
    rw [hfound]
    change (chartBuckets _ _ _ _).bind _ = _
    rw [hts]
    rfl
  have hcounts : ∀ t, ((Dict.foldBy (fun row : RollupEntry => row.1.2.bucket) Dict.empty addModel
      found).get t).getD Dict.empty = modelCounts (rowsAt found t) :=
    fun t => Dict.getD_foldBy _ found t
  simp only [hcounts]
  constructor
  case grid =>
    rw [List.map_map]
    exact (List.map_id ts).symm ▸ hgrid
  case once =>
    rw [List.map_map]
    exact (List.map_id ts).symm ▸ honce (List.Perm.refl _)
  case counts =>
    intro b hb model
    obtain ⟨t, -, rfl⟩ := List.mem_map.mp hb
    rw [modelCounts_get]
    exact countOf_perm ((hperm.filter _).filter _)
  case total_buckets =>
    rw [List.map_map, ← countOf_perm (honce hperm), countOf_flatMap]
    refine congrArg List.sum (List.map_congr_left fun t _ => ?_)
    exact (modelCounts_total _).symm
  case total_rows => exact countOf_perm hperm

/-- **Charts partition the rollups.** Where buckets are aligned and no queue row has a
sum without a count, for every window that starts in a bucket of 64 bits and has not too
many of them: each series of `metrics_series` has one point for each step bucket of the
window and shows each row that matches it at one of them, and so does `metrics_models`
for the requests rows with a model. -/
theorem charts_partition (order : ScanOrder) {db : Db} (halign : AlignedRollups db)
    (hempty : EmptyQueues db) (hwindow : sinceTs < untilTs) (hfits : Fits step sinceTs)
    (hcap : WithinCap step sinceTs untilTs) :
    (∀ metrics names model route, MetricsArg.parse metrics = .ok names →
      FiltersEncodable model route → ∃ chart,
        metricsSeries order db metrics sinceTs untilTs (some step.seconds) model route =
          .ok chart ∧ chart.series.map Series.metric = names ∧
        ∀ series ∈ chart.series, series.Shows step sinceTs untilTs
          (seriesRows db series.metric step sinceTs untilTs model route)) ∧
    (∀ now, stepForRange (untilTs - sinceTs) = step → ∃ mix,
      metricsModels order db (some sinceTs) (some untilTs) now = .ok mix ∧
        mix.Shows step sinceTs untilTs (mixRows db step sinceTs untilTs)) :=
  ⟨fun _ _ _ _ hnames htext =>
      metricsSeries_shows order halign hempty hnames htext hwindow hfits hcap,
    fun now hstep => metricsModels_shows order halign now hwindow hstep hfits hcap⟩

end

/-- Requests of two models and their queueing, in two buckets. -/
def twoBuckets : Db where
  metricRollup := ((Dict.empty.set (.ten, ⟨0, .requests, py "english", [], 0⟩)
    (counterStats 3)).set (.ten, ⟨10, .requests, py "multilingual", [], 0⟩)
    (counterStats 4)).set (.ten, ⟨10, .queue, py "english", [], 0⟩)
    ⟨2, 5, 1, 4, fun _ => some 1⟩

/-- A window over both buckets that starts and ends within them. -/
theorem charts_partition_two :
    (∃ chart, metricsSeries .insertion twoBuckets (.text (py "requests,queue")) 3 17 (some 10)
        (some (py "english")) none = .ok chart ∧
      chart.series.map Series.metric = [.requests, .queue] ∧
      ∀ series ∈ chart.series, series.Shows .ten 3 17
        (seriesRows twoBuckets series.metric .ten 3 17 (some (py "english")) none)) ∧
    ∃ mix, metricsModels .insertion twoBuckets (some 3) (some 17) 17 = .ok mix ∧
      mix.Shows .ten 3 17 (mixRows twoBuckets .ten 3 17) := by
  have hnames : MetricsArg.parse (.text (py "requests,queue")) = .ok [.requests, .queue] := by
    decide +kernel
  have htext : FiltersEncodable (some (py "english")) none := by
    unfold FiltersEncodable
    decide +kernel
  have halign : AlignedRollups twoBuckets := by decide +kernel
  have hempty : EmptyQueues twoBuckets := by decide +kernel
  have hwindow : (3 : ℚ) < 17 := by norm_num
  have hfits : Fits .ten 3 := by decide +kernel
  have hcap : WithinCap .ten 3 17 := by decide +kernel
  obtain ⟨hseries, hmix⟩ := charts_partition .insertion halign hempty hwindow hfits hcap
  exact ⟨hseries _ _ _ none hnames htext, hmix 17 (by norm_num [stepForRange])⟩

/-- A queue row with a sum and no count. -/
def sumOnly : Db where
  metricRollup := Dict.empty.set (.ten, ⟨0, .queue, [], [], 0⟩) ⟨0, 5, 0, 0, fun _ => none⟩

/-- A queue row with a sum and no count is shown as 0, and a window of 64 bits whose
first bucket is not has no chart. -/
theorem charts_miss :
    AlignedRollups sumOnly ∧ WithinCap .ten 0 10 ∧
    (∀ chart, metricsSeries .insertion sumOnly (.names [py "queue"]) 0 10 (some 10) none none =
      .ok chart → ∃ series ∈ chart.series, ¬series.Shows .ten 0 10
        (seriesRows sumOnly series.metric .ten 0 10 none none)) ∧
    AlignedRollups Db.fresh ∧ WithinCap .ten (-(2 ^ 63)) (5 - 2 ^ 63) ∧
    ∀ chart, metricsSeries .insertion Db.fresh (.names [py "requests"]) (-(2 ^ 63)) (5 - 2 ^ 63)
      (some 10) none none ≠ .ok chart := by
  refine ⟨by decide +kernel, by decide +kernel, fun chart hchart => ?_, by decide +kernel,
    by decide +kernel, fun chart hchart => ?_⟩
  · have hmiss : (metricsSeries .insertion sumOnly (.names [py "queue"]) 0 10 (some 10) none
        none).toOption.any (fun chart => chart.series.any fun series =>
          decide (series.metric = .queue) && series.points.any fun p =>
            decide (p.2.value * (countOf (rowsAt (seriesRows sumOnly series.metric .ten 0 10
              none none) p.1) : ℚ) ≠ sumOf (rowsAt (seriesRows sumOnly series.metric .ten 0 10
                none none) p.1))) = true := by
      decide +kernel
    rw [hchart] at hmiss
    obtain ⟨series, hseries, hmiss⟩ := List.any_eq_true.mp hmiss
    obtain ⟨hqueue, hmiss⟩ := Bool.and_eq_true_iff.mp hmiss
    obtain ⟨p, hp, hne⟩ := List.any_eq_true.mp hmiss
    exact ⟨series, hseries, fun h =>
      of_decide_eq_true hne (h.queue (of_decide_eq_true hqueue) p hp)⟩
  · have hcrash : (metricsSeries .insertion Db.fresh (.names [py "requests"]) (-(2 ^ 63))
        (5 - 2 ^ 63) (some 10) none none).isOk = false := by
      decide +kernel
    rw [hchart] at hcrash
    cases hcrash

end LayaWatch
