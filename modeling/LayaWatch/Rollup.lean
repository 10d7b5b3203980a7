import LayaWatch.Python
import LayaWatch.Lib.Tally
import Mathlib.Data.Rat.Floor
import Mathlib.Data.List.Sort
import Mathlib.Algebra.BigOperators.Pi
import Mathlib.Tactic.FieldSimp
import Mathlib.Tactic.Ring

/-!
# Rollup statistics

`obs/rollup.py` and the statistics half of `store/queries.py`: aligned buckets,
nearest-rank percentiles, the summary of a sample, and the merge of summaries
by which rows cascade into their parents.

The abstract side is `Digest`: a tally together with count-weighted
percentiles, a commutative monoid. A summary has a digest (`digest`), and the
merge of rows is the sum of their digests read back (`mergeRows_eq`), so every
order and nesting of merges of the same rows gives the same row.
-/

namespace LayaWatch

/-! ## Buckets -/

/-- The persisted bucket steps, `_STEPS` (with `_BUCKET_STEP` the first and
`_PARENT_STEPS` the others). -/
inductive RollupStep where
  /-- 10 s -/
  | ten
  /-- 60 s -/
  | minute
  /-- 3600 s -/
  | hour
  deriving DecidableEq, Repr

namespace RollupStep

/-- The length of a bucket in seconds. -/
def seconds : RollupStep → ℤ
  | ten => 10
  | minute => 60
  | hour => 3600

theorem seconds_pos (step : RollupStep) : 0 < step.seconds := by cases step <;> decide

/-- `_PARENT_STEPS`. -/
def parents : List RollupStep := [minute, hour]

end RollupStep

/-- `floor_bucket`: the aligned start of the bucket of `ts`. (The check of
`step` is its type.) -/
def floorBucket (ts : ℚ) (step : RollupStep) : ℤ := ⌊ts / step.seconds⌋ * step.seconds

/-- `t` lies in the bucket of length `step` that starts at `b`. -/
def InWindow (b : ℤ) (step : RollupStep) (t : ℤ) : Prop := b ≤ t ∧ t < b + step.seconds

instance (b : ℤ) (step : RollupStep) (t : ℤ) : Decidable (InWindow b step t) :=
  inferInstanceAs (Decidable (_ ∧ _))

theorem floorBucket_le (ts : ℚ) (step : RollupStep) : (floorBucket ts step : ℚ) ≤ ts := by
  have hs : (0 : ℚ) < step.seconds := by exact_mod_cast step.seconds_pos
  have h := Int.floor_le (ts / step.seconds)
  rw [le_div_iff₀ hs] at h
  unfold floorBucket
  push_cast
  exact h

theorem lt_floorBucket_add (ts : ℚ) (step : RollupStep) :
    ts < (floorBucket ts step : ℚ) + step.seconds := by
  have hs : (0 : ℚ) < step.seconds := by exact_mod_cast step.seconds_pos
  have h := Int.lt_floor_add_one (ts / step.seconds)
  rw [div_lt_iff₀ hs] at h
  unfold floorBucket
  push_cast
  linarith

/-- A time is in its bucket. -/
theorem inWindow_floorBucket (b : ℤ) (step : RollupStep) :
    InWindow (floorBucket b step) step b := by
  have hle := floorBucket_le b step
  have hlt := lt_floorBucket_add b step
  exact ⟨by exact_mod_cast hle, by exact_mod_cast hlt⟩

/-- The bucket of a time is the only aligned one it lies in. -/
theorem floorBucket_eq_iff {b : ℤ} {ts : ℚ} {step : RollupStep} (hb : step.seconds ∣ b) :
    floorBucket ts step = b ↔ (b : ℚ) ≤ ts ∧ ts < (b : ℚ) + step.seconds := by
  constructor
  · rintro rfl
    exact ⟨floorBucket_le ts step, lt_floorBucket_add ts step⟩
  · rintro ⟨hle, hlt⟩
    obtain ⟨n, rfl⟩ := hb
    have hs : (0 : ℚ) < step.seconds := by exact_mod_cast step.seconds_pos
    push_cast at hle hlt
    have hn : ⌊ts / step.seconds⌋ = n := by
      rw [Int.floor_eq_iff, le_div_iff₀ hs, div_lt_iff₀ hs]
      exact ⟨by linarith, by linarith⟩
    rw [floorBucket, hn, mul_comm]

theorem floorBucket_eq_of_inWindow {b t : ℤ} {step : RollupStep} (hb : step.seconds ∣ b)
    (h : InWindow b step t) : floorBucket t step = b :=
  (floorBucket_eq_iff hb).mpr ⟨by exact_mod_cast h.1, by exact_mod_cast h.2⟩

theorem seconds_dvd_floorBucket (ts : ℚ) (step : RollupStep) :
    step.seconds ∣ floorBucket ts step := Dvd.intro_left _ rfl

/-! ## Keys -/

/-- The `metric` column. -/
inductive Metric where
  /-- one event per trace -/
  | requests
  /-- one event per failed trace -/
  | errors
  /-- the `duration_ms` samples -/
  | latency
  /-- the `queue_ms` samples -/
  | queue
  deriving DecidableEq, Repr

/-- `metric in COUNTER_METRICS`. -/
def Metric.isCounter : Metric → Bool
  | .requests | .errors => true
  | .latency | .queue => false

/-- The primary key of `metric_rollup` without its step. -/
structure RollupKey where
  /-- start of the bucket -/
  bucket : ℤ
  /-- metric -/
  metric : Metric
  /-- model, `''` when the trace has none -/
  model : PyStr
  /-- route -/
  route : PyStr
  /-- status, 0 except for errors -/
  status : ℤ
  deriving DecidableEq

/-- The key of the parent bucket. -/
def RollupKey.parent (key : RollupKey) (step : RollupStep) : RollupKey :=
  { key with bucket := floorBucket key.bucket step }

/-- `child` has the dimensions of `key` and its bucket is in the window of
`key` at `step`. -/
def RollupKey.Covers (key : RollupKey) (step : RollupStep) (child : RollupKey) : Prop :=
  InWindow key.bucket step child.bucket ∧ child.metric = key.metric ∧ child.model = key.model ∧
    child.route = key.route ∧ child.status = key.status

instance (key : RollupKey) (step : RollupStep) (child : RollupKey) :
    Decidable (key.Covers step child) := inferInstanceAs (Decidable (_ ∧ _))

/-- The window of an aligned key covers exactly the keys it is the parent of. -/
theorem RollupKey.covers_iff {key child : RollupKey} {step : RollupStep}
    (ha : step.seconds ∣ key.bucket) : key.Covers step child ↔ child.parent step = key := by
  constructor
  · rintro ⟨hw, hm, hmo, hr, hs⟩
    have hb := floorBucket_eq_of_inWindow ha hw
    cases key; cases child
    simp_all [RollupKey.parent]
  · rintro rfl
    exact ⟨inWindow_floorBucket child.bucket step, rfl, rfl, rfl, rfl⟩

/-! ## Statistics -/

/-- The percentile columns, `_PERCENTILES`. -/
inductive Pct where
  /-- median -/
  | p50
  /-- 90th -/
  | p90
  /-- 95th -/
  | p95
  /-- 99th -/
  | p99
  deriving DecidableEq, Repr

/-- An argument `q` that `percentile` accepts. -/
def Quantile : Type := {q : ℚ // 0 < q ∧ q ≤ 1}

/-- The quantile of a percentile column. -/
def Pct.quantile : Pct → Quantile
  | .p50 => ⟨1 / 2, by norm_num⟩
  | .p90 => ⟨9 / 10, by norm_num⟩
  | .p95 => ⟨19 / 20, by norm_num⟩
  | .p99 => ⟨99 / 100, by norm_num⟩

/-- The eight stat keys; `α` is the type of a percentile. -/
@[ext] structure StatsOf (α : Type) where
  /-- `count` -/
  count : ℕ
  /-- `sum` -/
  sum : ℚ
  /-- `min` -/
  min : ℚ
  /-- `max` -/
  max : ℚ
  /-- `p50` to `p99` -/
  pct : Pct → α

/-- A `summarize()`-shaped row. -/
abbrev Summary : Type := StatsOf ℚ

/-- A stored row: the percentiles may be NULL. -/
abbrev Stats : Type := StatsOf (Option ℚ)

/-- The same statistics, as a stored row. -/
def Summary.toStats (s : Summary) : Stats := ⟨s.count, s.sum, s.min, s.max, fun p => some (s.pct p)⟩

/-- `_ZERO`. -/
def zeroRow : Summary := ⟨0, 0, 0, 0, fun _ => 0⟩

/-- `percentile`: nearest rank, 0 for an empty sample. -/
def percentile (values : List ℚ) (q : Quantile) : ℚ :=
  if values.isEmpty then 0
  else
    let ordered := values.insertionSort (· ≤ ·)
    let rank := ⌈q.1 * ordered.length⌉
    ordered.getD (rank - 1).toNat 0

/-- `summarize`. -/
def summarize (values : List ℚ) : Summary :=
  if values.isEmpty then zeroRow
  else
    { count := values.length
      sum := values.sum
      min := values.minimum.untopD 0
      max := values.maximum.unbotD 0
      pct := fun p => percentile values p.quantile }

/-- The order of the sample does not matter. -/
theorem summarize_perm {values values' : List ℚ} (h : values.Perm values') :
    summarize values = summarize values' := by
  have hempty : values.isEmpty = values'.isEmpty := h.isEmpty_eq
  have hsort : values.insertionSort (· ≤ ·) = values'.insertionSort (· ≤ ·) :=
    ((List.perm_insertionSort _ values).trans (h.trans (List.perm_insertionSort _ values').symm)
      ).eq_of_pairwise' (List.pairwise_insertionSort _ values)
        (List.pairwise_insertionSort _ values')
  unfold summarize percentile
  rw [hempty, h.length_eq, h.sum_eq, h.minimum_eq, h.maximum_eq, hsort]

/-- The accumulators of the loop in `merge_rows`. -/
structure MergeAcc where
  /-- `count` -/
  count : ℕ
  /-- `total` -/
  total : ℚ
  /-- `minimums` -/
  minimums : List ℚ
  /-- `maximums` -/
  maximums : List ℚ
  /-- `weighted` -/
  weighted : Pct → ℚ

/-- One round of the loop in `merge_rows`. -/
def MergeAcc.add (acc : MergeAcc) (row : Summary) : MergeAcc :=
  let acc := { acc with count := acc.count + row.count, total := acc.total + row.sum }
  if row.count = 0 then acc
  else
    { acc with
      minimums := acc.minimums ++ [row.min]
      maximums := acc.maximums ++ [row.max]
      weighted := fun p => acc.weighted p + row.pct p * row.count }

/-- What `merge_rows` returns after the loop. -/
def MergeAcc.result (acc : MergeAcc) : Summary where
  count := acc.count
  sum := acc.total
  min := acc.minimums.minimum.untopD 0
  max := acc.maximums.maximum.unbotD 0
  pct := fun p => if acc.count = 0 then 0 else acc.weighted p / acc.count

/-- `merge_rows`. -/
def mergeRows (rows : List Summary) : Summary :=
  (rows.foldl MergeAcc.add ⟨0, 0, [], [], fun _ => 0⟩).result

/-- `counter_stats`. -/
def counterStats (count : ℕ) : Stats := ⟨count, count, 1, 1, fun _ => none⟩

/-- `_stats_of`: NULL percentiles read as 0. -/
def statsOf (row : Stats) : Summary :=
  ⟨row.count, row.sum, row.min, row.max, fun p => (row.pct p).getD 0⟩

/-- `merge_stats`. -/
def mergeStats (metric : Metric) (existing : Option Stats) (new : Stats) : Stats :=
  match existing with
  | none => new
  | some row =>
    if metric.isCounter then counterStats (row.count + new.count)
    else (mergeRows [statsOf row, statsOf new]).toStats

/-! ## Digests -/

/-- A tally with the count-weighted sums of the percentiles. -/
abbrev Digest : Type := Tally ℚ × (Pct → ℚ)

/-- The digest of a summary. -/
def Summary.digest (s : Summary) : Digest :=
  (⟨s.count, s.sum, if s.count = 0 then ⊤ else s.min, if s.count = 0 then ⊥ else s.max⟩,
    fun p => s.pct p * s.count)

/-- The summary a digest stands for. -/
def Digest.summary (d : Digest) : Summary where
  count := d.1.count
  sum := d.1.sum
  min := d.1.lo.untopD 0
  max := d.1.hi.unbotD 0
  pct := fun p => if d.1.count = 0 then 0 else d.2 p / d.1.count

/-- A summary of something is determined by its digest. -/
theorem Digest.summary_digest {s : Summary} (h : s.count ≠ 0) :
    Digest.summary s.digest = s := by
  have hq : (s.count : ℚ) ≠ 0 := by exact_mod_cast h
  ext1 <;> simp [Digest.summary, Summary.digest, h, hq]

/-- The digest of the accumulators. -/
def MergeAcc.digest (acc : MergeAcc) : Digest :=
  (⟨acc.count, acc.total, acc.minimums.minimum, acc.maximums.maximum⟩, acc.weighted)

theorem MergeAcc.digest_add (acc : MergeAcc) (row : Summary) :
    (acc.add row).digest = acc.digest + row.digest := by
  by_cases h : row.count = 0
  · refine Prod.ext (Tally.ext ?_ ?_ ?_ ?_) (funext fun p => ?_) <;>
      simp [MergeAcc.add, MergeAcc.digest, Summary.digest, h]
  · refine Prod.ext (Tally.ext ?_ ?_ ?_ ?_) (funext fun p => ?_) <;>
      simp [MergeAcc.add, MergeAcc.digest, Summary.digest, h, List.minimum_concat,
        List.maximum_concat]

theorem MergeAcc.digest_foldl (rows : List Summary) :
    ∀ acc : MergeAcc, (rows.foldl MergeAcc.add acc).digest =
      acc.digest + (rows.map Summary.digest).sum := by
  induction rows with
  | nil => intro acc; simp
  | cons row rest ih =>
    intro acc
    rw [List.foldl_cons, ih, MergeAcc.digest_add, List.map_cons, List.sum_cons, add_assoc]

/-- **The merge of rows is the sum of their digests.** -/
theorem mergeRows_eq (rows : List Summary) :
    mergeRows rows = Digest.summary (rows.map Summary.digest).sum := by
  have h := MergeAcc.digest_foldl rows ⟨0, 0, [], [], fun _ => 0⟩
  have h0 : MergeAcc.digest ⟨0, 0, [], [], fun _ => 0⟩ = 0 := rfl
  rw [h0, zero_add] at h
  rw [← h]
  rfl

/-! ## Rows the program writes

Every row a bucket close writes has a positive count; a counter row has the
shape `counter_stats` gives it, a distribution row has all its percentiles. -/

/-- The shape of the rows the program writes for `metric`. -/
structure RowOk (metric : Metric) (row : Stats) : Prop where
  /-- there is something in it -/
  pos : row.count ≠ 0
  /-- counter rows come from `counter_stats` -/
  counter : metric.isCounter = true → row = counterStats row.count
  /-- distribution rows have no NULL -/
  dist : metric.isCounter = false → (statsOf row).toStats = row

/-- The digest of a stored row. -/
def Stats.digest (row : Stats) : Digest := (statsOf row).digest

@[simp] theorem statsOf_toStats (s : Summary) : statsOf s.toStats = s := rfl

theorem Stats.digest_counterStats {n : ℕ} (h : n ≠ 0) :
    (counterStats n).digest = (Tally.of (List.replicate n 1), fun _ => 0) := by
  have hmin : ∀ n, n ≠ 0 → (List.replicate n (1 : ℚ)).minimum = ((1 : ℚ) : WithTop ℚ) := by
    intro n hn
    induction n with
    | zero => exact absurd rfl hn
    | succ n ih =>
      rw [List.replicate_succ, List.minimum_cons]
      rcases Nat.eq_zero_or_pos n with rfl | hpos
      · rfl
      · rw [ih (Nat.ne_of_gt hpos), min_self]
  have hmax : ∀ n, n ≠ 0 → (List.replicate n (1 : ℚ)).maximum = ((1 : ℚ) : WithBot ℚ) := by
    intro n hn
    induction n with
    | zero => exact absurd rfl hn
    | succ n ih =>
      rw [List.replicate_succ, List.maximum_cons]
      rcases Nat.eq_zero_or_pos n with rfl | hpos
      · rfl
      · rw [ih (Nat.ne_of_gt hpos), max_self]
  refine Prod.ext (Tally.ext ?_ ?_ ?_ ?_) (funext fun p => ?_)
  · simp [Stats.digest, Summary.digest, statsOf, counterStats]
  · simp [Stats.digest, Summary.digest, statsOf, counterStats]
  · simp [Stats.digest, Summary.digest, statsOf, counterStats, h, hmin n h]
  · simp [Stats.digest, Summary.digest, statsOf, counterStats, h, hmax n h]
  · simp [Stats.digest, Summary.digest, statsOf, counterStats]

theorem counterStats_ok {metric : Metric} (hm : metric.isCounter = true) {n : ℕ} (h : n ≠ 0) :
    RowOk metric (counterStats n) :=
  ⟨h, fun _ => rfl, fun hf => absurd hf (by rw [hm]; exact Bool.false_ne_true.symm)⟩

theorem minimum_untopD {l : List ℚ} (h : l ≠ []) :
    ((l.minimum.untopD 0 : ℚ) : WithTop ℚ) = l.minimum := by
  rw [← List.coe_minimum_of_length_pos (List.length_pos_iff.mpr h), WithTop.untopD_coe]

theorem maximum_unbotD {l : List ℚ} (h : l ≠ []) :
    ((l.maximum.unbotD 0 : ℚ) : WithBot ℚ) = l.maximum := by
  rw [← List.coe_maximum_of_length_pos (List.length_pos_iff.mpr h), WithBot.unbotD_coe]

/-- The summary of a nonempty sample tallies the sample. -/
theorem digest_summarize {values : List ℚ} (h : values ≠ []) :
    (summarize values).digest.1 = Tally.of values := by
  have he : values.isEmpty = false := by simpa using h
  have hl : values.length ≠ 0 := by simpa using h
  refine Tally.ext ?_ ?_ ?_ ?_
  · simp [summarize, he, Summary.digest]
  · simp [summarize, he, Summary.digest]
  · simp [summarize, he, Summary.digest, h, minimum_untopD h]
  · simp [summarize, he, Summary.digest, h, maximum_unbotD h]

theorem summarize_ok {metric : Metric} (hm : metric.isCounter = false) {values : List ℚ}
    (h : values ≠ []) : RowOk metric (summarize values).toStats := by
  have he : values.isEmpty = false := by simpa using h
  refine ⟨?_, fun hf => absurd hf (by rw [hm]; exact Bool.false_ne_true), fun _ => rfl⟩
  simp [summarize, he, Summary.toStats, h]

/-- What the merge of two rows is. -/
theorem mergeRows_pair {a b : Summary} (ha : a.count ≠ 0) (hb : b.count ≠ 0) :
    mergeRows [a, b] = ⟨a.count + b.count, a.sum + b.sum, min a.min b.min, max a.max b.max,
      fun p => (a.pct p * a.count + b.pct p * b.count) / (a.count + b.count)⟩ := by
  have hab : a.count + b.count ≠ 0 := by omega
  rw [mergeRows_eq]
  ext1
  · simp [Digest.summary, Summary.digest]
  · simp [Digest.summary, Summary.digest]
  · simp only [Digest.summary, Summary.digest, List.map_cons, List.map_nil, List.sum_cons,
      List.sum_nil, add_zero, Prod.fst_add, Tally.lo_add, ha, hb, if_false, ← WithTop.coe_min,
      WithTop.untopD_coe]
  · simp only [Digest.summary, Summary.digest, List.map_cons, List.map_nil, List.sum_cons,
      List.sum_nil, add_zero, Prod.fst_add, Tally.hi_add, ha, hb, if_false, ← WithBot.coe_max,
      WithBot.unbotD_coe]
  · funext p
    simp only [Digest.summary, Summary.digest, List.map_cons, List.map_nil, List.sum_cons,
      List.sum_nil, add_zero, Prod.fst_add, Prod.snd_add, Tally.count_add, hab, if_false,
      Pi.add_apply, Nat.cast_add]

/-- Merging two rows adds their digests. -/
theorem digest_mergeRows_pair {a b : Summary} (ha : a.count ≠ 0) (hb : b.count ≠ 0) :
    (mergeRows [a, b]).digest = a.digest + b.digest := by
  have hab : a.count + b.count ≠ 0 := by omega
  have hq : (a.count : ℚ) + b.count ≠ 0 := by exact_mod_cast hab
  rw [mergeRows_pair ha hb]
  refine Prod.ext (Tally.ext rfl rfl ?_ ?_) (funext fun p => ?_)
  · simp only [Summary.digest, Prod.fst_add, Tally.lo_add, ha, hb, hab, if_false, WithTop.coe_min]
  · simp only [Summary.digest, Prod.fst_add, Tally.hi_add, ha, hb, hab, if_false, WithBot.coe_max]
  · simp only [Summary.digest, Prod.snd_add, Pi.add_apply]
    push_cast
    field_simp

/-- Merging a contribution into what is stored, if anything, adds its digest
and keeps the shape of the row. -/
theorem mergeStats_spec {metric : Metric} {existing : Option Stats} {new : Stats}
    (hnew : RowOk metric new) (hold : ∀ row, existing = some row → RowOk metric row) :
    RowOk metric (mergeStats metric existing new) ∧
      (mergeStats metric existing new).digest =
        (existing.map Stats.digest).getD 0 + new.digest := by
  rcases existing with _ | row
  · exact ⟨hnew, (zero_add _).symm⟩
  · have hrow := hold row rfl
    have hpos : row.count + new.count ≠ 0 := by
      have := hrow.pos
      omega
    rcases hm : metric.isCounter with - | -
    · -- a distribution row: the weighted merge
      simp only [mergeStats, hm, Bool.false_eq_true, if_false, Option.map_some,
        Option.getD_some]
      have hd := digest_mergeRows_pair (a := statsOf row) (b := statsOf new) hrow.pos hnew.pos
      refine ⟨⟨?_, fun hf => absurd hf (by rw [hm]; exact Bool.false_ne_true), fun _ => rfl⟩, hd⟩
      have hc := congrArg (fun d : Digest => d.1.count) hd
      simp only [Summary.digest, Prod.fst_add, Tally.count_add] at hc
      change (mergeRows [statsOf row, statsOf new]).count ≠ 0
      rw [hc]
      exact hpos
    · -- a counter row: the counts add up
      simp only [mergeStats, hm, if_true, Option.map_some, Option.getD_some]
      refine ⟨counterStats_ok hm hpos, ?_⟩
      have hr : row.digest = (Tally.of (List.replicate row.count 1), fun _ => 0) := by
        rw [hrow.counter hm]
        exact Stats.digest_counterStats hrow.pos
      have hn : new.digest = (Tally.of (List.replicate new.count 1), fun _ => 0) := by
        rw [hnew.counter hm]
        exact Stats.digest_counterStats hnew.pos
      rw [hr, hn, Stats.digest_counterStats hpos, List.replicate_add, Tally.of_append]
      exact Prod.ext rfl (funext fun _ => (add_zero 0).symm)

end LayaWatch
