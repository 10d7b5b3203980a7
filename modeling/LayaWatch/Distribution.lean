import LayaWatch.RetentionSafety
import Mathlib.Algebra.Order.BigOperators.Group.List
import Mathlib.Data.List.GetD

/-!
# Do the figures of a distribution row stay in order?

The rows of `metric_rollup` come from four places: a bucket close summarises its
samples (`summarize`) and merges the summary into the rows of the cascade
(`mergeStats`), a retention pass summarises raw traces (`gatherStats`) and
rebuilds parents from their children (`mergeChildren`). A property of rows that
all of them give is a `RowInvariant`, and holds of every row that any number of
processes leave behind (`RowInvariant.inherited`).

That the figures of a latency or queue row are in order is such a property: the
nearest ranks of a sample are, and a mean weighted by the counts is monotone and
between the least and the greatest (`distribution_rows_in_order`).
-/

namespace LayaWatch

/-! ## Rows of every producer -/

/-- A property of rows that every producer of rows gives. -/
structure RowInvariant (P : Metric → Stats → Prop) : Prop where
  /-- the row of counter events -/
  counter : ∀ {metric n}, metric.isCounter = true → n ≠ 0 → P metric (counterStats n)
  /-- the summary of samples -/
  summary : ∀ {metric values}, metric.isCounter = false → values ≠ [] →
    P metric (summarize values).toStats
  /-- a row merged into what is stored, if anything -/
  merge : ∀ {metric existing new}, (∀ row, existing = some row → P metric row) → P metric new →
    P metric (mergeStats metric existing new)

/-- Every stored row has the property. -/
def RowsHave (P : Metric → Stats → Prop) (db : Db) : Prop :=
  ∀ step key row, loadRollupRow db step key = some row → P key.metric row

variable {P : Metric → Stats → Prop} {db : Db}

theorem RowsHave.upsert (h : RowsHave P db) (step : RollupStep) {key : RollupKey} {row : Stats}
    (hrow : P key.metric row) : RowsHave P (upsertRollup step key row db) := by
  intro step' key' row' hload
  by_cases heq : (step', key') = (step, key)
  · obtain ⟨rfl, rfl⟩ := Prod.mk.inj heq
    rw [loadRollupRow_upsert_self] at hload
    exact Option.some.inj hload ▸ hrow
  · rw [loadRollupRow_upsert_ne heq] at hload
    exact h step' key' row' hload

theorem RowsHave.upsertRows {rows : List RollupRow} :
    ∀ {db : Db}, RowsHave P db → (∀ row ∈ rows, P row.2.1.metric row.2.2) →
      RowsHave P (upsertRows rows db) := by
  induction rows with
  | nil => exact fun h _ => h
  | cons row rows ih =>
    intro db h hrows
    exact ih (h.upsert row.1 (hrows row (List.mem_cons_self ..)))
      fun r hr => hrows r (List.mem_cons_of_mem row hr)

/-- Dropping rows keeps the property. -/
theorem RowsHave.chunk (h : RowsHave P db) (order : ScanOrder) (pass : Pass) (loop : Chunk) :
    RowsHave P (loop.run order pass db).1 := by
  intro step key row hrow
  rcases chunk_metricRollup order pass db loop with hsame | ⟨victims, -, hfilter⟩
  · rw [loadRollupRow, hsame] at hrow
    exact h step key row hrow
  · rw [loadRollupRow, hfilter] at hrow
    exact h step key row (Dict.get_of_get_filter hrow).1

/-- Children are rows of the metric of their parent. -/
theorem RowsHave.childRows (h : RowsHave P db) (pk : RollupPk) :
    ∀ kid ∈ childRows db pk.1 pk.2, P pk.2.metric kid := by
  intro kid hkid
  obtain ⟨⟨⟨step, key⟩, row⟩, he, rfl⟩ := List.mem_map.mp hkid
  obtain ⟨hmem, hcovers⟩ := List.mem_filter.mp he
  have hmetric : key.metric = pk.2.metric := (of_decide_eq_true hcovers).2.2.1
  exact hmetric ▸ h step key row (Dict.get_eq_some.mpr hmem)

/-- What the locals of a pass hold has the property. -/
def PassPoint.LocalsHave (P : Metric → Stats → Prop) : PassPoint → Prop
  | .build _ key stats _ _ => P key.metric stats
  | .loadParent _ pk kids _ _ | .parent _ pk kids _ _ => ∀ kid ∈ kids, P pk.2.metric kid
  | _ => True

theorem locals_cascading (rows : List TraceRow) (todo : List RollupPk) (counts : PassCounts) :
    (PassPoint.cascading rows todo counts).LocalsHave P := by
  cases todo <;> trivial

theorem locals_building (pass : Pass) (rows : List TraceRow) (todo : List RollupKey)
    (counts : PassCounts) : (PassPoint.building pass rows todo counts).LocalsHave P := by
  cases todo with
  | nil => exact locals_cascading rows _ counts
  | cons key todo => trivial

theorem locals_afterChunk (rows : List TraceRow) (loop : Chunk) (n : ℕ) (counts : PassCounts) :
    (PassPoint.afterChunk rows loop n counts).LocalsHave P := by
  unfold PassPoint.afterChunk
  split
  · cases loop.next <;> trivial
  · trivial

namespace RowInvariant

variable (hP : RowInvariant P)
include hP

/-- The statistics of a bucket. -/
theorem stats {metric : Metric} {bucket : Bucket} {stats : Stats}
    (h : bucket.stats metric = some stats) : P metric stats := by
  unfold Bucket.stats at h
  rcases hm : metric.isCounter with - | -
  · simp only [hm, Bool.false_eq_true, if_false] at h
    split at h
    · cases h
    · rename_i hne
      obtain rfl := Option.some.inj h
      exact hP.summary hm (by simpa using hne)
  · simp only [hm, if_true] at h
    split at h
    · cases h
    · rename_i hne
      obtain rfl := Option.some.inj h
      exact hP.counter hm hne

/-- The rows of a cascade, over rows that have the property. -/
theorem rowsOf (h : RowsHave P db) {key : RollupKey} {stats : Stats}
    (hstats : P key.metric stats) : ∀ row ∈ rowsOf db key stats, P row.2.1.metric row.2.2 := by
  intro row hrow
  rcases List.mem_cons.mp hrow with rfl | hrow
  · exact hP.merge (fun old hold => h .ten key old hold) hstats
  · obtain ⟨step, -, rfl⟩ := List.mem_map.mp hrow
    exact hP.merge (fun old hold => h step (key.parent step) old hold) hstats

/-- Closing a bucket. -/
theorem closeDue {s : Store} (h : RowsHave P s.db) (key : RollupKey) :
    RowsHave P (closeDue s key).db := by
  unfold LayaWatch.closeDue
  rcases s.buckets.get key with _ | bucket
  · exact h
  · dsimp only
    unfold closeBucket
    rcases hstats : bucket.stats key.metric with _ | stats
    · exact h
    · exact h.upsertRows (hP.rowsOf h (hP.stats hstats))

/-- A committed batch. -/
theorem batchEffect {s : Store} (h : RowsHave P s.db) (batch : List Item) (closeAll : Bool)
    (now : ℚ) : RowsHave P (batchEffect batch closeAll now s).db := by
  have hclose : ∀ (due : List RollupKey) (s : Store), RowsHave P s.db →
      RowsHave P (due.foldl LayaWatch.closeDue s).db := by
    intro due
    induction due with
    | nil => exact fun _ h => h
    | cons key due ih => exact fun s h => ih (LayaWatch.closeDue s key) (hP.closeDue h key)
  refine hclose _ _ fun step key row hrow => ?_
  rw [loadRollupRow, insertBatch_metricRollup] at hrow
  exact h step key row hrow

/-- What `_gather_stats` returns. -/
theorem gatherStats {key : RollupKey} {stats : Stats} (h : gatherStats db key = some stats) :
    P key.metric stats := by
  rcases gatherStats_some h with ⟨hm, n, hne, rfl⟩ | ⟨hm, values, hne, rfl⟩
  · exact hP.counter hm hne
  · exact hP.summary hm hne

/-- The loop over the children. -/
theorem mergeChildren {metric : Metric} {kids : List Stats} {merged : Stats}
    (hkids : ∀ kid ∈ kids, P metric kid) (h : mergeChildren metric kids = some merged) :
    P metric merged := by
  have hfold : ∀ (kids : List Stats) (start : Option Stats), (∀ kid ∈ kids, P metric kid) →
      (∀ row, start = some row → P metric row) → ∀ row,
        kids.foldl (fun merged child => some (mergeStats metric merged child)) start = some row →
          P metric row := by
    intro kids
    induction kids with
    | nil => exact fun _ _ hstart => hstart
    | cons kid kids ih =>
      intro start hkids hstart
      refine ih _ (fun k hk => hkids k (List.mem_cons_of_mem kid hk)) fun row hrow => ?_
      exact Option.some.inj hrow ▸ hP.merge hstart (hkids kid (List.mem_cons_self ..))
  exact hfold kids none hkids (fun row hrow => by cases hrow) merged h

/-- The upsert of a rebuilt parent. -/
theorem writeParent (h : RowsHave P db) {pk : RollupPk} {kids : List Stats}
    (hkids : ∀ kid ∈ kids, P pk.2.metric kid) : RowsHave P (writeParent pk kids db) := by
  unfold LayaWatch.writeParent
  rcases hmerged : LayaWatch.mergeChildren pk.2.metric kids with _ | merged
  · exact h
  · exact h.upsert pk.1 (hP.mergeChildren hkids hmerged)

/-- A query of a pass gives its locals the property. -/
theorem select (h : RowsHave P db) {order : ScanOrder} {pass : Pass} {point : PassPoint}
    {k : Db → PassPoint} (hlocals : point.LocalsHave P)
    (hcode : passCode order pass point = some (.select k)) : (k db).LocalsHave P := by
  cases point with
  | scanAge =>
    obtain rfl := Wal.Stmt.select.inj (Option.some.inj hcode)
    trivial
  | scanCap rows =>
    obtain rfl := Wal.Stmt.select.inj (Option.some.inj hcode)
    exact locals_building pass _ _ _
  | buildLoad rows key todo counts =>
    obtain rfl := Wal.Stmt.select.inj (Option.some.inj hcode)
    dsimp only
    split
    · exact locals_building pass rows todo counts
    · trivial
  | gather rows key todo counts =>
    obtain rfl := Wal.Stmt.select.inj (Option.some.inj hcode)
    dsimp only
    split
    · exact locals_building pass rows todo counts
    · rename_i stats hstats
      exact hP.gatherStats hstats
  | children rows pk todo counts =>
    obtain rfl := Wal.Stmt.select.inj (Option.some.inj hcode)
    dsimp only
    split
    · exact locals_cascading rows todo counts
    · exact h.childRows pk
  | loadParent rows pk kids todo counts =>
    obtain rfl := Wal.Stmt.select.inj (Option.some.inj hcode)
    dsimp only
    split
    · split
      · exact locals_cascading rows todo counts
      · exact hlocals
    · exact hlocals
  | _ => cases hcode

/-- A change of a pass keeps the property. -/
theorem dml (h : RowsHave P db) {order : ScanOrder} {pass : Pass} {point : PassPoint}
    {u : Db → Db} {k : Db → PassPoint} (hlocals : point.LocalsHave P)
    (hcode : passCode order pass point = some (.dml u k)) :
    RowsHave P (u db) ∧ (k db).LocalsHave P := by
  cases point with
  | build rows key stats todo counts =>
    obtain ⟨rfl, rfl⟩ := Wal.Stmt.dml.inj (Option.some.inj hcode)
    exact ⟨h.upsert .ten hlocals, locals_building pass rows todo _⟩
  | parent rows pk kids todo counts =>
    obtain ⟨rfl, rfl⟩ := Wal.Stmt.dml.inj (Option.some.inj hcode)
    exact ⟨hP.writeParent h hlocals, locals_cascading rows todo _⟩
  | chunk rows loop counts =>
    obtain ⟨rfl, rfl⟩ := Wal.Stmt.dml.inj (Option.some.inj hcode)
    exact ⟨h.chunk order pass loop, trivial⟩
  | _ => cases hcode

omit hP in
/-- A commit of a pass leaves no row in its locals. -/
theorem commit {order : ScanOrder} {pass : Pass} {point k : PassPoint}
    (hcode : passCode order pass point = some (.commit k)) : k.LocalsHave P := by
  obtain ⟨rows, loop, n, counts, rfl, rfl⟩ | ⟨rows, counts, rfl, rfl⟩ | ⟨counts, rfl, rfl⟩ :=
    passCode_commit hcode
  · exact locals_afterChunk rows loop n counts
  · trivial
  · trivial

end RowInvariant

/-- The proof outline of a property of rows; no statement has to be ruled out. -/
def rowDiscipline (hP : RowInvariant P) (order : ScanOrder) (floor : ℚ) :
    Wal.Discipline (retention order floor) (fun _ _ _ => True) where
  I db _ := RowsHave P db
  Knows _ _ p := p.point.LocalsHave P
  Grows _ _ := True
  trans _ _ := trivial
  stable _ h := h
  start _ hstart := (retention_start hstart).1 ▸ trivial
  select hI hK hcode _ := by
    obtain ⟨k, hpass, rfl⟩ := Wal.Stmt.map_eq_select hcode
    exact hP.select hI hK hpass
  dml hI hK hcode _ := by
    obtain ⟨k, hpass, rfl⟩ := Wal.Stmt.map_eq_dml hcode
    obtain ⟨hI', hK'⟩ := hP.dml hI hK hpass
    exact ⟨hI', trivial, hK'⟩
  commit _ _ hcode := by
    obtain ⟨k, hpass, rfl⟩ := Wal.Stmt.map_eq_commit hcode
    exact RowInvariant.commit hpass
  rollback _ hcode := absurd hcode (retention_noRollback _)
  ext hI hc := by
    refine ⟨?_, fun _ h => h⟩
    have hdb := congrArg Store.db (WriterCommit.run_eq hc).1
    dsimp only at hdb
    rw [hdb]
    exact hP.batchEffect (s := ⟨_, _⟩) hI _ _ _

/-! ## Processes one after the other -/

/-- The databases that processes leave behind, from an empty one on. Each process
starts on what the one before it has left, with no bucket open; its writer
commits while its passes run. -/
inductive Inherited : Db → Prop where
  /-- the empty database -/
  | fresh : Inherited Db.fresh
  /-- what is committed in some state of a process -/
  | process {order : ScanOrder} {floor : ℚ} {db : Db} {s : RetentionWorld} : Inherited db →
      ((retention order floor).machine (· = RetentionWorld.restarted db)).Reachable s →
      Inherited s.disk

/-- Every row that processes leave behind has a property that every producer of
rows gives. -/
theorem RowInvariant.inherited (hP : RowInvariant P) (h : Inherited db) : RowsHave P db := by
  induction h with
  | fresh => exact fun step key row hrow => by cases hrow
  | @process order floor db s _ hreach ih =>
    obtain ⟨s₀, es, rfl, hrun⟩ := hreach
    have hstart : (rowDiscipline hP order floor).outline.Holds (RetentionWorld.restarted db) :=
      ⟨ih, fun i p hp => (by cases hp), fun j w hw => (by cases hw)⟩
    have hok : ∀ e ∈ es, Wal.Allowed (fun _ _ _ => True) e.pre e.act := by
      intro e _
      cases e.act with
      | stmt i => exact fun _ _ => trivial
      | _ => trivial
    exact ((rowDiscipline hP order floor).outline.sound hrun hstart hok).1.inv

/-! ## Means weighted by counts -/

section

variable {a b a' b' n m : ℚ}

theorem mean_le_mean (hn : 0 < n) (hm : 0 < m) (ha : a ≤ a') (hb : b ≤ b') :
    (a * n + b * m) / (n + m) ≤ (a' * n + b' * m) / (n + m) := by
  have hsum : 0 ≤ n + m := (add_pos hn hm).le
  have hleft := mul_le_mul_of_nonneg_right ha hn.le
  have hright := mul_le_mul_of_nonneg_right hb hm.le
  exact div_le_div_of_nonneg_right (add_le_add hleft hright) hsum

/-- A mean is its own figure where the two agree. -/
theorem mean_self (hn : 0 < n) (hm : 0 < m) : (a * n + a * m) / (n + m) = a := by
  rw [← mul_add, mul_div_cancel_right₀ a (add_pos hn hm).ne']

theorem min_le_mean (hn : 0 < n) (hm : 0 < m) : min a b ≤ (a * n + b * m) / (n + m) :=
  calc min a b = (min a b * n + min a b * m) / (n + m) := (mean_self hn hm).symm
    _ ≤ (a * n + b * m) / (n + m) := mean_le_mean hn hm (min_le_left a b) (min_le_right a b)

theorem mean_le_max (hn : 0 < n) (hm : 0 < m) : (a * n + b * m) / (n + m) ≤ max a b :=
  calc (a * n + b * m) / (n + m)
      ≤ (max a b * n + max a b * m) / (n + m) :=
        mean_le_mean hn hm (le_max_left a b) (le_max_right a b)
    _ = max a b := mean_self hn hm

end

/-! ## Figures in order -/

/-- The figures of a summary are in order. -/
structure Summary.InOrder (s : Summary) : Prop where
  /-- something is summarised -/
  count : 1 ≤ s.count
  /-- `min` and the percentiles and `max` -/
  min_p50 : s.min ≤ s.pct .p50
  /-- increasing -/
  p50_p90 : s.pct .p50 ≤ s.pct .p90
  /-- increasing -/
  p90_p95 : s.pct .p90 ≤ s.pct .p95
  /-- increasing -/
  p95_p99 : s.pct .p95 ≤ s.pct .p99
  /-- up to the greatest -/
  p99_max : s.pct .p99 ≤ s.max
  /-- no sample is below the least -/
  lower : s.count * s.min ≤ s.sum
  /-- no sample is above the greatest -/
  upper : s.sum ≤ s.count * s.max

/-- A stored row has all its percentiles, and its figures are in order. -/
def Stats.InOrder (row : Stats) : Prop := ∃ s : Summary, s.InOrder ∧ s.toStats = row

/-- The place of a nearest rank in a sorted sample of `n` values. -/
def nearestRank (n : ℕ) (q : Quantile) : ℕ := (⌈q.1 * n⌉ - 1).toNat

theorem nearestRank_lt {n : ℕ} (hn : 0 < n) (q : Quantile) : nearestRank n q < n := by
  have hle : ⌈q.1 * n⌉ ≤ (n : ℤ) :=
    Int.ceil_le.mpr (mul_le_of_le_one_left (Nat.cast_nonneg n) q.2.2)
  unfold nearestRank
  omega

theorem nearestRank_mono (n : ℕ) {q q' : Quantile} (h : q.1 ≤ q'.1) :
    nearestRank n q ≤ nearestRank n q' := by
  have hn : (0 : ℚ) ≤ n := Nat.cast_nonneg n
  have hceil := Int.ceil_mono (mul_le_mul_of_nonneg_right h hn)
  unfold nearestRank
  omega

/-- A percentile of a sample is the value at its place, once sorted. -/
theorem percentile_eq {values : List ℚ} (h : values ≠ []) (q : Quantile) :
    ∃ hlt : nearestRank values.length q < (values.insertionSort (· ≤ ·)).length,
      percentile values q =
        (values.insertionSort (· ≤ ·)).get ⟨nearestRank values.length q, hlt⟩ := by
  have hlen : (values.insertionSort (· ≤ ·)).length = values.length := List.length_insertionSort ..
  have hlt : nearestRank values.length q < (values.insertionSort (· ≤ ·)).length := by
    rw [hlen]
    exact nearestRank_lt (List.length_pos_iff.mpr h) q
  refine ⟨hlt, ?_⟩
  have hempty : values.isEmpty = false := by simpa using h
  simp only [percentile, hempty, Bool.false_eq_true, if_false, hlen]
  exact List.getD_eq_getElem _ _ hlt

/-- A percentile of a sample is one of its values. -/
theorem percentile_mem {values : List ℚ} (h : values ≠ []) (q : Quantile) :
    percentile values q ∈ values := by
  obtain ⟨hlt, heq⟩ := percentile_eq h q
  rw [heq]
  exact (List.mem_insertionSort _).mp (List.get_mem _ _)

/-- A greater quantile has a greater percentile. -/
theorem percentile_mono {values : List ℚ} (h : values ≠ []) {q q' : Quantile} (hq : q.1 ≤ q'.1) :
    percentile values q ≤ percentile values q' := by
  obtain ⟨hlt, heq⟩ := percentile_eq h q
  obtain ⟨hlt', heq'⟩ := percentile_eq h q'
  rw [heq, heq']
  exact List.sortedLE_insertionSort.monotone_get (nearestRank_mono values.length hq)

/-- **The summary of a sample is in order.** -/
theorem summarize_inOrder {values : List ℚ} (h : values ≠ []) : (summarize values).InOrder := by
  have hempty : values.isEmpty = false := by simpa using h
  have hmin : ∀ x ∈ values, values.minimum.untopD 0 ≤ x := fun x hx =>
    List.minimum_le_of_mem hx (minimum_untopD h).symm
  have hmax : ∀ x ∈ values, x ≤ values.maximum.unbotD 0 := fun x hx =>
    List.le_maximum_of_mem hx (maximum_unbotD h).symm
  have hsummary : summarize values = ⟨values.length, values.sum, values.minimum.untopD 0,
      values.maximum.unbotD 0, fun p => percentile values p.quantile⟩ := by
    simp [summarize, hempty]
  rw [hsummary]
  constructor
  case count => exact List.length_pos_iff.mpr h
  case min_p50 => exact hmin _ (percentile_mem h _)
  case p50_p90 => exact percentile_mono h (by norm_num [Pct.quantile])
  case p90_p95 => exact percentile_mono h (by norm_num [Pct.quantile])
  case p95_p99 => exact percentile_mono h (by norm_num [Pct.quantile])
  case p99_max => exact hmax _ (percentile_mem h _)
  case lower =>
    rw [← nsmul_eq_mul]
    exact List.card_nsmul_le_sum _ _ hmin
  case upper =>
    rw [← nsmul_eq_mul]
    exact List.sum_le_card_nsmul _ _ hmax

/-- **The merge of two rows in order is in order.** -/
theorem Summary.InOrder.merge {a b : Summary} (ha : a.InOrder) (hb : b.InOrder) :
    (mergeRows [a, b]).InOrder := by
  have hn : (0 : ℚ) < a.count := by exact_mod_cast ha.count
  have hm : (0 : ℚ) < b.count := by exact_mod_cast hb.count
  rw [mergeRows_pair (Nat.one_le_iff_ne_zero.mp ha.count) (Nat.one_le_iff_ne_zero.mp hb.count)]
  constructor
  case count => exact Nat.le_add_right_of_le ha.count
  case min_p50 => exact (min_le_mean hn hm).trans (mean_le_mean hn hm ha.min_p50 hb.min_p50)
  case p50_p90 => exact mean_le_mean hn hm ha.p50_p90 hb.p50_p90
  case p90_p95 => exact mean_le_mean hn hm ha.p90_p95 hb.p90_p95
  case p95_p99 => exact mean_le_mean hn hm ha.p95_p99 hb.p95_p99
  case p99_max => exact (mean_le_mean hn hm ha.p99_max hb.p99_max).trans (mean_le_max hn hm)
  case lower =>
    have hleft := mul_le_mul_of_nonneg_left (min_le_left a.min b.min) hn.le
    have hright := mul_le_mul_of_nonneg_left (min_le_right a.min b.min) hm.le
    push_cast
    rw [add_mul]
    exact (add_le_add hleft hright).trans (add_le_add ha.lower hb.lower)
  case upper =>
    have hleft := mul_le_mul_of_nonneg_left (le_max_left a.max b.max) hn.le
    have hright := mul_le_mul_of_nonneg_left (le_max_right a.max b.max) hm.le
    push_cast
    rw [add_mul]
    exact (add_le_add ha.upper hb.upper).trans (add_le_add hleft hright)

/-- The rows of distributions are in order. -/
def DistributionInOrder (metric : Metric) (row : Stats) : Prop :=
  metric.isCounter = false → row.InOrder

/-- Every producer of rows gives distribution rows in order. -/
theorem distribution_invariant : RowInvariant DistributionInOrder where
  counter hm _ hdist := absurd hdist (by simp [hm])
  summary _ hne _ := ⟨_, summarize_inOrder hne, rfl⟩
  merge {metric existing new} hold hnew hdist := by
    obtain ⟨s, hs, rfl⟩ := hnew hdist
    rcases existing with _ | row
    · exact ⟨s, hs, rfl⟩
    · obtain ⟨old, hinorder, rfl⟩ := hold row rfl hdist
      refine ⟨mergeRows [old, s], hinorder.merge hs, ?_⟩
      simp [mergeStats, hdist]

/-- **Distribution rows stay in order.** Whatever processes leave behind, through every
interleaving of the commits of their writers with the statements of their passes: a
latency or queue row has something in it and all its percentiles, its figures increase
from `min` to `max`, and its sum is that of so many samples between the two. -/
theorem distribution_rows_in_order {db : Db} (h : Inherited db) {step : RollupStep}
    {key : RollupKey} {row : Stats} (hrow : loadRollupRow db step key = some row)
    (hdist : key.metric.isCounter = false) : row.InOrder :=
  distribution_invariant.inherited h step key row hrow hdist

/-- The row of the latencies of two traces, behind a pass that deletes one of them. -/
theorem distribution_rows_in_order_two : ∃ db row, Inherited db ∧
    loadRollupRow db .ten { twoRequests with metric := .latency } = some row ∧ row.count = 2 ∧
    db.traces.length = 1 ∧ row.InOrder := by
  have hend : (((retention .insertion 0).machine (· = RetentionWorld.restarted Db.fresh)).exec
      (RetentionWorld.restarted Db.fresh) (passAfter true)).any (fun t =>
        ((loadRollupRow t.disk .ten { twoRequests with metric := .latency }).any fun row =>
          decide (row.count = 2)) && decide (t.disk.traces.length = 1)) = true := by
    decide +kernel
  obtain ⟨t, hexec, ht⟩ := (Option.any_eq_true _ _).mp hend
  obtain ⟨es, hrun, -⟩ := Machine.Run.of_exec hexec
  obtain ⟨hrow, hlength⟩ := Bool.and_eq_true_iff.mp ht
  obtain ⟨row, hload, hcount⟩ := (Option.any_eq_true _ _).mp hrow
  have hinherited : Inherited t.disk := Inherited.fresh.process ⟨_, es, rfl, hrun⟩
  exact ⟨t.disk, row, hinherited, hload, of_decide_eq_true hcount, of_decide_eq_true hlength,
    distribution_rows_in_order hinherited hload rfl⟩

end LayaWatch
