import LayaWatch.Closing
import LayaWatch.Process

/-!
# Rollup accounting

What the writer's commits add up to. At every step of the cascade the stored
rows and the open buckets together tally the samples of the committed traces
(`Accounts.balance`), and a parent row has the digest of all its 10 s rows
(`Accounts.children`), because every closing adds one increment on both sides.
The two laws are read off for single keys in `accounting_exact` and
`parent_row_merges_children`.
-/

namespace LayaWatch

/-! ## The accounts -/

/-- A parent row has the digest of its 10 s rows. -/
def Cascaded (db : Db) : Prop :=
  ∀ step ∈ RollupStep.parents, ∀ key,
    db.rollupSum (AddMonoidHom.id _) (fun pk => decide (pk = (step, key))) =
      db.rollupSum (AddMonoidHom.id _) (childOf step key)

/-- Closing a bucket adds the same to a parent row and to its children. -/
theorem Cascaded.closeDue {s : Store} (h : Cascaded s.db) (hs : StoreOk s) (key : RollupKey) :
    Cascaded (closeDue s key).db := by
  intro step hstep k
  unfold LayaWatch.closeDue
  rcases hget : s.buckets.get key with _ | bucket
  · exact h step hstep k
  · obtain ⟨hne, halign⟩ := hs.buckets key bucket hget
    obtain ⟨stats, hstats, hok, -⟩ := Bucket.stats_spec hne
    have hparent := (closeBucket_sum (AddMonoidHom.id _) (fun pk => decide (pk = (step, k)))
      hs.rows halign hstats hok).2
    have hchild := (closeBucket_sum (AddMonoidHom.id _) (childOf step k) hs.rows halign hstats
      hok).2
    unfold childOf at hchild
    rw [sum_atStep, RollupKey.parent_ten halign] at hchild
    have hone : (RollupStep.all.map fun st => if decide ((st, key.parent st) = (step, k)) then
        (AddMonoidHom.id Digest) stats.digest else 0).sum =
          if decide (key.parent step = k) then (AddMonoidHom.id Digest) stats.digest else 0 := by
      cases step <;> simp [RollupStep.all, RollupStep.parents]
    rw [hone, h step hstep k] at hparent
    exact hparent.trans hchild.symm

theorem Cascaded.closeAllDue {due : List RollupKey} {s : Store} (h : Cascaded s.db)
    (hs : StoreOk s) : Cascaded (due.foldl LayaWatch.closeDue s).db := by
  induction due generalizing s with
  | nil => exact h
  | cons key due ih => exact ih (h.closeDue hs key) (hs.closeDue key)

theorem Cascaded.commit {s : Store} (h : Cascaded s.db) (hs : StoreOk s) (batch : List Item)
    (closeAll : Bool) (now : ℚ) : Cascaded (batchEffect batch closeAll now s).db := by
  refine Cascaded.closeAllDue (s := batchOpen batch s) (fun step hstep key => ?_)
    (hs.batchOpen batch)
  unfold batchOpen Db.rollupSum
  rw [insertBatch_metricRollup]
  exact h step hstep key

/-- The state of the rollups after the commits of `traces`. -/
structure Accounts (s : Store) (traces : List Trace) : Prop extends StoreOk s where
  /-- rows and open buckets tally what was committed, at every step -/
  balance : ∀ step Q, Balanced (AddMonoidHom.id _) step Q s traces
  /-- a parent row has the digest of its 10 s rows -/
  children : Cascaded s.db

theorem Item.traces_append (items items' : List Item) :
    Item.traces (items ++ items') = Item.traces items ++ Item.traces items' :=
  List.filterMap_append

/-- The accounts of every reachable state. -/
theorem accounts_of_reachable {cfg : WriterConfig} {p : Process}
    (h : (Process.machine cfg).Reachable p) :
    Accounts p.store (Item.traces p.sys.hist.committed) := by
  refine h.invariant (I := fun p => Accounts p.store (Item.traces p.sys.hist.committed))
    (fun p hp => ?_) fun p a q hI hs => ?_
  · obtain ⟨hsys, hbuckets, hrollup⟩ := hp
    have hsum : ∀ {M : Type} [AddCommMonoid M] (φ : Digest →+ M) (P : RollupPk → Bool),
        p.store.db.rollupSum φ P = 0 := by
      intro M _ φ P
      rw [Db.rollupSum, hrollup, Dict.total_empty]
    refine ⟨⟨fun step key row hrow => ?_, fun key bucket hget => ?_⟩, fun step Q => ?_,
      fun step _ key => by rw [hsum, hsum]⟩
    · rw [loadRollupRow, hrollup, Dict.get_empty] at hrow
      cases hrow
    · rw [hbuckets, Dict.get_empty] at hget
      cases hget
    · rw [Balanced, hsum, hbuckets, hsys, openSum, Dict.total_empty, zero_add]
      rfl
  · rcases Process.step_cases hs with ⟨hstore, hcom⟩ | ⟨batch, _, _, now, _, -, -, -, hstore, hcom⟩
    · rw [hstore, hcom]
      exact hI
    · rw [hstore, hcom, Item.traces_append]
      exact ⟨hI.toStoreOk.commit batch _ now,
        fun step Q => (hI.balance step Q).commit hI.toStoreOk batch _ now,
        hI.children.commit hI.toStoreOk batch _ now⟩

/-! ## Single keys -/

/-- The count, sum, min and max columns of a row. -/
def Stats.tally (row : Stats) : Tally ℚ := ⟨row.count, row.sum, row.min, row.max⟩

/-- What is stored under a key. -/
def rowTally (db : Db) (step : RollupStep) (key : RollupKey) : Tally ℚ :=
  (loadRollupRow db step key).elim 0 Stats.tally

/-- What the open bucket of a key holds. -/
def bucketTally (buckets : Buckets) (key : RollupKey) : Tally ℚ :=
  (buckets.get key).elim 0 fun bucket => Tally.of (bucket.samples key.metric)

/-- What the open buckets in the window of a key hold. -/
def windowTally (buckets : Buckets) (step : RollupStep) (key : RollupKey) : Tally ℚ :=
  openSum (AddMonoidHom.id _) (fun child => decide (key.Covers step child)) buckets

/-- The samples of a key. -/
def keySamples (key : RollupKey) (traces : List Trace) : List ℚ :=
  samplesOf (fun k => decide (k = key)) traces

/-- The samples in the window of a key. -/
def windowSamples (step : RollupStep) (key : RollupKey) (traces : List Trace) : List ℚ :=
  samplesOf (fun k => decide (key.Covers step k)) traces

/-- Rows and open buckets hold exactly the samples of `traces`. -/
structure Exact (s : Store) (traces : List Trace) : Prop where
  /-- at 10 s -/
  ten : ∀ key, rowTally s.db .ten key + bucketTally s.buckets key =
    Tally.of (keySamples key traces)
  /-- at 60 s and 3600 s -/
  parents : ∀ step ∈ RollupStep.parents, ∀ key, step.seconds ∣ key.bucket →
    rowTally s.db step key + windowTally s.buckets step key =
      Tally.of (windowSamples step key traces)

/-- The rows alone hold exactly the samples of `traces`. -/
structure ExactRows (db : Db) (traces : List Trace) : Prop where
  /-- at 10 s -/
  ten : ∀ key, rowTally db .ten key = Tally.of (keySamples key traces)
  /-- at 60 s and 3600 s -/
  parents : ∀ step ∈ RollupStep.parents, ∀ key, step.seconds ∣ key.bucket →
    rowTally db step key = Tally.of (windowSamples step key traces)

theorem RowOk.tally_eq {metric : Metric} {row : Stats} (h : RowOk metric row) :
    row.tally = row.digest.1 := by
  simp [Stats.tally, Stats.digest, Summary.digest, statsOf, h.pos]

theorem rowTally_eq {db : Db} (hrows : RowsOk db) (step : RollupStep) (key : RollupKey) :
    rowTally db step key =
      db.rollupSum (AddMonoidHom.fst _ _) (atStep step fun k => decide (k = key)) := by
  have hpk : (fun pk => decide (pk = (step, key))) = atStep step fun k => decide (k = key) := by
    funext pk
    simp [atStep, Prod.ext_iff]
  rw [← hpk, rollupSum_single, rowTally]
  rcases hload : loadRollupRow db step key with _ | row
  · rfl
  · exact (hrows step key row hload).1.tally_eq

theorem Accounts.exact {s : Store} {traces : List Trace} (h : Accounts s traces) :
    Exact s traces := by
  constructor
  · intro key
    have hbal := (h.balance .ten fun k => decide (k = key)).ten h.buckets
    have hopen : openSum (AddMonoidHom.id (Tally ℚ)) (fun k => decide (k = key)) s.buckets =
        bucketTally s.buckets key := by
      rw [openSum, Dict.total_congr (g := fun k bucket => if k = key then
        Tally.of (Bucket.samples key.metric bucket) else 0)]
      · rw [Dict.total_single, bucketTally]
        rcases s.buckets.get key with _ | bucket <;> rfl
      · intro k bucket _
        by_cases hk : k = key
        · subst hk
          simp
        · simp [hk]
    rw [rowTally_eq h.rows, ← hopen]
    exact hbal
  · intro step _ key halign
    have hcovers : (fun child : RollupKey => decide (key.Covers step child)) =
        fun child => decide (child.parent step = key) :=
      funext fun child => decide_eq_decide.mpr (RollupKey.covers_iff halign)
    rw [rowTally_eq h.rows, windowTally, windowSamples, hcovers]
    exact h.balance step fun k => decide (k = key)

/-- With no bucket open, the rows alone are exact. -/
theorem Exact.rows {s : Store} {traces : List Trace} (h : Exact s traces)
    (hopen : s.buckets = Dict.empty) : ExactRows s.db traces := by
  constructor
  · intro key
    have := h.ten key
    rw [hopen, bucketTally, Dict.get_empty] at this
    exact (add_zero _).symm.trans this
  · intro step hstep key halign
    have := h.parents step hstep key halign
    rw [hopen, windowTally, openSum, Dict.total_empty] at this
    exact (add_zero _).symm.trans this

/-- Closing a list of buckets leaves the others open. -/
theorem keys_closeDue (due : List RollupKey) : ∀ (s : Store) (key : RollupKey),
    key ∈ (due.foldl closeDue s).buckets.keys ↔ key ∈ s.buckets.keys ∧ key ∉ due := by
  induction due with
  | nil => intro s key; simp
  | cons k due ih =>
    intro s key
    rw [List.foldl_cons, ih, closeDue]
    rcases hget : s.buckets.get k with _ | bucket
    · have hk : key ∈ s.buckets.keys → key ≠ k := by
        rintro hm rfl
        exact Dict.get_eq_none.mp hget hm
      simp only [List.mem_cons, not_or]
      exact ⟨fun h => ⟨h.1, hk h.1, h.2⟩, fun h => ⟨h.1, h.2.2⟩⟩
    · simp only [Dict.keys_erase, List.mem_filter, decide_eq_true_eq, List.mem_cons, not_or,
        and_assoc]

/-- A commit that closes all leaves no bucket open. -/
theorem batchEffect_closeAll (batch : List Item) (now : ℚ) (s : Store) :
    (batchEffect batch true now s).buckets = Dict.empty := by
  refine Dict.eq_empty (List.eq_nil_iff_forall_not_mem.mpr fun key hkey => ?_)
  obtain ⟨hmem, hnot⟩ := (keys_closeDue _ _ key).mp hkey
  exact hnot hmem

/-- The step is a committed commit that closes all buckets. -/
def Process.ClosesAll (p : Process) (a : ProcessAct) : Prop :=
  ∃ batch flush stopping now faults, p.sys.loop = .committing batch flush stopping ∧
    (flush || stopping) = true ∧ a = .commit now faults ∧
    p.queueAct a = some (.commit .committed)

/-- **Rollup accounting is exact.** In every reachable state the rows and the
open buckets hold exactly the samples of the committed traces, at every step of
the cascade; after a committed `close_all` the rows alone do. -/
theorem accounting_exact {cfg : WriterConfig} {p : Process}
    (h : (Process.machine cfg).Reachable p) :
    Exact p.store (Item.traces p.sys.hist.committed) ∧
    ∀ a q, p.ClosesAll a → Process.step cfg p a = some q →
      ExactRows q.store.db (Item.traces q.sys.hist.committed) := by
  refine ⟨(accounts_of_reachable h).exact, fun a q hall hs => ?_⟩
  obtain ⟨batch, flush, stopping, now, faults, hloop, hclose, rfl, hact⟩ := hall
  refine (accounts_of_reachable (h.step hs)).exact.rows ?_
  -- the step is a commit, so the store changes by the effect of its batch
  have hstore := Process.store_of_step hs
  rcases p.storeAfter_cases (.commit now faults) with
    ⟨-, hne⟩ | ⟨batch', flush', stopping', now', faults', hloop', heq, -, heffect⟩
  · exact absurd hact hne
  · obtain ⟨rfl, rfl, rfl⟩ := Writer.Loop.committing.inj (hloop.symm.trans hloop')
    obtain ⟨rfl, -⟩ := ProcessAct.commit.inj heq
    rw [hstore, heffect, hclose]
    exact batchEffect_closeAll batch now p.store

/-- One trace, a stop, and the final commit, whose `BEGIN IMMEDIATE` is busy at
first. -/
def busyAtFirst : List ProcessAct :=
  [.enqueue (sampleTrace 200), .stop, .collect (fun _ => false) 0, .readFlags 0]

/-- The final commit of that run. -/
def busyCommit : ProcessAct := .commit 0 [some (.operational true)]

theorem busyAtFirst_run : ∃ p q, (Process.machine oneSlot).Reachable p ∧
    p.ClosesAll busyCommit ∧ Process.step oneSlot p busyCommit = some q ∧
    q.store = (commitBatch [⟨0, .trace (sampleTrace 200)⟩] true 0
      [some (.operational true)] {}).2 := by
  obtain ⟨p, hp⟩ : ∃ p, (Process.machine oneSlot).exec {} busyAtFirst = some p := ⟨_, rfl⟩
  have hreach : (Process.machine oneSlot).Reachable p := by
    obtain ⟨es, hes, -⟩ := Machine.Run.of_exec hp
    exact ⟨{}, es, ⟨rfl, rfl, rfl⟩, hes⟩
  have hstate : p.sys.loop = .committing [⟨0, .trace (sampleTrace 200)⟩] false true ∧
      p.store = {} := by
    obtain rfl := Option.some.inj hp
    exact ⟨rfl, rfl⟩
  obtain ⟨hloop, hstore⟩ := hstate
  have hending : p.ending 0 [some (.operational true)] = some (commitBatch
      [⟨0, .trace (sampleTrace 200)⟩] true 0 [some (.operational true)] {}) := by
    simp only [Process.ending, hloop, hstore, Bool.false_or]
  have hend : (commitBatch [⟨0, .trace (sampleTrace 200)⟩] true 0 [some (.operational true)]
      {}).1.bind CommitEnd.outcome = some .committed := by decide +kernel
  have hact : p.queueAct busyCommit = some (.commit .committed) := by
    obtain ⟨ending, hsome, hout⟩ := Option.bind_eq_some_iff.mp hend
    rcases hrun : commitBatch [⟨0, .trace (sampleTrace 200)⟩] true 0 [some (.operational true)]
      {} with ⟨ending', s'⟩
    rw [hrun] at hsome hending
    obtain rfl : ending' = some ending := hsome
    simp only [Process.queueAct, busyCommit, hending, hout, Option.map_some]
  have hafter : p.storeAfter busyCommit = (commitBatch [⟨0, .trace (sampleTrace 200)⟩] true 0
      [some (.operational true)] {}).2 := by
    simp only [Process.storeAfter, busyCommit, hending, Option.elim_some]
  obtain ⟨q, hq⟩ : ∃ q, Process.step oneSlot p busyCommit = some q := by
    simp only [Process.step, hact, WriterSys.step, WriterSys.commit, hloop]
    exact ⟨_, rfl⟩
  exact ⟨p, q, hreach, ⟨_, _, _, _, _, hloop, rfl, rfl, hact⟩, hq,
    (Process.store_of_step hq).trans hafter⟩

/-- The rows are exact after that commit. -/
theorem accounting_exact_busyAtFirst : ∃ p q, (Process.machine oneSlot).Reachable p ∧
    Process.step oneSlot p busyCommit = some q ∧ Exact p.store (Item.traces p.sys.hist.committed) ∧
    ExactRows q.store.db (Item.traces q.sys.hist.committed) := by
  obtain ⟨p, q, hreach, hall, hq, -⟩ := busyAtFirst_run
  exact ⟨p, q, hreach, hq, (accounting_exact hreach).1,
    (accounting_exact hreach).2 busyCommit q hall hq⟩

/-! ## Parent rows -/

/-- `merge_rows` of some rows as a row of `metric_rollup`; the percentiles of a
counter are NULL. -/
def mergedRow (metric : Metric) (rows : List Stats) : Stats :=
  let merged := mergeRows (rows.map statsOf)
  ⟨merged.count, merged.sum, merged.min, merged.max,
    fun p => if metric.isCounter then none else some (merged.pct p)⟩

/-- A row of the right shape is the row its digest stands for. -/
theorem RowOk.eq_of_digest {metric : Metric} {row : Stats} (h : RowOk metric row) :
    row = ⟨(Digest.summary row.digest).count, (Digest.summary row.digest).sum,
      (Digest.summary row.digest).min, (Digest.summary row.digest).max,
      fun p => if metric.isCounter then none else some ((Digest.summary row.digest).pct p)⟩ := by
  have hs : Digest.summary row.digest = statsOf row := Digest.summary_digest h.pos
  rw [hs]
  rcases hm : metric.isCounter with - | -
  · exact (h.dist hm).symm
  · rw [h.counter hm]
    rfl

/-- **A parent row is the merge of its children.** In every reachable state,
over every aligned window: the parent row is there exactly when a 10 s row of the
window is, and it is `merge_rows` of all of them. -/
theorem parent_row_merges_children {cfg : WriterConfig} {p : Process}
    (h : (Process.machine cfg).Reachable p) (step : RollupStep) (hstep : step ∈ RollupStep.parents)
    (key : RollupKey) (halign : step.seconds ∣ key.bucket) :
    loadRollupRow p.store.db step key =
      if childRows p.store.db step key = [] then none
      else some (mergedRow key.metric (childRows p.store.db step key)) := by
  have hacc := accounts_of_reachable h
  have hsum : (loadRollupRow p.store.db step key).elim 0 Stats.digest =
      ((childRows p.store.db step key).map Stats.digest).sum := by
    have hchildren := hacc.children step hstep key
    rw [rollupSum_single, sum_childRows _ _ halign] at hchildren
    exact hchildren
  -- a row that is stored counts something
  have hpos : ∀ row ∈ childRows p.store.db step key, row.count ≠ 0 := by
    intro row hrow
    obtain ⟨⟨⟨st, k⟩, row⟩, he, rfl⟩ := List.mem_map.mp hrow
    exact (hacc.rows st k row (Dict.get_eq_some.mpr (List.mem_filter.mp he).1)).1.pos
  rcases hload : loadRollupRow p.store.db step key with _ | row
  · -- no parent row: the children count nothing, so there are none
    rw [hload] at hsum
    have hcount := congrArg (fun d : Digest => d.1.count) hsum
    rcases hrows : childRows p.store.db step key with _ | ⟨row, rows⟩
    · rfl
    · rw [hrows, List.map_cons, List.sum_cons] at hcount
      have := hpos row (by rw [hrows]; exact List.mem_cons_self ..)
      change 0 = row.count + _ at hcount
      omega
  · have hok := (hacc.rows step key row hload).1
    rw [hload] at hsum
    -- the parent counts something, so there are children
    have hne : childRows p.store.db step key ≠ [] := by
      intro hnil
      rw [hnil] at hsum
      exact hok.pos (congrArg (fun d : Digest => d.1.count) hsum)
    rw [if_neg hne, Option.some_inj, mergedRow, mergeRows_eq, List.map_map]
    change row.digest = ((childRows p.store.db step key).map (Summary.digest ∘ statsOf)).sum at hsum
    rw [← hsum]
    exact hok.eq_of_digest

/-- After the run above there is a latency row for the minute, and it is the merge
of its children. -/
theorem parent_row_busyAtFirst : ∃ q, (Process.machine oneSlot).Reachable q ∧
    loadRollupRow q.store.db .minute ⟨60, .latency, [], py "/predict", 0⟩ =
      some (mergedRow .latency
        (childRows q.store.db .minute ⟨60, .latency, [], py "/predict", 0⟩)) := by
  obtain ⟨p, q, hreach, -, hq, hstore⟩ := busyAtFirst_run
  have hq := hreach.step hq
  have hrow := parent_row_merges_children hq .minute (by decide)
    ⟨60, .latency, [], py "/predict", 0⟩ (by decide)
  have hsome : (loadRollupRow q.store.db .minute
      ⟨60, .latency, [], py "/predict", 0⟩).isSome = true := by
    rw [hstore]
    decide +kernel
  refine ⟨q, hq, ?_⟩
  split at hrow
  · rw [hrow] at hsome
    cases hsome
  · exact hrow

end LayaWatch
