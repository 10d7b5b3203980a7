import LayaWatch.Writer
import LayaWatch.Sqlite

/-!
# The transaction of a batch

`Writer._commit` and the rollup pipeline under it. `commitBatch` is the code: a
program of single statements, any of which may fail, retried after a busy
database. `batchEffect` says what it does when it commits, and
`commitBatch_spec` that otherwise nothing has happened: neither to the database
nor to the open buckets.
-/

namespace LayaWatch

/-! ## Open buckets -/

/-- `_Bucket`. -/
structure Bucket where
  /-- counter events -/
  n : ℕ := 0
  /-- distribution samples -/
  vals : List ℚ := []

/-- The open buckets, `_open`. -/
abbrev Buckets : Type := Dict RollupKey Bucket

/-- `_bump`. -/
def bump (work : Buckets) (key : RollupKey) (n : ℕ) (value : Option ℚ) : Buckets :=
  match work.get key, value with
  | none, _ => work.set key ⟨n, value.toList⟩
  | some current, none => work.set key ⟨current.n + n, current.vals⟩
  | some current, some v => work.set key ⟨current.n, current.vals ++ [v]⟩

/-- `_accumulate`. -/
def accumulate (work : Buckets) (trace : Trace) : Buckets :=
  let bucket := floorBucket trace.tsStart .ten
  let model := PyStr.orEmpty trace.model
  let work := bump work ⟨bucket, .requests, model, trace.route, 0⟩ 1 none
  let work :=
    if 400 ≤ trace.status then bump work ⟨bucket, .errors, [], [], trace.status⟩ 1 none else work
  let work := bump work ⟨bucket, .latency, model, trace.route, 0⟩ 0 (some trace.durationMs)
  bump work ⟨bucket, .queue, model, trace.route, 0⟩ 0 (some trace.queueMs)

/-- The bucket of `key` has ended, `key[0] + _BUCKET_STEP <= now`. -/
def isDue (now : ℚ) (key : RollupKey) : Bool :=
  decide ((key.bucket : ℚ) + RollupStep.ten.seconds ≤ now)

/-- `_due_buckets`. -/
def dueBuckets (buckets : Buckets) (now : ℚ) : List RollupKey := buckets.keys.filter (isDue now)

/-- The statistics of what is new in a bucket; none when there is nothing. -/
def Bucket.stats (metric : Metric) (bucket : Bucket) : Option Stats :=
  if metric.isCounter then
    if bucket.n = 0 then none else some (counterStats bucket.n)
  else
    if bucket.vals.isEmpty then none else some (summarize bucket.vals).toStats

/-- A row to be written to `metric_rollup`. -/
abbrev RollupRow : Type := RollupStep × RollupKey × Stats

/-- `_rollup_rows`: the increment merged into the 10 s row and into both
parents. -/
def rollupRows (bucket : Bucket) (key : RollupKey) : Sql (List RollupRow) :=
  match bucket.stats key.metric with
  | none => pure []
  | some stats => do
    let existing ← selectRollupRow .ten key
    let parents ← Prog.collect (fun step => do
      let row ← selectRollupRow step (key.parent step)
      pure (step, key.parent step, mergeStats key.metric row stats)) RollupStep.parents
    pure ((.ten, key, mergeStats key.metric existing stats) :: parents)

/-! ## The transaction -/

/-- The loop over the due buckets: `attempt_work` loses them one by one. -/
def closeBuckets : List RollupKey → Buckets → Sql Buckets
  | [], work => pure work
  | key :: due, work =>
    match work.get key with
    | none => Prog.raise .keyError
    | some bucket => do
      let rows ← rollupRows bucket key
      Prog.each upsertRollupRow rows
      closeBuckets due (work.erase key)

/-- The body of the `try`: the whole transaction. -/
def attempt (kept : List Trace) (logs : List LogEntry) (due : List RollupKey) (work : Buckets) :
    Sql Buckets := do
  Conn.beginImmediate
  insertTrace kept
  insertObservations (kept.flatMap Trace.observations)
  insertScores (kept.flatMap Trace.scores)
  Prog.each insertLogRow logs
  let work ← closeBuckets due work
  Conn.commit
  pure work

/-- `_BUSY_BACKOFF`, in seconds. -/
def busyBackoff : List ℚ := [1 / 50, 1 / 20, 1 / 10]

/-- How the loop of attempts ends. -/
inductive CommitEnd where
  /-- committed, with what is left of the open buckets -/
  | committed (work : Buckets)
  /-- busy, also after the last backoff -/
  | busy
  /-- another `sqlite3.Error` -/
  | failed
  /-- an exception that is none -/
  | raised (e : PyError)

/-- The loop of attempts, with the backoffs that are left. -/
def attempts (kept : List Trace) (logs : List LogEntry) (due : List RollupKey) (work : Buckets) :
    List ℚ → Conn → CommitEnd × Conn
  | backoff, c =>
    match attempt kept logs due work c, backoff with
    | (.ok work, c), _ => (.committed work, c)
    | (.error (.sqlite (.operational true)), c), _ :: backoff =>
      attempts kept logs due work backoff c.rollback
    | (.error (.sqlite (.operational true)), c), [] => (.busy, c.rollback)
    | (.error (.sqlite _), c), _ => (.failed, c.rollback)
    | (.error e, c), _ => (.raised e, c)

/-- What the writer thread alone owns: its database and the open buckets. -/
structure Store where
  /-- the committed database -/
  db : Db := {}
  /-- `_open` -/
  buckets : Buckets := Dict.empty

/-- `kept` of a batch. -/
def keptTraces (batch : List Item) : List Trace := (Item.traces batch).filter isKept

/-- `work` of a batch. -/
def workOf (buckets : Buckets) (batch : List Item) : Buckets :=
  (Item.traces batch).foldl accumulate buckets

/-- `due` of a batch. -/
def dueOf (work : Buckets) (closeAll : Bool) (now : ℚ) : List RollupKey :=
  if closeAll then work.keys else dueBuckets work now

/-- `_commit` up to its bookkeeping; `none` when there is nothing to do. An
exception that escapes finds its transaction rolled back by the `finally` of
`_run`. -/
def commitBatch (batch : List Item) (closeAll : Bool) (now : ℚ)
    (faults : List (Option SqliteError)) (s : Store) : Option CommitEnd × Store :=
  let work := workOf s.buckets batch
  let due := dueOf work closeAll now
  if batch.isEmpty && due.isEmpty then (none, s)
  else
    match attempts (keptTraces batch) (Item.logs batch) due work busyBackoff
        ⟨s.db, none, faults⟩ with
    | (.committed work, c) => (some (.committed work), ⟨c.disk, work⟩)
    | (ending, c) => (some ending, ⟨c.rollback.disk, s.buckets⟩)

/-! ## What a commit does -/

/-- The rows a bucket with these new statistics is closed with. -/
def rowsOf (db : Db) (key : RollupKey) (stats : Stats) : List RollupRow :=
  (.ten, key, mergeStats key.metric (loadRollupRow db .ten key) stats) ::
    RollupStep.parents.map fun step =>
      (step, key.parent step, mergeStats key.metric (loadRollupRow db step (key.parent step)) stats)

/-- `db` with a bucket closed. -/
def closeBucket (db : Db) (key : RollupKey) (bucket : Bucket) : Db :=
  match bucket.stats key.metric with
  | none => db
  | some stats =>
    (rowsOf db key stats).foldl (fun db row => upsertRollup row.1 row.2.1 row.2.2 db) db

/-- One due bucket closed and no longer open. -/
def closeDue (s : Store) (key : RollupKey) : Store :=
  match s.buckets.get key with
  | none => s
  | some bucket => ⟨closeBucket s.db key bucket, s.buckets.erase key⟩

/-- `db` with the rows of a batch. -/
def insertBatch (db : Db) (kept : List Trace) (logs : List LogEntry) : Db :=
  let db := kept.foldl Db.addTrace db
  let db := (kept.flatMap Trace.observations).foldl Db.addObservation db
  let db := (kept.flatMap Trace.scores).foldl Db.addScore db
  logs.foldl Db.addLog db

/-- What a committed batch does. -/
def batchEffect (batch : List Item) (closeAll : Bool) (now : ℚ) (s : Store) : Store :=
  let work := workOf s.buckets batch
  (dueOf work closeAll now).foldl closeDue
    ⟨insertBatch s.db (keptTraces batch) (Item.logs batch), work⟩

/-- The texts that one attempt binds. -/
def attemptBinds (kept : List Trace) (logs : List LogEntry) (due : List RollupKey) :
    List (Option PyStr) :=
  (kept.flatMap fun t => t.binds) ++
    ((kept.flatMap Trace.observations).flatMap Observation.binds) ++
    ((kept.flatMap Trace.scores).flatMap Score.binds) ++
    logs.flatMap LogEntry.binds ++
    due.flatMap fun key => [some key.model, some key.route]

/-- The texts that the commit of a batch binds. -/
def bindsOf (batch : List Item) (closeAll : Bool) (now : ℚ) (buckets : Buckets) :
    List (Option PyStr) :=
  attemptBinds (keptTraces batch) (Item.logs batch)
    (dueOf (workOf buckets batch) closeAll now)

/-! ## The code commits that, or nothing -/

open Conn

theorem bindable_append (l l' : List (Option PyStr)) :
    bindable (l ++ l') = (bindable l && bindable l') := List.all_append

/-- Where a part cannot be bound, the whole cannot. -/
theorem bindable_flatMap {α : Type} {l : List α} {f : α → List (Option PyStr)} {a : α}
    (ha : a ∈ l) (hf : bindable (f a) = false) : bindable (l.flatMap f) = false := by
  rw [bindable, List.all_eq_false] at hf ⊢
  obtain ⟨s, hs, hbad⟩ := hf
  exact ⟨s, List.mem_flatMap.mpr ⟨a, ha, hs⟩, hbad⟩

section Spec

variable {disk db : Db} {unbindable : Prop} {c : Conn}

theorem rollupRows_ends {bucket : Bucket} {key : RollupKey}
    (hb : bindable [some key.model, some key.route] = false → unbindable)
    (hc : c.Sees disk db) : (rollupRows bucket key).Ends c
      (fun rows c' => rows = ((bucket.stats key.metric).map (rowsOf db key)).getD [] ∧
        c'.Sees disk db) (Fails disk unbindable) := by
  unfold rollupRows
  rcases bucket.stats key.metric with _ | stats
  · exact Prog.Ends.pure ⟨rfl, hc⟩
  · refine (selectRollupRow_ends hb hc).bind fun existing c₁ h₁ => ?_
    obtain ⟨rfl, hc₁⟩ := h₁
    refine (Prog.Ends.collect (R := Conn.Sees disk db) (fun step => (step, key.parent step,
      mergeStats key.metric (loadRollupRow db step (key.parent step)) stats))
      (fun step _ c₂ hc₂ => ?_) hc₁).bind fun parents c₂ h₂ => ?_
    · have hbparent : bindable [some (key.parent step).model, some (key.parent step).route] =
          false → unbindable := hb
      refine (selectRollupRow_ends hbparent hc₂).bind fun row c₃ h₃ => ?_
      obtain ⟨rfl, hc₃⟩ := h₃
      exact Prog.Ends.pure ⟨rfl, hc₃⟩
    · obtain ⟨rfl, hc₂⟩ := h₂
      exact Prog.Ends.pure ⟨rfl, hc₂⟩

/-- The rows of a key are rows of its model and its route. -/
theorem mem_rowsOf {key : RollupKey} {stats : Stats} {row : RollupRow}
    (h : row ∈ rowsOf db key stats) : row.2.1.model = key.model ∧ row.2.1.route = key.route := by
  rcases List.mem_cons.mp h with rfl | h
  · exact ⟨rfl, rfl⟩
  · obtain ⟨step, -, rfl⟩ := List.mem_map.mp h
    exact ⟨rfl, rfl⟩

/-- Each due key is open until its turn comes. -/
theorem closeBuckets_ends {due : List RollupKey} :
    ∀ {work : Buckets} {db : Db} {c : Conn}, due.Nodup → (∀ key ∈ due, key ∈ work.keys) →
      (∀ key ∈ due, bindable [some key.model, some key.route] = false → unbindable) →
      c.Sees disk db → (closeBuckets due work).Ends c
        (fun work' c' => c'.Sees disk (due.foldl closeDue ⟨db, work⟩).db ∧
          work' = (due.foldl closeDue ⟨db, work⟩).buckets) (Fails disk unbindable) := by
  induction due with
  | nil =>
    intro work db c _ _ _ hc
    exact ⟨hc, rfl⟩
  | cons key due ih =>
    intro work db c hnodup hopen hb hc
    obtain ⟨hnew, hnodup⟩ := List.nodup_cons.mp hnodup
    obtain ⟨bucket, hbucket⟩ := Dict.mem_keys.mp (hopen key (List.mem_cons_self ..))
    have hbkey := hb key (List.mem_cons_self ..)
    simp only [closeBuckets, hbucket]
    refine (rollupRows_ends hbkey hc).bind fun rows c₁ h₁ => ?_
    obtain ⟨rfl, hc₁⟩ := h₁
    refine (Prog.Ends.each (fun db (row : RollupRow) => upsertRollup row.1 row.2.1 row.2.2 db)
      (fun row hrow db c hc => upsertRollupRow_ends (fun hbad => ?_) hc) hc₁).bind
        fun _ c₂ hc₂ => ?_
    · rcases hstats : bucket.stats key.metric with _ | stats
      · rw [hstats] at hrow
        cases hrow
      · rw [hstats] at hrow
        obtain ⟨hmodel, hroute⟩ := mem_rowsOf hrow
        rw [hmodel, hroute] at hbad
        exact hbkey hbad
    · have hclose : (((bucket.stats key.metric).map (rowsOf db key)).getD []).foldl
          (fun db row => upsertRollup row.1 row.2.1 row.2.2 db) db = closeBucket db key bucket := by
        unfold closeBucket
        rcases bucket.stats key.metric with _ | stats <;> rfl
      rw [hclose] at hc₂
      have hstep : closeDue ⟨db, work⟩ key = ⟨closeBucket db key bucket, work.erase key⟩ := by
        simp only [closeDue, hbucket]
      rw [List.foldl_cons, hstep]
      refine ih hnodup (fun k hk => ?_) (fun k hk => hb k (List.mem_cons_of_mem key hk)) hc₂
      rw [Dict.keys_erase]
      refine List.mem_filter.mpr ⟨hopen k (List.mem_cons_of_mem key hk), ?_⟩
      rw [decide_eq_true_eq]
      rintro rfl
      exact hnew hk

theorem attempt_ends (kept : List Trace) (logs : List LogEntry) {due : List RollupKey}
    {work : Buckets} (hnodup : due.Nodup) (hopen : ∀ key ∈ due, key ∈ work.keys)
    (hdisk : c.disk = disk) (htxn : c.txn = none) : (attempt kept logs due work).Ends c
      (fun work' c' => (⟨c'.disk, work'⟩ : Store) =
        due.foldl closeDue ⟨insertBatch disk kept logs, work⟩ ∧ c'.txn = none)
      (Fails disk (bindable (attemptBinds kept logs due) = false)) := by
  have hsplit : bindable (attemptBinds kept logs due) = false ↔
      bindable (kept.flatMap fun t => t.binds) = false ∨
      bindable ((kept.flatMap Trace.observations).flatMap Observation.binds) = false ∨
      bindable ((kept.flatMap Trace.scores).flatMap Score.binds) = false ∨
      bindable (logs.flatMap LogEntry.binds) = false ∨
      bindable (due.flatMap fun key => [some key.model, some key.route]) = false := by
    simp only [attemptBinds, bindable_append, Bool.and_eq_false_iff, or_assoc]
  unfold attempt insertTrace insertObservations insertScores
  refine (beginImmediate_ends hdisk htxn).bind fun _ c₁ h₁ => ?_
  refine (Prog.Ends.each Db.addTrace (fun t ht db c hc => insertTraceRow_ends (fun hbad =>
    hsplit.mpr (Or.inl (bindable_flatMap ht hbad))) hc) h₁).bind fun _ c₂ h₂ => ?_
  refine (Prog.Ends.each Db.addObservation (fun o ho db c hc => insertObservationRow_ends
    (fun hbad => hsplit.mpr (Or.inr (Or.inl (bindable_flatMap ho hbad)))) hc) h₂).bind
      fun _ c₃ h₃ => ?_
  refine (Prog.Ends.each Db.addScore (fun sc hsc db c hc => insertScoreRow_ends (fun hbad =>
    hsplit.mpr (Or.inr (Or.inr (Or.inl (bindable_flatMap hsc hbad))))) hc) h₃).bind
      fun _ c₄ h₄ => ?_
  refine (Prog.Ends.each Db.addLog (fun e he db c hc => insertLogRow_ends (fun hbad =>
    hsplit.mpr (Or.inr (Or.inr (Or.inr (Or.inl (bindable_flatMap he hbad)))))) hc) h₄).bind
      fun _ c₅ h₅ => ?_
  refine (closeBuckets_ends hnodup hopen (fun key hkey hbad =>
    hsplit.mpr (Or.inr (Or.inr (Or.inr (Or.inr (bindable_flatMap (f := fun key : RollupKey =>
      [some key.model, some key.route]) hkey hbad)))))) h₅).bind fun work' c₆ h₆ => ?_
  obtain ⟨h₆, rfl⟩ := h₆
  refine (commit_ends h₆).bind fun _ c₇ h₇ => ?_
  exact Prog.Ends.pure ⟨by rw [h₇.1]; rfl, h₇.2⟩

/-- How the loop of attempts can end. -/
def AttemptsEnd (disk : Db) (kept : List Trace) (logs : List LogEntry) (due : List RollupKey)
    (work : Buckets) (r : CommitEnd × Conn) : Prop :=
  match r.1 with
  | .committed work' => (⟨r.2.disk, work'⟩ : Store) =
      due.foldl closeDue ⟨insertBatch disk kept logs, work⟩
  | .busy | .failed => r.2.disk = disk
  | .raised e => r.2.disk = disk ∧ e = .unicodeEncode ∧
      bindable (attemptBinds kept logs due) = false

theorem attempts_end (kept : List Trace) (logs : List LogEntry) {due : List RollupKey}
    {work : Buckets} (hnodup : due.Nodup) (hopen : ∀ key ∈ due, key ∈ work.keys)
    (backoff : List ℚ) : ∀ {c : Conn}, c.disk = disk → c.txn = none →
      AttemptsEnd disk kept logs due work (attempts kept logs due work backoff c) := by
  induction backoff with
  | nil =>
    intro c hdisk htxn
    have h := attempt_ends kept logs hnodup hopen hdisk htxn
    unfold attempts
    rcases hrun : attempt kept logs due work c with ⟨e | work', c'⟩
    · obtain ⟨hd, hu, hk⟩ := h.error hrun
      rcases e with (_ | _) | _ | _
      · next busy => cases busy <;> exact hd
      · exact hd
      · exact ⟨hd, rfl, hu rfl⟩
      · exact absurd rfl hk
    · exact (h.ok hrun).1
  | cons wait backoff ih =>
    intro c hdisk htxn
    have h := attempt_ends kept logs hnodup hopen hdisk htxn
    unfold attempts
    rcases hrun : attempt kept logs due work c with ⟨e | work', c'⟩
    · obtain ⟨hd, hu, hk⟩ := h.error hrun
      rcases e with (_ | _) | _ | _
      · next busy =>
        cases busy with
        | false => exact hd
        | true => exact ih (c := c'.rollback) hd rfl
      · exact hd
      · exact ⟨hd, rfl, hu rfl⟩
      · exact absurd rfl hk
    · exact (h.ok hrun).1

end Spec

theorem dueOf_nodup (work : Buckets) (closeAll : Bool) (now : ℚ) :
    (dueOf work closeAll now).Nodup := by
  unfold dueOf dueBuckets
  split
  · exact work.keys_nodup
  · exact work.keys_nodup.filter _

theorem mem_keys_of_mem_dueOf {work : Buckets} {closeAll : Bool} {now : ℚ} {key : RollupKey}
    (h : key ∈ dueOf work closeAll now) : key ∈ work.keys := by
  unfold dueOf dueBuckets at h
  split at h
  · exact h
  · exact (List.mem_filter.mp h).1

/-- **Every way `_commit` can end.** Either the whole batch is committed and its
due buckets are closed, or nothing has changed; an exception escapes only when
there is a text that cannot be bound. -/
theorem commitBatch_spec (batch : List Item) (closeAll : Bool) (now : ℚ)
    (faults : List (Option SqliteError)) (s : Store) :
    match commitBatch batch closeAll now faults s with
    | (none, s') => s' = s ∧ batch = [] ∧ dueOf s.buckets closeAll now = []
    | (some (.committed _), s') => s' = batchEffect batch closeAll now s
    | (some .busy, s') | (some .failed, s') => s' = s
    | (some (.raised e), s') => s' = s ∧ e = .unicodeEncode ∧
        bindable (bindsOf batch closeAll now s.buckets) = false := by
  unfold commitBatch
  by_cases hnone : (batch.isEmpty && (dueOf (workOf s.buckets batch) closeAll now).isEmpty) = true
  · simp only [if_pos hnone]
    rw [Bool.and_eq_true] at hnone
    obtain rfl := List.isEmpty_iff.mp hnone.1
    exact ⟨trivial, rfl, List.isEmpty_iff.mp hnone.2⟩
  · simp only [if_neg hnone]
    have h := attempts_end (keptTraces batch) (Item.logs batch)
      (dueOf_nodup (workOf s.buckets batch) closeAll now)
      (fun key hkey => mem_keys_of_mem_dueOf hkey) busyBackoff
      (c := ⟨s.db, none, faults⟩) rfl rfl
    unfold AttemptsEnd at h
    rcases hrun : attempts (keptTraces batch) (Item.logs batch)
        (dueOf (workOf s.buckets batch) closeAll now) (workOf s.buckets batch) busyBackoff
        ⟨s.db, none, faults⟩ with ⟨ending, c⟩
    rw [hrun] at h
    cases ending with
    | committed work => exact h
    | busy => exact congrArg (Store.mk · s.buckets) h
    | failed => exact congrArg (Store.mk · s.buckets) h
    | raised e =>
      exact ⟨congrArg (Store.mk · s.buckets) h.1, h.2⟩

end LayaWatch
