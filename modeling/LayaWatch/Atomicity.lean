import LayaWatch.Isolation
import LayaWatch.Survival

/-!
# What `_commit` does to a batch

`_commit` as a whole (`commitCall`): the transaction with its attempts, and what
it then does to the queue and the counters. `Atomic` says what it owes: all of
the batch in the database, or nothing changed and the batch requeued or counted,
and no attempt that begins on anything but the committed database.

It fails in one way: `UnicodeEncodeError` is no `sqlite3.Error`, so it escapes,
and the batch is neither requeued nor counted. `atomic_iff` says when that can
happen: when a text that UTF-8 cannot encode comes before the first row that the
tables refuse.
-/

namespace LayaWatch

open Conn

/-! ## The call -/

/-- `_commit`: what it returns, and what it leaves; `none` when an exception
escapes. -/
def commitCall (batch : List Item) (closeAll : Bool) (now : ℚ)
    (faults : List (Option SqliteError)) (w : Writer) (s : Store) :
    Option Writer.Status × Writer × Store :=
  let (ending, s) := commitBatch batch closeAll now faults s
  match ending.elim (some .nothing) CommitEnd.outcome with
  | some outcome =>
    let (w, status) := w.commit batch outcome
    (some status, w, s)
  | none => (none, w, s)

/-- The connections that the attempts begin with, with the backoffs that are
left. -/
def attemptStarts (kept : List Trace) (logs : List LogEntry) (due : List RollupKey)
    (work : Buckets) : List ℚ → Conn → List Conn
  | backoff, c => c :: match attempt kept logs due work c, backoff with
    | (.error (.sqlite (.operational true)), c), _ :: backoff =>
      attemptStarts kept logs due work backoff c.rollback
    | _, _ => []

/-- The connections that the attempts of `_commit` begin with. -/
def commitStarts (batch : List Item) (closeAll : Bool) (now : ℚ)
    (faults : List (Option SqliteError)) (s : Store) : List Conn :=
  let work := workOf s.buckets batch
  let due := dueOf work closeAll now
  if batch.isEmpty && due.isEmpty then []
  else attemptStarts (keptTraces batch) (Item.logs batch) due work busyBackoff ⟨s.db, none, faults⟩

/-! ## What it owes -/

/-- The key of the row at `step` that a bucket of this key is closed with. -/
def RollupKey.rowAt (key : RollupKey) : RollupStep → RollupKey
  | .ten => key
  | step => key.parent step

/-- What is new in the due buckets for the row of `key` at `step`. -/
def increments (work : Buckets) (due : List RollupKey) (step : RollupStep) (key : RollupKey) :
    List Stats :=
  due.filterMap fun k => if k.rowAt step = key then (work.get k).bind (Bucket.stats k.metric)
    else none

/-- A row with increments merged into it, one after the other. -/
def mergeAll (metric : Metric) (row : Option Stats) (stats : List Stats) : Option Stats :=
  stats.foldl (fun row inc => some (mergeStats metric row inc)) row

/-- The tables that no batch writes. -/
def Db.untouched (db : Db) : Db :=
  { db with
    traces := []
    observations := []
    scores := []
    logEntry := []
    logSeq := 0
    metricRollup := Dict.empty }

/-- `s'` is `s` with the whole batch committed. -/
structure Commits (batch : List Item) (closeAll : Bool) (now : ℚ) (s s' : Store) : Prop where
  /-- the kept traces -/
  traces : s'.db.traces.map TraceRow.toTraceColumns = s.db.traces.map TraceRow.toTraceColumns ++
    (keptTraces batch).map Trace.toTraceColumns
  /-- their observations -/
  observations : s'.db.observations =
    s.db.observations ++ (keptTraces batch).flatMap Trace.observations
  /-- their scores -/
  scores : s'.db.scores = s.db.scores ++ (keptTraces batch).flatMap Trace.scores
  /-- the logs -/
  logs : s'.db.logEntry.map LogRow.toLogEntry =
    s.db.logEntry.map LogRow.toLogEntry ++ Item.logs batch
  /-- the rows of the due buckets, and no other -/
  rollups : ∀ step key, loadRollupRow s'.db step key =
    mergeAll key.metric (loadRollupRow s.db step key)
      (increments (workOf s.buckets batch) (dueOf (workOf s.buckets batch) closeAll now) step key)
  /-- the other tables are what they were -/
  others : s'.db.untouched = s.db.untouched
  /-- the open buckets without the due ones -/
  buckets : ∀ key, s'.buckets.get key =
    if key ∈ dueOf (workOf s.buckets batch) closeAll now then none
    else (workOf s.buckets batch).get key

/-- What `_commit` owes: the whole batch is committed, or nothing has changed and
the batch is back in the queue or counted. -/
def AllOrNothing (batch : List Item) (closeAll : Bool) (now : ℚ) (w : Writer) (s : Store) :
    Option Writer.Status × Writer × Store → Prop
  | (some .ok, w', s') => Commits batch closeAll now s s' ∧ w'.queue = w.queue ∧
      w'.obsDropped = w.obsDropped ∧ w'.logsDropped = w.logsDropped
  | (some .requeued, w', s') => s' = s ∧ w'.queue = batch ++ w.queue ∧
      w'.obsDropped = w.obsDropped ∧ w'.logsDropped = w.logsDropped
  | (some .dropped, w', s') => s' = s ∧ w'.queue = w.queue ∧
      w'.obsDropped = w.obsDropped + (Item.traces batch).length ∧
      w'.logsDropped = w.logsDropped + (Item.logs batch).length
  | (none, _, _) => False

/-- The call is atomic, and every attempt begins on the committed database, with
no open transaction. -/
structure Atomic (batch : List Item) (closeAll : Bool) (now : ℚ)
    (faults : List (Option SqliteError)) (w : Writer) (s : Store) : Prop where
  /-- the outcomes -/
  outcome : AllOrNothing batch closeAll now w s (commitCall batch closeAll now faults w s)
  /-- the attempts -/
  attempts : ∀ c ∈ commitStarts batch closeAll now faults s, c.disk = s.db ∧ c.txn = none

/-! ## When every text before the first refusal can be encoded -/

/-- A row that the transaction of a batch writes. -/
inductive Row where
  /-- of `traces` -/
  | trace (t : Trace)
  /-- of `observations` -/
  | observation (o : Observation)
  /-- of `scores` -/
  | score (s : Score)
  /-- of `log_entry` -/
  | log (e : LogEntry)
  /-- of `metric_rollup`, with its parents -/
  | rollup (key : RollupKey)

namespace Row

/-- The texts of the row. -/
def binds : Row → List (Option PyStr)
  | trace t => t.binds
  | observation o => o.binds
  | score s => s.binds
  | log e => e.binds
  | rollup key => key.binds

/-- The constraints of its table refuse the row. -/
def refused : Row → Db → Bool
  | trace t, db => db.hasTrace t.id
  | observation o, db => (db.observations.any fun row => row.id == o.id) || !db.hasTrace o.traceId
  | score s, db => (db.scores.any fun row => row.id == s.id) || !db.hasTrace s.traceId ||
      decide (s.value = .null)
  | log _, _ | rollup _, _ => false

/-- The tables with constraints, with the row. -/
def addTo : Row → Db → Db
  | trace t, db => db.addTrace t
  | observation o, db => db.addObservation o
  | score s, db => db.addScore s
  | log e, db => db.addLog e
  | rollup _, db => db

/-- Every text up to the first row that is refused can be encoded. -/
def Encodable : List Row → Db → Prop
  | [], _ => True
  | row :: rows, db =>
    bindable row.binds = true ∧ (row.refused db = false → Encodable rows (row.addTo db))

end Row

/-- The due keys whose bucket has something new in it. -/
def closing (work : Buckets) (due : List RollupKey) : List RollupKey :=
  due.filter fun key => ((work.get key).bind (Bucket.stats key.metric)).isSome

/-- The rows that one attempt writes, in order. -/
def attemptRows (kept : List Trace) (logs : List LogEntry) (due : List RollupKey)
    (work : Buckets) : List Row :=
  kept.map Row.trace ++ ((kept.flatMap Trace.observations).map Row.observation ++
    ((kept.flatMap Trace.scores).map Row.score ++
      (logs.map Row.log ++ (closing work due).map Row.rollup)))

/-- The rows that the transaction of a batch writes, in order. -/
def writtenRows (batch : List Item) (closeAll : Bool) (now : ℚ) (buckets : Buckets) : List Row :=
  let work := workOf buckets batch
  attemptRows (keptTraces batch) (Item.logs batch) (dueOf work closeAll now) work

/-! ## What a committed batch leaves -/

theorem loadRollupRow_upsert (step step' : RollupStep) (key key' : RollupKey) (stats : Stats)
    (db : Db) : loadRollupRow (upsertRollup step key stats db) step' key' =
      if step = step' ∧ key = key' then some stats else loadRollupRow db step' key' := by
  by_cases h : step = step' ∧ key = key'
  · obtain ⟨rfl, rfl⟩ := h
    rw [if_pos ⟨rfl, rfl⟩, loadRollupRow_upsert_self]
  · rw [if_neg h, loadRollupRow_upsert_ne]
    intro heq
    obtain ⟨rfl, rfl⟩ := Prod.mk.inj heq
    exact h ⟨rfl, rfl⟩

/-- Closing a bucket merges what is new in it into its row at each step. -/
theorem loadRollupRow_closeBucket (db : Db) (k : RollupKey) (bucket : Bucket) (step : RollupStep)
    (key : RollupKey) : loadRollupRow (closeBucket db k bucket) step key =
      mergeAll key.metric (loadRollupRow db step key)
        (if k.rowAt step = key then (bucket.stats k.metric).toList else []) := by
  unfold closeBucket
  rcases bucket.stats k.metric with _ | stats
  · rw [Option.toList_none, ite_self]
    rfl
  · have hload : loadRollupRow ((rowsOf db k stats).foldl
        (fun db row => upsertRollup row.1 row.2.1 row.2.2 db) db) step key =
        if k.rowAt step = key then
          some (mergeStats k.metric (loadRollupRow db step (k.rowAt step)) stats)
        else loadRollupRow db step key := by
      simp only [rowsOf, RollupStep.parents, List.map_cons, List.map_nil, List.foldl_cons,
        List.foldl_nil, loadRollupRow_upsert]
      by_cases hkey : k.rowAt step = key
      · subst hkey
        cases step <;> simp [RollupKey.rowAt]
      · rw [if_neg hkey]
        cases step <;> simp_all [RollupKey.rowAt]
    have hmetric : (k.rowAt step).metric = k.metric := by cases step <;> rfl
    rw [hload]
    by_cases hkey : k.rowAt step = key
    · subst hkey
      simp only [if_pos trivial, hmetric, Option.toList_some]
      rfl
    · rw [if_neg hkey, if_neg hkey]
      rfl

theorem mergeAll_append (metric : Metric) (row : Option Stats) (l l' : List Stats) :
    mergeAll metric row (l ++ l') = mergeAll metric (mergeAll metric row l) l' :=
  List.foldl_append

/-- What is new for a row does not depend on the buckets of other keys. -/
theorem increments_erase {work : Buckets} {due : List RollupKey} {k : RollupKey} (hk : k ∉ due)
    (step : RollupStep) (key : RollupKey) :
    increments (work.erase k) due step key = increments work due step key := by
  refine List.filterMap_congr fun k' hk' => ?_
  rw [Dict.get_erase_ne work (ne_of_mem_of_not_mem hk' hk)]

/-- Closing the due buckets merges what is new in them, and nothing else. -/
theorem loadRollupRow_closeAllDue (step : RollupStep) (key : RollupKey) {due : List RollupKey} :
    ∀ {s : Store}, due.Nodup → loadRollupRow (due.foldl closeDue s).db step key =
      mergeAll key.metric (loadRollupRow s.db step key) (increments s.buckets due step key) := by
  induction due with
  | nil => exact fun _ => rfl
  | cons k due ih =>
    intro s hnodup
    obtain ⟨hnew, hnodup⟩ := List.nodup_cons.mp hnodup
    have hsplit : increments s.buckets (k :: due) step key =
        (if k.rowAt step = key then ((s.buckets.get k).bind (Bucket.stats k.metric)).toList
          else []) ++ increments s.buckets due step key := by
      unfold increments
      rw [List.filterMap_cons]
      by_cases hkey : k.rowAt step = key
      · rw [if_pos hkey, if_pos hkey]
        rcases (s.buckets.get k).bind (Bucket.stats k.metric) with _ | stats <;> rfl
      · rw [if_neg hkey, if_neg hkey]
        rfl
    rw [List.foldl_cons, ih hnodup, hsplit, mergeAll_append]
    unfold closeDue
    rcases hget : s.buckets.get k with _ | bucket
    · rw [Option.bind_none, Option.toList_none, ite_self]
      rfl
    · rw [loadRollupRow_closeBucket, increments_erase hnew, Option.bind_some]

/-- The due buckets are no longer open, and the others are as they were. -/
theorem get_closeAllDue (key : RollupKey) {due : List RollupKey} : ∀ {s : Store},
    (due.foldl closeDue s).buckets.get key = if key ∈ due then none else s.buckets.get key := by
  induction due with
  | nil => simp
  | cons k due ih =>
    intro s
    have hone : (closeDue s k).buckets.get key = if key = k then none else s.buckets.get key := by
      unfold closeDue
      by_cases hkey : key = k
      · subst hkey
        rw [if_pos rfl]
        rcases hget : s.buckets.get key with _ | bucket
        · exact hget
        · exact Dict.get_erase_self _ _
      · rw [if_neg hkey]
        rcases s.buckets.get k with _ | bucket
        · rfl
        · exact Dict.get_erase_ne _ hkey
    rw [List.foldl_cons, ih, hone]
    by_cases hkey : key = k
    · simp [hkey]
    · simp [hkey]

/-- The rows of a loop of insertions. -/
theorem foldl_appends {α β γ : Type} (rows : β → List γ) (f : β → α → β) (g : α → γ)
    (hf : ∀ b a, rows (f b a) = rows b ++ [g a]) (l : List α) (b : β) :
    rows (l.foldl f b) = rows b ++ l.map g := by
  induction l generalizing b with
  | nil => simp
  | cons a l ih => simp [ih, hf]

theorem insertBatch_scores (db : Db) (kept : List Trace) (logs : List LogEntry) :
    (insertBatch db kept logs).scores = db.scores ++ kept.flatMap Trace.scores := by
  unfold insertBatch
  rw [foldl_keeps Db.scores Db.addLog fun _ _ => rfl,
    foldl_appends Db.scores Db.addScore id fun _ _ => rfl, List.map_id,
    foldl_keeps Db.scores Db.addObservation fun _ _ => rfl,
    foldl_keeps Db.scores Db.addTrace fun _ _ => rfl]

theorem insertBatch_logs (db : Db) (kept : List Trace) (logs : List LogEntry) :
    (insertBatch db kept logs).logEntry.map LogRow.toLogEntry =
      db.logEntry.map LogRow.toLogEntry ++ logs := by
  unfold insertBatch
  rw [foldl_appends (fun db => db.logEntry.map LogRow.toLogEntry) Db.addLog id
      (fun db e => by simp [Db.addLog]), List.map_id,
    foldl_keeps Db.logEntry Db.addScore fun _ _ => rfl,
    foldl_keeps Db.logEntry Db.addObservation fun _ _ => rfl,
    foldl_keeps Db.logEntry Db.addTrace fun _ _ => rfl]

theorem insertBatch_untouched (db : Db) (kept : List Trace) (logs : List LogEntry) :
    (insertBatch db kept logs).untouched = db.untouched := by
  unfold insertBatch
  rw [foldl_keeps Db.untouched Db.addLog fun _ _ => rfl,
    foldl_keeps Db.untouched Db.addScore fun _ _ => rfl,
    foldl_keeps Db.untouched Db.addObservation fun _ _ => rfl,
    foldl_keeps Db.untouched Db.addTrace fun _ _ => rfl]

/-- A committed batch is committed as a whole. -/
theorem batchEffect_commits (batch : List Item) (closeAll : Bool) (now : ℚ) (s : Store) :
    Commits batch closeAll now s (batchEffect batch closeAll now s) := by
  have happends := Db.Appends.batchEffect batch closeAll now s
  have hdue := dueOf_nodup (workOf s.buckets batch) closeAll now
  refine ⟨happends.columns, happends.observations, ?_, ?_, fun step key => ?_, ?_, fun key => ?_⟩
  · exact (closeAllDue_rows Db.scores (fun _ _ _ _ => rfl) _ _).trans (insertBatch_scores ..)
  · exact (closeAllDue_rows (fun db => db.logEntry.map LogRow.toLogEntry)
      (fun _ _ _ _ => rfl) _ _).trans (insertBatch_logs ..)
  · refine (loadRollupRow_closeAllDue step key hdue).trans ?_
    rw [loadRollupRow, insertBatch_metricRollup]
    rfl
  · exact (closeAllDue_rows Db.untouched (fun _ _ _ _ => rfl) _ _).trans
      (insertBatch_untouched ..)
  · exact get_closeAllDue key

/-! ## When an exception escapes -/

/-- The transaction is open and sees `db`; where `quiet`, no statement fails of
itself. -/
structure Conn.Open (disk : Db) (quiet : Prop) (db : Db) (c : Conn) : Prop where
  /-- what it sees -/
  sees : c.Sees disk db
  /-- no failures -/
  faultless : quiet → c.faults = []

/-- How a statement fails: with a `UnicodeEncodeError` only if not `good`, and
always so if nothing fails of itself. -/
structure Conn.Blames (quiet good : Prop) (e : PyError) (c : Conn) : Prop where
  /-- a `UnicodeEncodeError` has its reason -/
  encode : e = .unicodeEncode → ¬good
  /-- its reason has that error -/
  raises : quiet → ¬good → e = .unicodeEncode

section Encoding

variable {disk db : Db} {quiet good : Prop} {c : Conn}

/-- A failure of the database itself. -/
theorem Conn.Blames.fault {e : SqliteError} (hquiet : ¬quiet) : Blames quiet good (.sqlite e) c :=
  ⟨PyError.noConfusion, fun h => absurd h hquiet⟩

/-- A refusal by the tables, where no text is to blame. -/
theorem Conn.Blames.refusal {e : SqliteError} (hgood : good) : Blames quiet good (.sqlite e) c :=
  ⟨PyError.noConfusion, fun _ h => absurd hgood h⟩

/-- A statement with its check, where what comes before it was in order. -/
theorem Conn.execute_blames {α : Type} {binds : List (Option PyStr)}
    {action : Db → Except SqliteError (α × Db)} {a : α} {d : Db} (refused : Bool)
    (ha : action db = if refused then .error .other else .ok (a, d))
    (hbad : good → bindable binds = true) (hrefused : bindable binds = true → refused = true → good)
    (hc : c.Open disk quiet db) :
    (execute binds action).Ends c (fun x c' => x = a ∧ c'.Open disk quiet d ∧
      bindable binds = true ∧ refused = false) (Blames quiet good) := by
  obtain ⟨⟨hdisk, htxn⟩, hfaults⟩ := hc
  unfold Prog.Ends execute
  by_cases hbind : bindable binds = true
  · rw [if_pos hbind]
    dsimp only
    rcases hf : c.faults.head?.join with _ | e
    · rw [htxn]
      dsimp only [Option.getD_some]
      rw [ha]
      cases hr : refused with
      | true => exact Blames.refusal (hrefused hbind hr)
      | false => exact ⟨rfl, ⟨⟨hdisk, rfl⟩, fun hq => by rw [hfaults hq]; rfl⟩, hbind, rfl⟩
    · refine Blames.fault fun hq => ?_
      rw [hfaults hq] at hf
      cases hf
  · rw [if_neg hbind]
    exact ⟨fun _ hg => hbind (hbad hg), fun _ _ => rfl⟩

/-- A statement whose texts are known to be in order, without a check. -/
theorem Conn.execute_open {α : Type} {binds : List (Option PyStr)}
    {action : Db → Except SqliteError (α × Db)} {a : α} {d : Db} (ha : action db = .ok (a, d))
    (hbind : bindable binds = true) (hc : c.Open disk quiet db) :
    (execute binds action).Ends c (fun x c' => x = a ∧ c'.Open disk quiet d)
      (Blames quiet good) :=
  (execute_blames false ha (fun _ => hbind) (fun _ h => absurd h Bool.false_ne_true)
    hc).mono (fun _ _ h => ⟨h.1, h.2.1⟩) fun _ _ h => h

/-- The rows of one table: `good` stays what is to be known of the rows that are
left. -/
theorem each_blames {γ : Type} {f : γ → Sql PUnit}
    {action : γ → Db → Except SqliteError (PUnit × Db)} (row : γ → Row)
    (hf : ∀ b, f b = execute (row b).binds (action b))
    (ha : ∀ b d, action b d =
      if (row b).refused d then .error .other else .ok (⟨⟩, (row b).addTo d))
    {rows : List Row} {l : List γ} : ∀ {db : Db} {c : Conn},
      (good ↔ Row.Encodable (l.map row ++ rows) db) → c.Open disk quiet db →
      (Prog.each f l).Ends c (fun _ c' => ∃ db', c'.Open disk quiet db' ∧
        (good ↔ Row.Encodable rows db')) (Blames quiet good) := by
  induction l with
  | nil => exact fun hgood hc => ⟨_, hc, hgood⟩
  | cons b l ih =>
    intro db c hgood hc
    have hsplit : good ↔ bindable (row b).binds = true ∧
        ((row b).refused db = false → Row.Encodable (l.map row ++ rows) ((row b).addTo db)) :=
      hgood
    have hone : (f b).Ends c (fun _ c' => c'.Open disk quiet ((row b).addTo db) ∧
        bindable (row b).binds = true ∧ (row b).refused db = false) (Blames quiet good) := by
      rw [hf b]
      refine (execute_blames _ (ha b db) (fun hg => (hsplit.mp hg).1) (fun hbind hr =>
        hsplit.mpr ⟨hbind, fun h => absurd (hr.symm.trans h) (by decide)⟩) hc).mono
        (fun _ _ h => h.2) fun _ _ h => h
    refine hone.bind fun _ c₁ h₁ => ?_
    obtain ⟨hc₁, hbind, hrefused⟩ := h₁
    refine ih (hsplit.trans ⟨fun h => h.2 hrefused, fun h => ⟨hbind, fun _ => h⟩⟩) hc₁

theorem Row.encodable_rollups {keys : List RollupKey} : ∀ {db : Db},
    Row.Encodable (keys.map Row.rollup) db ↔ ∀ key ∈ keys, bindable key.binds = true := by
  induction keys with
  | nil => exact iff_of_true trivial fun key hkey => absurd hkey List.not_mem_nil
  | cons key keys ih =>
    intro db
    rw [List.forall_mem_cons]
    exact and_congr_right' ⟨fun h => ih.mp (h rfl), fun h _ => ih.mpr h⟩

/-- The rows of a bucket with something new in it: what can go wrong is the key. -/
theorem rollupRows_blames {bucket : Bucket} {key : RollupKey} {stats : Stats}
    (hstats : bucket.stats key.metric = some stats) (hbad : good → bindable key.binds = true)
    (hc : c.Open disk quiet db) :
    (rollupRows bucket key).Ends c (fun rows c' => (rows = rowsOf db key stats ∧
      bindable key.binds = true) ∧ c'.Open disk quiet db) (Blames quiet good) := by
  unfold rollupRows
  rw [hstats]
  refine (execute_blames false rfl hbad (fun _ h => absurd h Bool.false_ne_true)
    hc).bind fun existing c₁ h₁ => ?_
  obtain ⟨rfl, hc₁, hkey, -⟩ := h₁
  refine (Prog.Ends.collect (R := Conn.Open disk quiet db) (fun step => (step, key.parent step,
    mergeStats key.metric (loadRollupRow db step (key.parent step)) stats))
    (fun step _ c₂ hc₂ => ?_) hc₁).bind fun parents c₂ h₂ => ?_
  · have hparent : bindable (key.parent step).binds = true := hkey
    refine (execute_open rfl hparent hc₂).bind fun row c₃ h₃ => ?_
    obtain ⟨rfl, hc₃⟩ := h₃
    exact Prog.Ends.pure ⟨rfl, hc₃⟩
  · obtain ⟨rfl, hc₂⟩ := h₂
    exact Prog.Ends.pure ⟨⟨rfl, hkey⟩, hc₂⟩

/-- The buckets left to close are those of the keys left. -/
theorem closing_cons {work : Buckets} {key : RollupKey} {due : List RollupKey} (hnew : key ∉ due) :
    closing work (key :: due) =
      (if ((work.get key).bind (Bucket.stats key.metric)).isSome then [key] else []) ++
        closing (work.erase key) due := by
  have hrest : closing (work.erase key) due = closing work due := by
    refine List.filter_congr fun k hk => ?_
    rw [Dict.get_erase_ne work (ne_of_mem_of_not_mem hk hnew)]
  rw [hrest, closing, List.filter_cons]
  split <;> rfl

/-- The due buckets. -/
theorem closeBuckets_blames {due : List RollupKey} :
    ∀ {work : Buckets} {db : Db} {c : Conn}, due.Nodup → (∀ key ∈ due, key ∈ work.keys) →
      (good ↔ ∀ key ∈ closing work due, bindable key.binds = true) → c.Open disk quiet db →
      (closeBuckets due work).Ends c (fun _ c' => good ∧ ∃ db', c'.Open disk quiet db')
        (Blames quiet good) := by
  induction due with
  | nil =>
    intro work db c _ _ hgood hc
    exact ⟨hgood.mpr fun key hkey => absurd hkey List.not_mem_nil, db, hc⟩
  | cons key due ih =>
    intro work db c hnodup hopen hgood hc
    obtain ⟨hnew, hnodup⟩ := List.nodup_cons.mp hnodup
    obtain ⟨bucket, hbucket⟩ := Dict.mem_keys.mp (hopen key (List.mem_cons_self ..))
    have hopen' : ∀ k ∈ due, k ∈ (work.erase key).keys := by
      intro k hk
      rw [Dict.keys_erase]
      refine List.mem_filter.mpr ⟨hopen k (List.mem_cons_of_mem key hk), ?_⟩
      exact decide_eq_true (ne_of_mem_of_not_mem hk hnew)
    rw [closing_cons hnew, hbucket, Option.bind_some] at hgood
    simp only [closeBuckets, hbucket]
    rcases hstats : bucket.stats key.metric with _ | stats
    · -- nothing new: no statement is made
      rw [hstats] at hgood
      have hrows : rollupRows bucket key = pure [] := by
        unfold rollupRows
        rw [hstats]
      rw [hrows]
      refine (Prog.Ends.pure (Q := fun rows c' => rows = [] ∧ c'.Open disk quiet db)
        ⟨rfl, hc⟩).bind fun rows c₁ h₁ => ?_
      obtain ⟨rfl, hc₁⟩ := h₁
      exact ih hnodup hopen' hgood hc₁
    · rw [hstats] at hgood
      have hsplit : good ↔ bindable key.binds = true ∧
          ∀ k ∈ closing (work.erase key) due, bindable k.binds = true :=
        hgood.trans List.forall_mem_cons
      refine (rollupRows_blames hstats (fun hg => (hsplit.mp hg).1) hc).bind fun rows c₁ h₁ => ?_
      obtain ⟨⟨rfl, hkey⟩, hc₁⟩ := h₁
      refine (Prog.Ends.each (R := Conn.Open disk quiet)
        (fun db (row : RollupRow) => upsertRollup row.1 row.2.1 row.2.2 db)
        (fun row hrow db' c₂ hc₂ => ?_) hc₁).bind fun _ c₂ hc₂ => ?_
      · obtain ⟨hmodel, hroute⟩ := mem_rowsOf hrow
        have hbind : bindable [some row.2.1.model, some row.2.1.route] = true := by
          rw [hmodel, hroute]
          exact hkey
        exact (execute_open (a := ⟨⟩) rfl hbind hc₂).mono (fun _ _ h => h.2) fun _ _ h => h
      · exact ih hnodup hopen' (hsplit.trans (and_iff_right hkey)) hc₂

/-- **When an attempt is to blame.** -/
theorem attempt_blames (kept : List Trace) (logs : List LogEntry) {due : List RollupKey}
    {work : Buckets} (hnodup : due.Nodup) (hopen : ∀ key ∈ due, key ∈ work.keys)
    (hgood : good ↔ Row.Encodable (attemptRows kept logs due work) disk)
    (hdisk : c.disk = disk) (htxn : c.txn = none) (hquiet : quiet → c.faults = []) :
    (attempt kept logs due work).Ends c (fun _ _ => good) (Blames quiet good) := by
  have hbegin : beginImmediate.Ends c (fun _ c' => c'.Open disk quiet disk)
      (Blames quiet good) := by
    unfold Prog.Ends beginImmediate
    rw [htxn]
    dsimp only
    rcases hf : c.faults.head?.join with _ | e
    · exact ⟨⟨hdisk, by rw [hdisk]⟩, fun hq => by rw [hquiet hq]; rfl⟩
    · refine Blames.fault fun hq => ?_
      rw [hquiet hq] at hf
      cases hf
  unfold attempt insertTrace insertObservations insertScores
  refine hbegin.bind fun _ c₁ h₁ => ?_
  refine (each_blames Row.trace (fun _ => rfl) (fun _ _ => rfl) hgood h₁).bind
    fun _ c₂ h₂ => ?_
  obtain ⟨db₂, hc₂, hgood₂⟩ := h₂
  refine (each_blames Row.observation (fun _ => rfl) (fun _ _ => rfl) hgood₂ hc₂).bind
    fun _ c₃ h₃ => ?_
  obtain ⟨db₃, hc₃, hgood₃⟩ := h₃
  refine (each_blames Row.score (fun _ => rfl) (fun _ _ => rfl) hgood₃ hc₃).bind
    fun _ c₄ h₄ => ?_
  obtain ⟨db₄, hc₄, hgood₄⟩ := h₄
  refine (each_blames Row.log (fun _ => rfl) (fun _ _ => rfl) hgood₄ hc₄).bind
    fun _ c₅ h₅ => ?_
  obtain ⟨db₅, hc₅, hgood₅⟩ := h₅
  refine (closeBuckets_blames hnodup hopen (hgood₅.trans Row.encodable_rollups) hc₅).bind
    fun work' c₆ h₆ => ?_
  obtain ⟨hg, db₆, ⟨-, htxn₆⟩, hfaults₆⟩ := h₆
  have hcommit : Conn.commit.Ends c₆ (fun _ _ => good) (Blames quiet good) := by
    unfold Prog.Ends Conn.commit
    rw [htxn₆]
    dsimp only
    rcases hf : c₆.faults.head?.join with _ | e
    · exact hg
    · exact Blames.refusal hg
  exact hcommit.bind fun _ _ _ => Prog.Ends.pure hg

/-- A `UnicodeEncodeError` that escapes the loop of attempts has its reason. -/
theorem attempts_blames {kept : List Trace} {logs : List LogEntry} {due : List RollupKey}
    {work : Buckets} {e : PyError} (hnodup : due.Nodup) (hopen : ∀ key ∈ due, key ∈ work.keys)
    (hgood : good ↔ Row.Encodable (attemptRows kept logs due work) disk) (backoff : List ℚ) :
    ∀ {c : Conn}, c.disk = disk → c.txn = none →
      (attempts kept logs due work backoff c).1 = .raised e → ¬good := by
  induction backoff with
  | nil =>
    intro c hdisk htxn hraised
    have h := attempt_blames kept logs hnodup hopen hgood hdisk htxn False.elim
    unfold attempts at hraised
    rcases hrun : attempt kept logs due work c with ⟨e' | work', c'⟩ <;> rw [hrun] at hraised
    · rcases e' with (⟨_ | _⟩ | _) | _ | _
      case unicodeEncode => exact (h.error hrun).encode rfl
      case keyError => exact absurd rfl ((attempt_ends kept logs hnodup hopen hdisk htxn).error
        hrun).2.2
      all_goals cases hraised
    · cases hraised
  | cons wait backoff ih =>
    intro c hdisk htxn hraised
    have h := attempt_blames kept logs hnodup hopen hgood hdisk htxn False.elim
    have hends := attempt_ends kept logs hnodup hopen hdisk htxn
    unfold attempts at hraised
    rcases hrun : attempt kept logs due work c with ⟨e' | work', c'⟩ <;> rw [hrun] at hraised
    · rcases e' with (⟨_ | _⟩ | _) | _ | _
      case sqlite.operational.true => exact ih (c := c'.rollback) (hends.error hrun).1 rfl hraised
      case unicodeEncode => exact (h.error hrun).encode rfl
      case keyError => exact absurd rfl (hends.error hrun).2.2
      all_goals cases hraised
    · cases hraised

/-- Where no statement fails of itself, a text that is to blame escapes at once. -/
theorem attempts_raises {kept : List Trace} {logs : List LogEntry} {due : List RollupKey}
    {work : Buckets} (hnodup : due.Nodup) (hopen : ∀ key ∈ due, key ∈ work.keys)
    (hbad : ¬Row.Encodable (attemptRows kept logs due work) disk) (backoff : List ℚ) :
    (attempts kept logs due work backoff ⟨disk, none, []⟩).1 = .raised .unicodeEncode := by
  have hquiet : True → (⟨disk, none, []⟩ : Conn).faults = [] := fun _ => rfl
  have h := attempt_blames kept logs hnodup hopen Iff.rfl rfl rfl hquiet
  unfold attempts
  rcases hrun : attempt kept logs due work ⟨disk, none, []⟩ with ⟨e | work', c'⟩
  · obtain rfl := (h.error hrun).raises trivial hbad
    rfl
  · exact absurd (h.ok hrun) hbad

/-- Every attempt begins on the committed database. -/
theorem attemptStarts_clean {kept : List Trace} {logs : List LogEntry} {due : List RollupKey}
    {work : Buckets} (hnodup : due.Nodup) (hopen : ∀ key ∈ due, key ∈ work.keys)
    (backoff : List ℚ) : ∀ {c : Conn}, c.disk = disk → c.txn = none →
      ∀ c' ∈ attemptStarts kept logs due work backoff c, c'.disk = disk ∧ c'.txn = none := by
  induction backoff with
  | nil =>
    intro c hdisk htxn c' hc'
    have hone : attemptStarts kept logs due work [] c = [c] := by
      unfold attemptStarts
      split
      · next h => cases h
      · rfl
    rw [hone] at hc'
    rw [List.mem_singleton.mp hc']
    exact ⟨hdisk, htxn⟩
  | cons wait backoff ih =>
    intro c hdisk htxn c' hc'
    have hends := attempt_ends kept logs hnodup hopen hdisk htxn
    unfold attemptStarts at hc'
    rcases List.mem_cons.mp hc' with rfl | hc'
    · exact ⟨hdisk, htxn⟩
    · rcases hrun : attempt kept logs due work c with ⟨e | work', c₁⟩ <;> rw [hrun] at hc'
      · rcases e with (⟨_ | _⟩ | _) | _ | _
        case sqlite.operational.true =>
          exact ih (c := c₁.rollback) (hends.error hrun).1 rfl c' hc'
        all_goals cases hc'
      · cases hc'

end Encoding

/-- **When an exception escapes `_commit`.** -/
theorem commitBatch_raises_iff (batch : List Item) (closeAll : Bool) (now : ℚ) (s : Store) :
    (∃ faults e, (commitBatch batch closeAll now faults s).1 = some (.raised e)) ↔
      ¬Row.Encodable (writtenRows batch closeAll now s.buckets) s.db := by
  have hnodup := dueOf_nodup (workOf s.buckets batch) closeAll now
  have hopen : ∀ key ∈ dueOf (workOf s.buckets batch) closeAll now,
      key ∈ (workOf s.buckets batch).keys := fun key hkey => mem_keys_of_mem_dueOf hkey
  by_cases hnone : (batch.isEmpty && (dueOf (workOf s.buckets batch) closeAll now).isEmpty) = true
  · refine iff_of_false ?_ (not_not_intro ?_)
    · rintro ⟨faults, e, hraised⟩
      unfold commitBatch at hraised
      simp only [if_pos hnone] at hraised
      cases hraised
    · rw [Bool.and_eq_true] at hnone
      obtain rfl := List.isEmpty_iff.mp hnone.1
      have hdue := List.isEmpty_iff.mp hnone.2
      have hrows : writtenRows [] closeAll now s.buckets = [] := by
        simp only [writtenRows, hdue]
        rfl
      rw [hrows]
      trivial
  · constructor
    · rintro ⟨faults, e, hraised⟩
      unfold commitBatch at hraised
      simp only [if_neg hnone] at hraised
      rcases hrun : attempts (keptTraces batch) (Item.logs batch)
        (dueOf (workOf s.buckets batch) closeAll now) (workOf s.buckets batch) busyBackoff
        ⟨s.db, none, faults⟩ with ⟨ending, c⟩
      rw [hrun] at hraised
      cases ending with
      | raised e' =>
        exact attempts_blames hnodup hopen Iff.rfl busyBackoff rfl rfl (congrArg Prod.fst hrun)
      | _ => cases hraised
    · intro hbad
      have hraised := attempts_raises hnodup hopen hbad busyBackoff
      refine ⟨[], .unicodeEncode, ?_⟩
      unfold commitBatch
      simp only [if_neg hnone]
      rcases hrun : attempts (keptTraces batch) (Item.logs batch)
        (dueOf (workOf s.buckets batch) closeAll now) (workOf s.buckets batch) busyBackoff
        ⟨s.db, none, []⟩ with ⟨ending, c⟩
      rw [hrun] at hraised
      obtain rfl : ending = .raised .unicodeEncode := hraised
      rfl

/-! ## Atomicity -/

/-- How many traces are counted. -/
theorem Item.length_traces (batch : List Item) :
    (batch.filter Item.isTrace).length = (Item.traces batch).length := by
  induction batch with
  | nil => rfl
  | cons item batch ih =>
    obtain ⟨call, t | e⟩ := item
    · exact congrArg Nat.succ ih
    · exact ih

/-- How many logs are counted. -/
theorem Item.length_logs (batch : List Item) :
    (batch.filter fun item => !item.isTrace).length = (Item.logs batch).length := by
  induction batch with
  | nil => rfl
  | cons item batch ih =>
    obtain ⟨call, t | e⟩ := item
    · exact ih
    · exact congrArg Nat.succ ih

/-- A call that no exception escapes keeps its promise. -/
theorem allOrNothing_of_returns {batch : List Item} {closeAll : Bool} {now : ℚ}
    {faults : List (Option SqliteError)} (w : Writer) {s : Store}
    (h : ∀ e, (commitBatch batch closeAll now faults s).1 ≠ some (.raised e)) :
    AllOrNothing batch closeAll now w s (commitCall batch closeAll now faults w s) := by
  have hspec := commitBatch_spec batch closeAll now faults s
  have hcommits := batchEffect_commits batch closeAll now s
  unfold commitCall
  rcases hrun : commitBatch batch closeAll now faults s with ⟨ending, s'⟩
  rw [hrun] at hspec h
  rcases ending with _ | work | _ | _ | e
  · -- nothing to do
    obtain ⟨rfl, rfl, hdue⟩ := hspec
    rw [batchEffect_nothing hdue] at hcommits
    exact ⟨hcommits, rfl, rfl, rfl⟩
  · -- committed
    obtain rfl : s' = batchEffect batch closeAll now s := hspec
    exact ⟨hcommits, rfl, rfl, rfl⟩
  · -- busy: requeued the first time, dropped the second
    obtain rfl : s' = s := hspec
    simp only [Option.elim_some, CommitEnd.outcome, Writer.commit]
    by_cases hretried : w.retried = true
    · rw [if_pos hretried]
      exact ⟨rfl, rfl, by rw [← Item.length_traces]; rfl, by rw [← Item.length_logs]; rfl⟩
    · rw [if_neg hretried]
      exact ⟨rfl, rfl, rfl, rfl⟩
  · -- another error: dropped
    obtain rfl : s' = s := hspec
    exact ⟨rfl, rfl, by rw [← Item.length_traces]; rfl, by rw [← Item.length_logs]; rfl⟩
  · exact absurd rfl (h e)

/-- The step of the process at `_commit` is the call. -/
theorem Process.commit_step {cfg : WriterConfig} {p q : Process} {batch : List Item}
    {flush stopping : Bool} {now : ℚ} {faults : List (Option SqliteError)}
    (hloop : p.sys.loop = .committing batch flush stopping)
    (hs : Process.step cfg p (.commit now faults) = some q) :
    let (status, w, s) := commitCall batch (flush || stopping) now faults p.sys.writer p.store
    q.store = s ∧ match status with
      | some status => q.sys.writer = w ∧ q.sys.loop = .recheck status flush stopping
      | none => q.sys = p.sys.crash := by
  have hending : p.ending now faults =
      some (commitBatch batch (flush || stopping) now faults p.store) := by
    simp only [Process.ending, hloop]
  have hcommit : ∀ {outcome : Writer.Outcome} {t : WriterSys}, p.sys.commit outcome = some t →
      t.writer = (p.sys.writer.commit batch outcome).1 ∧
      t.loop = .recheck (p.sys.writer.commit batch outcome).2 flush stopping := by
    intro outcome t ht
    unfold WriterSys.commit at ht
    rw [hloop] at ht
    dsimp only at ht
    split at ht
    · cases ht
    · obtain rfl := Option.some.inj ht
      exact ⟨rfl, rfl⟩
  unfold commitCall
  rcases hrun : commitBatch batch (flush || stopping) now faults p.store with ⟨ending, s'⟩
  rw [hrun] at hending
  simp only [Process.step, Process.queueAct, Process.storeAfter, hending] at hs
  rcases ending with _ | work | _ | _ | e
  case some.raised =>
    obtain rfl := Option.some.inj hs
    exact ⟨rfl, rfl⟩
  all_goals
    obtain ⟨t, ht, rfl⟩ := Option.map_eq_some_iff.mp hs
    exact ⟨rfl, hcommit ht⟩

/-- **Batch atomicity.** Whatever fails, `_commit` commits the whole batch or
requeues or counts it, if and only if every text that the transaction comes to
can be encoded. -/
theorem atomic_iff (batch : List Item) (closeAll : Bool) (now : ℚ) (w : Writer) (s : Store) :
    (∀ faults, Atomic batch closeAll now faults w s) ↔
      Row.Encodable (writtenRows batch closeAll now s.buckets) s.db := by
  have hiff := commitBatch_raises_iff batch closeAll now s
  constructor
  · intro hatomic
    by_contra hbad
    -- faults that make the call raise contradict its outcome
    obtain ⟨faults, e, hraised⟩ := hiff.mpr hbad
    have hout := (hatomic faults).outcome
    unfold commitCall at hout
    rcases hrun : commitBatch batch closeAll now faults s with ⟨ending, s'⟩
    rw [hrun] at hraised
    obtain rfl : ending = some (.raised e) := hraised
    rw [hrun] at hout
    exact hout
  · intro hgood faults
    refine ⟨allOrNothing_of_returns w fun e hraised => ?_, ?_⟩
    · exact hiff.mp ⟨faults, e, hraised⟩ hgood
    · unfold commitStarts
      dsimp only
      split
      · exact fun c hc => absurd hc List.not_mem_nil
      · exact attemptStarts_clean (dueOf_nodup _ _ _) (fun key hkey => mem_keys_of_mem_dueOf hkey)
          busyBackoff rfl rfl

/-- Nothing fails, and the trace with the lone surrogate is neither stored nor
requeued nor counted. -/
theorem surrogate_batch_lost :
    commitCall [⟨0, .trace surrogateTrace⟩] true 0 [] {} {} = (none, {}, {}) ∧
    ¬∀ batch closeAll now faults w s, Atomic batch closeAll now faults w s := by
  have hcall : commitCall [⟨0, .trace surrogateTrace⟩] true 0 [] {} {} = (none, {}, {}) := rfl
  refine ⟨hcall, fun h => ?_⟩
  have hout := (h [⟨0, .trace surrogateTrace⟩] true 0 [] {} {}).outcome
  rw [hcall] at hout
  exact hout

end LayaWatch
