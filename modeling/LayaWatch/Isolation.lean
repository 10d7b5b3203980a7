import LayaWatch.RetentionSafety
import LayaWatch.Middleware

/-!
# Can one client's request id lose another client's trace?

A client may choose the id of its trace (`X-Request-Id`), and the id is the
primary key of `traces`. An id that is already stored, or that two traces of one
batch share, is an `IntegrityError`: `_commit` gives up the batch, and with it
the traces of everyone else in it (`repeated_id_loses`).

Without busy or I/O errors a batch commits exactly when its rows take free keys
and its texts can be bound (`commitBatch_decides`), so that a trace whose id no
other request uses is stored exactly when its batch is such a batch
(`isolated`).
-/

namespace LayaWatch

/-! ## When a statement succeeds -/

/-- The open transaction sees `db`, and no statement is going to fail of itself. -/
structure Conn.Quiet (db : Db) (c : Conn) : Prop where
  /-- what the transaction sees -/
  sees : c.txn = some db
  /-- no failures -/
  faultless : c.faults = []

/-- An observation with this id is stored. -/
def Db.hasObservation (db : Db) (id : PyStr) : Bool := db.observations.any fun row => row.id == id

/-- What a statement raises of itself: the database is not busy. -/
def Refused (e : PyError) (_ : Conn) : Prop := e ≠ .sqlite (.operational true)

/-- The rows of these traces take free keys of `traces` and of `observations`. -/
structure Db.Fits (db : Db) (kept : List Trace) : Prop where
  /-- no two traces share an id -/
  distinct : (kept.map fun t => t.id).Nodup
  /-- no id is stored already -/
  fresh : ∀ t ∈ kept, ¬db.hasTrace t.id = true
  /-- no two observations share an id -/
  observationsDistinct : ((kept.flatMap Trace.observations).map Observation.id).Nodup
  /-- no id is stored already -/
  observationsFresh : ∀ o ∈ kept.flatMap Trace.observations, ¬db.hasObservation o.id = true

theorem Db.hasTrace_addTrace {db : Db} {t : Trace} {id : PyStr} :
    (db.addTrace t).hasTrace id = true ↔ db.hasTrace id = true ∨ id = t.id := by
  simp only [hasTrace, addTrace, List.any_append, List.any_cons, List.any_nil, Bool.or_false,
    Bool.or_eq_true, beq_iff_eq, @eq_comm _ t.id]

theorem Db.hasObservation_addObservation {db : Db} {o : Observation} {id : PyStr} :
    (db.addObservation o).hasObservation id = true ↔ db.hasObservation id = true ∨ id = o.id := by
  simp only [hasObservation, addObservation, List.any_append, List.any_cons, List.any_nil,
    Bool.or_false, Bool.or_eq_true, beq_iff_eq, @eq_comm _ o.id]

theorem Db.hasTrace_iff {db : Db} {id : PyStr} :
    db.hasTrace id = true ↔ ∃ row ∈ db.traces, row.id = id := by
  simp [hasTrace]

open Conn

section

variable {db : Db} {c : Conn}

/-- A statement that refuses exactly what it checks for. -/
theorem Conn.execute_decides {α : Type} {binds : List (Option PyStr)}
    {action : Db → Except SqliteError (α × Db)} (refused : Bool) {a : α} {d : Db}
    (ha : action db = if refused then .error .other else .ok (a, d)) (hc : c.Quiet db) :
    (execute binds action).Decides c (bindable binds = true ∧ ¬refused = true)
      (fun x c' => x = a ∧ c'.Quiet d) Refused := by
  obtain ⟨hsees, hfaults⟩ := hc
  unfold Prog.Decides Prog.Ends execute
  by_cases hbind : bindable binds = true
  · rw [if_pos hbind, hsees, hfaults]
    dsimp only [List.head?_nil, Option.join_none, Option.getD_some]
    rw [ha]
    cases refused with
    | true => exact ⟨fun h => h.2 rfl, fun h => by cases h⟩
    | false => exact ⟨⟨hbind, Bool.false_ne_true⟩, rfl, rfl, rfl⟩
  · rw [if_neg hbind]
    exact ⟨fun h => hbind h.1, fun h => by cases h⟩

/-- A statement that checks nothing. -/
theorem Conn.execute_returns {α : Type} {binds : List (Option PyStr)}
    {action : Db → Except SqliteError (α × Db)} {a : α} {db' : Db}
    (ha : action db = .ok (a, db')) (hc : c.Quiet db) :
    (execute binds action).Decides c (bindable binds = true) (fun x c' => x = a ∧ c'.Quiet db')
      Refused :=
  (execute_decides false ha hc).mono
    (and_iff_left Bool.false_ne_true) fun _ _ h => h

theorem insertTraceRow_decides {t : Trace} (hc : c.Quiet db) :
    (insertTraceRow t).Decides c (bindable t.binds = true ∧ ¬db.hasTrace t.id = true)
      (fun _ c' => c'.Quiet (db.addTrace t)) Refused :=
  (execute_decides (db.hasTrace t.id) (a := ⟨⟩) rfl hc).mono Iff.rfl fun _ _ h => h.2

/-- The foreign key holds where the trace is stored. -/
theorem insertObservationRow_decides {o : Observation} (htrace : db.hasTrace o.traceId = true)
    (hc : c.Quiet db) :
    (insertObservationRow o).Decides c
      (bindable o.binds = true ∧ ¬db.hasObservation o.id = true)
      (fun _ c' => c'.Quiet (db.addObservation o)) Refused := by
  refine (execute_decides (db.hasObservation o.id) (a := ⟨⟩) (d := db.addObservation o)
    ?_ hc).mono Iff.rfl fun _ _ h => h.2
  rw [htrace, Bool.not_true, Bool.or_false]
  rfl

theorem insertLogRow_decides {e : LogEntry} (hc : c.Quiet db) :
    (insertLogRow e).Decides c (bindable e.binds = true) (fun _ c' => c'.Quiet (db.addLog e))
      Refused :=
  (execute_returns (a := ⟨⟩) rfl hc).mono Iff.rfl fun _ _ h => h.2

/-- The texts of a key. -/
def RollupKey.binds (key : RollupKey) : List (Option PyStr) := [some key.model, some key.route]

theorem selectRollupRow_decides (step : RollupStep) (key : RollupKey) (hc : c.Quiet db) :
    (selectRollupRow step key).Decides c (bindable key.binds = true)
      (fun row c' => row = loadRollupRow db step key ∧ c'.Quiet db) Refused :=
  execute_returns rfl hc

theorem upsertRollupRow_decides {row : RollupRow} (hc : c.Quiet db) :
    (upsertRollupRow row).Decides c (bindable row.2.1.binds = true)
      (fun _ c' => c'.Quiet (upsertRollup row.1 row.2.1 row.2.2 db)) Refused :=
  (execute_returns (a := ⟨⟩) rfl hc).mono Iff.rfl fun _ _ h => h.2

/-! ## When a bucket closes -/

/-- A bucket with a sample closes if the texts of its key can be bound. -/
theorem rollupRows_decides {bucket : Bucket} {key : RollupKey} {stats : Stats}
    (hstats : bucket.stats key.metric = some stats) (hc : c.Quiet db) :
    (rollupRows bucket key).Decides c (bindable key.binds = true)
      (fun rows c' => rows = rowsOf db key stats ∧ c'.Quiet db) Refused := by
  unfold rollupRows
  rw [hstats]
  refine ((selectRollupRow_decides _ _ hc).bind (T := bindable key.binds = true) ?_).mono
    (and_self_iff) fun _ _ h => h
  rintro existing c₁ ⟨rfl, hc₁⟩
  refine ((Prog.Decides.collect (R := Conn.Quiet db) (p := fun _ => bindable key.binds = true)
    (fun step => (step, key.parent step,
      mergeStats key.metric (loadRollupRow db step (key.parent step)) stats)) ?_ hc₁).bind
    (T := True) ?_).mono ?_ fun _ _ h => h
  · rintro step - c₂ hc₂
    refine ((selectRollupRow_decides step (key.parent step) hc₂).bind (T := True) ?_).mono
      (and_iff_left trivial) fun _ _ h => h
    rintro row c₃ ⟨rfl, hc₃⟩
    exact Prog.Decides.pure ⟨rfl, hc₃⟩
  · rintro parents c₂ ⟨rfl, hc₂⟩
    exact Prog.Decides.pure ⟨rfl, hc₂⟩
  · rw [and_iff_left trivial]
    exact ⟨fun h => h .minute (List.mem_cons_self ..), fun h _ _ => h⟩

/-- The due buckets close if the texts of their keys can be bound. -/
theorem closeBuckets_decides {due : List RollupKey} :
    ∀ {work : Buckets} {db : Db} {c : Conn}, BucketsOk work → due.Nodup →
      (∀ key ∈ due, key ∈ work.keys) → c.Quiet db →
      (closeBuckets due work).Decides c (∀ key ∈ due, bindable key.binds = true)
        (fun _ c' => ∃ db', c'.Quiet db') Refused := by
  induction due with
  | nil =>
    intro work db c _ _ _ hc
    exact ⟨fun key hkey => absurd hkey List.not_mem_nil, db, hc⟩
  | cons key due ih =>
    intro work db c hok hnodup hopen hc
    obtain ⟨hnew, hnodup⟩ := List.nodup_cons.mp hnodup
    obtain ⟨bucket, hbucket⟩ := Dict.mem_keys.mp (hopen key (List.mem_cons_self ..))
    obtain ⟨stats, hstats, -⟩ := Bucket.stats_spec (hok key bucket hbucket).1
    simp only [closeBuckets, hbucket]
    refine ((rollupRows_decides hstats hc).bind
      (T := bindable key.binds = true ∧ ∀ k ∈ due, bindable k.binds = true) ?_).mono ?_
        fun _ _ h => h
    · rintro rows c₁ ⟨rfl, hc₁⟩
      refine ((Prog.Decides.each (R := Conn.Quiet) (p := fun _ _ => bindable key.binds = true)
        (fun db (row : RollupRow) => upsertRollup row.1 row.2.1 row.2.2 db) ?_ hc₁).mono ?_
          fun _ _ h => h).bind fun _ c₂ hc₂ => ih ?_ hnodup ?_ hc₂
      · intro row hrow db c hc
        obtain ⟨hmodel, hroute⟩ := mem_rowsOf hrow
        refine (upsertRollupRow_decides hc).mono ?_ fun _ _ h => h
        rw [RollupKey.binds, hmodel, hroute, RollupKey.binds]
      · rw [Prog.Decides.All.of_forall]
        exact ⟨fun h => h _ (List.mem_cons_self ..), fun h _ _ => h⟩
      · intro k b hk
        by_cases heq : k = key
        · rw [heq, Dict.get_erase_self] at hk
          cases hk
        · rw [Dict.get_erase_ne _ heq] at hk
          exact hok k b hk
      · intro k hk
        rw [Dict.keys_erase]
        refine List.mem_filter.mpr ⟨hopen k (List.mem_cons_of_mem key hk), ?_⟩
        rw [decide_eq_true_eq]
        rintro rfl
        exact hnew hk
    · rw [List.forall_mem_cons]
      exact ⟨fun h => h.2, fun h => ⟨h.1, h⟩⟩

/-! ## When a batch commits -/

theorem beginImmediate_decides (htxn : c.txn = none) (hfaults : c.faults = []) :
    beginImmediate.Decides c True (fun _ c' => c'.Quiet c.disk) Refused := by
  unfold Prog.Decides Prog.Ends beginImmediate
  rw [htxn, hfaults]
  exact ⟨trivial, rfl, rfl⟩

theorem commit_decides (hc : c.Quiet db) : commit.Decides c True (fun _ _ => True) Refused := by
  unfold Prog.Decides Prog.Ends commit
  rw [hc.sees, hc.faultless]
  exact ⟨trivial, trivial⟩

theorem bindable_flatMap_iff {α : Type} {l : List α} {f : α → List (Option PyStr)} :
    bindable (l.flatMap f) = true ↔ ∀ a ∈ l, bindable (f a) = true := by
  simp only [bindable, List.all_flatMap, List.all_eq_true]

/-- The observations of the traces that were just inserted find them. -/
theorem hasTrace_inserted {kept : List Trace} : ∀ {db : Db} {id : PyStr},
    Db.hasTrace (kept.foldl Db.addTrace db) id = true ↔
      db.hasTrace id = true ∨ ∃ t ∈ kept, t.id = id := by
  induction kept with
  | nil => simp
  | cons t kept ih =>
    intro db id
    rw [List.foldl_cons, ih, Db.hasTrace_addTrace, or_assoc]
    simp only [List.exists_mem_cons_iff, eq_comm]

/-- Inserting a trace touches no observation. -/
theorem hasObservation_inserted {kept : List Trace} {id : PyStr} :
    Db.hasObservation (kept.foldl Db.addTrace db) id = db.hasObservation id := by
  unfold Db.hasObservation
  rw [foldl_keeps Db.observations Db.addTrace fun _ _ => rfl]

/-- The `INSERT`s into `traces`. -/
theorem insertTrace_decides (kept : List Trace) (hc : c.Quiet db) :
    (insertTrace kept).Decides c
      ((∀ t ∈ kept, bindable t.binds = true) ∧ (kept.map fun t => t.id).Nodup ∧
        ∀ t ∈ kept, ¬db.hasTrace t.id = true)
      (fun _ c' => c'.Quiet (kept.foldl Db.addTrace db)) Refused :=
  (Prog.Decides.each (R := Conn.Quiet) Db.addTrace
    (fun _ _ _ _ hc => insertTraceRow_decides hc) hc).mono
    (Prog.Decides.All.keyed (p := fun t : Trace => bindable t.binds = true) (fun t => t.id)
      (fun (db : Db) id => db.hasTrace id = true) fun _ _ _ => Db.hasTrace_addTrace)
    fun _ _ h => h

/-- The `INSERT`s into `observations`, where their traces are stored. -/
theorem insertObservations_decides {observations : List Observation}
    (htraces : ∀ o ∈ observations, db.hasTrace o.traceId = true) (hc : c.Quiet db) :
    (insertObservations observations).Decides c
      ((∀ o ∈ observations, bindable o.binds = true) ∧ (observations.map Observation.id).Nodup ∧
        ∀ o ∈ observations, ¬db.hasObservation o.id = true)
      (fun _ c' => ∃ db', c'.Quiet db') Refused := by
  refine (Prog.Decides.each (R := fun d c => Conn.Quiet d c ∧ d.traces = db.traces)
    (p := fun d o => bindable o.binds = true ∧ ¬d.hasObservation o.id = true) Db.addObservation
    ?_ ⟨hc, rfl⟩).mono (Prog.Decides.All.keyed
      (p := fun o : Observation => bindable o.binds = true) Observation.id
      (fun (db : Db) id => db.hasObservation id = true)
      fun _ _ _ => Db.hasObservation_addObservation) fun _ _ h => ⟨_, h.1⟩
  rintro o ho d c ⟨hc, hd⟩
  have hstored : d.hasTrace o.traceId = true := by
    unfold Db.hasTrace
    rw [hd]
    exact htraces o ho
  exact (insertObservationRow_decides hstored hc).mono Iff.rfl fun _ _ h => ⟨h, hd⟩

/-- The part of an attempt after the traces. -/
theorem closing_decides (logs : List LogEntry) {due : List RollupKey} {work : Buckets}
    (hwork : BucketsOk work) (hnodup : due.Nodup) (hopen : ∀ key ∈ due, key ∈ work.keys)
    (hc : c.Quiet db) :
    (Prog.each insertLogRow logs >>= fun _ => closeBuckets due work >>= fun work =>
        Conn.commit >>= fun _ => pure work).Decides c
      ((∀ e ∈ logs, bindable e.binds = true) ∧ ∀ key ∈ due, bindable key.binds = true)
      (fun _ _ => True) Refused := by
  refine ((Prog.Decides.each (R := Conn.Quiet) (p := fun _ e => bindable e.binds = true)
    Db.addLog (fun e _ d c hc => insertLogRow_decides hc) hc).mono Prog.Decides.All.of_forall
      fun _ _ h => h).bind fun _ c₁ h₁ => ?_
  refine ((closeBuckets_decides hwork hnodup hopen h₁).bind (T := True)
    fun work' c₂ h₂ => ?_).mono (and_iff_left trivial) fun _ _ h => h
  obtain ⟨db₂, h₂⟩ := h₂
  exact ((commit_decides h₂).bind fun _ _ _ => Prog.Decides.pure trivial).mono
    (and_iff_left trivial) fun _ _ h => h

/-- **When an attempt succeeds.** -/
theorem attempt_decides {kept : List Trace} (logs : List LogEntry) {due : List RollupKey}
    {work : Buckets} (hown : ∀ t ∈ kept, t.Named t.id) (hwork : BucketsOk work)
    (hnodup : due.Nodup) (hopen : ∀ key ∈ due, key ∈ work.keys) (htxn : c.txn = none)
    (hfaults : c.faults = []) :
    (attempt kept logs due work).Decides c
      (c.disk.Fits kept ∧ bindable (attemptBinds kept logs due) = true) (fun _ _ => True)
      Refused := by
  have hscores : kept.flatMap Trace.scores = [] :=
    List.flatMap_eq_nil_iff.mpr fun t ht => (hown t ht).unscored
  have htraces : ∀ o ∈ kept.flatMap Trace.observations,
      Db.hasTrace (kept.foldl Db.addTrace c.disk) o.traceId = true := by
    intro o ho
    obtain ⟨t, ht, ho⟩ := List.mem_flatMap.mp ho
    exact hasTrace_inserted.mpr (Or.inr ⟨t, ht, ((hown t ht).observed o ho).symm⟩)
  unfold attempt
  rw [hscores]
  refine ((beginImmediate_decides htxn hfaults).bind fun _ c₁ h₁ =>
    (insertTrace_decides kept h₁).bind fun _ c₂ h₂ =>
    (insertObservations_decides htraces h₂).bind fun _ c₃ ⟨db₃, h₃⟩ =>
    Prog.Decides.bind (P := True) (Q := fun _ c' => c'.Quiet db₃) (Prog.Decides.pure h₃)
      fun _ c₄ h₄ => closing_decides logs hwork hnodup hopen h₄).mono ?_ fun _ _ h => h
  have hsplit : bindable (attemptBinds kept logs due) = true ↔
      (∀ t ∈ kept, bindable t.binds = true) ∧
      (∀ o ∈ kept.flatMap Trace.observations, bindable o.binds = true) ∧
      (∀ e ∈ logs, bindable e.binds = true) ∧ ∀ key ∈ due, bindable key.binds = true := by
    simp only [attemptBinds, bindable_append, Bool.and_eq_true, bindable_flatMap_iff, hscores,
      and_assoc, List.not_mem_nil, false_implies, implies_true, true_and]
    rfl
  simp only [hsplit, hasObservation_inserted, true_and]
  constructor
  · rintro ⟨⟨ht, hdistinct, hfresh⟩, ⟨ho, hodistinct, hofresh⟩, hlogs, hdue⟩
    exact ⟨⟨hdistinct, hfresh, hodistinct, hofresh⟩, ht, ho, hlogs, hdue⟩
  · rintro ⟨⟨hdistinct, hfresh, hodistinct, hofresh⟩, ht, ho, hlogs, hdue⟩
    exact ⟨⟨ht, hdistinct, hfresh⟩, ⟨ho, hodistinct, hofresh⟩, hlogs, hdue⟩

/-- The loop of attempts commits when the attempt does, and is never busy. -/
theorem attempts_commits {kept : List Trace} (logs : List LogEntry) {due : List RollupKey}
    {work : Buckets} (backoff : List ℚ) {P : Prop}
    (h : (attempt kept logs due work).Decides c P (fun _ _ => True) Refused) :
    (∃ work', (attempts kept logs due work backoff c).1 = .committed work') ↔ P := by
  unfold attempts
  unfold Prog.Decides Prog.Ends at h
  rcases hrun : attempt kept logs due work c with ⟨e | work', c'⟩
  · rw [hrun] at h
    refine iff_of_false ?_ h.1
    rintro ⟨work', hwork'⟩
    rcases e with (_ | _) | _ | _
    · next busy =>
      cases busy with
      | false => cases hwork'
      | true => exact h.2 rfl
    all_goals cases hwork'
  · rw [hrun] at h
    exact iff_of_true ⟨work', rfl⟩ h.1

end

/-- **When a batch commits**, without busy or I/O errors. -/
theorem commitBatch_decides {batch : List Item} (closeAll : Bool) (now : ℚ) {s : Store}
    (hown : ∀ t ∈ keptTraces batch, t.Named t.id) (hbuckets : BucketsOk s.buckets)
    (hbatch : batch ≠ []) :
    (∃ work, (commitBatch batch closeAll now [] s).1 = some (.committed work)) ↔
      s.db.Fits (keptTraces batch) ∧ bindable (bindsOf batch closeAll now s.buckets) = true := by
  have hwork : BucketsOk (workOf s.buckets batch) :=
    (sum_workOf (AddMonoidHom.id _) (fun _ => true) hbuckets batch).1
  have hattempts := attempts_commits (Item.logs batch) busyBackoff
    (attempt_decides (c := ⟨s.db, none, []⟩) (Item.logs batch) hown hwork
      (dueOf_nodup (workOf s.buckets batch) closeAll now)
      (fun key hkey => mem_keys_of_mem_dueOf hkey) rfl rfl)
  have hsome :
      ¬(batch.isEmpty && (dueOf (workOf s.buckets batch) closeAll now).isEmpty) = true := by
    simp [hbatch]
  unfold bindsOf
  rw [← hattempts]
  unfold commitBatch
  simp only [if_neg hsome]
  rcases attempts (keptTraces batch) (Item.logs batch)
      (dueOf (workOf s.buckets batch) closeAll now) (workOf s.buckets batch) busyBackoff
      ⟨s.db, none, []⟩ with ⟨ending, c'⟩
  cases ending <;> simp

/-! ## What a batch does to the rows of traces -/

/-- The trace is stored, with its observations. -/
structure Db.Stores (db : Db) (t : Trace) : Prop where
  /-- its row -/
  row : ∃ row ∈ db.traces, row.toTraceColumns = t.toTraceColumns
  /-- its observations -/
  observations : ∀ o ∈ t.observations, o ∈ db.observations

/-- Closing buckets changes rollup rows only. -/
theorem closeAllDue_rows {α : Type} (g : Db → α)
    (hg : ∀ db step key stats, g (upsertRollup step key stats db) = g db) (due : List RollupKey)
    (s : Store) : g (due.foldl closeDue s).db = g s.db := by
  refine foldl_keeps (fun s => g s.db) closeDue (fun s key => ?_) due s
  unfold closeDue closeBucket
  split
  · rfl
  · split
    · rfl
    · exact foldl_keeps g _ (fun db _ => hg db _ _ _) _ s.db

theorem insertBatch_columns (db : Db) (kept : List Trace) (logs : List LogEntry) :
    (insertBatch db kept logs).traces.map TraceRow.toTraceColumns =
      db.traces.map TraceRow.toTraceColumns ++ kept.map Trace.toTraceColumns := by
  unfold insertBatch
  rw [foldl_keeps Db.traces Db.addLog fun _ _ => rfl,
    foldl_keeps Db.traces Db.addScore fun _ _ => rfl,
    foldl_keeps Db.traces Db.addObservation fun _ _ => rfl]
  induction kept generalizing db with
  | nil => simp
  | cons t kept ih => simp [ih, Db.addTrace]

theorem insertBatch_observations (db : Db) (kept : List Trace) (logs : List LogEntry) :
    (insertBatch db kept logs).observations =
      db.observations ++ kept.flatMap Trace.observations := by
  have hrows : ∀ (l : List Observation) (d : Db),
      (l.foldl Db.addObservation d).observations = d.observations ++ l := by
    intro l
    induction l with
    | nil => simp
    | cons o l ih => simp [ih, Db.addObservation]
  unfold insertBatch
  rw [foldl_keeps Db.observations Db.addLog fun _ _ => rfl,
    foldl_keeps Db.observations Db.addScore fun _ _ => rfl, hrows,
    foldl_keeps Db.observations Db.addTrace fun _ _ => rfl]

/-- `db'` holds the rows of `db` and those of `kept`. -/
structure Db.Appends (db : Db) (kept : List Trace) (db' : Db) : Prop where
  /-- `traces` -/
  columns : db'.traces.map TraceRow.toTraceColumns =
    db.traces.map TraceRow.toTraceColumns ++ kept.map Trace.toTraceColumns
  /-- `observations` -/
  observations : db'.observations = db.observations ++ kept.flatMap Trace.observations

namespace Db.Appends

variable {db db' : Db} {kept : List Trace}

theorem nothing (db : Db) : db.Appends [] db := ⟨by simp, by simp⟩

theorem batchEffect (batch : List Item) (closeAll : Bool) (now : ℚ) (s : Store) :
    s.db.Appends (keptTraces batch) (batchEffect batch closeAll now s).db := by
  unfold LayaWatch.batchEffect
  refine ⟨?_, ?_⟩
  · rw [closeAllDue_rows Db.traces fun _ _ _ _ => rfl]
    exact insertBatch_columns ..
  · rw [closeAllDue_rows Db.observations fun _ _ _ _ => rfl]
    exact insertBatch_observations ..

/-- The traces are stored. -/
theorem stores (h : db.Appends kept db') {t : Trace} (ht : t ∈ kept) : db'.Stores t := by
  refine ⟨?_, fun o ho => ?_⟩
  · have hmem : t.toTraceColumns ∈ db'.traces.map TraceRow.toTraceColumns := by
      rw [h.columns]
      exact List.mem_append_right _ (List.mem_map_of_mem ht)
    simpa using hmem
  · rw [h.observations]
    exact List.mem_append_right _ (List.mem_flatMap.mpr ⟨t, ht, ho⟩)

/-- What was stored stays stored. -/
theorem keeps (h : db.Appends kept db') {t : Trace} (ht : db.Stores t) : db'.Stores t := by
  obtain ⟨row, hrow, heq⟩ := ht.row
  refine ⟨?_, fun o ho => ?_⟩
  · have hmem : t.toTraceColumns ∈ db'.traces.map TraceRow.toTraceColumns := by
      rw [h.columns, ← heq]
      exact List.mem_append_left _ (List.mem_map_of_mem hrow)
    simpa using hmem
  · rw [h.observations]
    exact List.mem_append_left _ (ht.observations o ho)

/-- An id that is stored now was stored before or is among the new ones. -/
theorem hasTrace (h : db.Appends kept db') {id : PyStr} (hid : db'.hasTrace id = true) :
    db.hasTrace id = true ∨ ∃ t ∈ kept, t.id = id := by
  obtain ⟨row, hrow, rfl⟩ := Db.hasTrace_iff.mp hid
  have hmem : row.toTraceColumns ∈ db'.traces.map TraceRow.toTraceColumns :=
    List.mem_map_of_mem hrow
  rw [h.columns, List.mem_append, List.mem_map, List.mem_map] at hmem
  rcases hmem with ⟨old, hold, heq⟩ | ⟨t, ht, heq⟩
  · exact Or.inl (Db.hasTrace_iff.mpr ⟨old, hold, by rw [heq]⟩)
  · exact Or.inr ⟨t, ht, by rw [heq]⟩

end Db.Appends

/-! ## Engine requests and their batches -/

/-- `_REQUEST_ID_RE`: eight lowercase hex digits. -/
def isRequestId (id : PyStr) : Bool :=
  decide (id.length = 8) && id.all fun c => (py "0123456789abcdef").contains c

/-- The id of a request: what its client sent as `X-Request-Id` (nothing is the
empty string) if that is one, or else the token drawn for it. -/
def requestIdOf (header token : PyStr) : PyStr := if isRequestId header then header else token

/-- A finished request to the engine: what its client sent, the token drawn for it,
and the trace as the recorder delivered it. -/
structure EngineTrace where
  /-- the `X-Request-Id` header -/
  header : PyStr
  /-- `secrets.token_hex(4)` -/
  token : PyStr
  /-- the trace -/
  trace : Trace
  /-- the trace has the id of the request -/
  named : trace.Named (requestIdOf header token)

/-- What a request to the engine delivers is such a trace. -/
theorem exists_engineTrace {A : Ambient} {cfg : Instrument} {req : EngineRequest} {r : Recorder}
    {threads : List Thread} {header token : PyStr} (hon : r.enabled = true)
    (h : cfg.Defers req → threads ≠ []) (thread : Thread) (htoken : token ≠ [])
    (hid : req.requestId = requestIdOf header token) :
    ∃ e : EngineTrace, e.header = header ∧ e.token = token ∧
      (lifecycle A cfg req threads r thread).recording.recorder.delivered =
        r.delivered ++ [e.trace] := by
  obtain ⟨t, hnamed, ht⟩ := (lifecycle_delivers A hon h thread).delivered.delivered
  have hne : req.requestId ≠ [] := by
    rw [hid]
    unfold requestIdOf
    split
    · next hhex =>
      rintro rfl
      cases hhex
    · exact htoken
  have htrace : req.traceId A = requestIdOf header token := by
    unfold EngineRequest.traceId
    rw [if_neg (by simpa using hne), hid]
  rw [htrace] at hnamed
  exact ⟨⟨header, token, t, hnamed⟩, rfl, rfl, ht⟩

/-- A batch of the writer: finished engine requests and log entries, in any order. -/
structure EngineBatch where
  /-- what was drained from the queue -/
  entries : List (EngineTrace ⊕ LogEntry)
  /-- `close_all` -/
  closeAll : Bool
  /-- `time.time()` -/
  now : ℚ

namespace EngineBatch

/-- The batch as `_commit` gets it. -/
def items (b : EngineBatch) : List Item :=
  b.entries.map fun
    | .inl e => ⟨0, .trace e.trace⟩
    | .inr e => ⟨0, .log e⟩

/-- The engine requests of the batch, whether kept or sampled out. -/
def requests (b : EngineBatch) : List EngineTrace := b.entries.filterMap Sum.getLeft?

/-- The traces of the batch that are kept. -/
def kept (b : EngineBatch) : List Trace := keptTraces b.items

theorem traces_items (b : EngineBatch) :
    Item.traces b.items = b.requests.map EngineTrace.trace := by
  unfold Item.traces items requests
  rw [List.filterMap_map, List.map_filterMap]
  refine List.filterMap_congr fun e _ => ?_
  cases e <;> rfl

theorem mem_kept {b : EngineBatch} {t : Trace} (ht : t ∈ b.kept) :
    ∃ e ∈ b.requests, e.trace = t := by
  have hmem := (List.mem_filter.mp ht).1
  rw [traces_items] at hmem
  exact List.mem_map.mp hmem

theorem named_of_kept {b : EngineBatch} {t : Trace} (ht : t ∈ b.kept) : t.Named t.id := by
  obtain ⟨e, -, rfl⟩ := mem_kept ht
  rw [e.named.named]
  exact e.named

end EngineBatch

/-- What is left of the writer: its store, and whether its thread still runs. -/
structure WriterLife where
  /-- database and open buckets -/
  store : Store := {}
  /-- no exception has escaped `_commit` -/
  alive : Bool := true

namespace WriterLife

/-- One batch, with no busy database and no I/O error. -/
def commit (w : WriterLife) (b : EngineBatch) : WriterLife :=
  if w.alive then
    match commitBatch b.items b.closeAll b.now [] w.store with
    | (some (.raised _), s) => ⟨s, false⟩
    | (_, s) => ⟨s, true⟩
  else w

/-- All batches, in order, from a fresh database. -/
def run (batches : List EngineBatch) : WriterLife := batches.foldl commit {}

/-- The writer takes the batch: its thread runs, the rows take free keys, and every
text can be bound. -/
structure Accepts (w : WriterLife) (b : EngineBatch) : Prop where
  /-- the thread runs -/
  alive : w.alive = true
  /-- the keys are free -/
  fits : w.store.db.Fits b.kept
  /-- the texts can be bound -/
  bindable : Conn.bindable (bindsOf b.items b.closeAll b.now w.store.buckets) = true

/-- **What a batch does.** If the writer takes it, its rows are stored; if not, none
of them is. -/
theorem commit_cases {w : WriterLife} (hw : BucketsOk w.store.buckets) (b : EngineBatch) :
    BucketsOk (w.commit b).store.buckets ∧
      (w.Accepts b ∧ w.store.db.Appends b.kept (w.commit b).store.db ∨
        (b.kept ≠ [] → ¬w.Accepts b) ∧ w.store.db.Appends [] (w.commit b).store.db) := by
  have hsame : w.store.db.Appends [] w.store.db := Db.Appends.nothing _
  unfold commit
  by_cases halive : w.alive = true
  · rw [if_pos halive]
    have hspec := commitBatch_spec b.items b.closeAll b.now [] w.store
    have hcommits : b.items ≠ [] → _ := commitBatch_decides b.closeAll b.now
      (fun t ht => EngineBatch.named_of_kept ht) hw
    have hitems : b.kept ≠ [] → b.items ≠ [] := by
      intro hkept hnil
      rw [EngineBatch.kept, hnil] at hkept
      exact hkept rfl
    rcases hrun : commitBatch b.items b.closeAll b.now [] w.store with ⟨_ | ending, s⟩
    · rw [hrun] at hspec
      obtain ⟨rfl, hnil, -⟩ := hspec
      exact ⟨hw, Or.inr ⟨fun hkept => absurd hnil (hitems hkept), hsame⟩⟩
    · rw [hrun] at hspec hcommits
      have hrefused : (∀ work, ending ≠ .committed work) → b.kept ≠ [] → ¬w.Accepts b := by
        intro hending hkept haccepts
        obtain ⟨work, hwork⟩ := (hcommits (hitems hkept)).mpr ⟨haccepts.fits, haccepts.bindable⟩
        exact hending work (Option.some.inj hwork)
      cases ending with
      | committed work =>
        obtain rfl : s = _ := hspec
        refine ⟨(batchEffect_keeps hw b.items b.closeAll b.now).1, ?_⟩
        have happends := Db.Appends.batchEffect b.items b.closeAll b.now w.store
        by_cases hnil : b.items = []
        · have hkept : b.kept = [] := by
            rw [EngineBatch.kept, hnil]
            rfl
          rw [← EngineBatch.kept, hkept] at happends
          exact Or.inr ⟨fun hne => absurd hkept hne, happends⟩
        · obtain ⟨hfits, hbind⟩ := (hcommits hnil).mp ⟨work, rfl⟩
          exact Or.inl ⟨⟨halive, hfits, hbind⟩, happends⟩
      | busy =>
        obtain rfl : s = _ := hspec
        exact ⟨hw, Or.inr ⟨hrefused (fun _ h => by cases h), hsame⟩⟩
      | failed =>
        obtain rfl : s = _ := hspec
        exact ⟨hw, Or.inr ⟨hrefused (fun _ h => by cases h), hsame⟩⟩
      | raised e =>
        obtain ⟨rfl, -⟩ := hspec
        exact ⟨hw, Or.inr ⟨hrefused (fun _ h => by cases h), hsame⟩⟩
  · rw [if_neg halive]
    exact ⟨hw, Or.inr ⟨fun _ h => halive h.alive, hsame⟩⟩

/-- A run of batches leaves what was stored, and stores ids of its requests only. -/
theorem run_keeps (batches : List EngineBatch) : ∀ {w : WriterLife}, BucketsOk w.store.buckets →
    BucketsOk (batches.foldl commit w).store.buckets ∧
      (∀ t, w.store.db.Stores t → (batches.foldl commit w).store.db.Stores t) ∧
      ∀ id, (batches.foldl commit w).store.db.hasTrace id = true → w.store.db.hasTrace id = true ∨
        ∃ b ∈ batches, ∃ t ∈ b.kept, t.id = id := by
  induction batches with
  | nil => exact fun hw => ⟨hw, fun _ h => h, fun _ h => Or.inl h⟩
  | cons b batches ih =>
    intro w hw
    obtain ⟨hb, hcases⟩ := commit_cases hw b
    obtain ⟨hok, hstores, hids⟩ := ih hb
    have hnew : ∃ kept, (∀ t ∈ kept, t ∈ b.kept) ∧
        w.store.db.Appends kept (w.commit b).store.db := by
      rcases hcases with ⟨-, happends⟩ | ⟨-, happends⟩
      · exact ⟨_, fun _ h => h, happends⟩
      · exact ⟨_, fun _ h => absurd h List.not_mem_nil, happends⟩
    obtain ⟨kept, hkept, happends⟩ := hnew
    refine ⟨hok, fun t ht => hstores t (happends.keeps ht), fun id hid => ?_⟩
    rcases hids id hid with hid | ⟨b', hb', hin⟩
    · rcases happends.hasTrace hid with hid | ⟨t, ht, heq⟩
      · exact Or.inl hid
      · exact Or.inr ⟨b, List.mem_cons_self .., t, hkept t ht, heq⟩
    · exact Or.inr ⟨b', List.mem_cons_of_mem b hb', hin⟩

end WriterLife

/-- The ids of all requests. -/
def EngineBatch.idsOf (batches : List EngineBatch) : List PyStr :=
  (batches.flatMap EngineBatch.requests).map fun e => e.trace.id

/-- No other request uses this id. -/
def EngineBatch.Sole (batches : List EngineBatch) (id : PyStr) : Prop :=
  (EngineBatch.idsOf batches).count id = 1

/-- Every kept trace whose id no other request uses is stored in the end. -/
def Isolated (batches : List EngineBatch) : Prop :=
  ∀ b ∈ batches, ∀ t ∈ b.kept, EngineBatch.Sole batches t.id →
    (WriterLife.run batches).store.db.Stores t

/-- An id that is used once, in the batch `b`, is used in no other. -/
theorem EngineBatch.Sole.elsewhere {pre post : List EngineBatch} {b : EngineBatch} {t : Trace}
    (ht : t ∈ b.kept) (h : Sole (pre ++ b :: post) t.id) :
    ∀ b', b' ∈ pre ∨ b' ∈ post → ∀ t' ∈ b'.kept, t'.id ≠ t.id := by
  have hmem : ∀ {b : EngineBatch} {t : Trace}, t ∈ b.kept →
      t.id ∈ b.requests.map fun e => e.trace.id := by
    intro b t ht
    obtain ⟨e, he, rfl⟩ := mem_kept ht
    exact List.mem_map_of_mem he
  have hb : 1 ≤ (b.requests.map fun e => e.trace.id).count t.id := List.count_pos_iff.mpr (hmem ht)
  simp only [Sole, idsOf, List.flatMap_append, List.flatMap_cons, List.map_append,
    List.count_append] at h
  intro b' hb' t' ht' heq
  have hin : ∀ l : List EngineBatch, b' ∈ l →
      1 ≤ ((l.flatMap requests).map fun e => e.trace.id).count t.id := by
    intro l hl
    rw [← heq]
    refine List.count_pos_iff.mpr ?_
    obtain ⟨e, he, heq⟩ := List.mem_map.mp (hmem ht')
    exact List.mem_map.mpr ⟨e, List.mem_flatMap.mpr ⟨b', hl, he⟩, heq⟩
  rcases hb' with hpre | hpost
  · have := hin pre hpre
    omega
  · have := hin post hpost
    omega

/-- **A repeated request id loses another client's trace only by a conflict of keys
in its batch.** A trace whose id no other request uses is stored, with its
observations, exactly if the rows of its batch take free keys; otherwise the
batch is rolled back as a whole. The writer still runs and can bind the texts of
the batch. -/
theorem isolated {pre post : List EngineBatch} {b : EngineBatch} {t : Trace}
    (halive : (WriterLife.run pre).alive = true)
    (hbind : bindable (bindsOf b.items b.closeAll b.now (WriterLife.run pre).store.buckets) = true)
    (ht : t ∈ b.kept) (hsole : EngineBatch.Sole (pre ++ b :: post) t.id) :
    (WriterLife.run (pre ++ b :: post)).store.db.Stores t ↔
      (WriterLife.run pre).store.db.Fits b.kept := by
  have hfresh : BucketsOk ({} : WriterLife).store.buckets := fun key bucket h => by
    rw [Dict.get_empty] at h
    cases h
  have hrun : WriterLife.run (pre ++ b :: post) =
      post.foldl WriterLife.commit ((WriterLife.run pre).commit b) := by
    rw [WriterLife.run, List.foldl_append, List.foldl_cons, WriterLife.run]
  obtain ⟨hpre, -, hpreids⟩ := WriterLife.run_keeps pre hfresh
  obtain ⟨hok, hcases⟩ := WriterLife.commit_cases hpre b
  obtain ⟨-, hstores, hids⟩ := WriterLife.run_keeps post hok
  rw [hrun]
  -- the batch was kept, and its rows stay, or it was given up
  rcases hcases with ⟨haccepts, happends⟩ | ⟨hno, happends⟩
  · exact iff_of_true (hstores t (happends.stores ht)) haccepts.fits
  · refine iff_of_false (fun h => ?_)
      fun hfits => hno (List.ne_nil_of_mem ht) ⟨halive, hfits, hbind⟩
    -- the batch was given up: then nothing can have stored the id of `t`
    obtain ⟨row, hrow, heq⟩ := h.row
    have helsewhere := hsole.elsewhere ht
    rcases hids t.id (Db.hasTrace_iff.mpr ⟨row, hrow, by rw [heq]⟩) with
      hid | ⟨b', hb', t', ht', heq⟩
    · rcases happends.hasTrace hid with hid | ⟨t', ht', -⟩
      · rcases hpreids _ hid with hid | ⟨b', hb', t', ht', heq⟩
        · cases hid
        · exact helsewhere b' (Or.inl hb') t' ht' heq
      · cases ht'
    · exact helsewhere b' (Or.inr hb') t' ht' heq

/-- A request with this id and nothing in its trace. -/
def bareRequest (header : PyStr) : EngineTrace where
  header := header
  token := py "0badf00d"
  trace := { id := requestIdOf header (py "0badf00d"), tsStart := 0, durationMs := 1
             route := py "/predict", method := py "POST", status := 200 }
  named := ⟨rfl, fun _ ho => absurd ho List.not_mem_nil, rfl⟩

/-- Requests with these ids, drained together. -/
def bareBatch (headers : List PyStr) : EngineBatch where
  entries := headers.map fun header => .inl (bareRequest header)
  closeAll := false
  now := 0

/-- The trace outlives a client that repeats an id in a batch of its own. -/
theorem isolated_own_batch : (WriterLife.run ([] ++ bareBatch [py "00000001"] ::
    [bareBatch [py "00000002", py "00000002"]])).store.db.Stores
      (bareRequest (py "00000001")).trace :=
  (isolated (by decide +kernel) (by decide +kernel) (List.mem_cons_self ..)
    (by unfold EngineBatch.Sole; decide +kernel)).mpr
      ⟨by decide +kernel, by decide +kernel, by decide +kernel, by decide +kernel⟩

/-- Three requests drained together, the last two under one id. -/
def clashing : EngineBatch := bareBatch [py "00000001", py "00000002", py "00000002"]

/-- A repeated id loses the trace of the client that shares the batch. -/
theorem repeated_id_loses : ¬Isolated [clashing] := by
  intro h
  have hkept : (bareRequest (py "00000001")).trace ∈ clashing.kept := by
    have hfirst : clashing.kept = (bareRequest (py "00000001")).trace :: clashing.kept.tail := rfl
    rw [hfirst]
    exact List.mem_cons_self ..
  have hsole : EngineBatch.Sole [clashing] (bareRequest (py "00000001")).trace.id := by
    unfold EngineBatch.Sole
    decide +kernel
  obtain ⟨row, hrow, -⟩ := (h clashing (List.mem_cons_self ..) _ hkept hsole).row
  have hnone : (WriterLife.run [clashing]).store.db.traces.length = 0 := by decide +kernel
  rw [List.length_eq_zero_iff.mp hnone] at hrow
  cases hrow

end LayaWatch
