import LayaWatch.Drain
import LayaWatch.Commit

/-!
# The running writer

The queue and its thread together with the database: the outcome of a commit is
now computed, from the batch, the clock and the faults of the statements. Where
no exception escapes, a run of the process is a run of the queue
(`Process.queue_step`), so what is known of the queue holds here.
-/

namespace LayaWatch

/-- The writer with its database. -/
structure Process where
  /-- the queue, its thread and its producers -/
  sys : WriterSys := {}
  /-- the database and the open buckets -/
  store : Store := {}

/-- Whose step it is, and what the clocks and the database say. -/
inductive ProcessAct where
  /-- a call of `enqueue` -/
  | enqueue (trace : Trace)
  /-- a call of `enqueue_log` -/
  | enqueueLog (entry : LogEntry)
  /-- the `i`-th waiting producer wakes -/
  | wake (i : ℕ) (expired : Bool)
  /-- a stay of `_collect` in its critical section, at time `now` -/
  | collect (elapsed : ℕ → Bool) (now : ℚ)
  /-- the flags are read, at time `now` -/
  | readFlags (now : ℚ)
  /-- `_commit`, at time `now` -/
  | commit (now : ℚ) (faults : List (Option SqliteError))
  /-- the check after `_commit` -/
  | recheck
  /-- the `finally` of `_run` -/
  | finish
  /-- a call of `stop` -/
  | stop
  /-- a call of `flush_now` -/
  | flushNow

/-- What a commit's end means for the queue; `none` for an exception that
escapes. -/
def CommitEnd.outcome : CommitEnd → Option Writer.Outcome
  | .committed _ => some .committed
  | .busy => some .busy
  | .failed => some .failed
  | .raised _ => none

namespace Process

/-- The result of `_commit` in this state, if it comes next. -/
def ending (now : ℚ) (faults : List (Option SqliteError)) (p : Process) :
    Option (Option CommitEnd × Store) :=
  match p.sys.loop with
  | .committing batch flush stopping =>
    some (commitBatch batch (flush || stopping) now faults p.store)
  | _ => none

/-- The step of the queue that a step of the process is; `none` when an
exception escapes. -/
def queueAct (p : Process) : ProcessAct → Option WriterAct
  | .enqueue trace => some (.enqueue trace)
  | .enqueueLog entry => some (.enqueueLog entry)
  | .wake i expired => some (.wake i expired)
  | .collect elapsed now => some (.collect elapsed !(dueBuckets p.store.buckets now).isEmpty)
  | .readFlags now => some (.readFlags !(dueBuckets p.store.buckets now).isEmpty)
  | .commit now faults =>
    match p.ending now faults with
    | some (some ending, _) => ending.outcome.map .commit
    | _ => some (.commit .nothing)
  | .recheck => some .recheck
  | .finish => some .finish
  | .stop => some .stop
  | .flushNow => some .flushNow

/-- What a step does to the database and the open buckets. -/
def storeAfter (p : Process) : ProcessAct → Store
  | .commit now faults => (p.ending now faults).elim p.store Prod.snd
  | _ => p.store

/-- One step of the process. -/
def step (cfg : WriterConfig) (p : Process) (a : ProcessAct) : Option Process :=
  match p.queueAct a with
  | some act => (WriterSys.step cfg p.sys act).map fun sys => ⟨sys, p.storeAfter a⟩
  | none => some ⟨p.sys.crash, p.storeAfter a⟩

/-- The process as a machine: it starts with an empty queue, no open bucket, and
a database without rollup rows. -/
def machine (cfg : WriterConfig) : Machine Process ProcessAct where
  init p := p.sys = {} ∧ p.store.buckets = Dict.empty ∧ p.store.db.metricRollup = Dict.empty
  step := step cfg

/-- The step is a commit that an exception escapes. -/
def Raises (p : Process) (a : ProcessAct) : Prop := p.queueAct a = none

instance (p : Process) (a : ProcessAct) : Decidable (p.Raises a) :=
  inferInstanceAs (Decidable (p.queueAct a = none))

/-- A step that no exception escapes is one of the queue. -/
theorem queue_step {cfg : WriterConfig} {p q : Process} {a : ProcessAct} (h : ¬p.Raises a)
    (hs : step cfg p a = some q) : ∃ act, p.queueAct a = some act ∧
      WriterSys.step cfg p.sys act = some q.sys := by
  unfold step at hs
  rcases hact : p.queueAct a with _ | act
  · exact absurd hact h
  · simp only [hact] at hs
    obtain ⟨sys, hsys, rfl⟩ := Option.map_eq_some_iff.mp hs
    exact ⟨act, rfl, hsys⟩

/-- What a step leaves in the store. -/
theorem store_of_step {cfg : WriterConfig} {p q : Process} {a : ProcessAct}
    (hs : step cfg p a = some q) : q.store = p.storeAfter a := by
  unfold step at hs
  split at hs
  · obtain ⟨sys, -, rfl⟩ := Option.map_eq_some_iff.mp hs
    rfl
  · obtain rfl := Option.some.inj hs
    rfl

/-- The committed items only grow by the batch of a commit. -/
theorem committed_of_step {cfg : WriterConfig} {s t : WriterSys} {act : WriterAct}
    (h : WriterSys.step cfg s act = some t) : t.hist.committed = s.hist.committed ∨
    act = .commit .committed ∧ ∃ batch flush stopping,
      s.loop = .committing batch flush stopping ∧
      t.hist.committed = s.hist.committed ++ batch := by
  cases act with
  | enqueue trace =>
    obtain rfl := Option.some.inj h
    left
    unfold WriterSys.enqueue
    dsimp only
    split <;> rfl
  | enqueueLog entry =>
    obtain rfl := Option.some.inj h
    left
    unfold WriterSys.enqueueLog
    dsimp only
    split <;> rfl
  | wake i expired =>
    obtain ⟨item, -, rfl⟩ := Option.map_eq_some_iff.mp h
    left
    dsimp only
    split <;> rfl
  | collect elapsed due =>
    simp only [WriterSys.step, WriterSys.collect] at h
    split at h
    · obtain rfl := Option.some.inj h
      exact Or.inl rfl
    · cases h
  | readFlags due =>
    simp only [WriterSys.step, WriterSys.readFlags] at h
    split at h
    · obtain rfl := Option.some.inj h
      exact Or.inl rfl
    · cases h
  | commit outcome =>
    obtain ⟨batch, flush, stopping, hloop, h⟩ := WriterSys.commit_cases h
    rcases h with ⟨-, -, rfl⟩ | ⟨rfl, rfl⟩ | ⟨-, -, rfl⟩ | ⟨-, rfl⟩
    · exact Or.inl rfl
    · exact Or.inr ⟨rfl, batch, flush, stopping, hloop, rfl⟩
    · exact Or.inl rfl
    · exact Or.inl rfl
  | recheck =>
    obtain ⟨_, _, _, w, loop, -, rfl, -, -⟩ := WriterSys.recheck_cases h
    exact Or.inl rfl
  | finish =>
    simp only [WriterSys.step, WriterSys.finish] at h
    split at h
    · obtain rfl := Option.some.inj h
      exact Or.inl rfl
    · cases h
  | stop => exact Or.inl (by rw [← Option.some.inj h])
  | flushNow => exact Or.inl (by rw [← Option.some.inj h])

/-- Only a commit touches the database, and what it says to the queue is true. -/
theorem storeAfter_cases (p : Process) (a : ProcessAct) :
    (p.storeAfter a = p.store ∧ p.queueAct a ≠ some (.commit .committed)) ∨
    ∃ batch flush stopping now faults, p.sys.loop = .committing batch flush stopping ∧
      a = .commit now faults ∧ p.queueAct a = some (.commit .committed) ∧
      p.storeAfter a = batchEffect batch (flush || stopping) now p.store := by
  cases a with
  | commit now faults =>
    unfold storeAfter queueAct ending
    rcases hloop : p.sys.loop with _ | _ | ⟨batch, flush, stopping⟩ | _ | _ | _ | _
    case committing =>
      have h := commitBatch_spec batch (flush || stopping) now faults p.store
      dsimp only
      rcases hrun : commitBatch batch (flush || stopping) now faults p.store with ⟨ending, s'⟩
      rw [hrun] at h
      rcases ending with _ | work | _ | _ | e
      · exact Or.inl ⟨h.1, by simp⟩
      · exact Or.inr ⟨batch, flush, stopping, now, faults, rfl, rfl, rfl, h⟩
      · exact Or.inl ⟨h, by simp [CommitEnd.outcome]⟩
      · exact Or.inl ⟨h, by simp [CommitEnd.outcome]⟩
      · exact Or.inl ⟨h.1, by simp [CommitEnd.outcome]⟩
    all_goals exact Or.inl ⟨rfl, by simp⟩
  | _ => exact Or.inl ⟨rfl, by simp [queueAct]⟩

/-- **Every way a step can go.** Only a commit touches the database; if it
commits, the whole batch is in, and it is the queue's next batch of committed
items. -/
theorem step_cases {cfg : WriterConfig} {p q : Process} {a : ProcessAct}
    (hs : step cfg p a = some q) :
    (q.store = p.store ∧ q.sys.hist.committed = p.sys.hist.committed) ∨
    ∃ batch flush stopping now faults, p.sys.loop = .committing batch flush stopping ∧
      a = .commit now faults ∧ p.queueAct a = some (.commit .committed) ∧
      q.store = batchEffect batch (flush || stopping) now p.store ∧
      q.sys.hist.committed = p.sys.hist.committed ++ batch := by
  by_cases hr : p.Raises a
  · have hact : p.queueAct a = none := hr
    simp only [step, hact] at hs
    obtain rfl := Option.some.inj hs
    rcases p.storeAfter_cases a with ⟨hstore, -⟩ | ⟨_, _, _, _, _, -, -, hcom, -⟩
    · exact Or.inl ⟨hstore, rfl⟩
    · rw [hact] at hcom
      cases hcom
  · obtain ⟨act, hact, hsys⟩ := queue_step hr hs
    have hstore := store_of_step hs
    rcases p.storeAfter_cases a with
      ⟨hsame, hne⟩ | ⟨batch, flush, stopping, now, faults, hloop, rfl, hcom, heffect⟩
    · rcases committed_of_step hsys with hc | ⟨rfl, -⟩
      · exact Or.inl ⟨hstore.trans hsame, hc⟩
      · exact absurd hact hne
    · obtain rfl := Option.some.inj (hact.symm.trans hcom)
      obtain ⟨batch', flush', stopping', hloop', ht⟩ := WriterSys.commit_cases hsys
      obtain ⟨rfl, rfl, rfl⟩ := Writer.Loop.committing.inj (hloop.symm.trans hloop')
      refine Or.inr ⟨batch, flush, stopping, now, faults, hloop, rfl, hcom,
        hstore.trans heffect, ?_⟩
      rcases ht with ⟨h, -, -⟩ | ⟨-, hq⟩ | ⟨h, -, -⟩ | ⟨h | ⟨h, -⟩, -⟩
      · cases h
      · rw [hq]
      all_goals cases h

end Process

end LayaWatch
