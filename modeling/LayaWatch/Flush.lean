import LayaWatch.Survival
import LayaWatch.Accounting
import LayaWatch.Order

/-!
# What a flush promises

`flush_now` returns when the writer thread acknowledges, or at once when the
thread has ended. What was appended before the call is settled then, and no
bucket is open, so the rollup rows alone account for what is committed
(`flush_means_flushed`).

It takes four things. No exception ends the thread, and no producer wakes to
room after the thread has left its loop: else items are left behind. A commit
that was given up does not count as a flush of the buckets, but the check after
it acknowledges all the same (`dropped_flush_leaves_bucket`). And the caller
returns only when it wakes: a commit in between may open a bucket again.
-/

namespace LayaWatch

open Writer

/-! ## A call of `flush_now` -/

/-- How a call of `flush_now` that begins in `p` returns normally in `q`: at once
from a thread that has ended, or some time after a step that acknowledges. The
steps of the run are those up to the acknowledgement, and those after it. -/
inductive FlushReturns (cfg : WriterConfig) (p : Process) :
    List (Machine.Event Process ProcessAct) → List (Machine.Event Process ProcessAct) →
      Process → Prop
  /-- `not thread.is_alive()` -/
  | dead (h : p.sys.loop = .ended ∨ p.sys.loop = .crashed) : FlushReturns cfg p [] [] p
  /-- the wait ends with the acknowledgement set -/
  | acked {p' m r q : Process} {a : ProcessAct}
      {waits wakes : List (Machine.Event Process ProcessAct)}
      (hcall : (Process.machine cfg).step p .flushNow = some p')
      (hwait : (Process.machine cfg).Run p' waits m)
      (hbefore : m.sys.writer.flushAck = false) (hset : (Process.machine cfg).step m a = some r)
      (hack : r.sys.writer.flushAck = true) (hwake : (Process.machine cfg).Run r wakes q) :
      FlushReturns cfg p (⟨p, .flushNow, p'⟩ :: waits ++ [⟨m, a, r⟩]) wakes q

/-- What `flush_now` promises, called in `p` and returning in `q`. -/
structure Flushed (p q : Process) : Prop where
  /-- what had been appended is committed, or lost and counted -/
  settled : ∀ item ∈ p.sys.hist.appended, item ∈ q.sys.hist.committed ∨
    item ∈ q.sys.hist.dropped ++ q.sys.hist.evicted ∧ q.sys.hist.Counted item
  /-- no bucket is open -/
  closed : q.store.buckets = Dict.empty
  /-- the rollup rows hold what the committed traces contribute -/
  rows : ExactRows q.store.db (Item.traces q.sys.hist.committed)

/-! ## What it takes -/

/-- The check acknowledges a flush, or leaves the loop, after a commit that was
dropped, and a bucket is open. -/
def PassesOverBuckets (p : Process) (a : ProcessAct) : Prop :=
  a = .recheck ∧ p.sys.writer.queue = [] ∧ p.store.buckets ≠ Dict.empty ∧
    ∃ flush stopping, p.sys.loop = .recheck .dropped flush stopping ∧ (flush || stopping) = true

/-- The commit leaves a bucket open that is not due yet. -/
def LeavesOpen (p : Process) (a : ProcessAct) : Prop :=
  ∃ batch flush stopping now faults, a = .commit now faults ∧
    p.sys.loop = .committing batch flush stopping ∧
    ∃ key ∈ (workOf p.store.buckets batch).keys,
      key ∉ dueOf (workOf p.store.buckets batch) (flush || stopping) now

/-- A step that breaks the promise of some flush. -/
def BreaksFlush (cfg : WriterConfig) (p : Process) (a : ProcessAct) : Prop :=
  p.Raises a ∨ p.LateRoom cfg a ∨ PassesOverBuckets p a

/-! ## The loop between the steps -/

/-- The loop is left only by a check that finds the queue empty. -/
theorem WriterSys.recheck_left {s t : WriterSys} (ht : s.recheck = some t)
    (hl : t.loop = .left) : ∃ status flush, s.loop = .recheck status flush true ∧
      status ≠ .requeued ∧ s.writer.queue = [] := by
  unfold WriterSys.recheck at ht
  split at ht
  · next status flush stopping hloop =>
    rw [← Option.some.inj ht] at hl
    dsimp only at hl
    split at hl
    · next hleaves =>
      simp only [Bool.and_eq_true, decide_eq_true_eq] at hleaves
      obtain ⟨rfl, hstatus, hqueue⟩ := hleaves
      exact ⟨status, flush, hloop, hstatus, List.isEmpty_iff.mp hqueue⟩
    · cases hl
  · cases ht

/-- A step that is no commit comes to a check only from that check, and out of
the loop only through a check. -/
theorem WriterSys.loop_of_step {cfg : WriterConfig} {s t : WriterSys} {act : WriterAct}
    (ht : WriterSys.step cfg s act = some t) (hact : ∀ outcome, act ≠ .commit outcome) :
    (∀ status flush stopping, t.loop = .recheck status flush stopping → t.loop = s.loop) ∧
    (t.HasLeft → s.HasLeft ∨ act = .recheck ∧ t.loop = .left) := by
  cases act with
  | enqueue trace =>
    obtain rfl := Option.some.inj ht
    rw [WriterSys.HasLeft, WriterSys.enqueue_loop]
    exact ⟨fun _ _ _ _ => rfl, Or.inl⟩
  | enqueueLog entry =>
    obtain rfl := Option.some.inj ht
    rw [WriterSys.HasLeft, WriterSys.enqueueLog_loop]
    exact ⟨fun _ _ _ _ => rfl, Or.inl⟩
  | wake i expired =>
    have hloop := (WriterSys.wake_loop ht).1
    rw [WriterSys.HasLeft, hloop]
    exact ⟨fun _ _ _ _ => rfl, Or.inl⟩
  | collect elapsed due =>
    obtain ⟨_, _, _, loop, -, -, rfl | rfl, rfl⟩ := WriterSys.collect_cases ht
    all_goals
      refine ⟨fun _ _ _ h => ?_, fun h => ?_⟩
      · cases h
      · rcases h with h | h <;> cases h
  | readFlags due =>
    obtain ⟨_, -, rfl | ⟨-, -, -, -, rfl⟩⟩ := WriterSys.readFlags_cases ht
    all_goals
      refine ⟨fun _ _ _ h => ?_, fun h => ?_⟩
      · cases h
      · rcases h with h | h <;> cases h
  | commit outcome => exact absurd rfl (hact outcome)
  | recheck =>
    obtain ⟨_, _, _, _, loop, -, rfl, -, rfl | ⟨-, -, rfl⟩⟩ := WriterSys.recheck_cases ht
    · refine ⟨fun _ _ _ h => ?_, fun h => ?_⟩
      · cases h
      · rcases h with h | h <;> cases h
    · refine ⟨fun _ _ _ h => ?_, fun _ => Or.inr ⟨rfl, rfl⟩⟩
      cases h
  | finish =>
    obtain ⟨hloop, rfl⟩ := WriterSys.finish_cases ht
    refine ⟨fun _ _ _ h => ?_, fun _ => Or.inl (Or.inl hloop)⟩
    cases h
  | stop =>
    obtain rfl := Option.some.inj ht
    exact ⟨fun _ _ _ _ => rfl, Or.inl⟩
  | flushNow =>
    obtain rfl := Option.some.inj ht
    exact ⟨fun _ _ _ _ => rfl, Or.inl⟩

/-! ## No bucket is open -/

/-- What the steps before a return preserve: the drain, a living thread, and no
open bucket after a commit that closed all of them. -/
structure FlushInv (p : Process) : Prop where
  /-- the queue's part -/
  drained : Drained p.sys
  /-- the thread has not died -/
  alive : p.sys.loop ≠ .crashed
  /-- after the commit of a flush or a stop no bucket is open -/
  checked : ∀ flush stopping, p.sys.loop = .recheck .ok flush stopping →
    (flush || stopping) = true → p.store.buckets = Dict.empty
  /-- nor when the loop has been left -/
  left : p.sys.HasLeft → p.store.buckets = Dict.empty

theorem FlushInv.init {cfg : WriterConfig} {p : Process} (h : (Process.machine cfg).init p) :
    FlushInv p := by
  refine ⟨?_, ?_, fun _ _ _ _ => h.2.1, fun _ => h.2.1⟩
  · rw [h.1]
    exact Drained.init
  · rw [h.1]
    exact fun hl => by cases hl

theorem FlushInv.step {cfg : WriterConfig} {p q : Process} {a : ProcessAct} (h : FlushInv p)
    (ha : ¬BreaksFlush cfg p a) (hs : Process.step cfg p a = some q) : FlushInv q := by
  have hr : ¬p.Raises a := fun hr => ha (Or.inl hr)
  obtain ⟨act, hact, hsys⟩ := Process.queue_step hr hs
  have hdrained : Drained q.sys :=
    h.drained.step (fun hlate => ha (Or.inr (Or.inl ⟨act, hact, hlate⟩))) hsys
  have halive := WriterSys.alive_of_step h.alive hsys
  have hstore := Process.store_of_step hs
  by_cases hcommit : ∃ now faults, a = .commit now faults
  · -- after a commit there is a check
    obtain ⟨now, faults, rfl⟩ := hcommit
    obtain ⟨batch, flush, stopping, status, hloop, hnext, hend⟩ := commit_atomic hr hs
    refine ⟨hdrained, halive, fun flush' stopping' hcheck hall => ?_, fun hleft => ?_⟩
    · obtain ⟨rfl, rfl, rfl⟩ := Loop.recheck.inj (hnext.symm.trans hcheck)
      rcases hend with ⟨-, heffect⟩ | ⟨hne, -⟩
      · rw [heffect, hall]
        exact batchEffect_closeAll batch now p.store
      · exact absurd rfl hne
    · rw [WriterSys.HasLeft, hnext] at hleft
      rcases hleft with hleft | hleft <;> cases hleft
  · have hact' : ∀ outcome, act ≠ .commit outcome := by
      rintro outcome rfl
      cases a with
      | commit now faults => exact hcommit ⟨now, faults, rfl⟩
      | _ => cases hact
    have hsame : q.store = p.store := by
      rw [hstore]
      cases a with
      | commit now faults => exact absurd ⟨now, faults, rfl⟩ hcommit
      | _ => rfl
    obtain ⟨hcheck, hleft⟩ := WriterSys.loop_of_step hsys hact'
    refine ⟨hdrained, halive, fun flush stopping hloop hall => ?_, fun hout => ?_⟩
    · rw [hsame]
      exact h.checked flush stopping ((hcheck _ _ _ hloop).symm.trans hloop) hall
    · rw [hsame]
      rcases hleft hout with hout | ⟨rfl, hloop⟩
      · exact h.left hout
      · -- the loop is left by a check
        have ha' : a = .recheck := by
          cases a with
          | recheck => rfl
          | commit now faults => exact absurd ⟨now, faults, rfl⟩ hcommit
          | _ => cases hact
        obtain ⟨status, flush, hpre, hstatus, hqueue⟩ := WriterSys.recheck_left hsys hloop
        cases status with
        | ok => exact h.checked flush true hpre (Bool.or_true flush)
        | requeued => exact absurd rfl hstatus
        | dropped =>
          by_contra hopen
          exact ha (Or.inr (Or.inr ⟨ha', hqueue, hopen, flush, true, hpre, Bool.or_true flush⟩))

/-- A step that acknowledges leaves no bucket open. -/
theorem FlushInv.closed_of_ack {cfg : WriterConfig} {p q : Process} {a : ProcessAct}
    (h : FlushInv p) (ha : ¬BreaksFlush cfg p a) (hs : Process.step cfg p a = some q)
    (hbefore : p.sys.writer.flushAck = false) (hafter : q.sys.writer.flushAck = true) :
    q.store.buckets = Dict.empty := by
  obtain ⟨act, hact, hsys⟩ := Process.queue_step (fun hr => ha (Or.inl hr)) hs
  obtain ⟨-, -, hack⟩ := WriterSys.ack_cases hsys hbefore hafter
  have hsame : q.store = p.store := by
    rw [Process.store_of_step hs]
    cases a with
    | commit now faults =>
      -- the loop is at a check, or has been left
      have hnot : p.ending now faults = none := by
        rcases hack with ⟨-, -, status, stopping, hloop, -⟩ | hloop <;>
          rw [Process.ending, hloop]
      rw [Process.storeAfter, hnot]
      rfl
    | _ => rfl
  rw [hsame]
  rcases hack with ⟨rfl, hqueue, status, stopping, hloop, hstatus⟩ | hleft
  · have ha' : a = .recheck := by
      cases a with
      | recheck => rfl
      | commit now faults =>
        rw [Process.queueAct, Process.ending, hloop] at hact
        cases hact
      | _ => cases hact
    cases status with
    | ok => exact h.checked true stopping hloop (Bool.true_or stopping)
    | requeued => exact absurd rfl hstatus
    | dropped =>
      by_contra hopen
      exact ha (Or.inr (Or.inr ⟨ha', hqueue, hopen, true, stopping, hloop,
        Bool.true_or stopping⟩))
  · exact h.left (Or.inl hleft)

/-- A commit that leaves no bucket open keeps it that way. -/
theorem closed_step {cfg : WriterConfig} {p q : Process} {a : ProcessAct}
    (h : p.store.buckets = Dict.empty) (ha : ¬LeavesOpen p a)
    (hs : Process.step cfg p a = some q) : q.store.buckets = Dict.empty := by
  rw [Process.store_of_step hs]
  rcases p.storeAfter_cases a with
    ⟨hsame, -⟩ | ⟨batch, flush, stopping, now, faults, hloop, rfl, -, heffect⟩
  · rw [hsame]
    exact h
  · rw [heffect]
    refine Dict.eq_empty (List.eq_nil_iff_forall_not_mem.mpr fun key hkey => ?_)
    obtain ⟨hwork, hdue⟩ := (keys_closeDue _ _ key).mp hkey
    exact ha ⟨batch, flush, stopping, now, faults, rfl, hloop, key, hwork, hdue⟩

/-! ## The promise -/

/-- A step that no exception escapes is a number of changes of the line. -/
theorem Process.line_steps {cfg : WriterConfig} {p q : Process} {a : ProcessAct}
    (hr : ¬p.Raises a) (hs : Process.step cfg p a = some q) :
    Line.Steps p.sys.toLine q.sys.toLine := by
  obtain ⟨act, -, hsys⟩ := Process.queue_step hr hs
  exact WriterSys.line_steps hsys

/-- **A flush is one.** Over every run of the writer in which no step breaks the
promise, and every call of `flush_now` that returns normally with no bucket
opened while its caller wakes: what was appended before the call is settled, no
bucket is open, and the rollup rows hold what the committed traces contribute. -/
theorem flush_means_flushed {cfg : WriterConfig} {o p q : Process}
    {es waits wakes : List (Machine.Event Process ProcessAct)}
    (hinit : (Process.machine cfg).init o) (hrun : (Process.machine cfg).Run o es p)
    (hflush : FlushReturns cfg p waits wakes q)
    (hok : ∀ e ∈ es ++ waits ++ wakes, ¬BreaksFlush cfg e.pre e.act)
    (hopen : ∀ e ∈ wakes, ¬LeavesOpen e.pre e.act) : Flushed p q := by
  have hes : ∀ e ∈ es, ¬BreaksFlush cfg e.pre e.act := fun e he =>
    hok e (List.mem_append_left _ (List.mem_append_left _ he))
  have hp : FlushInv p := (hrun.invariant (I := FlushInv)
    (G := fun p a => ¬BreaksFlush cfg p a) (fun _ _ _ h ha hs => h.step ha hs)
    (FlushInv.init hinit) hes).1
  have hrows : ∀ {q : Process} {fs : List (Machine.Event Process ProcessAct)},
      (Process.machine cfg).Run p fs q → q.store.buckets = Dict.empty →
      ExactRows q.store.db (Item.traces q.sys.hist.committed) := fun hq hclosed =>
    (accounts_of_reachable ⟨o, _, hinit, hrun.append hq⟩).exact.rows hclosed
  -- the flush finds the loop dead, or waits for its acknowledgement
  cases hflush with
  | dead hdead =>
    have hleft : p.sys.HasLeft := hdead.elim Or.inr fun hcrash => absurd hcrash hp.alive
    have hflight : p.sys.inFlight = [] := by
      rcases hleft with hl | hl <;> rw [WriterSys.inFlight, hl]
    refine ⟨fun item hi => ?_, hp.left hleft, hrows Machine.Run.refl (hp.left hleft)⟩
    exact (hp.drained.toLedger.settled (hp.drained.empty hleft) hflight hi).imp_right fun hlost =>
      ⟨hlost, hp.drained.lost item hlost⟩
  | @acked p' m r _ a waits _ hcall hwait hbefore hset hack hwake =>
    have hwaits : ∀ e ∈ ⟨p, .flushNow, p'⟩ :: waits ++ [⟨m, a, r⟩],
        ¬BreaksFlush cfg e.pre e.act := fun e he =>
      hok e (List.mem_append_left _ (List.mem_append_right _ he))
    have hm_run : (Process.machine cfg).Run p (⟨p, .flushNow, p'⟩ :: waits) m :=
      Machine.Run.cons hcall hwait
    have hr_run : (Process.machine cfg).Run p (⟨p, .flushNow, p'⟩ :: waits ++ [⟨m, a, r⟩]) r :=
      Machine.Run.snoc hm_run hset
    have hbreaks : ¬BreaksFlush cfg m a :=
      hwaits ⟨m, a, r⟩ (List.mem_append_right _ (List.mem_singleton_self _))
    have hm : FlushInv m := (hm_run.invariant (I := FlushInv)
      (G := fun p a => ¬BreaksFlush cfg p a) (fun _ _ _ h ha hs => h.step ha hs) hp
      fun e he => hwaits e (List.mem_append_left _ he)).1
    have hr : FlushInv r := hm.step hbreaks hset
    -- at the acknowledgement everything is settled, and it stays so
    obtain ⟨act, -, hsys⟩ := Process.queue_step (fun h => hbreaks (Or.inl h)) hset
    obtain ⟨hqueue, hflight⟩ := hm.drained.empty_of_ack hsys hbefore hack
    have hclosed := hm.closed_of_ack hbreaks hset hbefore hack
    have hguard : ∀ e ∈ wakes, ¬BreaksFlush cfg e.pre e.act ∧ ¬LeavesOpen e.pre e.act :=
      fun e he => ⟨hok e (List.mem_append_right _ he), hopen e he⟩
    have hq := (hwake.invariant (I := fun s => FlushInv s ∧ s.store.buckets = Dict.empty)
      (G := fun p a => ¬BreaksFlush cfg p a ∧ ¬LeavesOpen p a)
      (fun _ _ _ h ha hs => ⟨h.1.step ha.1 hs, closed_step h.2 ha.2 hs⟩) ⟨hr, hclosed⟩ hguard).1
    refine ⟨fun item hi => ?_, hq.2, hrows (hr_run.append hwake) hq.2⟩
    -- the item was appended before the call, and where it went it stays
    have happended : item ∈ r.sys.hist.appended := (hr_run.invariant
      (I := fun s => item ∈ s.sys.hist.appended) (G := fun p a => ¬BreaksFlush cfg p a)
      (fun s a t h ha hs =>
        (Process.line_steps (fun h => ha (Or.inl h)) hs).appended_grows.subset h) hi hwaits).1
    have hgone : item ∈ r.sys.toLine.delivered ∨ item ∈ r.sys.toLine.discarded ∨
        item ∈ r.sys.toLine.evicted :=
      (hr.drained.toLedger.settled hqueue hflight happended).imp_right List.mem_append.mp
    have hend := (hwake.invariant (I := fun s => item ∈ s.sys.toLine.delivered ∨
      item ∈ s.sys.toLine.discarded ∨ item ∈ s.sys.toLine.evicted)
      (G := fun p a => ¬BreaksFlush cfg p a)
      (fun s a t h ha hs => (Process.line_steps (fun h => ha (Or.inl h)) hs).gone h) hgone
      fun e he => (hguard e he).1).1
    refine hend.imp_right fun hlost => ?_
    have hlost' : item ∈ q.sys.hist.dropped ++ q.sys.hist.evicted := List.mem_append.mpr hlost
    exact ⟨hlost', hq.1.drained.lost item hlost'⟩

/-! ## A flush that is given up -/

/-- A trace is committed, and its bucket is open. -/
def commitOpen : List ProcessAct :=
  [.enqueue (sampleTrace 200), .collect (fun _ => false) 105, .readFlags 105, .commit 105 [],
    .recheck]

/-- The iteration that serves a flush, up to the check; `faults` are those of its
transaction. -/
def flushIteration (faults : List (Option SqliteError)) : List ProcessAct :=
  [.collect (fun _ => false) 105, .readFlags 105, .commit 105 faults]

/-- The state before the call. -/
def beforeFlush : Process := (Process.machine oneSlot).final {} commitOpen

/-- The state after its critical section. -/
def flushCalled : Process := (Process.machine oneSlot).final beforeFlush [.flushNow]

/-- The state after the commit that serves it. -/
def flushCommitted (faults : List (Option SqliteError)) : Process :=
  (Process.machine oneSlot).final flushCalled (flushIteration faults)

/-- The state after the check. -/
def flushChecked (faults : List (Option SqliteError)) : Process :=
  (Process.machine oneSlot).final (flushCommitted faults) [.recheck]

/-- The steps from the call to the acknowledgement. -/
def flushEvents (faults : List (Option SqliteError)) : List (Machine.Event Process ProcessAct) :=
  ⟨beforeFlush, .flushNow, flushCalled⟩ ::
    (Process.machine oneSlot).events flushCalled (flushIteration faults) ++
      [⟨flushCommitted faults, .recheck, flushChecked faults⟩]

/-- Where the check acknowledges, the call returns. -/
theorem flushReturns_checked {faults : List (Option SqliteError)}
    (hwait : ((Process.machine oneSlot).exec flushCalled (flushIteration faults)).isSome = true)
    (hset : ((Process.machine oneSlot).exec (flushCommitted faults) [.recheck]).isSome = true)
    (hbefore : (flushCommitted faults).sys.writer.flushAck = false)
    (hack : (flushChecked faults).sys.writer.flushAck = true) :
    FlushReturns oneSlot beforeFlush (flushEvents faults) [] (flushChecked faults) := by
  have hcall := Machine.step_final (M := Process.machine oneSlot) (s := beforeFlush)
    (a := .flushNow) (by decide +kernel)
  have hcheck := Machine.step_final (M := Process.machine oneSlot) (a := .recheck) hset
  exact .acked hcall (Machine.Run.of_final hwait) hbefore hcheck hack Machine.Run.refl

theorem beforeFlush_run : (Process.machine oneSlot).Run {}
    ((Process.machine oneSlot).events {} commitOpen) beforeFlush :=
  Machine.Run.of_final (by decide +kernel)

/-- The closing transaction fails and the flush is acknowledged: the rollup rows
of the committed trace exist only in its open bucket. -/
theorem dropped_flush_leaves_bucket : ∃ es waits p q, (Process.machine oneSlot).Run {} es p ∧
    FlushReturns oneSlot p waits [] q ∧ q.sys.hist.committed.map Item.call = [0] ∧
    q.store.db.metricRollup.keys = [] ∧ ¬Flushed p q := by
  refine ⟨_, _, _, flushChecked [some (.operational false)], beforeFlush_run,
    flushReturns_checked (by decide +kernel) (by decide +kernel) (by decide +kernel)
      (by decide +kernel), by decide +kernel, by decide +kernel, fun hflushed => ?_⟩
  have hkeys := congrArg Dict.keys hflushed.closed
  exact absurd hkeys (by decide +kernel)

/-- A step that wakes no producer and checks no dropped batch. -/
def Plain (e : Machine.Event Process ProcessAct) : Bool :=
  match e.act, e.pre.sys.loop with
  | .wake _ _, _ => false
  | _, .recheck .dropped _ _ => false
  | _, _ => true

theorem not_breaks_of_plain {cfg : WriterConfig} {e : Machine.Event Process ProcessAct}
    (hr : ¬e.pre.Raises e.act) (he : Plain e = true) : ¬BreaksFlush cfg e.pre e.act := by
  rintro (hraise | ⟨act, hact, hlate⟩ | ⟨hrecheck, -, -, flush, stopping, hloop, -⟩)
  · exact hr hraise
  · cases act with
    | wake i expired =>
      cases hwake : e.act with
      | wake j expired' => simp only [Plain, hwake, Bool.false_eq_true] at he
      | commit now faults =>
        rw [hwake] at hact
        simp only [Process.queueAct] at hact
        split at hact
        · obtain ⟨_, -, hne⟩ := Option.map_eq_some_iff.mp hact
          cases hne
        · cases hact
      | _ =>
        rw [hwake] at hact
        cases hact
    | _ => exact hlate
  · simp only [Plain, hrecheck, hloop, Bool.false_eq_true] at he

/-- Where the closing transaction commits, the flush is one. -/
theorem flush_closes_bucket : ∃ es waits p q, (Process.machine oneSlot).Run {} es p ∧
    FlushReturns oneSlot p waits [] q ∧ q.sys.hist.committed.map Item.call = [0] ∧
    Flushed p q := by
  have hall : ∀ e ∈ (Process.machine oneSlot).events {} commitOpen ++ flushEvents [] ++ [],
      ¬e.pre.Raises e.act ∧ Plain e = true := by decide +kernel
  have hflush := @flushReturns_checked [] (by decide +kernel) (by decide +kernel)
    (by decide +kernel) (by decide +kernel)
  refine ⟨_, _, _, _, beforeFlush_run, hflush, by decide +kernel, ?_⟩
  exact flush_means_flushed ⟨rfl, rfl, rfl⟩ beforeFlush_run hflush
    (fun e he => not_breaks_of_plain (hall e he).1 (hall e he).2) fun e he => by cases he

end LayaWatch
