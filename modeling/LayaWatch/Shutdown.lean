import LayaWatch.Process
import LayaWatch.WriterSteps

/-!
# Shutdown terminates

After `stop` each iteration of the loop takes something from the queue, or finds
it empty and closes the open buckets. A batch that is put back costs the retry
flag, and the flag comes back only when a batch leaves for good or when the loop
is about to be left; so twice the number of items on their way, and one for the
flag, bounds the iterations (`Drain.rounds`). An iteration that began before the
stop may be one more.
-/

namespace LayaWatch

open Writer

/-- The thread is in its loop. -/
def Writer.Loop.Inside : Loop → Prop
  | .left | .ended | .crashed => False
  | _ => True

/-- The step is one of the loop of the thread. -/
def WriterAct.ofLoop : WriterAct → Bool
  | .collect _ _ | .readFlags _ | .commit _ | .recheck => true
  | _ => false

namespace Drain

variable {cfg : WriterConfig} {s t : WriterSys}

/-! ## The measure -/

/-- The iterations the items on their way and the retry flag are good for. -/
def rounds (s : WriterSys) : ℕ := 2 * s.line.length + if s.writer.retried then 0 else 1

/-- The next check after `_commit` leaves the loop. -/
def leaving (s : WriterSys) : Bool :=
  match s.loop with
  | .recheck status _ stopping =>
    stopping && decide (status ≠ .requeued) && s.writer.queue.isEmpty
  | _ => false

/-- What is left of the iteration. One whose flags were read before the stop, or
whose batch was found empty before the queue was filled, cannot be the last. -/
def phase (s : WriterSys) : ℕ :=
  match s.loop with
  | .collecting _ => 4
  | .collected batch => if batch.isEmpty && !s.writer.queue.isEmpty then 30 else 3
  | .committing batch _ stopping =>
    if !stopping || (batch.isEmpty && !s.writer.queue.isEmpty) then 25 else 2
  | .recheck _ _ _ => 5
  | .left | .ended | .crashed => 0

/-- The measure of the drain. -/
def measure (s : WriterSys) : ℕ :=
  if leaving s then 1
  else match s.loop with
    | .left | .ended | .crashed => 0
    | _ => 8 * rounds s + phase s

section Phases

variable {batch : List Item} {flush stopping : Bool} {status : Status}

theorem measure_collecting (h : s.loop = .collecting batch) :
    measure s = 8 * rounds s + 4 := by
  simp only [measure, leaving, phase, h, Bool.false_eq_true, if_false]

theorem measure_collected (h : s.loop = .collected batch) : measure s = 8 * rounds s +
    if batch.isEmpty && !s.writer.queue.isEmpty then 30 else 3 := by
  simp only [measure, leaving, phase, h, Bool.false_eq_true, if_false]

theorem measure_committing (h : s.loop = .committing batch flush stopping) :
    measure s = 8 * rounds s +
      if !stopping || (batch.isEmpty && !s.writer.queue.isEmpty) then 25 else 2 := by
  simp only [measure, leaving, phase, h, Bool.false_eq_true, if_false]

theorem measure_recheck (h : s.loop = .recheck status flush stopping) : measure s =
    if stopping && decide (status ≠ .requeued) && s.writer.queue.isEmpty then 1
    else 8 * rounds s + 5 := by
  simp only [measure, leaving, phase, h]

theorem measure_outside (h : ¬s.loop.Inside) : measure s = 0 := by
  cases hloop : s.loop with
  | left | ended | crashed => simp only [measure, leaving, hloop, Bool.false_eq_true, if_false]
  | collecting _ | collected _ | committing _ _ _ | recheck _ _ _ =>
    rw [hloop] at h
    exact absurd trivial h

end Phases

/-- What is measured: the phase, the queue and the flag. -/
theorem measure_congr (hloop : t.loop = s.loop) (hqueue : t.writer.queue = s.writer.queue)
    (hretried : t.writer.retried = s.writer.retried) : measure t = measure s := by
  have hrounds : rounds t = rounds s := by
    rw [rounds, rounds, WriterSys.line, WriterSys.line, WriterSys.inFlight, WriterSys.inFlight,
      hloop, hqueue, hretried]
  unfold measure leaving phase
  rw [hrounds, hloop, hqueue]

/-! ## The steps of the loop -/

/-- While it drains, `_collect` never waits, and comes back with nothing only
from an empty queue. -/
theorem gather_draining (cfg : WriterConfig) (elapsed : ℕ → Bool) (due : Bool)
    (queue : List Item) : ∀ batch : List Item,
      (gather cfg true elapsed due queue batch).2.2 = true ∧
      ((gather cfg true elapsed due queue batch).2.1 = [] →
        (gather cfg true elapsed due queue batch).1 = []) := by
  induction queue with
  | nil =>
    intro batch
    rw [gather]
    split
    · exact ⟨rfl, fun _ => rfl⟩
    · exact ⟨rfl, fun _ => rfl⟩
  | cons item rest ih =>
    intro batch
    have hwindow : (!batch.isEmpty && !true && elapsed batch.length) = false := by simp
    rw [gather, hwindow]
    simp only [Bool.false_eq_true, if_false]
    split
    · refine ⟨rfl, fun hnil => ?_⟩
      exact absurd hnil (List.append_ne_nil_of_right_ne_nil _ (List.cons_ne_nil _ _))
    · exact ih (batch ++ [item])

/-- So one stay is all it takes. -/
theorem collect_draining {elapsed : ℕ → Bool} {due : Bool} (hstop : s.writer.stopping = true)
    (ht : s.collect cfg elapsed due = some t) : ∃ batch taken left,
      s.loop = .collecting batch ∧ s.writer.queue = taken ++ left ∧
      (batch ++ taken = [] → left = []) ∧
      t = { s with
        writer := { s.writer with queue := left }, loop := .collected (batch ++ taken) } := by
  unfold WriterSys.collect at ht
  split at ht
  · next batch hloop =>
    obtain ⟨taken, left, returns, hgather, hqueue⟩ :=
      WriterSys.gather_takes cfg true elapsed due s.writer.queue batch
    obtain ⟨hreturns, hempty⟩ := gather_draining cfg elapsed due s.writer.queue batch
    rw [hgather] at hreturns hempty
    obtain rfl : returns = true := hreturns
    have hdrain : (s.writer.flushWanted || s.writer.stopping) = true := by
      rw [hstop, Bool.or_true]
    simp only [hdrain, hgather, if_true] at ht
    exact ⟨batch, taken, left, hloop, hqueue, hempty, (Option.some.inj ht).symm⟩
  · cases ht

theorem collect_step {elapsed : ℕ → Bool} {due : Bool} (hstop : s.writer.stopping = true)
    (ht : s.collect cfg elapsed due = some t) : measure t + 1 ≤ measure s := by
  obtain ⟨batch, taken, left, hloop, hqueue, hempty, rfl⟩ := collect_draining hstop ht
  rw [measure_collecting hloop, measure_collected rfl]
  have hrounds : rounds { s with
      writer := { s.writer with queue := left }, loop := .collected (batch ++ taken) } =
      rounds s := by
    simp only [rounds, WriterSys.line, WriterSys.inFlight, hloop, hqueue, List.append_assoc]
  have hfresh : ((batch ++ taken).isEmpty && !left.isEmpty) = false := by
    by_cases hnil : batch ++ taken = []
    · rw [hempty hnil]
      simp
    · simp [List.isEmpty_iff, hnil]
  rw [hrounds]
  simp only [hfresh, Bool.false_eq_true, if_false]
  omega

theorem readFlags_step {due : Bool} (hstop : s.writer.stopping = true)
    (ht : s.readFlags due = some t) : measure t + 1 ≤ measure s := by
  obtain ⟨batch, hloop, rfl | ⟨-, -, hne, -, -⟩⟩ := WriterSys.readFlags_cases ht
  · rw [measure_collected hloop, measure_committing rfl]
    have hrounds : rounds { s with
        loop := .committing batch s.writer.flushWanted s.writer.stopping } = rounds s := by
      simp only [rounds, WriterSys.line, WriterSys.inFlight, hloop]
    rw [hrounds, hstop, Bool.not_true, Bool.false_or]
    split <;> omega
  · rw [hstop] at hne
    cases hne

/-- A commit that takes its batch out of the line: the flag may come back, but a
batch with items is worth more, and one without items leaves the loop next. -/
theorem settled_commit_step {batch : List Item} {flush stopping : Bool} {status : Status}
    (hs : s.loop = .committing batch flush stopping) (ht : t.loop = .recheck status flush stopping)
    (hstatus : status ≠ .requeued) (hqueue : t.writer.queue = s.writer.queue)
    (hempty : batch = [] → rounds t ≤ rounds s + 1) (hitems : batch ≠ [] → rounds t < rounds s) :
    measure t + 1 ≤ measure s := by
  rw [measure_committing hs, measure_recheck ht, hqueue, decide_eq_true hstatus, Bool.and_true]
  by_cases hb : batch = []
  · have := hempty hb
    rw [hb, List.isEmpty_nil, Bool.true_and]
    cases stopping <;> cases s.writer.queue.isEmpty <;>
      simp only [Bool.not_true, Bool.not_false, Bool.and_true, Bool.and_false, Bool.or_true,
        Bool.or_false, Bool.false_eq_true, if_true, if_false] <;> omega
  · have := hitems hb
    split <;> split <;> omega

/-- Whatever its outcome, a commit lowers the measure. -/
theorem commit_step {outcome : Outcome} (ht : s.commit outcome = some t) :
    measure t + 1 ≤ measure s := by
  obtain ⟨batch, flush, stopping, hloop, h⟩ := WriterSys.commit_cases ht
  have hs : rounds s = 2 * (batch.length + s.writer.queue.length) +
      if s.writer.retried = true then 0 else 1 := by
    rw [rounds, WriterSys.line, WriterSys.inFlight, hloop, List.length_append]
  have hitems : batch ≠ [] → 0 < batch.length := List.length_pos_of_ne_nil
  rcases h with ⟨-, rfl, rfl⟩ | ⟨-, rfl⟩ | ⟨-, hretried, rfl⟩ | ⟨-, rfl⟩
  · -- there was nothing to do
    refine settled_commit_step hloop rfl (by decide) rfl (fun _ => ?_) fun hne => absurd rfl hne
    rw [hs]
    simp only [rounds, WriterSys.line, WriterSys.inFlight, List.nil_append, List.length_nil]
    omega
  · -- committed
    refine settled_commit_step hloop rfl (by decide) rfl (fun _ => ?_) fun hne => ?_
    · rw [hs]
      simp only [rounds, WriterSys.line, WriterSys.inFlight, List.nil_append, Bool.false_eq_true,
        if_false]
      omega
    · have := hitems hne
      rw [hs]
      simp only [rounds, WriterSys.line, WriterSys.inFlight, List.nil_append, Bool.false_eq_true,
        if_false]
      omega
  · -- put back: it costs the flag
    have hrounds : rounds s = 2 * (batch.length + s.writer.queue.length) + 1 := by
      rw [hs, hretried]
      rfl
    rw [measure_committing hloop, measure_recheck rfl, hrounds]
    simp only [rounds, WriterSys.line, WriterSys.inFlight, List.nil_append, List.length_append,
      ne_eq, not_true, decide_false, Bool.and_false, Bool.false_and, Bool.false_eq_true, if_false,
      if_true]
    split <;> omega
  · -- dropped
    refine settled_commit_step hloop rfl (by decide) rfl (fun _ => ?_) fun hne => ?_
    · rw [hs]
      simp only [rounds, WriterSys.line, WriterSys.inFlight, dropBatch, List.nil_append,
        Bool.false_eq_true, if_false]
      omega
    · have := hitems hne
      rw [hs]
      simp only [rounds, WriterSys.line, WriterSys.inFlight, dropBatch, List.nil_append,
        Bool.false_eq_true, if_false]
      omega

/-- The check leaves the loop just when it is due to. -/
theorem recheck_step (ht : s.recheck = some t) : measure t + 1 ≤ measure s := by
  unfold WriterSys.recheck at ht
  split at ht
  · next status flush stopping hloop =>
    have hqueue : t.writer.queue = s.writer.queue ∧ t.writer.retried = s.writer.retried := by
      rw [← Option.some.inj ht]
      dsimp only
      split <;> exact ⟨rfl, rfl⟩
    have hnext : t.loop =
        if stopping && decide (status ≠ .requeued) && s.writer.queue.isEmpty then .left
        else .collecting [] := by
      rw [← Option.some.inj ht, Bool.and_assoc]
    rw [measure_recheck hloop]
    cases hl : stopping && decide (status ≠ .requeued) && s.writer.queue.isEmpty with
    | true =>
      rw [hl] at hnext
      rw [measure_outside (by rw [hnext]; exact id)]
      exact Nat.le_refl _
    | false =>
      rw [hl] at hnext
      have hrounds : rounds t = rounds s := by
        rw [rounds, rounds, WriterSys.line, WriterSys.line, WriterSys.inFlight,
          WriterSys.inFlight, hnext, hloop, hqueue.1, hqueue.2]
        rfl
      rw [measure_collecting hnext, hrounds]
      exact Nat.le_refl _
  · cases ht

/-! ## The other steps -/

/-- Once the writer is stopping, nothing but a wakening to room appends. -/
theorem other_step {a : WriterAct} (hstop : s.writer.stopping = true) (ha : a.ofLoop = false)
    (hquiet : t.hist.appended = s.hist.appended) (ht : WriterSys.step cfg s a = some t) :
    t.writer.queue = s.writer.queue ∧ t.writer.retried = s.writer.retried ∧
    (t.loop = s.loop ∨ s.loop = .left ∧ t.loop = .ended) ∧ t.writer.stopping = true := by
  cases a with
  | enqueue trace =>
    obtain rfl := Option.some.inj ht
    rcases WriterSys.enqueue_cases cfg trace s with ⟨-, h⟩ | ⟨hgo, -⟩ | ⟨hgo, -⟩ | ⟨hgo, -⟩
    · rw [h]
      exact ⟨rfl, rfl, Or.inl rfl, hstop⟩
    all_goals
      rw [hstop] at hgo
      cases hgo
  | enqueueLog entry =>
    obtain rfl := Option.some.inj ht
    rcases WriterSys.enqueueLog_cases cfg entry s with ⟨-, h⟩ | ⟨-, h⟩ | ⟨hgo, -⟩
    · rw [h]
      exact ⟨rfl, rfl, Or.inl rfl, hstop⟩
    · rw [h]
      exact ⟨rfl, rfl, Or.inl rfl, hstop⟩
    · rw [hstop] at hgo
      cases hgo
  | wake i expired =>
    obtain ⟨item, -, ⟨-, -, rfl⟩ | ⟨-, -, -, rfl⟩ | ⟨-, rfl⟩⟩ := WriterSys.wake_cases ht
    · exact ⟨rfl, rfl, Or.inl rfl, hstop⟩
    · exact ⟨rfl, rfl, Or.inl rfl, hstop⟩
    · exact absurd (List.append_right_eq_self.mp hquiet) (List.cons_ne_nil _ _)
  | collect _ _ | readFlags _ | commit _ | recheck => cases ha
  | finish =>
    obtain ⟨hloop, rfl⟩ := WriterSys.finish_cases ht
    exact ⟨rfl, rfl, Or.inr ⟨hloop, rfl⟩, hstop⟩
  | stop =>
    obtain rfl := Option.some.inj ht
    exact ⟨rfl, rfl, Or.inl rfl, rfl⟩
  | flushNow =>
    obtain rfl := Option.some.inj ht
    exact ⟨rfl, rfl, Or.inl rfl, hstop⟩

/-! ## The drain -/

/-- The state of a drain: the writer is stopping, and the thread is in its loop
or has left an empty queue. -/
structure Draining (s : WriterSys) : Prop where
  /-- `stop` was called -/
  stopping : s.writer.stopping = true
  /-- the queue is empty once the loop is left -/
  empty : ¬s.loop.Inside → s.writer.queue = []

/-- Every step of the loop lowers the measure, and no other step raises it. -/
theorem Draining.step {a : WriterAct} (h : Draining s)
    (hquiet : t.hist.appended = s.hist.appended) (ht : WriterSys.step cfg s a = some t) :
    Draining t ∧ measure t + (if a.ofLoop then 1 else 0) ≤ measure s := by
  cases ha : a.ofLoop with
  | false =>
    obtain ⟨hqueue, hretried, hloop, hstop⟩ := other_step h.stopping ha hquiet ht
    rcases hloop with hloop | ⟨hleft, hended⟩
    · refine ⟨⟨hstop, fun hout => ?_⟩, (measure_congr hloop hqueue hretried).le⟩
      rw [hqueue]
      exact h.empty (hloop ▸ hout)
    · refine ⟨⟨hstop, fun _ => ?_⟩, ?_⟩
      · rw [hqueue]
        exact h.empty (by rw [hleft]; exact id)
      · rw [measure_outside (by rw [hended]; exact id)]
        exact Nat.zero_le _
  | true =>
    cases a with
    | collect elapsed due =>
      refine ⟨?_, collect_step h.stopping ht⟩
      obtain ⟨_, _, _, _, -, -, rfl⟩ := collect_draining h.stopping ht
      exact ⟨h.stopping, fun hout => absurd trivial hout⟩
    | readFlags due =>
      refine ⟨?_, readFlags_step h.stopping ht⟩
      obtain ⟨_, -, rfl | ⟨-, -, -, -, rfl⟩⟩ := WriterSys.readFlags_cases ht
      all_goals exact ⟨h.stopping, fun hout => absurd trivial hout⟩
    | commit outcome =>
      refine ⟨?_, commit_step ht⟩
      obtain ⟨_, _, _, -, hcases⟩ := WriterSys.commit_cases ht
      rcases hcases with ⟨-, -, rfl⟩ | ⟨-, rfl⟩ | ⟨-, -, rfl⟩ | ⟨-, rfl⟩
      all_goals exact ⟨h.stopping, fun hout => absurd trivial hout⟩
    | recheck =>
      refine ⟨?_, recheck_step ht⟩
      obtain ⟨_, _, _, w, loop, -, rfl, hw, hloop⟩ := WriterSys.recheck_cases ht
      have hstop : w.stopping = true ∧ w.queue = s.writer.queue := by
        rcases hw with rfl | ⟨-, -, -, rfl⟩ <;> exact ⟨h.stopping, rfl⟩
      refine ⟨hstop.1, fun hout => ?_⟩
      rcases hloop with rfl | ⟨hqueue, -, -⟩
      · exact absurd trivial hout
      · rw [hstop.2, hqueue]
    | _ => cases ha

end Drain

/-! ## The process -/

namespace Process

variable {cfg : WriterConfig} {p q : Process}

/-- The step is one of the loop of the thread. -/
def ofLoop : ProcessAct → Bool
  | .collect _ _ | .readFlags _ | .commit _ _ | .recheck => true
  | _ => false

/-- What the thread does next, given what the clocks and the database say. -/
def next (elapsed : ℕ → Bool) (now : ℚ) (faults : List (Option SqliteError)) (p : Process) :
    ProcessAct :=
  match p.sys.loop with
  | .collecting _ => .collect elapsed now
  | .collected _ => .readFlags now
  | .committing _ _ _ => .commit now faults
  | .recheck _ _ _ => .recheck
  | .left | .ended | .crashed => .finish

/-- In its loop the thread can always go on. -/
theorem next_enabled (h : p.sys.loop.Inside) (elapsed : ℕ → Bool) (now : ℚ)
    (faults : List (Option SqliteError)) :
    ofLoop (p.next elapsed now faults) = true ∧
      ∃ q, step cfg p (p.next elapsed now faults) = some q := by
  rw [← Option.isSome_iff_exists]
  unfold next step queueAct
  cases hloop : p.sys.loop with
  | collecting batch =>
    refine ⟨rfl, ?_⟩
    simp only [WriterSys.step, WriterSys.collect, hloop, Option.map_some, Option.isSome_some]
  | collected batch =>
    refine ⟨rfl, ?_⟩
    simp only [WriterSys.step, WriterSys.readFlags, hloop, Option.map_some, Option.isSome_some]
  | committing batch flush stopping =>
    refine ⟨rfl, ?_⟩
    have hspec := commitBatch_spec batch (flush || stopping) now faults p.store
    simp only [ending, hloop]
    rcases hrun : commitBatch batch (flush || stopping) now faults p.store with ⟨ending, store⟩
    rw [hrun] at hspec
    rcases ending with _ | work | _ | _ | e
    · -- nothing to do means nothing to commit
      obtain ⟨-, rfl, -⟩ := hspec
      simp [WriterSys.step, WriterSys.commit, hloop]
    all_goals simp [CommitEnd.outcome, WriterSys.step, WriterSys.commit, hloop]
  | recheck status flush stopping =>
    refine ⟨rfl, ?_⟩
    simp only [WriterSys.step, WriterSys.recheck, hloop, Option.map_some, Option.isSome_some]
  | left | ended | crashed =>
    rw [hloop] at h
    exact h.elim

/-- A step of the queue is one of its loop just if the step of the process is. -/
theorem ofLoop_queueAct {a : ProcessAct} {act : WriterAct} (h : p.queueAct a = some act) :
    act.ofLoop = ofLoop a := by
  cases a with
  | commit now faults =>
    simp only [queueAct] at h
    split at h
    · obtain ⟨outcome, -, rfl⟩ := Option.map_eq_some_iff.mp h
      rfl
    · obtain rfl := Option.some.inj h
      rfl
  | _ =>
    obtain rfl := Option.some.inj h
    rfl

/-- **Shutdown terminates.** From any state in which the writer is stopping and
its thread is in its loop, with whatever is queued and whatever buckets are open:
in a run in which nothing is appended and no exception escapes a commit, the loop
makes no more steps than the measure of the state allows; while it has not been
left it can go on, whatever the clocks and the database say; once it has been
left the queue is empty; and each `_collect` takes one stay. -/
theorem drain_terminates {es : List (Machine.Event Process ProcessAct)}
    (h : (machine cfg).Run p es q) (hstop : p.sys.writer.stopping = true)
    (hloop : p.sys.loop.Inside)
    (hquiet : ∀ e ∈ es, e.post.sys.hist.appended = e.pre.sys.hist.appended)
    (hends : ∀ e ∈ es, ¬e.pre.Raises e.act) :
    (es.countP fun e => ofLoop e.act) ≤ Drain.measure p.sys ∧
    (q.sys.loop.Inside → ∀ elapsed now faults, ofLoop (q.next elapsed now faults) = true ∧
      ∃ r, step cfg q (q.next elapsed now faults) = some r) ∧
    (¬q.sys.loop.Inside → q.sys.writer.queue = []) ∧
    ∀ e ∈ es, ∀ elapsed now, e.act = .collect elapsed now →
      ∃ batch, e.post.sys.loop = .collected batch := by
  have hguard : ∀ e ∈ es, ¬e.pre.Raises e.act ∧
      ∀ r, step cfg e.pre e.act = some r → r.sys.hist.appended = e.pre.sys.hist.appended := by
    intro e he
    refine ⟨hends e he, fun r hr => ?_⟩
    obtain rfl := Option.some.inj ((h.step_of_mem e he).symm.trans hr)
    exact hquiet e he
  -- a step of the loop lowers the measure, and no other step raises it
  have hstep : ∀ (s : Process) (a : ProcessAct) (t : Process), Drain.Draining s.sys →
      (¬s.Raises a ∧ ∀ r, step cfg s a = some r → r.sys.hist.appended = s.sys.hist.appended) →
      step cfg s a = some t → Drain.Draining t.sys ∧
        Drain.measure t.sys + (if ofLoop a then 1 else 0) ≤ Drain.measure s.sys := by
    intro s a t hs ⟨hr, hquiet⟩ ht
    obtain ⟨act, hact, hsys⟩ := queue_step hr ht
    rw [← ofLoop_queueAct hact]
    exact hs.step (hquiet t ht) hsys
  have hinit : Drain.Draining p.sys := ⟨hstop, fun hout => absurd hloop hout⟩
  have hcount := h.count_le (I := fun s => Drain.Draining s.sys) (p := ofLoop)
    (f := fun s => Drain.measure s.sys) hstep hinit hguard
  have hinv := h.invariant (I := fun s => Drain.Draining s.sys)
    (fun s a t hs hg ht => (hstep s a t hs hg ht).1) hinit hguard
  refine ⟨(Nat.le_add_right _ _).trans hcount, fun hin elapsed now faults =>
    next_enabled hin elapsed now faults, hinv.1.empty, fun e he elapsed now hact => ?_⟩
  have hpre := (hinv.2 e he).1
  obtain ⟨act, hq, hsys⟩ := queue_step (hends e he) (h.step_of_mem e he)
  rw [hact] at hq
  obtain rfl := Option.some.inj hq
  obtain ⟨_, _, _, -, -, -, hpost⟩ := Drain.collect_draining hpre.stopping hsys
  rw [hpost]
  exact ⟨_, rfl⟩

/-- A trace is queued and the writer is stopping. -/
def stoppedWithTrace : Process where
  sys := { writer := { queue := [⟨0, .trace (sampleTrace 200)⟩], stopping := true } }

/-- It is taken, its transaction fails, and the loop is left. -/
def drainFails : List ProcessAct :=
  [.collect (fun _ => false) 0, .readFlags 0, .commit 0 [some (.operational false)], .recheck]

/-- The drain ends with the trace dropped and counted. -/
theorem drain_ends_failed_commit : ∃ es q, (machine oneSlot).Run stoppedWithTrace es q ∧
    ¬q.sys.loop.Inside ∧ q.sys.writer.queue = [] ∧ q.sys.writer.obsDropped = 1 ∧
    (es.countP fun e => ofLoop e.act) ≤ Drain.measure stoppedWithTrace.sys := by
  obtain ⟨q, hq, hloop, hdropped⟩ : ∃ q,
      (machine oneSlot).exec stoppedWithTrace drainFails = some q ∧
        q.sys.loop = .left ∧ q.sys.writer.obsDropped = 1 := ⟨_, rfl, rfl, rfl⟩
  obtain ⟨hrun, -⟩ := Machine.Run.of_events hq
  have hnil : ∀ e ∈ (machine oneSlot).events stoppedWithTrace drainFails,
      e.pre.sys.hist.appended = [] ∧ e.post.sys.hist.appended = [] := by decide +kernel
  have hends : ∀ e ∈ (machine oneSlot).events stoppedWithTrace drainFails,
      ¬e.pre.Raises e.act := by decide +kernel
  have hout : ¬q.sys.loop.Inside := by rw [hloop]; exact id
  obtain ⟨hcount, -, hempty, -⟩ := drain_terminates hrun rfl trivial
    (fun e he => (hnil e he).2.trans (hnil e he).1.symm) hends
  exact ⟨_, q, hrun, hout, hempty hout, hdropped, hcount⟩

end Process

end LayaWatch
