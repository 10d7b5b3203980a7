import LayaWatch.Process
import LayaWatch.WriterSteps

/-!
# What the writer thread survives

`_commit` handles every `sqlite3.Error`, so whatever the database does, it
returns a status and the loop goes on. It does not handle the
`UnicodeEncodeError` of a text with a lone surrogate: that one ends the thread,
and the `finally` then acknowledges a flush whose items are neither committed
nor counted (`surrogate_kills_writer`). `survives` says that such a text is the
only way the thread dies.
-/

namespace LayaWatch

open Conn

/-- The commit binds a text that UTF-8 cannot encode. -/
def BindsSurrogate (p : Process) : ProcessAct → Prop
  | .commit now _ => ∃ batch flush stopping, p.sys.loop = .committing batch flush stopping ∧
      bindable (bindsOf batch (flush || stopping) now p.store.buckets) = false
  | _ => False

/-- The step wakes a producer to room after the thread has left its loop. -/
def Process.LateRoom (cfg : WriterConfig) (p : Process) (a : ProcessAct) : Prop :=
  ∃ act, p.queueAct a = some act ∧ LayaWatch.LateRoom cfg p.sys act

/-- What a step owes: a commit returns a status, with the whole batch in the
database or nothing changed; the thread lives; and a flush is acknowledged only
when everything appended is committed or counted. -/
structure Survives (e : Machine.Event Process ProcessAct) : Prop where
  /-- `_commit` returns, and is atomic -/
  commit : ∀ now faults, e.act = .commit now faults → ∃ batch flush stopping status,
    e.pre.sys.loop = .committing batch flush stopping ∧
    e.post.sys.loop = .recheck status flush stopping ∧
    (status = .ok ∧ e.post.store = batchEffect batch (flush || stopping) now e.pre.store ∨
      status ≠ .ok ∧ e.post.store = e.pre.store)
  /-- the thread has not died -/
  alive : e.post.sys.loop ≠ .crashed
  /-- an acknowledged flush is one -/
  flush : e.pre.sys.writer.flushAck = false → e.post.sys.writer.flushAck = true →
    ∀ item ∈ e.post.sys.hist.appended, item ∈ e.post.sys.hist.committed ∨
      e.post.sys.hist.Counted item

/-- An exception escapes a commit only for a text that cannot be bound. -/
theorem bindsSurrogate_of_raises {p : Process} {a : ProcessAct} (h : p.Raises a) :
    BindsSurrogate p a := by
  cases a with
  | commit now faults =>
    have hact : p.queueAct (.commit now faults) = none := h
    unfold Process.queueAct Process.ending at hact
    rcases hloop : p.sys.loop with _ | _ | ⟨batch, flush, stopping⟩ | _ | _ | _ | _
    case committing =>
      have hspec := commitBatch_spec batch (flush || stopping) now faults p.store
      rcases hrun : commitBatch batch (flush || stopping) now faults p.store with ⟨ending, s'⟩
      rw [hrun] at hspec
      simp only [hloop, hrun] at hact
      rcases ending with _ | work | _ | _ | e
      case some.raised => exact ⟨batch, flush, stopping, hloop, hspec.2.2⟩
      all_goals simp [CommitEnd.outcome] at hact
    all_goals simp [hloop] at hact
  | _ => simp [Process.Raises, Process.queueAct] at h

/-- A batch with nothing in it and nothing due has no effect. -/
theorem batchEffect_nothing {closeAll : Bool} {now : ℚ} {s : Store}
    (h : dueOf s.buckets closeAll now = []) : batchEffect [] closeAll now s = s := by
  change (dueOf s.buckets closeAll now).foldl closeDue ⟨s.db, s.buckets⟩ = s
  rw [h]
  rfl

/-- A commit that no exception escapes is atomic. -/
theorem commit_atomic {cfg : WriterConfig} {p q : Process} {now : ℚ}
    {faults : List (Option SqliteError)} (hr : ¬p.Raises (.commit now faults))
    (hs : Process.step cfg p (.commit now faults) = some q) : ∃ batch flush stopping status,
      p.sys.loop = .committing batch flush stopping ∧
      q.sys.loop = .recheck status flush stopping ∧
      (status = .ok ∧ q.store = batchEffect batch (flush || stopping) now p.store ∨
        status ≠ .ok ∧ q.store = p.store) := by
  obtain ⟨act, hact, hsys⟩ := Process.queue_step hr hs
  have hstore := Process.store_of_step hs
  have hcommit : ∃ outcome, act = .commit outcome := by
    simp only [Process.queueAct] at hact
    split at hact
    · obtain ⟨o, -, ho⟩ := Option.map_eq_some_iff.mp hact
      exact ⟨o, ho.symm⟩
    · exact ⟨_, (Option.some.inj hact).symm⟩
  obtain ⟨outcome, rfl⟩ := hcommit
  obtain ⟨batch, flush, stopping, hloop, hcases⟩ := WriterSys.commit_cases hsys
  have hspec := commitBatch_spec batch (flush || stopping) now faults p.store
  have hending : p.ending now faults =
      some (commitBatch batch (flush || stopping) now faults p.store) := by
    simp only [Process.ending, hloop]
  simp only [Process.queueAct, Process.storeAfter, hending] at hact hstore
  rcases hrun : commitBatch batch (flush || stopping) now faults p.store with ⟨ending, s'⟩
  rw [hrun] at hspec hact hstore
  have hstore' : q.store = s' := hstore
  rcases ending with _ | work | _ | _ | e
  · -- nothing to do
    obtain ⟨rfl, rfl, hdue⟩ := hspec
    obtain ⟨rfl⟩ := WriterAct.commit.inj (Option.some.inj hact)
    rcases hcases with ⟨-, -, hq⟩ | ⟨h, -⟩ | ⟨h, -, -⟩ | ⟨h | ⟨h, -⟩, -⟩
    · exact ⟨[], flush, stopping, .ok, hloop, by rw [hq],
        Or.inl ⟨rfl, by rw [hstore', batchEffect_nothing hdue]⟩⟩
    all_goals cases h
  · -- committed
    obtain ⟨rfl⟩ := WriterAct.commit.inj (Option.some.inj hact)
    rcases hcases with ⟨h, -, -⟩ | ⟨-, hq⟩ | ⟨h, -, -⟩ | ⟨h | ⟨h, -⟩, -⟩
    case inr.inl => exact ⟨batch, flush, stopping, .ok, hloop, by rw [hq],
      Or.inl ⟨rfl, hstore'.trans hspec⟩⟩
    all_goals cases h
  · -- busy: requeued or dropped
    obtain ⟨rfl⟩ := WriterAct.commit.inj (Option.some.inj hact)
    rcases hcases with ⟨h, -, -⟩ | ⟨h, -⟩ | ⟨-, -, hq⟩ | ⟨-, hq⟩
    · cases h
    · cases h
    · exact ⟨batch, flush, stopping, .requeued, hloop, by rw [hq],
        Or.inr ⟨by decide, hstore'.trans hspec⟩⟩
    · exact ⟨batch, flush, stopping, .dropped, hloop, by rw [hq],
        Or.inr ⟨by decide, hstore'.trans hspec⟩⟩
  · -- another error: dropped
    obtain ⟨rfl⟩ := WriterAct.commit.inj (Option.some.inj hact)
    rcases hcases with ⟨h, -, -⟩ | ⟨h, -⟩ | ⟨h, -, -⟩ | ⟨-, hq⟩
    case inr.inr.inr => exact ⟨batch, flush, stopping, .dropped, hloop, by rw [hq],
      Or.inr ⟨by decide, hstore'.trans hspec⟩⟩
    all_goals cases h
  · cases hact

/-! ## The flush acknowledgement -/

/-- With nothing queued and nothing in flight, every appended item is committed or
lost. -/
theorem Ledger.settled {s : WriterSys} (h : Ledger s) (hqueue : s.writer.queue = [])
    (hflight : s.inFlight = []) {item : Item} (hi : item ∈ s.hist.appended) :
    item ∈ s.hist.committed ∨ item ∈ s.hist.dropped ++ s.hist.evicted := by
  classical
  have hbal := h.balance fun x => decide (x = item)
  rw [hqueue, hflight, List.countP_nil] at hbal
  have hpos : 0 < s.hist.appended.countP fun x => decide (x = item) :=
    List.countP_pos_iff.mpr ⟨item, hi, decide_eq_true rfl⟩
  by_cases hcom : 0 < s.hist.committed.countP fun x => decide (x = item)
  · obtain ⟨x, hx, heq⟩ := List.countP_pos_iff.mp hcom
    rw [of_decide_eq_true heq] at hx
    exact Or.inl hx
  · right
    have hlost : 0 < (s.hist.dropped ++ s.hist.evicted).countP fun x => decide (x = item) := by
      rw [List.countP_append]
      omega
    obtain ⟨x, hx, heq⟩ := List.countP_pos_iff.mp hlost
    rwa [of_decide_eq_true heq] at hx

/-- So it is accounted for. -/
theorem Ledger.accounted {s : WriterSys} (h : Ledger s) (hqueue : s.writer.queue = [])
    (hflight : s.inFlight = []) {item : Item} (hi : item ∈ s.hist.appended) :
    item ∈ s.hist.committed ∨ s.hist.Counted item :=
  (h.settled hqueue hflight hi).imp_right (h.lost item)

/-- A flush is acknowledged by the check after `_commit`, or when the thread
ends. -/
theorem WriterSys.ack_cases {cfg : WriterConfig} {s t : WriterSys} {act : WriterAct}
    (ht : WriterSys.step cfg s act = some t) (hbefore : s.writer.flushAck = false)
    (hafter : t.writer.flushAck = true) : t.inFlight = [] ∧ t.writer.queue = s.writer.queue ∧
      ((act = .recheck ∧ s.writer.queue = [] ∧ ∃ status stopping,
        s.loop = .recheck status true stopping ∧ status ≠ .requeued) ∨ s.loop = .left) := by
  have hsame : t.writer.flushAck ≠ s.writer.flushAck := by
    rw [hbefore, hafter]
    decide
  cases act with
  | enqueue trace =>
    obtain rfl := Option.some.inj ht
    rcases WriterSys.enqueue_cases cfg trace s with
      ⟨-, h⟩ | ⟨-, -, h⟩ | ⟨-, -, -, -, _, _, -, h⟩ | ⟨-, -, -, h⟩ <;>
      exact absurd (by rw [h]) hsame
  | enqueueLog entry =>
    obtain rfl := Option.some.inj ht
    rcases WriterSys.enqueueLog_cases cfg entry s with ⟨-, h⟩ | ⟨-, h⟩ | ⟨-, -, h⟩ <;>
      exact absurd (by rw [h]) hsame
  | wake i expired =>
    obtain ⟨_, -, ⟨-, -, rfl⟩ | ⟨-, -, -, rfl⟩ | ⟨-, rfl⟩⟩ := WriterSys.wake_cases ht <;>
      exact absurd rfl hsame
  | collect elapsed due =>
    obtain ⟨_, _, _, _, -, -, -, rfl⟩ := WriterSys.collect_cases ht
    exact absurd rfl hsame
  | readFlags due =>
    obtain ⟨_, -, rfl | ⟨-, -, -, -, rfl⟩⟩ := WriterSys.readFlags_cases ht <;>
      exact absurd rfl hsame
  | commit outcome =>
    obtain ⟨_, _, _, -, h⟩ := WriterSys.commit_cases ht
    rcases h with ⟨-, -, rfl⟩ | ⟨-, rfl⟩ | ⟨-, -, rfl⟩ | ⟨-, rfl⟩ <;> exact absurd rfl hsame
  | recheck =>
    obtain ⟨status, flush, stopping, w, loop, hloop, rfl, hw, hl⟩ := WriterSys.recheck_cases ht
    rcases hw with rfl | ⟨hq, rfl, hstatus, rfl⟩
    · exact absurd rfl hsame
    · refine ⟨?_, rfl, Or.inl ⟨rfl, hq, status, stopping, hloop, hstatus⟩⟩
      rcases hl with rfl | ⟨-, -, rfl⟩ <;> rfl
  | finish =>
    obtain ⟨hloop, rfl⟩ := WriterSys.finish_cases ht
    exact ⟨rfl, rfl, Or.inr hloop⟩
  | stop =>
    obtain rfl := Option.some.inj ht
    exact absurd rfl hsame
  | flushNow =>
    obtain rfl := Option.some.inj ht
    cases hafter

/-- A step that acknowledges a flush finds nothing queued and nothing in
flight. -/
theorem Drained.empty_of_ack {cfg : WriterConfig} {s t : WriterSys} {act : WriterAct}
    (h : Drained s) (ht : WriterSys.step cfg s act = some t)
    (hbefore : s.writer.flushAck = false) (hafter : t.writer.flushAck = true) :
    t.writer.queue = [] ∧ t.inFlight = [] := by
  obtain ⟨hflight, hqueue, hack⟩ := WriterSys.ack_cases ht hbefore hafter
  refine ⟨?_, hflight⟩
  rw [hqueue]
  rcases hack with ⟨-, hempty, -⟩ | hleft
  · exact hempty
  · exact h.empty (Or.inl hleft)

/-- A step of the queue does not kill the thread. -/
theorem WriterSys.alive_of_step {cfg : WriterConfig} {s t : WriterSys} {act : WriterAct}
    (hs : s.loop ≠ .crashed) (ht : WriterSys.step cfg s act = some t) : t.loop ≠ .crashed := by
  cases act with
  | enqueue trace =>
    rw [← Option.some.inj ht, WriterSys.enqueue_loop]
    exact hs
  | enqueueLog entry =>
    rw [← Option.some.inj ht, WriterSys.enqueueLog_loop]
    exact hs
  | wake i expired =>
    rw [(WriterSys.wake_loop ht).1]
    exact hs
  | collect elapsed due =>
    simp only [WriterSys.step, WriterSys.collect] at ht
    split at ht
    · rw [← Option.some.inj ht]
      dsimp only
      split <;> exact fun h => by cases h
    · cases ht
  | readFlags due =>
    simp only [WriterSys.step, WriterSys.readFlags] at ht
    split at ht
    · rw [← Option.some.inj ht]
      dsimp only
      split <;> exact fun h => by cases h
    · cases ht
  | commit outcome =>
    obtain ⟨_, _, _, -, ht⟩ := WriterSys.commit_cases ht
    rcases ht with ⟨-, -, rfl⟩ | ⟨-, rfl⟩ | ⟨-, -, rfl⟩ | ⟨-, rfl⟩ <;> exact fun h => by cases h
  | recheck =>
    obtain ⟨_, _, _, w, loop, -, rfl, -, hl⟩ := WriterSys.recheck_cases ht
    rcases hl with rfl | ⟨-, -, rfl⟩ <;> exact fun h => by cases h
  | finish =>
    simp only [WriterSys.step, WriterSys.finish] at ht
    split at ht
    · rw [← Option.some.inj ht]
      exact fun h => by cases h
    · cases ht
  | stop =>
    rw [← Option.some.inj ht]
    exact hs
  | flushNow =>
    rw [← Option.some.inj ht]
    exact hs

/-! ## Every run -/

/-- **Survival.** In every run whose commits bind no lone surrogate, and in which
no producer wakes to room after the thread has left its loop, every step does
what it owes. -/
theorem survives {cfg : WriterConfig} {p q : Process}
    {es : List (Machine.Event Process ProcessAct)}
    (hinit : (Process.machine cfg).init p) (h : (Process.machine cfg).Run p es q)
    (hguard : ∀ e ∈ es, ¬BindsSurrogate e.pre e.act ∧ ¬e.pre.LateRoom cfg e.act) :
    ∀ e ∈ es, Survives e := by
  -- what carries the run: the ledger of the queue, and a loop that has not crashed
  have hstep : ∀ (p : Process) (a : ProcessAct) (q : Process),
      (Drained p.sys ∧ p.sys.loop ≠ .crashed) →
      (¬BindsSurrogate p a ∧ ¬p.LateRoom cfg a) → Process.step cfg p a = some q →
      Drained q.sys ∧ q.sys.loop ≠ .crashed := by
    intro p a q ⟨hd, hl⟩ ⟨hb, hlate⟩ hs
    obtain ⟨act, hact, hsys⟩ := Process.queue_step (fun hr => hb (bindsSurrogate_of_raises hr)) hs
    exact ⟨hd.step (fun hlr => hlate ⟨act, hact, hlr⟩) hsys, WriterSys.alive_of_step hl hsys⟩
  have hstart : Drained p.sys ∧ p.sys.loop ≠ .crashed := by
    rw [hinit.1]
    exact ⟨Drained.init, fun h => by cases h⟩
  have hinv := (h.invariant (G := fun p a => ¬BindsSurrogate p a ∧ ¬p.LateRoom cfg a) hstep hstart
    hguard).2
  intro e he
  have hs := h.step_of_mem e he
  have hr : ¬e.pre.Raises e.act := fun hr => (hguard e he).1 (bindsSurrogate_of_raises hr)
  refine ⟨fun now faults hact => ?_, (hinv e he).2.2, fun hbefore hafter item hi => ?_⟩
  · rw [hact] at hs hr
    exact commit_atomic hr hs
  · obtain ⟨act, -, hsys⟩ := Process.queue_step hr hs
    obtain ⟨hqueue, hflight⟩ := (hinv e he).1.1.empty_of_ack hsys hbefore hafter
    exact (hinv e he).2.1.accounted hqueue hflight hi

/-- A trace whose request pinned a `lang` with a lone surrogate. -/
def surrogateTrace : Trace := { sampleTrace 200 with lang := some [0xD800] }

/-- It is queued and flushed; no statement fails. -/
def surrogateRun : List ProcessAct :=
  [.enqueue surrogateTrace, .flushNow, .collect (fun _ => false) 0, .readFlags 0, .commit 0 []]

/-- The thread dies, and the flush is acknowledged although its trace is neither
committed nor counted. -/
theorem surrogate_kills_writer : ∃ es q, (Process.machine oneSlot).Run {} es q ∧
    es.map Machine.Event.act = surrogateRun ∧ q.sys.loop = .crashed ∧
    q.sys.writer.flushAck = true ∧ q.sys.writer.flushWanted = false ∧
    q.sys.hist.appended.length = 1 ∧ q.sys.hist.committed = [] ∧ q.sys.hist.counted = [] ∧
    ¬∀ e ∈ es, Survives e := by
  have hexec : ∃ q, (Process.machine oneSlot).exec {} surrogateRun = some q ∧
      q.sys.loop = .crashed ∧ q.sys.writer.flushAck = true ∧ q.sys.writer.flushWanted = false ∧
      q.sys.hist.appended.length = 1 ∧ q.sys.hist.committed = [] ∧ q.sys.hist.counted = [] :=
    ⟨_, rfl, rfl, rfl, rfl, rfl, rfl, rfl⟩
  obtain ⟨q, hq, hloop, hrest⟩ := hexec
  obtain ⟨es, hes, hacts⟩ := Machine.Run.of_exec hq
  obtain ⟨hack, hwanted, happended, hcommitted, hcounted⟩ := hrest
  refine ⟨es, q, hes, hacts, hloop, hack, hwanted, happended, hcommitted, hcounted, fun hall => ?_⟩
  rcases hes.eq_or_post with heq | ⟨e, he, hpost⟩
  · rw [heq] at hloop
    cases hloop
  · exact (hall e he).alive (by rw [hpost]; exact hloop)

/-- A flush of a trace that can be encoded, on a database that fails: the trace is
dropped and counted, and the thread lives. -/
theorem survives_failed_commit : ∃ es q, (Process.machine oneSlot).Run {} es q ∧
    q.sys.loop = .recheck .dropped true false ∧ ∀ e ∈ es, Survives e := by
  obtain ⟨p, hp, hloop, hstore⟩ : ∃ p, (Process.machine oneSlot).exec {}
      [.enqueue (sampleTrace 200), .flushNow, .collect (fun _ => false) 0, .readFlags 0] = some p ∧
      p.sys.loop = .committing [⟨0, .trace (sampleTrace 200)⟩] true false ∧ p.store = {} :=
    ⟨_, rfl, rfl, rfl⟩
  obtain ⟨es, hes, hacts⟩ := Machine.Run.of_exec hp
  obtain ⟨q, hq, hqloop⟩ : ∃ q, Process.step oneSlot p (.commit 0 [some (.operational false)]) =
      some q ∧ q.sys.loop = .recheck .dropped true false := by
    have hend : commitBatch [⟨0, .trace (sampleTrace 200)⟩] true 0 [some (.operational false)] {} =
        (some .failed, {}) := rfl
    simp only [Process.step, Process.queueAct, Process.ending, hloop, hstore, Bool.or_false, hend,
      CommitEnd.outcome, Option.map_some, WriterSys.step, WriterSys.commit, Writer.commit]
    exact ⟨_, rfl, rfl⟩
  refine ⟨_, q, hes.snoc hq, hqloop, survives ⟨rfl, rfl, rfl⟩ (hes.snoc hq) fun e he => ?_⟩
  rcases List.mem_append.mp he with he | he
  · have hmem := List.mem_map_of_mem (f := Machine.Event.act) he
    rw [hacts] at hmem
    rcases hact : e.act with _ | _ | ⟨i, expired⟩ | _ | _ | ⟨now, faults⟩ | _ | _ | _ | _
    case wake => simp [hact] at hmem
    case commit => simp [hact] at hmem
    all_goals
      refine ⟨id, fun hlate => ?_⟩
      obtain ⟨act, hsome, hl⟩ := hlate
      obtain rfl := Option.some.inj hsome
      exact hl
  · rw [List.mem_singleton.mp he]
    refine ⟨fun hbad => ?_, fun hlate => ?_⟩
    · obtain ⟨batch, flush, stopping, hloop', hbind⟩ := hbad
      obtain ⟨rfl, rfl, rfl⟩ := Writer.Loop.committing.inj (hloop.symm.trans hloop')
      have hgood : bindable (bindsOf [⟨0, .trace (sampleTrace 200)⟩] true 0 Dict.empty) = true := by
        decide +kernel
      rw [hstore] at hbind
      exact absurd (hgood.symm.trans hbind) (by decide)
    · obtain ⟨act, hsome, hl⟩ := hlate
      simp only [Process.queueAct] at hsome
      split at hsome
      · obtain ⟨o, -, rfl⟩ := Option.map_eq_some_iff.mp hsome
        exact hl
      · obtain rfl := Option.some.inj hsome
        exact hl

end LayaWatch
