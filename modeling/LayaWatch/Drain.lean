import LayaWatch.Writer

/-!
# Nothing is lost on the way to the database

Every item that was appended to the queue is committed, dropped, evicted, in the
hands of the writer thread or still queued (`Ledger.balance`), and every trace
that leaves without a commit is counted. So once the thread has left its loop
with an empty queue, every call of `enqueue` is settled.

The queue is empty when the thread leaves, and `enqueue` appends nothing after
`stop`; a producer that waits in `_wait_for_room`, however, appends whenever it
wakes to room. `settled_iff` says that this is the only way an item is left
behind.
-/

namespace LayaWatch

open Writer

/-! ## What the queue operations return -/

/-- `_collect` takes from the front of the queue and keeps the order. -/
theorem Writer.gather_append (cfg : WriterConfig) (draining : Bool) (elapsed : ℕ → Bool)
    (due : Bool) (queue : List Item) : ∀ batch : List Item,
      (gather cfg draining elapsed due queue batch).2.1 ++
        (gather cfg draining elapsed due queue batch).1 = batch ++ queue := by
  induction queue with
  | nil =>
    intro batch
    by_cases hb : batch.isEmpty
    · simp [gather, List.isEmpty_iff.mp hb]
    · simp [gather, hb]
  | cons item rest ih =>
    intro batch
    unfold gather
    by_cases h1 : (!batch.isEmpty && !draining && elapsed batch.length) = true
    · simp only [h1, if_true]
    · by_cases h2 : cfg.batchRows ≤ batch.length + 1
      · simp [h1, h2]
      · simp only [h1, h2, if_false, Bool.false_eq_true]
        rw [ih, List.append_assoc, List.singleton_append]

/-- What is evicted is the oldest item that may be. -/
theorem evictKeptNonError_spec {queue left : List Item} {gone : Item}
    (h : evictKeptNonError queue = some (gone, left)) :
    ∃ older newer, queue = older ++ gone :: newer ∧ left = older ++ newer ∧
      gone.evictable = true ∧ ∀ item ∈ older, item.evictable = false := by
  induction queue generalizing left with
  | nil => cases h
  | cons item rest ih =>
    unfold evictKeptNonError at h
    by_cases he : item.evictable = true
    · rw [if_pos he] at h
      obtain ⟨rfl, rfl⟩ := Prod.mk.inj (Option.some.inj h)
      exact ⟨[], rest, rfl, rfl, he, fun _ hm => by cases hm⟩
    · rw [if_neg he] at h
      obtain ⟨⟨g, l⟩, hr, heq⟩ := Option.map_eq_some_iff.mp h
      obtain ⟨rfl, rfl⟩ := Prod.mk.inj heq
      obtain ⟨older, newer, rfl, rfl, hg, hold⟩ := ih hr
      refine ⟨item :: older, newer, rfl, rfl, hg, fun x hx => ?_⟩
      rcases List.mem_cons.mp hx with rfl | hx
      · exact Bool.eq_false_iff.mpr he
      · exact hold x hx

theorem Item.isTrace_of_evictable {item : Item} (h : item.evictable = true) :
    item.isTrace = true := by
  unfold Item.evictable at h
  unfold Item.isTrace
  cases hl : item.load with
  | trace t => rfl
  | log entry => simp [hl] at h

/-! ## The ledger -/

/-- How many of `items` were handed in by `call`. -/
def callCount (call : ℕ) (items : List Item) : ℕ := items.countP fun item => item.call == call

/-- What every state of a run satisfies. -/
structure Ledger (s : WriterSys) : Prop where
  /-- every appended item is in exactly one place -/
  balance : ∀ p : Item → Bool, s.hist.appended.countP p =
    s.hist.committed.countP p + s.hist.dropped.countP p + s.hist.evicted.countP p +
      s.inFlight.countP p + s.writer.queue.countP p
  /-- a call hands in one item, and calls are numbered in order -/
  once : ∀ call, callCount call s.hist.appended + callCount call s.waiting ≤
    if call < s.hist.calls then 1 else 0
  /-- what was dropped or evicted is counted -/
  lost : ∀ item ∈ s.hist.dropped ++ s.hist.evicted, s.hist.Counted item
  /-- a call of `enqueue` that returned is counted or has its trace appended -/
  returned : ∀ call ∈ s.hist.returned, call ∈ s.hist.counted ∨
    ∃ item ∈ s.hist.appended, item.call = call ∧ item.isTrace = true
  /-- only traces wait -/
  waiting : ∀ item ∈ s.waiting, item.isTrace = true
  /-- `_obs_dropped` is the number of counts -/
  counter : s.writer.obsDropped = s.hist.counted.length
  /-- `_logs_dropped` is the number of counts -/
  logsCounter : s.writer.logsDropped = s.hist.logsCounted.length
  /-- a stop that the thread has seen has happened -/
  stopping : (∃ batch flush, s.loop = .committing batch flush true) ∨
    (∃ status flush, s.loop = .recheck status flush true) ∨ s.HasLeft → s.writer.stopping = true

theorem Ledger.init : Ledger {} where
  balance p := rfl
  once call := by simp [callCount]
  lost item h := by cases h
  returned call h := by cases h
  waiting item h := by cases h
  counter := rfl
  logsCounter := rfl
  stopping h := by
    rcases h with ⟨_, _, h⟩ | ⟨_, _, h⟩ | h | h <;> cases h

theorem callCount_append (call : ℕ) (l l' : List Item) :
    callCount call (l ++ l') = callCount call l + callCount call l' := List.countP_append

theorem callCount_singleton (call : ℕ) (item : Item) :
    callCount call [item] = if item.call = call then 1 else 0 := by
  by_cases h : item.call = call <;> simp [callCount, h]

/-- Counts are never taken back. -/
theorem History.Counted.mono {hist hist' : History} {item : Item} (h : hist.Counted item)
    (htraces : ∀ call ∈ hist.counted, call ∈ hist'.counted)
    (hlogs : ∀ call ∈ hist.logsCounted, call ∈ hist'.logsCounted) : hist'.Counted item := by
  unfold History.Counted at h ⊢
  split at h
  · next ht =>
    rw [if_pos ht]
    exact htraces _ h
  · next ht =>
    rw [if_neg ht]
    exact hlogs _ h

/-- One more call, with nothing handed in. -/
theorem Ledger.once_skip {s : WriterSys} (h : Ledger s) (call : ℕ) :
    callCount call s.hist.appended + callCount call s.waiting ≤
      if call < s.hist.calls + 1 then 1 else 0 := by
  have := h.once call
  split at this <;> split <;> omega

/-- One more call, with its item handed in. -/
theorem Ledger.once_new {s : WriterSys} (h : Ledger s) (load : Load) (call : ℕ) :
    callCount call s.hist.appended + callCount call s.waiting +
      callCount call [⟨s.hist.calls, load⟩] ≤ if call < s.hist.calls + 1 then 1 else 0 := by
  have := h.once call
  rw [callCount_singleton]
  dsimp only
  split at this <;> split <;> split <;> omega

/-- A longer list of counted calls and more appended items keep `returned`. -/
theorem Ledger.returned_mono {s : WriterSys} (h : Ledger s) {counted : List ℕ}
    {appended : List Item} {call : ℕ} (hc : call ∈ s.hist.returned)
    (hcounted : ∀ c ∈ s.hist.counted, c ∈ counted)
    (happended : ∀ item ∈ s.hist.appended, item ∈ appended) :
    call ∈ counted ∨ ∃ item ∈ appended, item.call = call ∧ item.isTrace = true := by
  rcases h.returned call hc with hc | ⟨item, hi, hcall⟩
  · exact Or.inl (hcounted call hc)
  · exact Or.inr ⟨item, happended item hi, hcall⟩

/-! ## The producers' steps -/

/-- How a call of `enqueue` ends. -/
theorem Writer.enqueue_cases (cfg : WriterConfig) (call : ℕ) (trace : Trace) (w : Writer) :
    let sampledOut := if isKept trace then 0 else 1
    (w.enqueue cfg call trace = (w, .rejected) ∧ w.stopping = true) ∨
    w.stopping = false ∧
      ((w.enqueue cfg call trace = ({ w with
          obsDropped := w.obsDropped + sampledOut
          queue := w.queue ++ [⟨call, .trace trace⟩] }, .queued none) ∧
          w.queue.length < cfg.queueMax) ∨
      (∃ gone left, evictKeptNonError w.queue = some (gone, left) ∧ sampledOut = 0 ∧
        w.enqueue cfg call trace = ({ w with
          obsDropped := w.obsDropped + 1
          queue := left ++ [⟨call, .trace trace⟩] }, .queued (some gone))) ∨
      w.enqueue cfg call trace = ({ w with obsDropped := w.obsDropped + sampledOut }, .waits)) := by
  by_cases hs : w.stopping = true
  · exact Or.inl ⟨by simp [enqueue, hs], hs⟩
  · right
    refine ⟨Bool.eq_false_iff.mpr hs, ?_⟩
    by_cases hfull : cfg.queueMax ≤ w.queue.length
    · by_cases hk : isKept trace = true
      · by_cases he : isError trace = true
        · exact Or.inr (Or.inr (by simp [enqueue, if_neg hs, hk, he, hfull]))
        · rcases hev : evictKeptNonError w.queue with _ | ⟨gone, left⟩
          · exact Or.inr (Or.inr (by simp [enqueue, if_neg hs, hk, he, hfull, hev]))
          · exact Or.inr (Or.inl ⟨gone, left, rfl, by simp [hk],
              by simp [enqueue, hs, hk, he, hfull, hev]⟩)
      · exact Or.inr (Or.inr (by simp [enqueue, hs, hk, hfull]))
    · by_cases hk : isKept trace = true
      · exact Or.inl ⟨by simp [enqueue, hs, hk, hfull], Nat.lt_of_not_le hfull⟩
      · exact Or.inl ⟨by simp [enqueue, hs, hk, hfull], Nat.lt_of_not_le hfull⟩

theorem Ledger.enqueue {s : WriterSys} (h : Ledger s) (cfg : WriterConfig) (trace : Trace) :
    Ledger (s.enqueue cfg trace) := by
  have hcounter : ∀ n : ℕ, s.writer.obsDropped + (if isKept trace then 0 else 1) + n =
      (s.hist.counted ++ if isKept trace then [] else [s.hist.calls]).length + n := by
    intro n
    rw [List.length_append, h.counter]
    split <;> rfl
  rcases Writer.enqueue_cases cfg s.hist.calls trace s.writer with
    ⟨he, -⟩ | ⟨-, ⟨he, -⟩ | ⟨gone, left, hev, hk, he⟩ | he⟩
  · -- rejected
    simp only [WriterSys.enqueue, he]
    exact ⟨h.balance, h.once_skip, h.lost, h.returned, h.waiting, h.counter, h.logsCounter,
      h.stopping⟩
  · -- appended
    simp only [WriterSys.enqueue, he, Option.toList_none, List.map_nil, List.append_nil]
    refine ⟨fun p => ?_, fun call => ?_, fun item hi => ?_, fun call hc => ?_, h.waiting, ?_,
      h.logsCounter, h.stopping⟩
    · have := h.balance p
      simp only [List.countP_append] at this ⊢
      change _ = _ + s.inFlight.countP p + _
      omega
    · have := h.once_new (.trace trace) call
      rw [callCount_append]
      dsimp only
      omega
    · exact (h.lost item hi).mono (fun _ => List.mem_append_left _) fun _ hm => hm
    · rcases List.mem_append.mp hc with hc | hc
      · exact h.returned_mono hc (fun _ => List.mem_append_left _)
          fun _ => List.mem_append_left _
      · rw [List.mem_singleton.mp hc]
        exact Or.inr ⟨_, List.mem_append_right _ (List.mem_singleton_self _), rfl, rfl⟩
    · exact hcounter 0
  · -- appended after an eviction
    obtain ⟨older, newer, hq, rfl, hg, -⟩ := evictKeptNonError_spec hev
    have hkept : isKept trace = true := by
      by_contra hne
      simp [hne] at hk
    simp only [WriterSys.enqueue, he, hkept, if_true, Option.toList_some, List.map_cons,
      List.map_nil, List.append_nil]
    refine ⟨fun p => ?_, fun call => ?_, fun item hi => ?_, fun call hc => ?_, h.waiting, ?_,
      h.logsCounter, h.stopping⟩
    · have := h.balance p
      rw [hq] at this
      simp only [List.countP_append, List.countP_cons, List.countP_nil] at this ⊢
      change _ = _ + s.inFlight.countP p + _
      omega
    · have := h.once_new (.trace trace) call
      rw [callCount_append]
      dsimp only
      omega
    · dsimp only at hi
      rw [← List.append_assoc, List.mem_append] at hi
      rcases hi with hi | hi
      · exact (h.lost item hi).mono (fun _ => List.mem_append_left _) fun _ hm => hm
      · rw [List.mem_singleton.mp hi, History.Counted, if_pos (Item.isTrace_of_evictable hg)]
        exact List.mem_append_right _ (List.mem_singleton_self _)
    · rcases List.mem_append.mp hc with hc | hc
      · exact h.returned_mono hc (fun _ => List.mem_append_left _)
          fun _ => List.mem_append_left _
      · rw [List.mem_singleton.mp hc]
        exact Or.inr ⟨_, List.mem_append_right _ (List.mem_singleton_self _), rfl, rfl⟩
    · simp [h.counter]
  · -- waiting
    simp only [WriterSys.enqueue, he]
    refine ⟨h.balance, fun call => ?_, fun item hi => ?_, fun call hc => ?_, fun item hi => ?_,
      hcounter 0, h.logsCounter, h.stopping⟩
    · have := h.once_new (.trace trace) call
      rw [callCount_append]
      dsimp only
      omega
    · exact (h.lost item hi).mono (fun _ => List.mem_append_left _) fun _ hm => hm
    · exact h.returned_mono hc (fun _ => List.mem_append_left _) fun _ hi => hi
    · rcases List.mem_append.mp hi with hi | hi
      · exact h.waiting item hi
      · rw [List.mem_singleton.mp hi]
        rfl

/-- What a waiting producer's item leaves the list of the waiting with. -/
theorem countP_eraseIdx {l : List Item} {i : ℕ} {item : Item} (hi : l[i]? = some item)
    (p : Item → Bool) : (l.eraseIdx i).countP p + [item].countP p = l.countP p := by
  obtain ⟨hlt, rfl⟩ := List.getElem?_eq_some_iff.mp hi
  have hperm := (List.getElem_cons_eraseIdx_perm hlt).countP_eq p
  rw [← hperm, ← List.singleton_append (l := l.eraseIdx i), List.countP_append, Nat.add_comm]

theorem callCount_eraseIdx {l : List Item} {i : ℕ} {item : Item} (hi : l[i]? = some item)
    (call : ℕ) : callCount call (l.eraseIdx i) + callCount call [item] = callCount call l :=
  countP_eraseIdx hi _

theorem Ledger.wake {s t : WriterSys} (h : Ledger s) {cfg : WriterConfig} {i : ℕ}
    {expired : Bool} (ht : s.wake cfg i expired = some t) : Ledger t := by
  obtain ⟨item, hi, rfl⟩ := Option.map_eq_some_iff.mp ht
  have htrace := h.waiting item (List.mem_of_getElem? hi)
  have hwaiting : ∀ x ∈ s.waiting.eraseIdx i, x.isTrace = true := fun x hx =>
    h.waiting x (List.mem_of_mem_eraseIdx hx)
  by_cases hfull : cfg.queueMax ≤ s.writer.queue.length
  · by_cases hend : (s.writer.stopping || expired) = true
    · -- the wait is given up
      simp only [waitForRoom, if_pos hfull, if_pos hend]
      refine ⟨h.balance, fun call => ?_, fun x hx => ?_, fun call hc => ?_, hwaiting, ?_,
        h.logsCounter, h.stopping⟩
      · have := h.once call
        have := callCount_eraseIdx hi call
        dsimp only
        omega
      · exact (h.lost x hx).mono (fun _ => List.mem_append_left _) fun _ hm => hm
      · rcases List.mem_append.mp hc with hc | hc
        · exact h.returned_mono hc (fun _ => List.mem_append_left _) fun _ hm => hm
        · rw [List.mem_singleton.mp hc]
          exact Or.inl (List.mem_append_right _ (List.mem_singleton_self _))
      · simp [h.counter]
    · -- still no room
      simp only [waitForRoom, if_pos hfull, if_neg hend]
      exact ⟨h.balance, h.once, h.lost, h.returned, h.waiting, h.counter, h.logsCounter, h.stopping⟩
  · -- room
    simp only [waitForRoom, if_neg hfull]
    refine ⟨fun p => ?_, fun call => ?_, h.lost, fun call hc => ?_, hwaiting, h.counter,
      h.logsCounter, h.stopping⟩
    · have := h.balance p
      simp only [List.countP_append] at this ⊢
      change _ = _ + s.inFlight.countP p + _
      omega
    · have := h.once call
      have := callCount_eraseIdx hi call
      rw [callCount_append]
      dsimp only
      omega
    · rcases List.mem_append.mp hc with hc | hc
      · exact h.returned_mono hc (fun _ hm => hm) fun _ => List.mem_append_left _
      · rw [List.mem_singleton.mp hc]
        exact Or.inr ⟨item, List.mem_append_right _ (List.mem_singleton_self _), rfl, htrace⟩

theorem Ledger.enqueueLog {s : WriterSys} (h : Ledger s) (cfg : WriterConfig) (entry : LogEntry) :
    Ledger (s.enqueueLog cfg entry) := by
  by_cases hs : s.writer.stopping = true
  · simp only [WriterSys.enqueueLog, Writer.enqueueLog, if_pos hs]
    exact ⟨h.balance, h.once_skip, h.lost, h.returned, h.waiting, h.counter, h.logsCounter,
      h.stopping⟩
  · by_cases hfull : cfg.queueMax ≤ s.writer.queue.length
    · simp only [WriterSys.enqueueLog, Writer.enqueueLog, if_neg hs, if_pos hfull]
      refine ⟨h.balance, h.once_skip, fun item hi => ?_, h.returned, h.waiting, h.counter, ?_,
        h.stopping⟩
      · exact (h.lost item hi).mono (fun _ hm => hm) fun _ => List.mem_append_left _
      · simp [h.logsCounter]
    · simp only [WriterSys.enqueueLog, Writer.enqueueLog, if_neg hs, if_neg hfull]
      refine ⟨fun p => ?_, fun call => ?_, h.lost, fun call hc => ?_, h.waiting, h.counter,
        h.logsCounter, h.stopping⟩
      · have := h.balance p
        simp only [List.countP_append] at this ⊢
        change _ = _ + s.inFlight.countP p + _
        omega
      · have := h.once_new (.log entry) call
        rw [callCount_append]
        dsimp only
        omega
      · exact h.returned_mono hc (fun _ hm => hm) fun _ => List.mem_append_left _

/-! ## The steps of the writer thread -/

/-- The thread moves, and takes items from the queue or puts them back. -/
theorem Ledger.move {s : WriterSys} (h : Ledger s) {w : Writer} {loop : Loop}
    (hitems : ∀ p : Item → Bool, s.inFlight.countP p + s.writer.queue.countP p =
      (WriterSys.inFlight { s with loop := loop }).countP p + w.queue.countP p)
    (hcounter : w.obsDropped = s.writer.obsDropped)
    (hlogs : w.logsDropped = s.writer.logsDropped)
    (hstopping : (∃ batch flush, loop = .committing batch flush true) ∨
      (∃ status flush, loop = .recheck status flush true) ∨ loop = .left ∨ loop = .ended →
      w.stopping = true) : Ledger { s with writer := w, loop := loop } := by
  refine ⟨fun p => ?_, h.once, h.lost, h.returned, h.waiting, hcounter.trans h.counter,
    hlogs.trans h.logsCounter, hstopping⟩
  have := h.balance p
  have := hitems p
  change _ = _ + (WriterSys.inFlight { s with loop := loop }).countP p + _
  dsimp only
  omega

theorem Ledger.collect {s t : WriterSys} (h : Ledger s) {cfg : WriterConfig} {elapsed : ℕ → Bool}
    {due : Bool} (ht : s.collect cfg elapsed due = some t) : Ledger t := by
  unfold WriterSys.collect at ht
  split at ht
  · next batch hloop =>
    obtain rfl := Option.some.inj ht
    have hg := gather_append cfg (s.writer.flushWanted || s.writer.stopping) elapsed due
      s.writer.queue batch
    refine h.move (fun p => ?_) rfl rfl fun hst => ?_
    · have hp := congrArg (List.countP p) hg
      simp only [List.countP_append] at hp
      have hs : s.inFlight = batch := by rw [WriterSys.inFlight, hloop]
      rw [hs, ← hp]
      dsimp only
      split <;> rfl
    · split at hst <;> rcases hst with ⟨_, _, hst⟩ | ⟨_, _, hst⟩ | hst | hst <;> cases hst
  · cases ht

theorem Ledger.readFlags {s t : WriterSys} (h : Ledger s) {due : Bool}
    (ht : s.readFlags due = some t) : Ledger t := by
  unfold WriterSys.readFlags at ht
  split at ht
  · next batch hloop =>
    obtain rfl := Option.some.inj ht
    have hs : s.inFlight = batch := by rw [WriterSys.inFlight, hloop]
    refine h.move (w := s.writer) (fun p => ?_) rfl rfl fun hst => ?_
    · rw [hs]
      split
      · next hidle =>
        simp only [Bool.and_eq_true] at hidle
        rw [List.isEmpty_iff.mp hidle.1.1]
        rfl
      · rfl
    · split at hst
      · rcases hst with ⟨_, _, hst⟩ | ⟨_, _, hst⟩ | hst | hst <;> cases hst
      · rcases hst with ⟨_, _, hst⟩ | ⟨_, _, hst⟩ | hst | hst
        · injection hst
        all_goals cases hst
  · cases ht

/-- What `_commit` does, by its outcome. -/
theorem WriterSys.commit_cases {s t : WriterSys} {outcome : Outcome}
    (ht : s.commit outcome = some t) : ∃ batch flush stopping,
      s.loop = .committing batch flush stopping ∧
      ((outcome = .nothing ∧ batch = [] ∧ t = { s with loop := .recheck .ok flush stopping }) ∨
      (outcome = .committed ∧ t = { s with
        writer := { s.writer with retried := false, writes := s.writer.writes + 1 }
        loop := .recheck .ok flush stopping
        hist := { s.hist with committed := s.hist.committed ++ batch } }) ∨
      (outcome = .busy ∧ s.writer.retried = false ∧ t = { s with
        writer := { s.writer with queue := batch ++ s.writer.queue, retried := true }
        loop := .recheck .requeued flush stopping }) ∨
      ((outcome = .failed ∨ outcome = .busy ∧ s.writer.retried = true) ∧ t = { s with
        writer := s.writer.dropBatch batch
        loop := .recheck .dropped flush stopping
        hist := { s.hist with
          dropped := s.hist.dropped ++ batch
          counted := s.hist.counted ++ Item.traceCalls batch
          logsCounted := s.hist.logsCounted ++ Item.logCalls batch } })) := by
  unfold WriterSys.commit at ht
  split at ht
  · next batch flush stopping hloop =>
    refine ⟨batch, flush, stopping, hloop, ?_⟩
    cases outcome with
    | nothing =>
      by_cases hb : batch = []
      · simp only [hb, Writer.commit] at ht
        exact Or.inl ⟨rfl, hb, (Option.some.inj ht).symm⟩
      · simp [hb] at ht
    | committed =>
      simp only [Writer.commit] at ht
      exact Or.inr (Or.inl ⟨rfl, (Option.some.inj ht).symm⟩)
    | busy =>
      by_cases hr : s.writer.retried = true
      · simp only [Writer.commit, if_pos hr] at ht
        exact Or.inr (Or.inr (Or.inr ⟨Or.inr ⟨rfl, hr⟩, (Option.some.inj ht).symm⟩))
      · simp only [Writer.commit, if_neg hr] at ht
        exact Or.inr (Or.inr (Or.inl ⟨rfl, Bool.eq_false_iff.mpr hr,
          (Option.some.inj ht).symm⟩))
    | failed =>
      simp only [Writer.commit] at ht
      exact Or.inr (Or.inr (Or.inr ⟨Or.inl rfl, (Option.some.inj ht).symm⟩))
  · cases ht

/-- `_drop_batch` counts every item of the batch. -/
theorem counted_of_mem_batch {hist : History} {batch dropped : List Item} {item : Item}
    (hi : item ∈ batch) : History.Counted { hist with
      dropped := dropped
      counted := hist.counted ++ Item.traceCalls batch
      logsCounted := hist.logsCounted ++ Item.logCalls batch } item := by
  unfold History.Counted
  split
  · next ht =>
    exact List.mem_append_right _ (List.mem_map.mpr ⟨item, List.mem_filter.mpr ⟨hi, ht⟩, rfl⟩)
  · next ht =>
    exact List.mem_append_right _
      (List.mem_map.mpr ⟨item, List.mem_filter.mpr ⟨hi, by simp [ht]⟩, rfl⟩)

theorem Ledger.commit {s t : WriterSys} (h : Ledger s) {outcome : Outcome}
    (ht : s.commit outcome = some t) : Ledger t := by
  obtain ⟨batch, flush, stopping, hloop, ht⟩ := WriterSys.commit_cases ht
  have hs : s.inFlight = batch := by rw [WriterSys.inFlight, hloop]
  have hstop : ∀ {w : Writer} {status : Status}, w.stopping = s.writer.stopping →
      ((∃ b f, Loop.recheck status flush stopping = .committing b f true) ∨
      (∃ st f, Loop.recheck status flush stopping = .recheck st f true) ∨
      Loop.recheck status flush stopping = .left ∨
      Loop.recheck status flush stopping = .ended) → w.stopping = true := by
    intro w status hw hst
    rw [hw]
    rcases hst with ⟨_, _, hst⟩ | ⟨_, _, hst⟩ | hst | hst
    · cases hst
    · obtain ⟨-, -, rfl⟩ := Loop.recheck.inj hst
      exact h.stopping (Or.inl ⟨batch, flush, hloop⟩)
    all_goals cases hst
  rcases ht with ⟨-, rfl, rfl⟩ | ⟨-, rfl⟩ | ⟨-, -, rfl⟩ | ⟨-, rfl⟩
  · exact h.move (w := s.writer) (fun p => by rw [hs]; rfl) rfl rfl (hstop rfl)
  · -- committed
    refine ⟨fun p => ?_, h.once, h.lost, h.returned, h.waiting, h.counter, h.logsCounter, hstop rfl⟩
    have := h.balance p
    rw [hs] at this
    simp only [List.countP_append]
    change _ = _ + ([] : List Item).countP p + _
    rw [List.countP_nil]
    omega
  · -- requeued
    refine h.move (fun p => ?_) rfl rfl (hstop rfl)
    rw [hs]
    simp only [WriterSys.inFlight, List.countP_append, List.countP_nil]
    omega
  · -- dropped
    refine ⟨fun p => ?_, h.once, fun item hi => ?_, fun call hc => ?_, h.waiting, ?_, ?_,
      hstop rfl⟩
    · have := h.balance p
      rw [hs] at this
      simp only [List.countP_append]
      change _ = _ + ([] : List Item).countP p + s.writer.queue.countP p
      rw [List.countP_nil]
      omega
    · dsimp only at hi
      rw [List.append_assoc, List.mem_append, List.mem_append] at hi
      have hold : ∀ item ∈ s.hist.dropped ++ s.hist.evicted, History.Counted { s.hist with
          dropped := s.hist.dropped ++ batch
          counted := s.hist.counted ++ Item.traceCalls batch
          logsCounted := s.hist.logsCounted ++ Item.logCalls batch } item := fun item hi =>
        (h.lost item hi).mono (fun _ => List.mem_append_left _) fun _ => List.mem_append_left _
      rcases hi with hi | hi | hi
      · exact hold item (List.mem_append_left _ hi)
      · exact counted_of_mem_batch hi
      · exact hold item (List.mem_append_right _ hi)
    · exact h.returned_mono hc (fun _ => List.mem_append_left _) fun _ hm => hm
    · simp [dropBatch, h.counter, Item.traceCalls]
    · simp [dropBatch, h.logsCounter, Item.logCalls]

/-- What the check after `_commit` does: it may acknowledge a flush and it may
leave the loop, either only on an empty queue. -/
theorem WriterSys.recheck_cases {s t : WriterSys} (ht : s.recheck = some t) :
    ∃ status flush stopping w loop, s.loop = .recheck status flush stopping ∧
      t = { s with writer := w, loop := loop } ∧
      (w = s.writer ∨ s.writer.queue = [] ∧ flush = true ∧ status ≠ .requeued ∧
        w = { s.writer with flushWanted := false, flushAck := true }) ∧
      (loop = .collecting [] ∨ s.writer.queue = [] ∧ stopping = true ∧ loop = .left) := by
  unfold WriterSys.recheck at ht
  split at ht
  · next status flush stopping hloop =>
    refine ⟨status, flush, stopping, (s.writer.recheck status flush stopping).1,
      if (s.writer.recheck status flush stopping).2 then .left else .collecting [], hloop,
      (Option.some.inj ht).symm, ?_, ?_⟩
    · unfold Writer.recheck
      dsimp only
      split
      · next hf =>
        simp only [Bool.and_eq_true, decide_eq_true_eq] at hf
        exact Or.inr ⟨List.isEmpty_iff.mp hf.2.2, hf.1, hf.2.1, rfl⟩
      · exact Or.inl rfl
    · unfold Writer.recheck
      dsimp only
      split
      · next hl =>
        simp only [Bool.and_eq_true] at hl
        exact Or.inr ⟨List.isEmpty_iff.mp hl.2.2, hl.1, rfl⟩
      · exact Or.inl rfl
  · cases ht

theorem Ledger.recheck {s t : WriterSys} (h : Ledger s) (ht : s.recheck = some t) :
    Ledger t := by
  obtain ⟨status, flush, stopping, w, loop, hloop, rfl, hw, hl⟩ := WriterSys.recheck_cases ht
  have hs : s.inFlight = [] := by rw [WriterSys.inFlight, hloop]
  have hnone : (WriterSys.inFlight { s with writer := w, loop := loop }) = [] := by
    rcases hl with rfl | ⟨-, -, rfl⟩ <;> rfl
  have hwriter : w.queue = s.writer.queue ∧ w.obsDropped = s.writer.obsDropped ∧
      w.logsDropped = s.writer.logsDropped ∧ w.stopping = s.writer.stopping := by
    rcases hw with rfl | ⟨-, -, -, rfl⟩ <;> exact ⟨rfl, rfl, rfl, rfl⟩
  obtain ⟨hqueue, hobs, hlogs, hstop⟩ := hwriter
  refine h.move (fun p => ?_) hobs hlogs fun hst => ?_
  · rw [hs, hqueue]
    change _ = (WriterSys.inFlight { s with writer := w, loop := loop }).countP p + _
    rw [hnone]
  · rw [hstop]
    rcases hl with rfl | ⟨-, rfl, rfl⟩
    · rcases hst with ⟨_, _, hst⟩ | ⟨_, _, hst⟩ | hst | hst <;> cases hst
    · -- the thread leaves only when it has seen the stop
      exact h.stopping (Or.inr (Or.inl ⟨status, flush, hloop⟩))

theorem Ledger.finish {s t : WriterSys} (h : Ledger s) (ht : s.finish = some t) :
    Ledger t := by
  unfold WriterSys.finish at ht
  split at ht
  · next hloop =>
    obtain rfl := Option.some.inj ht
    have hs : s.inFlight = [] := by rw [WriterSys.inFlight, hloop]
    exact h.move (fun p => by rw [hs]; rfl) rfl rfl fun _ =>
      h.stopping (Or.inr (Or.inr (Or.inl hloop)))
  · cases ht

/-- Every step keeps the ledger. -/
theorem Ledger.step {cfg : WriterConfig} {s t : WriterSys} {a : WriterAct} (h : Ledger s)
    (ht : WriterSys.step cfg s a = some t) : Ledger t := by
  cases a with
  | enqueue trace => exact Option.some.inj ht ▸ h.enqueue cfg trace
  | enqueueLog entry => exact Option.some.inj ht ▸ h.enqueueLog cfg entry
  | wake i expired => exact h.wake ht
  | collect elapsed due => exact h.collect ht
  | readFlags due => exact h.readFlags ht
  | commit outcome => exact h.commit ht
  | recheck => exact h.recheck ht
  | finish => exact h.finish ht
  | stop =>
    obtain rfl := Option.some.inj ht
    exact h.move (fun _ => rfl) rfl rfl fun _ => rfl
  | flushNow =>
    obtain rfl := Option.some.inj ht
    exact h.move (fun _ => rfl) rfl rfl h.stopping

/-! ## Shutdown -/

/-- The producer that `a` wakes finds room although the thread has left its
loop. -/
def LateRoom (cfg : WriterConfig) (s : WriterSys) : WriterAct → Prop
  | .wake i _ => s.HasLeft ∧ i < s.waiting.length ∧ s.writer.queue.length < cfg.queueMax
  | _ => False

/-- Nothing is queued, and every call of `enqueue` that returned has its trace
committed once or counted. -/
structure Settled (s : WriterSys) : Prop where
  /-- the queue is empty -/
  empty : s.writer.queue = []
  /-- every call is settled -/
  calls : ∀ call ∈ s.hist.returned,
    callCount call s.hist.committed = 1 ∨ call ∈ s.hist.counted
  /-- `obs_dropped_total` counts just the counted calls -/
  counter : s.writer.obsDropped = s.hist.counted.length

/-- What shutdown relies on besides the ledger. -/
structure Drained (s : WriterSys) : Prop extends Ledger s where
  /-- the thread leaves an empty queue behind -/
  empty : s.HasLeft → s.writer.queue = []

/-- Where everything that was appended has gone, the calls are settled. -/
theorem Drained.settled {s : WriterSys} (h : Drained s) (hl : s.HasLeft) : Settled s := by
  have hempty := h.empty hl
  have hflight : s.inFlight = [] := by
    rcases hl with hl | hl <;> rw [WriterSys.inFlight, hl]
  refine ⟨hempty, fun call hc => ?_, h.counter⟩
  rcases h.returned call hc with hc | ⟨item, hi, rfl, ht⟩
  · exact Or.inr hc
  · have hcalls := h.balance fun x => x.call == item.call
    have htraces := h.balance fun x => x.call == item.call && x.isTrace
    rw [hempty, hflight, List.countP_nil] at hcalls htraces
    have honce := h.once item.call
    change callCount _ _ = callCount _ _ + callCount _ _ + callCount _ _ + _ + _ at hcalls
    by_cases hcom : callCount item.call s.hist.committed = 1
    · exact Or.inl hcom
    · -- then the trace was dropped or evicted, and counted there
      right
      have hpos : 0 < s.hist.appended.countP fun x => x.call == item.call && x.isTrace :=
        List.countP_pos_iff.mpr ⟨item, hi, by rw [beq_self_eq_true, ht]; rfl⟩
      have hle : (s.hist.committed.countP fun x => x.call == item.call && x.isTrace) ≤
          callCount item.call s.hist.committed :=
        List.countP_mono_left fun x _ hx => (Bool.and_eq_true_iff.mp hx).1
      have hlost : 0 < (s.hist.dropped ++ s.hist.evicted).countP
          fun x => x.call == item.call && x.isTrace := by
        rw [List.countP_append]
        split at honce <;> omega
      obtain ⟨x, hx, hp⟩ := List.countP_pos_iff.mp hlost
      obtain ⟨hxc, hxt⟩ := Bool.and_eq_true_iff.mp hp
      have hcounted := h.lost x hx
      rw [History.Counted, if_pos hxt, eq_of_beq hxc] at hcounted
      exact hcounted

/-- Steps of the producers leave the thread where it is. -/
theorem WriterSys.enqueue_loop (cfg : WriterConfig) (trace : Trace) (s : WriterSys) :
    (s.enqueue cfg trace).loop = s.loop := by
  unfold WriterSys.enqueue
  dsimp only
  split <;> rfl

theorem WriterSys.enqueueLog_loop (cfg : WriterConfig) (entry : LogEntry) (s : WriterSys) :
    (s.enqueueLog cfg entry).loop = s.loop := by
  unfold WriterSys.enqueueLog
  dsimp only
  split <;> rfl

/-- A wakening leaves the thread where it is, and appends only to a queue with
room. -/
theorem WriterSys.wake_loop {s t : WriterSys} {cfg : WriterConfig} {i : ℕ} {expired : Bool}
    (ht : s.wake cfg i expired = some t) : t.loop = s.loop ∧ i < s.waiting.length ∧
      (s.writer.queue.length < cfg.queueMax ∧ t.writer.queue ≠ [] ∨
        t.writer.queue = s.writer.queue) := by
  obtain ⟨item, hi, rfl⟩ := Option.map_eq_some_iff.mp ht
  have hlt : i < s.waiting.length := (List.getElem?_eq_some_iff.mp hi).1
  by_cases hfull : cfg.queueMax ≤ s.writer.queue.length
  · by_cases hend : (s.writer.stopping || expired) = true
    · simp only [waitForRoom, if_pos hfull, if_pos hend]
      exact ⟨trivial, hlt, Or.inr trivial⟩
    · simp only [waitForRoom, if_pos hfull, if_neg hend]
      exact ⟨trivial, hlt, Or.inr trivial⟩
  · simp only [waitForRoom, if_neg hfull]
    exact ⟨trivial, hlt, Or.inl ⟨Nat.lt_of_not_le hfull, by simp⟩⟩

/-- A step that is no wakening to late room keeps the queue empty once the
thread has left. -/
theorem Drained.step {cfg : WriterConfig} {s t : WriterSys} {a : WriterAct} (h : Drained s)
    (ha : ¬LateRoom cfg s a) (ht : WriterSys.step cfg s a = some t) : Drained t := by
  refine ⟨h.toLedger.step ht, fun hl => ?_⟩
  have hstop : s.HasLeft → s.writer.stopping = true := fun hs => h.stopping (Or.inr (Or.inr hs))
  cases a with
  | enqueue trace =>
    obtain rfl := Option.some.inj ht
    have hs : s.HasLeft := by
      rw [WriterSys.HasLeft, WriterSys.enqueue_loop] at hl
      exact hl
    have hrej : s.writer.enqueue cfg s.hist.calls trace = (s.writer, .rejected) := by
      rw [Writer.enqueue, if_pos (hstop hs)]
    simp only [WriterSys.enqueue, hrej]
    exact h.empty hs
  | enqueueLog entry =>
    obtain rfl := Option.some.inj ht
    have hs : s.HasLeft := by
      rw [WriterSys.HasLeft, WriterSys.enqueueLog_loop] at hl
      exact hl
    have hrej : s.writer.enqueueLog cfg s.hist.calls entry = (s.writer, .rejected) := by
      rw [Writer.enqueueLog, if_pos (hstop hs)]
    simp only [WriterSys.enqueueLog, hrej]
    exact h.empty hs
  | wake i expired =>
    obtain ⟨hloop, hi, hq⟩ := WriterSys.wake_loop ht
    have hs : s.HasLeft := by
      rw [WriterSys.HasLeft, hloop] at hl
      exact hl
    rcases hq with ⟨hroom, -⟩ | hq
    · exact absurd ⟨hs, hi, hroom⟩ ha
    · rw [hq]
      exact h.empty hs
  | collect elapsed due =>
    simp only [WriterSys.step, WriterSys.collect] at ht
    split at ht
    · obtain rfl := Option.some.inj ht
      dsimp only [WriterSys.HasLeft] at hl
      split at hl <;> rcases hl with hl | hl <;> cases hl
    · cases ht
  | readFlags due =>
    simp only [WriterSys.step, WriterSys.readFlags] at ht
    split at ht
    · obtain rfl := Option.some.inj ht
      dsimp only [WriterSys.HasLeft] at hl
      split at hl <;> rcases hl with hl | hl <;> cases hl
    · cases ht
  | commit outcome =>
    obtain ⟨_, _, _, -, ht⟩ := WriterSys.commit_cases ht
    rcases ht with ⟨-, -, rfl⟩ | ⟨-, rfl⟩ | ⟨-, -, rfl⟩ | ⟨-, rfl⟩ <;>
      rcases hl with hl | hl <;> cases hl
  | recheck =>
    obtain ⟨_, _, _, w, loop, -, rfl, hw, hloop⟩ := WriterSys.recheck_cases ht
    rcases hloop with rfl | ⟨hq, -, -⟩
    · rcases hl with hl | hl <;> cases hl
    · rcases hw with rfl | ⟨-, -, -, rfl⟩ <;> exact hq
  | finish =>
    simp only [WriterSys.step, WriterSys.finish] at ht
    split at ht
    · next hloop =>
      obtain rfl := Option.some.inj ht
      exact h.empty (Or.inl hloop)
    · cases ht
  | stop =>
    obtain rfl := Option.some.inj ht
    exact h.empty hl
  | flushNow =>
    obtain rfl := Option.some.inj ht
    exact h.empty hl

theorem Drained.init : Drained {} := ⟨Ledger.init, fun h => by rcases h with h | h <;> cases h⟩

/-- A wakening to late room leaves an item in the queue. -/
theorem LateRoom.not_settled {cfg : WriterConfig} {s t : WriterSys} {a : WriterAct}
    (ha : LateRoom cfg s a) (ht : WriterSys.step cfg s a = some t) : t.HasLeft ∧ ¬Settled t := by
  cases a with
  | wake i expired =>
    obtain ⟨hs, -, hroom⟩ := ha
    obtain ⟨item, hi, rfl⟩ := Option.map_eq_some_iff.mp ht
    simp only [waitForRoom, if_neg (Nat.not_le_of_lt hroom)]
    exact ⟨hs, fun h => absurd h.empty (by simp)⟩
  | _ => exact ha.elim

/-- **Shutdown.** Over every run: the calls are settled in every state in which
the writer thread has left its loop, if and only if no producer that was waiting
in `_wait_for_room` wakes to room after the thread has left. -/
theorem settled_iff {cfg : WriterConfig} {t : WriterSys}
    {es : List (Machine.Event WriterSys WriterAct)}
    (h : (WriterSys.machine cfg).Run {} es t) :
    (∀ e ∈ es, e.post.HasLeft → Settled e.post) ↔ ∀ e ∈ es, ¬LateRoom cfg e.pre e.act := by
  constructor
  · intro hall e he hlate
    obtain ⟨hl, hns⟩ := hlate.not_settled (h.step_of_mem e he)
    exact hns (hall e he hl)
  · intro hg e he hl
    have hinv := h.invariant (I := Drained) (G := fun s a => ¬LateRoom cfg s a)
      (fun _ _ _ hs ha hst => hs.step ha hst) Drained.init hg
    exact (hinv.2 e he).2.settled hl

/-- One slot in the queue, one row a batch. -/
def oneSlot : WriterConfig := ⟨1, 1, by decide, by decide⟩

/-- A trace of `/predict` with the given status. -/
def sampleTrace (status : ℤ) : Trace where
  id := py "00000001"
  tsStart := 100
  durationMs := 5
  route := py "/predict"
  method := py "POST"
  status := status

/-- An error trace waits for the one slot; the writer is stopped and drains the
queue; then the producer wakes. -/
def lateProducer : List WriterAct :=
  [.enqueue (sampleTrace 200), .enqueue (sampleTrace 500), .stop,
    .collect (fun _ => false) false, .readFlags false, .commit .committed, .recheck,
    .wake 0 false]

/-- The trace of the late producer stays behind, neither committed nor counted,
and its call has returned. -/
theorem late_producer_stranded : ∃ t, (WriterSys.machine oneSlot).exec {} lateProducer = some t ∧
    (WriterSys.machine oneSlot).Reachable t ∧ t.HasLeft ∧ t.writer.queue.length = 1 ∧
    1 ∈ t.hist.returned ∧ callCount 1 t.hist.committed = 0 ∧ 1 ∉ t.hist.counted ∧
    ¬Settled t := by
  refine ⟨_, rfl, ?_, Or.inl rfl, rfl, by decide, rfl, by decide, fun h => ?_⟩
  · obtain ⟨es, hes, -⟩ := Machine.Run.of_exec (M := WriterSys.machine oneSlot) (s := {})
      (l := lateProducer) rfl
    exact ⟨{}, es, rfl, hes⟩
  · cases h.empty

/-- The same shutdown without a waiting producer. -/
theorem settled_after_stop : ∃ es t, (WriterSys.machine oneSlot).Run {} es t ∧ t.HasLeft ∧
    Settled t := by
  obtain ⟨es, hes, hacts⟩ := Machine.Run.of_exec (Machine.exec_final
    (M := WriterSys.machine oneSlot) (s := {}) (l := [.enqueue (sampleTrace 200), .stop,
      .collect (fun _ => false) false, .readFlags false, .commit .committed, .recheck])
    (by decide +kernel))
  have hlate : ∀ e ∈ es, ¬LateRoom oneSlot e.pre e.act := by
    intro e he hlate
    have hmem := List.mem_map_of_mem (f := Machine.Event.act) he
    rw [hacts] at hmem
    cases hact : e.act with
    | wake i expired => simp [hact] at hmem
    | _ => rw [hact] at hlate; exact hlate
  have hall := (settled_iff hes).mpr hlate
  refine ⟨es, _, hes, Or.inl rfl, ?_⟩
  rcases hes.eq_or_post with heq | ⟨e, he, hpost⟩
  · exact absurd (congrArg WriterSys.loop heq) (by intro hne; cases hne)
  · rw [← hpost]
    exact hall e he (by rw [hpost]; exact Or.inl rfl)

end LayaWatch
