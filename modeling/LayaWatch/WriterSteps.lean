import LayaWatch.Drain

/-!
# Every way the writer's steps can go

One lemma a step, each with all the ways the step can end and what they leave.
With `WriterSys.commit_cases` and `WriterSys.recheck_cases` they say everything
the steps do, so that what follows need not look into the definitions again.
-/

namespace LayaWatch

/-- The transaction of the commit was busy to the end. -/
def WriterAct.busyCommit : WriterAct → Bool
  | .commit .busy => true
  | _ => false

namespace WriterSys

open Writer

/-- The items on their way: the batch, then the queue. -/
def line (s : WriterSys) : List Item := s.inFlight ++ s.writer.queue

variable {cfg : WriterConfig} {s t : WriterSys}

/-! ## The producers -/

/-- How a call of `enqueue` ends. -/
theorem enqueue_cases (cfg : WriterConfig) (trace : Trace) (s : WriterSys) :
    let call := s.hist.calls
    let item : Item := ⟨call, .trace trace⟩
    let sampledOut := if isKept trace then [] else [call]
    let obsDropped := s.writer.obsDropped + if isKept trace then 0 else 1
    (s.writer.stopping = true ∧
      s.enqueue cfg trace = { s with hist := { s.hist with calls := call + 1 } }) ∨
    (s.writer.stopping = false ∧ s.writer.queue.length < cfg.queueMax ∧
      s.enqueue cfg trace = { s with
        writer := { s.writer with obsDropped := obsDropped, queue := s.writer.queue ++ [item] }
        hist := { s.hist with
          calls := call + 1
          returned := s.hist.returned ++ [call]
          counted := s.hist.counted ++ sampledOut
          appended := s.hist.appended ++ [item] } }) ∨
    (s.writer.stopping = false ∧ cfg.queueMax ≤ s.writer.queue.length ∧
      isKept trace = true ∧ isError trace = false ∧
      ∃ gone left, evictKeptNonError s.writer.queue = some (gone, left) ∧
        s.enqueue cfg trace = { s with
          writer := { s.writer with
            obsDropped := s.writer.obsDropped + 1
            queue := left ++ [item] }
          hist := { s.hist with
            calls := call + 1
            returned := s.hist.returned ++ [call]
            counted := s.hist.counted ++ [gone.call]
            appended := s.hist.appended ++ [item]
            evicted := s.hist.evicted ++ [gone] } }) ∨
    (s.writer.stopping = false ∧ cfg.queueMax ≤ s.writer.queue.length ∧
      (isKept trace = true → isError trace = false → evictKeptNonError s.writer.queue = none) ∧
      s.enqueue cfg trace = { s with
        writer := { s.writer with obsDropped := obsDropped }
        waiting := s.waiting ++ [item]
        hist := { s.hist with
          calls := call + 1
          counted := s.hist.counted ++ sampledOut } }) := by
  dsimp only
  by_cases hs : s.writer.stopping = true
  · exact Or.inl ⟨hs, by simp [WriterSys.enqueue, Writer.enqueue, hs]⟩
  · right
    have hs' : s.writer.stopping = false := Bool.eq_false_iff.mpr hs
    by_cases hfull : cfg.queueMax ≤ s.writer.queue.length
    · right
      by_cases hk : isKept trace = true
      · by_cases he : isError trace = true
        · refine Or.inr ⟨hs', hfull, fun _ hne => ?_, ?_⟩
          · rw [he] at hne
            cases hne
          · simp [WriterSys.enqueue, Writer.enqueue, if_neg hs, hfull, hk, he]
        · have he' : isError trace = false := Bool.eq_false_iff.mpr he
          rcases hev : evictKeptNonError s.writer.queue with _ | ⟨gone, left⟩
          · refine Or.inr ⟨hs', hfull, fun _ _ => rfl, ?_⟩
            simp [WriterSys.enqueue, Writer.enqueue, if_neg hs, hfull, hk, he, hev]
          · refine Or.inl ⟨hs', hfull, hk, he', gone, left, rfl, ?_⟩
            simp [WriterSys.enqueue, Writer.enqueue, if_neg hs, hfull, hk, he, hev]
      · refine Or.inr ⟨hs', hfull, fun hkept => absurd hkept hk, ?_⟩
        simp [WriterSys.enqueue, Writer.enqueue, hs, hfull, hk]
    · refine Or.inl ⟨hs', Nat.lt_of_not_le hfull, ?_⟩
      by_cases hk : isKept trace = true <;>
        simp [WriterSys.enqueue, Writer.enqueue, hs, hfull, hk]

/-- How a wakening in `_wait_for_room` ends: the wait is given up, or it goes on,
or there is room. -/
theorem wake_cases {i : ℕ} {expired : Bool} (ht : s.wake cfg i expired = some t) :
    ∃ item, s.waiting[i]? = some item ∧
      ((cfg.queueMax ≤ s.writer.queue.length ∧ (s.writer.stopping = true ∨ expired = true) ∧
        t = { s with
          writer := { s.writer with obsDropped := s.writer.obsDropped + 1 }
          waiting := s.waiting.eraseIdx i
          hist := { s.hist with
            returned := s.hist.returned ++ [item.call]
            counted := s.hist.counted ++ [item.call] } }) ∨
      (cfg.queueMax ≤ s.writer.queue.length ∧ s.writer.stopping = false ∧ expired = false ∧
        t = s) ∨
      (s.writer.queue.length < cfg.queueMax ∧ t = { s with
        writer := { s.writer with queue := s.writer.queue ++ [item] }
        waiting := s.waiting.eraseIdx i
        hist := { s.hist with
          returned := s.hist.returned ++ [item.call]
          appended := s.hist.appended ++ [item] } })) := by
  obtain ⟨item, hi, rfl⟩ := Option.map_eq_some_iff.mp ht
  refine ⟨item, hi, ?_⟩
  by_cases hfull : cfg.queueMax ≤ s.writer.queue.length
  · by_cases hend : (s.writer.stopping || expired) = true
    · refine Or.inl ⟨hfull, Bool.or_eq_true_iff.mp hend, ?_⟩
      simp only [waitForRoom, if_pos hfull, if_pos hend]
    · have hwait : s.writer.stopping = false ∧ expired = false :=
        Bool.or_eq_false_iff.mp (Bool.eq_false_iff.mpr hend)
      refine Or.inr (Or.inl ⟨hfull, hwait.1, hwait.2, ?_⟩)
      simp only [waitForRoom, if_pos hfull, if_neg hend]
  · refine Or.inr (Or.inr ⟨Nat.lt_of_not_le hfull, ?_⟩)
    simp only [waitForRoom, if_neg hfull]

/-- How a call of `enqueue_log` ends. -/
theorem enqueueLog_cases (cfg : WriterConfig) (entry : LogEntry) (s : WriterSys) :
    let call := s.hist.calls
    (s.writer.stopping = true ∧
      s.enqueueLog cfg entry = { s with hist := { s.hist with calls := call + 1 } }) ∨
    (cfg.queueMax ≤ s.writer.queue.length ∧ s.enqueueLog cfg entry = { s with
        writer := { s.writer with logsDropped := s.writer.logsDropped + 1 }
        hist := { s.hist with
          calls := call + 1
          logsCounted := s.hist.logsCounted ++ [call] } }) ∨
    (s.writer.stopping = false ∧ s.writer.queue.length < cfg.queueMax ∧
      s.enqueueLog cfg entry = { s with
        writer := { s.writer with queue := s.writer.queue ++ [⟨call, .log entry⟩] }
        hist := { s.hist with
          calls := call + 1
          appended := s.hist.appended ++ [⟨call, .log entry⟩] } }) := by
  dsimp only
  by_cases hs : s.writer.stopping = true
  · refine Or.inl ⟨hs, ?_⟩
    simp only [WriterSys.enqueueLog, Writer.enqueueLog, if_pos hs]
  · by_cases hfull : cfg.queueMax ≤ s.writer.queue.length
    · refine Or.inr (Or.inl ⟨hfull, ?_⟩)
      simp only [WriterSys.enqueueLog, Writer.enqueueLog, if_neg hs, if_pos hfull]
    · refine Or.inr (Or.inr ⟨Bool.eq_false_iff.mpr hs, Nat.lt_of_not_le hfull, ?_⟩)
      simp only [WriterSys.enqueueLog, Writer.enqueueLog, if_neg hs, if_neg hfull]

/-! ## The writer thread -/

/-- `_collect` takes a part of the queue from its front, and adds it to the
batch. -/
theorem gather_takes (cfg : WriterConfig) (draining : Bool) (elapsed : ℕ → Bool) (due : Bool)
    (queue : List Item) : ∀ batch : List Item, ∃ taken left returns,
      gather cfg draining elapsed due queue batch = (left, batch ++ taken, returns) ∧
      queue = taken ++ left := by
  induction queue with
  | nil =>
    intro batch
    by_cases hb : batch.isEmpty = true
    · refine ⟨[], [], draining || due, ?_, rfl⟩
      rw [gather, if_pos hb, List.isEmpty_iff.mp hb]
      rfl
    · refine ⟨[], [], draining || elapsed batch.length, ?_, rfl⟩
      rw [gather, if_neg hb, List.append_nil]
  | cons item rest ih =>
    intro batch
    by_cases hwindow : (!batch.isEmpty && !draining && elapsed batch.length) = true
    · refine ⟨[], item :: rest, true, ?_, rfl⟩
      rw [gather, if_pos hwindow, List.append_nil]
    · by_cases hrows : cfg.batchRows ≤ batch.length + 1
      · refine ⟨[item], rest, true, ?_, rfl⟩
        rw [gather, if_neg hwindow, if_pos hrows]
      · obtain ⟨taken, left, returns, hgather, hqueue⟩ := ih (batch ++ [item])
        refine ⟨item :: taken, left, returns, ?_, by rw [hqueue, List.cons_append]⟩
        rw [gather, if_neg hwindow, if_neg hrows, hgather, List.append_assoc,
          List.singleton_append]

/-- A stay of `_collect` moves items from the front of the queue to the batch. -/
theorem collect_cases {elapsed : ℕ → Bool} {due : Bool}
    (ht : s.collect cfg elapsed due = some t) : ∃ batch taken left loop,
      s.loop = .collecting batch ∧ s.writer.queue = taken ++ left ∧
      (loop = .collected (batch ++ taken) ∨ loop = .collecting (batch ++ taken)) ∧
      t = { s with writer := { s.writer with queue := left }, loop := loop } := by
  unfold WriterSys.collect at ht
  split at ht
  · next batch hloop =>
    obtain ⟨taken, left, returns, hgather, hqueue⟩ := gather_takes cfg
      (s.writer.flushWanted || s.writer.stopping) elapsed due s.writer.queue batch
    simp only [hgather] at ht
    refine ⟨batch, taken, left, _, hloop, hqueue, ?_, (Option.some.inj ht).symm⟩
    cases returns with
    | true => exact Or.inl rfl
    | false => exact Or.inr rfl
  · cases ht

/-- After the flags are read, `_commit` comes, or the thread was idle. -/
theorem readFlags_cases {due : Bool} (ht : s.readFlags due = some t) : ∃ batch,
    s.loop = .collected batch ∧
    (t = { s with loop := .committing batch s.writer.flushWanted s.writer.stopping } ∨
      batch = [] ∧ s.writer.flushWanted = false ∧ s.writer.stopping = false ∧ due = false ∧
        t = { s with loop := .collecting [] }) := by
  unfold WriterSys.readFlags at ht
  split at ht
  · next batch hloop =>
    refine ⟨batch, hloop, ?_⟩
    obtain rfl := Option.some.inj ht
    split
    · next hidle =>
      simp only [Bool.and_eq_true, Bool.not_eq_true', Bool.or_eq_false_iff] at hidle
      obtain ⟨⟨hb, hf, hst⟩, hd⟩ := hidle
      exact Or.inr ⟨List.isEmpty_iff.mp hb, hf, hst, hd, rfl⟩
    · exact Or.inl rfl
  · cases ht

theorem finish_cases (ht : s.finish = some t) :
    s.loop = .left ∧ t = { s with writer := s.writer.finish, loop := .ended } := by
  unfold WriterSys.finish at ht
  split at ht
  · next hloop => exact ⟨hloop, (Option.some.inj ht).symm⟩
  · cases ht

end WriterSys

end LayaWatch
