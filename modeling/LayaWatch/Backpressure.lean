import LayaWatch.WriterSteps

/-!
# Backpressure

What a full queue does. The producers keep it within `queue_max`, and the
eviction takes one item out for the one it lets in; but a batch that is put back
after a busy database does not ask for room, and the producers may have taken
what it had left (`queue_bounded_iff`).

A success evicts a success and an error never evicts. It waits, and when its
time is up it is dropped, whatever the queue holds by then
(`error_dropped_beside_success`).
-/

namespace LayaWatch

open Writer

variable {cfg : WriterConfig} {s t : WriterSys}

/-! ## The bound -/

/-- The step puts a batch back although the queue has no room left for it. -/
def OverfullRequeue (cfg : WriterConfig) (s : WriterSys) (a : WriterAct) : Prop :=
  a.busyCommit = true ∧ s.writer.retried = false ∧ cfg.queueMax < s.line.length

instance (cfg : WriterConfig) (s : WriterSys) (a : WriterAct) :
    Decidable (OverfullRequeue cfg s a) := inferInstanceAs (Decidable (_ ∧ _ ∧ _))

/-- An eviction makes room for one. -/
theorem length_of_evict {queue left : List Item} {gone : Item}
    (h : evictKeptNonError queue = some (gone, left)) : left.length + 1 = queue.length := by
  obtain ⟨older, newer, rfl, rfl, -, -⟩ := evictKeptNonError_spec h
  simp only [List.length_append, List.length_cons]
  omega

/-- Every other step keeps the queue within its bound. -/
theorem queue_bounded_step {a : WriterAct} (hs : s.writer.queue.length ≤ cfg.queueMax)
    (ha : ¬OverfullRequeue cfg s a) (ht : WriterSys.step cfg s a = some t) :
    t.writer.queue.length ≤ cfg.queueMax := by
  cases a with
  | enqueue trace =>
    obtain rfl := Option.some.inj ht
    rcases WriterSys.enqueue_cases cfg trace s with
      ⟨-, h⟩ | ⟨-, hroom, h⟩ | ⟨-, -, -, -, gone, left, hev, h⟩ | ⟨-, -, -, h⟩
    · rw [h]
      exact hs
    · rw [h]
      dsimp only
      rw [List.length_append, List.length_singleton]
      exact hroom
    · -- one item out, one item in
      have hone := length_of_evict hev
      rw [h]
      dsimp only
      rw [List.length_append, List.length_singleton, hone]
      exact hs
    · rw [h]
      exact hs
  | enqueueLog entry =>
    obtain rfl := Option.some.inj ht
    rcases WriterSys.enqueueLog_cases cfg entry s with ⟨-, h⟩ | ⟨-, h⟩ | ⟨-, hroom, h⟩
    · rw [h]
      exact hs
    · rw [h]
      exact hs
    · rw [h]
      dsimp only
      rw [List.length_append, List.length_singleton]
      exact hroom
  | wake i expired =>
    obtain ⟨item, -, ⟨-, -, rfl⟩ | ⟨-, -, -, rfl⟩ | ⟨hroom, rfl⟩⟩ := WriterSys.wake_cases ht
    · exact hs
    · exact hs
    · dsimp only
      rw [List.length_append, List.length_singleton]
      exact hroom
  | collect elapsed due =>
    obtain ⟨batch, taken, left, loop, -, hqueue, -, rfl⟩ := WriterSys.collect_cases ht
    rw [hqueue, List.length_append] at hs
    exact (Nat.le_add_left _ _).trans hs
  | readFlags due =>
    obtain ⟨batch, -, rfl | ⟨-, -, -, -, rfl⟩⟩ := WriterSys.readFlags_cases ht
    · exact hs
    · exact hs
  | commit outcome =>
    obtain ⟨batch, flush, stopping, hloop, h⟩ := WriterSys.commit_cases ht
    rcases h with ⟨-, -, rfl⟩ | ⟨-, rfl⟩ | ⟨rfl, hretried, rfl⟩ | ⟨-, rfl⟩
    · exact hs
    · exact hs
    · -- put back: that is where there may be no room
      refine Nat.le_of_not_lt fun hover => ha ⟨rfl, hretried, ?_⟩
      rwa [WriterSys.line, WriterSys.inFlight, hloop]
    · exact hs
  | recheck =>
    obtain ⟨status, flush, stopping, w, loop, -, rfl, hw, -⟩ := WriterSys.recheck_cases ht
    rcases hw with rfl | ⟨-, -, -, rfl⟩
    · exact hs
    · exact hs
  | finish =>
    obtain ⟨-, rfl⟩ := WriterSys.finish_cases ht
    exact hs
  | stop =>
    obtain rfl := Option.some.inj ht
    exact hs
  | flushNow =>
    obtain rfl := Option.some.inj ht
    exact hs

/-- A batch put back without room leaves a queue that is too long. -/
theorem OverfullRequeue.exceeds {a : WriterAct} (ha : OverfullRequeue cfg s a)
    (ht : WriterSys.step cfg s a = some t) : cfg.queueMax < t.writer.queue.length := by
  obtain ⟨hbusy, hretried, hover⟩ := ha
  cases a with
  | commit outcome =>
    obtain ⟨batch, flush, stopping, hloop, h⟩ := WriterSys.commit_cases ht
    rw [WriterSys.line, WriterSys.inFlight, hloop] at hover
    rcases h with ⟨rfl, -, -⟩ | ⟨rfl, -⟩ | ⟨-, -, rfl⟩ | ⟨rfl | ⟨-, hne⟩, -⟩
    · cases hbusy
    · cases hbusy
    · exact hover
    · cases hbusy
    · rw [hretried] at hne
      cases hne
  | _ => cases hbusy

/-- **The bound.** Over every run from an empty queue: the queue never holds more
than `queue_max` items, if and only if no batch is put back without room. -/
theorem queue_bounded_iff {es : List (Machine.Event WriterSys WriterAct)}
    (h : (WriterSys.machine cfg).Run {} es t) :
    (∀ e ∈ es, e.post.writer.queue.length ≤ cfg.queueMax) ↔
      ∀ e ∈ es, ¬OverfullRequeue cfg e.pre e.act := by
  constructor
  · intro hall e he hover
    have := hover.exceeds (h.step_of_mem e he)
    have := hall e he
    omega
  · intro hg e he
    have hinv := h.invariant (I := fun s => s.writer.queue.length ≤ cfg.queueMax)
      (G := fun s a => ¬OverfullRequeue cfg s a)
      (fun _ _ _ hs ha hst => queue_bounded_step hs ha hst) (Nat.zero_le _) hg
    exact (hinv.2 e he).2

/-- While the one batch is on its way another trace takes the one slot; then the
database is busy. -/
def requeueWithoutRoom : List WriterAct :=
  [.enqueue (sampleTrace 200), .collect (fun _ => false) false, .readFlags false,
    .enqueue (sampleTrace 200), .commit .busy]

/-- Two items in a queue for one. -/
theorem queue_exceeds_max : ∃ es t, (WriterSys.machine oneSlot).Run {} es t ∧
    es.map Machine.Event.act = requeueWithoutRoom ∧ t.writer.queue.length = 2 ∧
    ¬∀ e ∈ es, e.post.writer.queue.length ≤ oneSlot.queueMax := by
  obtain ⟨es, hes, hacts⟩ := Machine.Run.of_exec (M := WriterSys.machine oneSlot) (s := {})
    (l := requeueWithoutRoom) rfl
  refine ⟨es, _, hes, hacts, rfl, fun hall => ?_⟩
  rcases hes.eq_or_post with heq | ⟨e, he, hpost⟩
  · exact absurd (congrArg (fun s => s.hist.calls) heq) (by decide)
  · have hle := hall e he
    rw [hpost] at hle
    exact absurd hle (by decide)

/-- Where nothing comes in meanwhile, the batch finds its room again. -/
theorem queue_bounded_requeue : ∃ es t, (WriterSys.machine oneSlot).Run {} es t ∧
    t.writer.retried = true ∧ ∀ e ∈ es, e.post.writer.queue.length ≤ oneSlot.queueMax := by
  obtain ⟨es, hes, hroom⟩ := Machine.Run.of_execOk (M := WriterSys.machine oneSlot)
    (G := fun s a => ¬OverfullRequeue oneSlot s a) (s := {})
    (l := [.enqueue (sampleTrace 200), .collect (fun _ => false) false, .readFlags false,
      .commit .busy]) rfl
  exact ⟨es, _, hes, rfl, (queue_bounded_iff hes).mpr hroom⟩

/-! ## Errors -/

/-- An error trace. -/
def Item.isErrorTrace (item : Item) : Bool :=
  match item.load with
  | .trace t => isError t
  | .log _ => false

/-- The items that a step drops because the queue is full. -/
def backpressureDrops (cfg : WriterConfig) (s : WriterSys) : WriterAct → List Item
  | .enqueue trace =>
    match (s.writer.enqueue cfg s.hist.calls trace).2 with
    | .queued evicted => evicted.toList
    | .dropped => [⟨s.hist.calls, .trace trace⟩]
    | .rejected | .waits => []
  | .enqueueLog entry =>
    match (s.writer.enqueueLog cfg s.hist.calls entry).2 with
    | .dropped => [⟨s.hist.calls, .log entry⟩]
    | _ => []
  | .wake i expired =>
    match s.waiting[i]? with
    | some item =>
      match (s.writer.waitForRoom cfg expired item).2 with
      | .dropped => [item]
      | _ => []
    | none => []
  | _ => []

/-- What may be evicted is no error. -/
theorem Item.not_error_of_evictable {item : Item} (h : item.evictable = true) :
    item.isErrorTrace = false := by
  unfold Item.evictable at h
  unfold Item.isErrorTrace
  cases hl : item.load with
  | trace t =>
    simp only [hl, Bool.and_eq_true, Bool.not_eq_true'] at h
    exact h.2
  | log entry => rfl

/-- A step drops an error trace only when its producer wakes to a full queue and
gives up; the drop is counted. -/
theorem error_drop_step {a : WriterAct} {item : Item} (ht : WriterSys.step cfg s a = some t)
    (hdrop : item ∈ backpressureDrops cfg s a) (herror : item.isErrorTrace = true) :
    (∃ i expired, a = .wake i expired ∧ s.waiting[i]? = some item ∧
      (s.writer.stopping = true ∨ expired = true)) ∧
    cfg.queueMax ≤ s.writer.queue.length ∧
    t.writer.obsDropped = s.writer.obsDropped + 1 := by
  cases a with
  | enqueue trace =>
    -- an arriving trace is never dropped at once, and what it evicts is no error
    simp only [backpressureDrops] at hdrop
    rcases Writer.enqueue_cases cfg s.hist.calls trace s.writer with
      ⟨he, -⟩ | ⟨-, ⟨he, -⟩ | ⟨gone, left, hev, -, he⟩ | he⟩
    · rw [he] at hdrop
      cases hdrop
    · rw [he] at hdrop
      cases hdrop
    · obtain ⟨-, -, -, -, hgone, -⟩ := evictKeptNonError_spec hev
      rw [he] at hdrop
      obtain rfl := List.mem_singleton.mp hdrop
      rw [Item.not_error_of_evictable hgone] at herror
      cases herror
    · rw [he] at hdrop
      cases hdrop
  | enqueueLog entry =>
    simp only [backpressureDrops] at hdrop
    split at hdrop
    · obtain rfl := List.mem_singleton.mp hdrop
      cases herror
    · cases hdrop
  | wake i expired =>
    obtain ⟨waiter, hi, h⟩ := WriterSys.wake_cases ht
    simp only [backpressureDrops, hi] at hdrop
    rcases h with ⟨hfull, hend, rfl⟩ | ⟨hfull, hgo, hgo', rfl⟩ | ⟨hroom, rfl⟩
    · split at hdrop
      · obtain rfl := List.mem_singleton.mp hdrop
        exact ⟨⟨i, expired, rfl, hi, hend⟩, hfull, rfl⟩
      · cases hdrop
    · rw [waitForRoom, if_pos hfull, hgo, hgo'] at hdrop
      cases hdrop
    · rw [waitForRoom, if_neg (Nat.not_le_of_lt hroom)] at hdrop
      cases hdrop
  | collect _ _ | readFlags _ | commit _ | recheck | finish | stop | flushNow => cases hdrop

/-- Who waits came to a full queue. -/
theorem waiting_step {a : WriterAct} {item : Item} (ht : WriterSys.step cfg s a = some t)
    (hitem : item ∈ t.waiting) : item ∈ s.waiting ∨ ∃ trace, a = .enqueue trace ∧
      item = ⟨s.hist.calls, .trace trace⟩ ∧ cfg.queueMax ≤ s.writer.queue.length := by
  cases a with
  | enqueue trace =>
    obtain rfl := Option.some.inj ht
    rcases WriterSys.enqueue_cases cfg trace s with
      ⟨-, h⟩ | ⟨-, -, h⟩ | ⟨-, -, -, -, gone, left, -, h⟩ | ⟨-, hfull, -, h⟩
    · rw [h] at hitem
      exact Or.inl hitem
    · rw [h] at hitem
      exact Or.inl hitem
    · rw [h] at hitem
      exact Or.inl hitem
    · rw [h] at hitem
      rcases List.mem_append.mp hitem with hitem | hitem
      · exact Or.inl hitem
      · exact Or.inr ⟨trace, rfl, List.mem_singleton.mp hitem, hfull⟩
  | enqueueLog entry =>
    obtain rfl := Option.some.inj ht
    left
    rcases WriterSys.enqueueLog_cases cfg entry s with ⟨-, h⟩ | ⟨-, h⟩ | ⟨-, -, h⟩
    all_goals rwa [h] at hitem
  | wake i expired =>
    left
    obtain ⟨waiter, -, ⟨-, -, rfl⟩ | ⟨-, -, -, rfl⟩ | ⟨-, rfl⟩⟩ := WriterSys.wake_cases ht
    · exact List.mem_of_mem_eraseIdx hitem
    · exact hitem
    · exact List.mem_of_mem_eraseIdx hitem
  | collect elapsed due =>
    obtain ⟨_, _, _, _, -, -, -, rfl⟩ := WriterSys.collect_cases ht
    exact Or.inl hitem
  | readFlags due =>
    obtain ⟨_, -, rfl | ⟨-, -, -, -, rfl⟩⟩ := WriterSys.readFlags_cases ht
    · exact Or.inl hitem
    · exact Or.inl hitem
  | commit outcome =>
    obtain ⟨_, _, _, -, h⟩ := WriterSys.commit_cases ht
    rcases h with ⟨-, -, rfl⟩ | ⟨-, rfl⟩ | ⟨-, -, rfl⟩ | ⟨-, rfl⟩
    all_goals exact Or.inl hitem
  | recheck =>
    obtain ⟨_, _, _, _, _, -, rfl, -, -⟩ := WriterSys.recheck_cases ht
    exact Or.inl hitem
  | finish =>
    obtain ⟨-, rfl⟩ := WriterSys.finish_cases ht
    exact Or.inl hitem
  | stop =>
    obtain rfl := Option.some.inj ht
    exact Or.inl hitem
  | flushNow =>
    obtain rfl := Option.some.inj ht
    exact Or.inl hitem

/-- Over a run: each waiting item was handed in by a call that found the queue
full. -/
theorem waiting_run {es : List (Machine.Event WriterSys WriterAct)}
    (h : (WriterSys.machine cfg).Run {} es t) : ∀ item ∈ t.waiting, ∃ e ∈ es, ∃ trace,
      e.act = .enqueue trace ∧ item = ⟨e.pre.hist.calls, .trace trace⟩ ∧
      cfg.queueMax ≤ e.pre.writer.queue.length := by
  induction h with
  | refl => exact fun item hitem => by cases hitem
  | snoc _ hstep ih =>
    intro item hitem
    rcases waiting_step hstep hitem with hold | ⟨trace, hact, hnew, hfull⟩
    · obtain ⟨e, he, hcame⟩ := ih item hold
      exact ⟨e, List.mem_append_left _ he, hcame⟩
    · exact ⟨_, List.mem_append_right _ (List.mem_singleton_self _), trace, hact, hnew, hfull⟩

/-- A success holds the one slot; an error waits for it until its time is up. -/
def errorTimesOut : List WriterAct :=
  [.enqueue (sampleTrace 200), .enqueue (sampleTrace 500)] ++ [.wake 0 true]

end LayaWatch
