import LayaWatch.WriterSteps
import LayaWatch.Process
import LayaWatch.StreamDelivery
import LayaWatch.Lib.Line

/-!
# The writer keeps the order

The batch in the hands of the thread and the queue behind it are one line. Seen
so, a requeue is no step at all, and each step of the writer is a few changes of
the line (`WriterSys.line_steps`): it refines `Line`, whose order is kept.

`on_flush` gets the kept traces of each committed batch, so what it is given in
all is in that order too, and so are the ids of the trace events.
-/

namespace LayaWatch

open Writer

namespace WriterSys

/-- The writer as a line of items. -/
def toLine (s : WriterSys) : Line Item where
  appended := s.hist.appended
  delivered := s.hist.committed
  discarded := s.hist.dropped
  evicted := s.hist.evicted
  line := s.line

variable {cfg : WriterConfig} {s t : WriterSys}

/-- A step that leaves the line and the history of the items alone. -/
theorem toLine_eq (hline : t.line = s.line) (happended : t.hist.appended = s.hist.appended)
    (hcommitted : t.hist.committed = s.hist.committed) (hdropped : t.hist.dropped = s.hist.dropped)
    (hevicted : t.hist.evicted = s.hist.evicted) : Line.Steps s.toLine t.toLine := by
  have heq : t.toLine = s.toLine := by
    rw [toLine, hline, happended, hcommitted, hdropped, hevicted]
    rfl
  rw [heq]
  exact Line.Steps.refl _

/-- An item comes in. -/
theorem toLine_append (item : Item) (h : t.toLine = { s.toLine with
    appended := s.hist.appended ++ [item], line := s.line ++ [item] }) :
    Line.Steps s.toLine t.toLine := by
  rw [h]
  exact (Line.Step.append s.toLine item).steps

/-- Each step of the writer is a number of changes of the line. -/
theorem line_steps {a : WriterAct} (ht : step cfg s a = some t) :
    Line.Steps s.toLine t.toLine := by
  cases a with
  | enqueue trace =>
    obtain rfl := Option.some.inj ht
    rcases enqueue_cases cfg trace s with
      ⟨-, h⟩ | ⟨-, -, h⟩ | ⟨-, -, -, -, gone, left, hev, h⟩ | ⟨-, -, -, h⟩
    · rw [h]
      exact Line.Steps.refl _
    · rw [h]
      exact toLine_append ⟨s.hist.calls, .trace trace⟩ (by simp [toLine, line, inFlight])
    · -- an item is evicted for the new one
      obtain ⟨older, newer, hq, rfl, -, -⟩ := evictKeptNonError_spec hev
      have hline : s.toLine.line = (s.inFlight ++ older) ++ gone :: newer := by
        rw [toLine, line, hq, List.append_assoc]
      rw [h]
      have hend := (Line.Step.evict hline).steps.snoc
        (Line.Step.append _ ⟨s.hist.calls, .trace trace⟩)
      simpa [toLine, line, inFlight] using hend
    · rw [h]
      exact Line.Steps.refl _
  | enqueueLog entry =>
    obtain rfl := Option.some.inj ht
    rcases enqueueLog_cases cfg entry s with ⟨-, h⟩ | ⟨-, h⟩ | ⟨-, -, h⟩
    · rw [h]
      exact Line.Steps.refl _
    · rw [h]
      exact Line.Steps.refl _
    · rw [h]
      exact toLine_append ⟨s.hist.calls, .log entry⟩ (by simp [toLine, line, inFlight])
  | wake i expired =>
    obtain ⟨item, -, ⟨-, -, rfl⟩ | ⟨-, -, -, rfl⟩ | ⟨-, rfl⟩⟩ := wake_cases ht
    · exact Line.Steps.refl _
    · exact Line.Steps.refl _
    · exact toLine_append item (by simp [toLine, line, inFlight])
  | collect elapsed due =>
    obtain ⟨batch, taken, left, loop, hloop, hqueue, hnext, rfl⟩ := collect_cases ht
    refine toLine_eq ?_ rfl rfl rfl rfl
    have hs : s.inFlight = batch := by rw [inFlight, hloop]
    rw [line, line, hs, hqueue, ← List.append_assoc]
    rcases hnext with rfl | rfl <;> rfl
  | readFlags due =>
    obtain ⟨batch, hloop, hnext⟩ := readFlags_cases ht
    have hs : s.inFlight = batch := by rw [inFlight, hloop]
    rcases hnext with rfl | ⟨rfl, -, -, -, rfl⟩
    · exact toLine_eq (by rw [line, line, hs]; rfl) rfl rfl rfl rfl
    · exact toLine_eq (by rw [line, line, hs]; rfl) rfl rfl rfl rfl
  | commit outcome =>
    obtain ⟨batch, flush, stopping, hloop, h⟩ := commit_cases ht
    have hs : s.inFlight = batch := by rw [inFlight, hloop]
    have hline : s.toLine.line = batch ++ s.writer.queue := by rw [toLine, line, hs]
    rcases h with ⟨-, rfl, rfl⟩ | ⟨-, rfl⟩ | ⟨-, -, rfl⟩ | ⟨-, rfl⟩
    · exact toLine_eq (by rw [line, line, hs]; rfl) rfl rfl rfl rfl
    · exact (Line.Step.deliver hline).steps
    · -- put back in front of the queue, the batch has not left the line
      exact toLine_eq (by rw [line, line, hs]; rfl) rfl rfl rfl rfl
    · exact (Line.Step.discard hline).steps
  | recheck =>
    obtain ⟨status, flush, stopping, w, loop, hloop, rfl, hw, hnext⟩ := recheck_cases ht
    refine toLine_eq ?_ rfl rfl rfl rfl
    have hs : s.inFlight = [] := by rw [inFlight, hloop]
    have hqueue : w.queue = s.writer.queue := by
      rcases hw with rfl | ⟨-, -, -, rfl⟩ <;> rfl
    rw [line, line, hs, hqueue]
    rcases hnext with rfl | ⟨-, -, rfl⟩ <;> rfl
  | finish =>
    obtain ⟨hloop, rfl⟩ := finish_cases ht
    refine toLine_eq ?_ rfl rfl rfl rfl
    have hs : s.inFlight = [] := by rw [inFlight, hloop]
    rw [line, line, hs]
    rfl
  | stop =>
    obtain rfl := Option.some.inj ht
    exact Line.Steps.refl _
  | flushNow =>
    obtain rfl := Option.some.inj ht
    exact Line.Steps.refl _

end WriterSys

/-- What every state of a run satisfies: the ledger, and the order of the line. -/
structure InOrder (s : WriterSys) : Prop extends Ledger s where
  /-- the line is in order -/
  ordered : s.toLine.Ordered

theorem InOrder.init : InOrder {} := ⟨Ledger.init, ⟨List.Sublist.refl _, List.Perm.refl _⟩⟩

theorem InOrder.step {cfg : WriterConfig} {s t : WriterSys} {a : WriterAct} (h : InOrder s)
    (ht : WriterSys.step cfg s a = some t) : InOrder t :=
  ⟨h.toLedger.step ht, h.ordered.steps (WriterSys.line_steps ht)⟩

theorem InOrder.of_run {cfg : WriterConfig} {t : WriterSys}
    {es : List (Machine.Event WriterSys WriterAct)}
    (h : (WriterSys.machine cfg).Run {} es t) : InOrder t :=
  (h.invariant (I := InOrder) (G := fun _ _ => True) (fun _ _ _ hs _ hst => hs.step hst)
    InOrder.init fun _ _ => trivial).1

/-- No call hands in two items. -/
theorem Ledger.calls_nodup {s : WriterSys} (h : Ledger s) :
    (s.hist.appended.map Item.call).Nodup := by
  rw [List.nodup_iff_count_le_one]
  intro call
  have honce := h.once call
  have hcount : (s.hist.appended.map Item.call).count call = callCount call s.hist.appended := by
    rw [List.count, List.countP_map]
    rfl
  rw [hcount]
  split at honce <;> omega

/-! ## What `on_flush` is given -/

/-- The list that a step passes to `on_flush`, if it does: the kept traces of a
batch that has just been committed. -/
def onFlush (s : WriterSys) : WriterAct → Option (List Trace)
  | .commit .committed =>
    match s.loop with
    | .committing batch _ _ => some (keptTraces batch)
    | _ => none
  | _ => none

/-- The lists that a run passes to `on_flush`, in order. -/
def flushes (es : List (Machine.Event WriterSys WriterAct)) : List (List Trace) :=
  Machine.outputs (fun s a => (onFlush s a).toList) es

theorem keptTraces_append (l l' : List Item) :
    keptTraces (l ++ l') = keptTraces l ++ keptTraces l' := by
  rw [keptTraces, Item.traces, List.filterMap_append, List.filter_append]
  rfl

theorem keptTraces_sublist {l l' : List Item} (h : l.Sublist l') :
    (keptTraces l).Sublist (keptTraces l') := (h.filterMap _).filter _

/-- `on_flush` is called after a commit. -/
theorem onFlush_eq_some {s : WriterSys} {a : WriterAct} {kept : List Trace}
    (h : onFlush s a = some kept) : a = .commit .committed ∧ ∃ batch flush stopping,
      s.loop = .committing batch flush stopping ∧ kept = keptTraces batch := by
  unfold onFlush at h
  split at h
  · split at h
    · next batch flush stopping hloop =>
      exact ⟨rfl, batch, flush, stopping, hloop, (Option.some.inj h).symm⟩
    · cases h
  · cases h

/-- What a step passes to `on_flush` is what it adds to the committed traces. -/
theorem keptTraces_step {cfg : WriterConfig} {s t : WriterSys} {a : WriterAct}
    (ht : WriterSys.step cfg s a = some t) : keptTraces t.hist.committed =
      keptTraces s.hist.committed ++ ((onFlush s a).toList).flatten := by
  rcases hf : onFlush s a with _ | kept
  · rcases Process.committed_of_step ht with heq | ⟨rfl, batch, flush, stopping, hloop, -⟩
    · rw [heq, Option.toList_none, List.flatten_nil, List.append_nil]
    · simp only [onFlush, hloop] at hf
      cases hf
  · obtain ⟨rfl, batch, flush, stopping, hloop, rfl⟩ := onFlush_eq_some hf
    obtain ⟨batch', flush', stopping', hloop', h⟩ := WriterSys.commit_cases ht
    obtain ⟨rfl, rfl, rfl⟩ := Loop.committing.inj (hloop.symm.trans hloop')
    rcases h with ⟨hne, -, -⟩ | ⟨-, rfl⟩ | ⟨hne, -, -⟩ | ⟨hne | ⟨hne, -⟩, -⟩
    · cases hne
    · rw [keptTraces_append, Option.toList_some, List.flatten_singleton]
    all_goals cases hne

/-- The lists passed to `on_flush` are the committed kept traces, in order. -/
theorem flatten_flushes {cfg : WriterConfig} {s t : WriterSys}
    {es : List (Machine.Event WriterSys WriterAct)} (h : (WriterSys.machine cfg).Run s es t) :
    keptTraces t.hist.committed = keptTraces s.hist.committed ++ (flushes es).flatten := by
  induction h with
  | refl => simp [flushes]
  | snoc _ hstep ih =>
    rw [flushes, Machine.outputs_snoc, List.flatten_append, ← List.append_assoc]
    rw [flushes] at ih
    rw [← ih]
    exact keptTraces_step hstep

/-! ## The order of the writer -/

/-- **Order.** In every run the committed items, the batch and the queue are, in
this sequence, in the order they were appended in, each once; what is missing
from them was evicted or dropped; and `on_flush` is given the committed kept
traces in that order, so that a hub to which they are published numbers them one
by one. -/
theorem writer_in_order {cfg : WriterConfig} {t : WriterSys}
    {es : List (Machine.Event WriterSys WriterAct)} (h : (WriterSys.machine cfg).Run {} es t) :
    (t.hist.committed ++ t.inFlight ++ t.writer.queue).Sublist t.hist.appended ∧
    ((t.hist.committed ++ t.inFlight ++ t.writer.queue).map Item.call).Nodup ∧
    (∀ item, (item ∈ t.hist.appended ∧ item ∉ t.hist.committed ++ t.inFlight ++ t.writer.queue) ↔
      item ∈ t.hist.evicted ∨ item ∈ t.hist.dropped) ∧
    (flushes es).flatten = keptTraces t.hist.committed ∧
    (keptTraces t.hist.committed).Sublist (keptTraces t.hist.appended) ∧
    ∀ (T : PyText) (summary : Trace → Fields) (hub hub' : StreamHub)
      (hes : List (Machine.Event StreamHub StreamAct)), (StreamHub.machine T).Run hub hes hub' →
      (tracesOf (publishedIn hes)).map Prod.snd = (flushes es).flatten.map summary →
      tracesOf (publishedIn hes) = (List.range' hub.nextId (keptTraces t.hist.committed).length).zip
        ((keptTraces t.hist.committed).map summary) := by
  have hinv := InOrder.of_run h
  have hsub : (t.hist.committed ++ t.inFlight ++ t.writer.queue).Sublist t.hist.appended := by
    rw [List.append_assoc]
    exact hinv.ordered.sublist
  -- the flushes put out what was committed
  have hflush : keptTraces t.hist.committed = (flushes es).flatten := flatten_flushes h
  refine ⟨hsub, (hsub.map Item.call).nodup hinv.calls_nodup, fun item => ?_, hflush.symm, ?_, ?_⟩
  · rw [List.append_assoc]
    exact hinv.ordered.missing hinv.calls_nodup.of_map item
  · exact keptTraces_sublist ((List.sublist_append_left _ _).trans hinv.ordered.sublist)
  · intro T summary hub hub' hes hrun hsummaries
    rw [← hflush] at hsummaries
    have hlength : (tracesOf (publishedIn hes)).length = (keptTraces t.hist.committed).length := by
      rw [← List.length_map (f := Prod.snd), hsummaries, List.length_map]
    have hids := (ids_range hrun).2
    rw [hlength] at hids
    rw [← hids, ← hsummaries]
    exact List.zip_of_prod rfl rfl

/-- One trace evicts another; its batch is put back once and then committed. -/
def evictedAndRequeued : List WriterAct :=
  [.enqueue (sampleTrace 200), .enqueue (sampleTrace 201), .collect (fun _ => true) false,
    .readFlags false, .commit .busy, .recheck, .collect (fun _ => true) false, .readFlags false,
    .commit .committed, .recheck]

/-- There the trace that came second is the one that is published. -/
theorem evicted_and_requeued_in_order : ∃ es t, (WriterSys.machine oneSlot).Run {} es t ∧
    t.hist.appended.map Item.call = [0, 1] ∧ t.hist.committed.map Item.call = [1] ∧
    (flushes es).flatten = keptTraces t.hist.committed ∧
    (t.hist.committed ++ t.inFlight ++ t.writer.queue).Sublist t.hist.appended := by
  obtain ⟨es, hes, -⟩ := Machine.Run.of_exec (M := WriterSys.machine oneSlot) (s := {})
    (l := evictedAndRequeued) rfl
  have hall := writer_in_order hes
  exact ⟨es, _, hes, rfl, rfl, hall.2.2.2.1, hall.1⟩

end LayaWatch
