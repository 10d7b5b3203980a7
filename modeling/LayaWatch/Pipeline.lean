import LayaWatch.Atomicity
import LayaWatch.LiveClient
import LayaWatch.Order

/-!
# From the queue to the page

The writer, the hub and a page together. What the writer has committed it hands to
`_publish_flushed`, in its own thread, and the hub passes it on. So a page is shown a trace
only when its row is in the database, and in the order of the rows (`shown_is_stored`), and
every row is published once; the rows are in the order in which their traces were enqueued.

The tables here are what the writer has made of them. Who deletes from them is not here.
-/

namespace LayaWatch

open StreamHub

/-! ## What is published -/

/-- The summary that `_publish_flushed` makes of a trace. -/
def flushedSummary (trace : TraceColumns) : Fields :=
  [(py "id", .str trace.id), (py "ts_start", .float trace.tsStart),
    (py "duration_ms", .float trace.durationMs), (py "route", .str trace.route),
    (py "method", .str trace.method), (py "status", .int trace.status),
    (py "model", trace.model.elim .null .str),
    (py "route_reason", trace.routeReason.elim .null .str),
    (py "tags", .arr (trace.tags.map .str)), (py "meta", .obj trace.metadata)]

/-- The writer thread makes this step. -/
def ProcessAct.ofThread : ProcessAct → Bool
  | collect _ _ | readFlags _ | commit _ _ | recheck | finish => true
  | _ => false

/-- What a step of the process passes to `on_flush`. -/
def Process.onFlush (p : Process) (a : ProcessAct) : List Trace :=
  ((p.queueAct a).bind (LayaWatch.onFlush p.sys)).getD []

/-- The writer, the hub and a page. -/
structure Pipeline where
  /-- the writer and its database -/
  process : Process := {}
  /-- what `_publish_flushed` has still to publish -/
  flushing : List Trace := []
  /-- the hub and the page -/
  live : Live

/-- Who moves. -/
inductive PipelineAct where
  /-- the writer, or one of its callers -/
  | process (a : ProcessAct)
  /-- `_publish_flushed` goes on to its next trace -/
  | publish
  /-- the hub, another client or the page -/
  | live (a : LiveAct)

namespace Pipeline

variable (cfg : WriterConfig) (T : PyText)

/-- The steps of the three. Nobody but `_publish_flushed` publishes traces, and it does so
before the writer thread goes on. -/
def step (p : Pipeline) : PipelineAct → Option Pipeline
  | .process a =>
    if a.ofThread && !p.flushing.isEmpty then none
    else (Process.step cfg p.process a).map fun process =>
      { p with process := process, flushing := p.flushing ++ p.process.onFlush a }
  | .publish =>
    match p.flushing with
    | [] => none
    | trace :: rest =>
      (Live.step T p.live (.server (.publishTrace (flushedSummary trace.toTraceColumns)))).map
        fun live => { p with flushing := rest, live := live }
  | .live (.server (.publishTrace _)) => none
  | .live a => (Live.step T p.live a).map fun live => { p with live := live }

/-- The three from their start on. -/
def machine : Machine Pipeline PipelineAct where
  init p := (Process.machine cfg).init p.process ∧ p.flushing = [] ∧ (Live.machine T).init p.live
  step := step cfg T

/-- The step of the hub and the page in a step. -/
def liveStep (p : Pipeline) : PipelineAct → Option LiveAct
  | .process _ => none
  | .publish => p.flushing.head?.map fun trace =>
    .server (.publishTrace (flushedSummary trace.toTraceColumns))
  | .live a => some a

/-- The hub's and the page's part of a run. -/
def liveEvents (es : List (Machine.Event Pipeline PipelineAct)) :
    List (Machine.Event Live LiveAct) := Machine.partEvents Pipeline.live liveStep es

/-- The rows of `traces` that the writer has added to those of `o`. -/
def rowsSince (o p : Pipeline) : List TraceColumns :=
  (p.process.store.db.traces.drop o.process.store.db.traces.length).map TraceRow.toTraceColumns

end Pipeline

/-! ## One step -/

/-- What a step does. -/
inductive Pipeline.Moves (cfg : WriterConfig) (T : PyText) (p : Pipeline) :
    PipelineAct → Pipeline → Prop
  /-- the writer or one of its callers moves -/
  | process {a : ProcessAct} {process : Process} : Process.step cfg p.process a = some process →
      Moves cfg T p (.process a)
        { p with process := process, flushing := p.flushing ++ p.process.onFlush a }
  /-- a trace is published -/
  | publish {trace : Trace} {rest : List Trace} {live : Live} : p.flushing = trace :: rest →
      Live.step T p.live (.server (.publishTrace (flushedSummary trace.toTraceColumns))) =
        some live →
      Moves cfg T p .publish { p with flushing := rest, live := live }
  /-- the hub or the page moves, and publishes no trace -/
  | live {a : LiveAct} {live : Live} : (∀ summary, a ≠ .server (.publishTrace summary)) →
      Live.step T p.live a = some live → Moves cfg T p (.live a) { p with live := live }

section

variable {cfg : WriterConfig} {T : PyText} {o p q : Pipeline} {a : PipelineAct}
  {es : List (Machine.Event Pipeline PipelineAct)}

theorem Pipeline.moves (h : (Pipeline.machine cfg T).step p a = some q) :
    Pipeline.Moves cfg T p a q := by
  change Pipeline.step cfg T p a = some q at h
  unfold Pipeline.step at h
  split at h
  · split at h
    · cases h
    · obtain ⟨process, hprocess, rfl⟩ := Option.map_eq_some_iff.mp h
      exact .process hprocess
  · split at h
    · cases h
    · rename_i trace rest hflushing
      obtain ⟨live, hlive, rfl⟩ := Option.map_eq_some_iff.mp h
      exact .publish hflushing hlive
  · cases h
  · rename_i a hother
    obtain ⟨live, hlive, rfl⟩ := Option.map_eq_some_iff.mp h
    exact .live (fun summary hpublish => hother summary hpublish) hlive

/-- The hub's and the page's part of a run is a run of theirs. -/
theorem live_run (hrun : (Pipeline.machine cfg T).Run o es p) :
    (Live.machine T).Run o.live (Pipeline.liveEvents es) p.live := by
  refine hrun.part fun s a t hstep => ?_
  cases Pipeline.moves hstep with
  | process hprocess => rfl
  | publish hflushing hlive =>
    simp only [Pipeline.liveStep, hflushing, List.head?_cons, Option.map_some]
    exact hlive
  | live hother hlive => exact hlive

/-- The writer's part of a run is a run of the writer. -/
theorem process_run (hrun : (Pipeline.machine cfg T).Run o es p) :
    ∃ fs, (Process.machine cfg).Run o.process fs p.process :=
  ⟨_, hrun.part (N := Process.machine cfg) (f := Pipeline.process)
    (g := fun _ a => match a with
      | .process a => some a
      | _ => none) fun s a t hstep => by
    cases Pipeline.moves hstep with
    | process hprocess => exact hprocess
    | publish _ _ | live _ _ => rfl⟩

/-! ## What the writer has committed -/

/-- What a step passes to `on_flush` is what it adds to the committed traces. -/
theorem onFlush_step {p q : Process} {a : ProcessAct} (hs : Process.step cfg p a = some q) :
    keptTraces q.sys.hist.committed = keptTraces p.sys.hist.committed ++ p.onFlush a := by
  unfold Process.onFlush
  by_cases hr : p.Raises a
  · have hact : p.queueAct a = none := hr
    simp only [Process.step, hact] at hs
    obtain rfl := Option.some.inj hs
    rw [hact]
    exact (List.append_nil _).symm
  · obtain ⟨act, hact, hsys⟩ := Process.queue_step hr hs
    rw [keptTraces_step hsys, hact, Option.bind_some]
    cases LayaWatch.onFlush p.sys act with
    | none => rfl
    | some kept => rw [Option.toList_some, List.flatten_singleton, Option.getD_some]

/-- The committed traces have the rows that were added, in this order. -/
theorem stored_step {p q : Process} {a : ProcessAct} {older : List TraceColumns}
    (hs : Process.step cfg p a = some q)
    (h : p.store.db.traces.map TraceRow.toTraceColumns =
      older ++ (keptTraces p.sys.hist.committed).map Trace.toTraceColumns) :
    q.store.db.traces.map TraceRow.toTraceColumns =
      older ++ (keptTraces q.sys.hist.committed).map Trace.toTraceColumns := by
  rcases Process.step_cases hs with ⟨hstore, hcommitted⟩ |
    ⟨batch, flush, stopping, now, faults, -, -, -, hstore, hcommitted⟩
  · rw [hstore, hcommitted]
    exact h
  · rw [hstore, hcommitted, (batchEffect_commits _ _ _ _).traces, h, keptTraces_append,
      List.map_append, List.append_assoc]

/-- Committed items, and those in line behind them, are in the order in which they came in;
so also where an exception has ended the thread. -/
theorem inOrder_step {p q : Process} {a : ProcessAct} (hs : Process.step cfg p a = some q)
    (h : (p.sys.hist.committed ++ p.sys.line).Sublist p.sys.hist.appended) :
    (q.sys.hist.committed ++ q.sys.line).Sublist q.sys.hist.appended := by
  by_cases hr : p.Raises a
  · have hact : p.queueAct a = none := hr
    simp only [Process.step, hact] at hs
    obtain rfl := Option.some.inj hs
    -- the batch in hand is gone, and the queue is what it was
    exact ((List.sublist_append_right p.sys.inFlight p.sys.writer.queue).append_left _).trans h
  · obtain ⟨act, -, hsys⟩ := Process.queue_step hr hs
    exact (WriterSys.line_steps hsys).sublist h

end

/-! ## What is shown is stored -/

/-- The summaries that a run publishes. -/
def publishedSummaries (es : List (Machine.Event Pipeline PipelineAct)) : List Fields :=
  (tracesIn (Pipeline.liveEvents es)).map Prod.snd

/-- Between the writer and the hub. -/
structure InStep (o p : Pipeline) (es : List (Machine.Event Pipeline PipelineAct)) : Prop where
  /-- what is committed is published, or about to be -/
  published : publishedSummaries es ++ p.flushing.map (fun t => flushedSummary t.toTraceColumns) =
    (keptTraces p.process.sys.hist.committed).map fun t => flushedSummary t.toTraceColumns
  /-- what is committed has its rows -/
  stored : p.process.store.db.traces.map TraceRow.toTraceColumns =
    o.process.store.db.traces.map TraceRow.toTraceColumns ++
      (keptTraces p.process.sys.hist.committed).map Trace.toTraceColumns
  /-- in the order in which it was enqueued -/
  ordered : (p.process.sys.hist.committed ++ p.process.sys.line).Sublist
    p.process.sys.hist.appended

section

variable {cfg : WriterConfig} {T : PyText} {o p q : Pipeline} {a : PipelineAct}
  {es : List (Machine.Event Pipeline PipelineAct)}

/-- What a step publishes is what the step of the hub in it does. -/
theorem publishedSummaries_snoc (e : Machine.Event Pipeline PipelineAct) :
    publishedSummaries (es ++ [e]) = publishedSummaries es ++
      ((((Pipeline.liveStep e.pre e.act).bind (Live.hubStep e.pre.live)).bind
        (published e.pre.live.hub)).bind StreamEvent.ringEntry).toList.map Prod.snd := by
  rw [publishedSummaries, Pipeline.liveEvents, Machine.partEvents_snoc]
  cases Pipeline.liveStep e.pre e.act with
  | none =>
    rw [Option.map_none, Option.toList_none, List.append_nil]
    exact (List.append_nil _).symm
  | some a =>
    rw [Option.map_some, Option.toList_some, tracesIn_snoc, List.map_append, Option.bind_some]
    rfl

/-- Nobody else publishes traces. -/
theorem quiet_of_other {live : Live} {a : LiveAct}
    (hother : ∀ summary, a ≠ .server (.publishTrace summary)) :
    ((Live.hubStep live a).bind (published live.hub)).bind StreamEvent.ringEntry = none := by
  cases a with
  | server a =>
    cases a with
    | publishTrace summary => exact absurd rfl (hother summary)
    | _ => rfl
  | arrive now =>
    unfold Live.hubStep
    dsimp only
    split <;> rfl
  | _ => rfl

/-- **Every step keeps the hub in step with the writer.** -/
theorem InStep.snoc (h : InStep o p es) (hmoves : Pipeline.Moves cfg T p a q) :
    InStep o q (es ++ [⟨p, a, q⟩]) := by
  cases hmoves with
  | @process a process hprocess =>
    refine ⟨?_, stored_step hprocess h.stored, inOrder_step hprocess h.ordered⟩
    rw [publishedSummaries_snoc, onFlush_step hprocess, List.map_append, List.map_append,
      ← h.published, ← List.append_assoc]
    exact congrArg (· ++ _ ++ _) (List.append_nil _)
  | @publish trace rest live hflushing hlive =>
    refine ⟨?_, h.stored, h.ordered⟩
    rw [publishedSummaries_snoc, ← h.published]
    simp only [Pipeline.liveStep, hflushing, List.head?_cons, Option.map_some, Option.bind_some,
      Live.hubStep, List.append_assoc, List.map_cons]
    rfl
  | live hother hlive =>
    refine ⟨?_, h.stored, h.ordered⟩
    rw [publishedSummaries_snoc, ← h.published]
    simp only [Pipeline.liveStep, Option.bind_some, quiet_of_other hother, Option.toList_none,
      List.map_nil, List.append_nil]

theorem inStep_run (hinit : (Pipeline.machine cfg T).init o)
    (hrun : (Pipeline.machine cfg T).Run o es p) : InStep o p es := by
  obtain ⟨⟨hsys, -⟩, hflushing, -⟩ := hinit
  refine hrun.history (H := fun es p => InStep o p es) (G := fun _ _ => True)
    (fun es s a t h _ hstep => h.snoc (Pipeline.moves hstep)) ?_ fun _ _ => trivial
  refine ⟨?_, ?_, ?_⟩
  · rw [hflushing, hsys]
    rfl
  · rw [hsys]
    exact (List.append_nil _).symm
  · rw [hsys]
    exact List.Sublist.slnil

/-- What a page is shown, against the rows of `traces`. -/
structure Shown (o p : Pipeline) (es : List (Machine.Event Pipeline PipelineAct)) : Prop where
  /-- the older rows are untouched, and the new ones come behind them -/
  stored : p.process.store.db.traces.map TraceRow.toTraceColumns =
    o.process.store.db.traces.map TraceRow.toTraceColumns ++ o.rowsSince p
  /-- the new rows are kept traces, in the order in which these were enqueued -/
  rows : (o.rowsSince p).Sublist
    ((keptTraces p.process.sys.hist.appended).map Trace.toTraceColumns)
  /-- every one of them is published once, in this order, and after it is committed -/
  published : publishedSummaries es ++ p.flushing.map (fun t => flushedSummary t.toTraceColumns) =
    (o.rowsSince p).map flushedSummary
  /-- a page is shown a part of these, in order and each once -/
  shown : (p.live.page.traces.map Prod.snd).Sublist ((o.rowsSince p).map flushedSummary)

theorem InStep.rowsSince (h : InStep o p es) : o.rowsSince p =
    (keptTraces p.process.sys.hist.committed).map Trace.toTraceColumns := by
  have hlength : o.process.store.db.traces.length =
      (o.process.store.db.traces.map TraceRow.toTraceColumns).length := (List.length_map _).symm
  rw [Pipeline.rowsSince, List.map_drop, h.stored, hlength, List.drop_left]

/-- **What is shown is stored.** In every run of the writer, the hub, its clients and a page, a
page is shown traces whose rows are in the database by then, in the order of the rows, which is
the order in which they were enqueued. If it always comes back in time and has caught up, and
nothing waits to be published, what it was shown are the newest rows, without a gap. -/
theorem shown_is_stored (hids : ReadsIds T) (hinit : (Pipeline.machine cfg T).init o)
    (hrun : (Pipeline.machine cfg T).Run o es p) :
    Shown o p es ∧ ((∀ e ∈ es, ∀ now, e.act = .live (.arrive now) → e.pre.live.Covered) →
      p.live.CaughtUp → p.flushing = [] → p.live.page.traces.map Prod.snd <:+
        p.process.store.db.traces.map fun row => flushedSummary row.toTraceColumns) := by
  have h := inStep_run hinit hrun
  have hlive := live_run hrun
  have hsummaries : (o.rowsSince p).map flushedSummary =
      (keptTraces p.process.sys.hist.committed).map fun t => flushedSummary t.toTraceColumns := by
    rw [h.rowsSince, List.map_map]
    rfl
  refine ⟨⟨?_, ?_, ?_, ?_⟩, fun hcovered hcaught hflushing => ?_⟩
  · rw [h.rowsSince]
    exact h.stored
  · rw [h.rowsSince]
    exact (keptTraces_sublist ((List.sublist_append_left _ _).trans h.ordered)).map _
  · rw [hsummaries]
    exact h.published
  · rw [hsummaries, ← h.published]
    exact ((traces_sublist hids hinit.2.2 hlive).map Prod.snd).trans
      (List.sublist_append_left _ _)
  · have hsuffix := traces_suffix hids hinit.2.2 hlive (fun e he now hact => ?_) hcaught
    · have hall : p.process.store.db.traces.map (fun row => flushedSummary row.toTraceColumns) =
          (o.process.store.db.traces.map TraceRow.toTraceColumns).map flushedSummary ++
            publishedSummaries es := by
        have hpublished := h.published
        rw [hflushing, List.map_nil, List.append_nil] at hpublished
        rw [hpublished, ← hsummaries, h.rowsSince, ← List.map_append, ← h.stored, List.map_map]
        rfl
      rw [hall]
      exact (hsuffix.map Prod.snd).trans (List.suffix_append _ _)
    · obtain ⟨e', he', hmap⟩ := List.mem_filterMap.mp he
      obtain ⟨b, hb, rfl⟩ := Option.map_eq_some_iff.mp hmap
      obtain rfl : b = .arrive now := hact
      refine hcovered e' he' now ?_
      cases hact' : e'.act with
      | live a =>
        rw [hact'] at hb
        rw [Option.some.inj hb]
      | publish =>
        rw [hact'] at hb
        obtain ⟨_, -, hne⟩ := Option.map_eq_some_iff.mp hb
        cases hne
      | process a =>
        rw [hact'] at hb
        cases hb

end

/-! ## A trace on its way -/

/-- The three, when the program has just started. -/
def startedPipeline : Pipeline := { live := justStarted }

/-- A trace is enqueued, committed, published, and shown to a page that was there. -/
def throughPipeline : List PipelineAct :=
  [.live (.arrive 0), .live .opened, .live (.server (.head 0 0)),
    .process (.enqueue (sampleTrace 200)), .process (.collect (fun _ => false) 105),
    .process (.readFlags 105), .process (.commit 105 []), .publish, .process .recheck] ++
  [LiveAct.server (.tick 0 15), .server (.provide 0 none 15), .server (.arm 0), .server (.write 0),
    .receive, .receive].map .live

theorem throughPipeline_computed :
    ((Pipeline.machine oneSlot wholeText).exec startedPipeline throughPipeline).isSome = true := by
  decide +kernel

/-- It is shown, and it is stored. -/
theorem shown_is_stored_sample :
    let p := (Pipeline.machine oneSlot wholeText).final startedPipeline throughPipeline
    p.live.page.traces.length = 1 ∧ Shown startedPipeline p
      ((Pipeline.machine oneSlot wholeText).events startedPipeline throughPipeline) := by
  have hinit : (Pipeline.machine oneSlot wholeText).init startedPipeline :=
    ⟨⟨rfl, rfl, rfl⟩, rfl, justStarted_init⟩
  exact ⟨by decide +kernel, (shown_is_stored wholeText_readsIds hinit
    (Machine.Run.of_final throughPipeline_computed)).1⟩

end LayaWatch
