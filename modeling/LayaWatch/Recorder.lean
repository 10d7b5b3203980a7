import LayaWatch.Schema
import LayaWatch.Http
import LayaWatch.JsonText
import LayaWatch.Lib.Prog

/-!
# The recorder

`obs/vocabulary.py` and `obs/recorder.py`: the span vocabulary, one in-flight
trace (`Context`), and `finish`, which samples it, keeps it in the ring and
delivers it. What a reading of the clock, a token and a random draw give is up
to the environment (`Ambient`). A payload stands as what `_capture` makes of it.

`finish` is where the promises of the recorder lie: a trace that was not yet
finished is delivered (`finish_delivers`), and finishing once more does nothing
(`finish_twice`).
-/

namespace LayaWatch

/-! ## Exceptions -/

/-- What the request path may raise. -/
inductive Exc where
  /-- an `HttpError` -/
  | http (e : HttpError)
  /-- another `Exception`, with its text -/
  | exception (text : List Piece)
  /-- a `BaseException` that is no `Exception` -/
  | exit

/-! ## Vocabulary -/

/-- The type of an observation. -/
inductive EntryType where
  /-- timed work -/
  | span
  /-- a timed forward pass -/
  | generation
  /-- an instant -/
  | event
  deriving DecidableEq, Repr

/-- The column text of an observation type. -/
def EntryType.column : EntryType → PyStr
  | .span => py "span"
  | .generation => py "generation"
  | .event => py "event"

/-- The type an attribute must have. -/
inductive AttrType where
  /-- `str` -/
  | str
  /-- `int` -/
  | int
  /-- `bool` -/
  | bool
  /-- `float` -/
  | float
  deriving DecidableEq, Repr

/-- The name of an attribute type. -/
def AttrType.name : AttrType → PyStr
  | .str => py "str"
  | .int => py "int"
  | .bool => py "bool"
  | .float => py "float"

/-- `SpanSpec`, with the observation type. -/
structure SpanSpec where
  /-- observation type -/
  type : EntryType
  /-- attribute schema -/
  attrs : List (PyStr × AttrType)
  /-- whether the observation starts with status `ok` -/
  status : Bool

/-- `_TABLE`. -/
def vocabulary : List (PyStr × SpanSpec) := [
  (py "http.receive", ⟨.span, [(py "method", .str), (py "path", .str), (py "remote", .str),
    (py "content_length", .int)], true⟩),
  (py "auth.verify", ⟨.span, [(py "scheme", .str), (py "key_id", .str), (py "ok", .bool)], true⟩),
  (py "body.parse", ⟨.span, [(py "state_bytes", .int), (py "question_count", .int),
    (py "model_param", .str), (py "lang_param", .str)], true⟩),
  (py "lang.detect", ⟨.span, [(py "lang", .str), (py "confidence", .float)], true⟩),
  (py "route.decide", ⟨.span, [(py "model", .str), (py "reason", .str),
    (py "typed_workflow", .bool)], true⟩),
  (py "queue.wait", ⟨.span, [(py "depth_at_acquire", .int)], true⟩),
  (py "model.load", ⟨.span, [(py "model", .str), (py "from", .str), (py "bytes", .int)], true⟩),
  (py "forward", ⟨.generation, [(py "model", .str), (py "questions", .int),
    (py "temperature", .float), (py "device", .str)], true⟩),
  (py "serialize", ⟨.span, [(py "answers", .int), (py "bytes", .int)], true⟩),
  (py "response.send", ⟨.span, [(py "status", .int), (py "bytes", .int)], true⟩),
  (py "error", ⟨.event, [(py "code", .str), (py "message", .str), (py "where", .str)], false⟩),
  (py "payload", ⟨.event, [], true⟩)]

/-- `spec`. -/
def spec (name : PyStr) : Except Exc SpanSpec :=
  match vocabulary.lookup name with
  | some entry => .ok entry
  | none => .error (.exception [.text (py "unknown span name "), .repr name])

/-- The name of the type of a value. -/
def typeName : Json → PyStr
  | .null => py "NoneType"
  | .bool _ => py "bool"
  | .int _ => py "int"
  | .float _ => py "float"
  | .str _ => py "str"
  | .arr _ => py "list"
  | .obj _ => py "dict"

/-- `_coerce`. -/
def coerce (name key : PyStr) (value : Json) (expected : AttrType) : Except Exc Json :=
  match expected, value with
  | .float, .int n => .ok (.float n)
  | .float, .float x => .ok (.float x)
  | .int, .int n => .ok (.int n)
  | .bool, .bool b => .ok (.bool b)
  | .str, .str s => .ok (.str s)
  | _, _ => .error (.exception [.str name, .text (py "."), .str key, .text (py ": expected "),
      .str expected.name, .text (py ", got "), .str (typeName value)])

/-- The loop of `validate`. -/
def validateAttrs (name : PyStr) (schema : List (PyStr × AttrType)) : Fields → Except Exc Fields
  | [] => .ok []
  | (key, value) :: rest =>
    match schema.lookup key with
    | none => .error (.exception [.str name, .text (py ": unknown attribute "), .repr key])
    | some expected => do
      let value ← coerce name key value expected
      let rest ← validateAttrs name schema rest
      .ok ((key, value) :: rest)

/-- `validate`. -/
def validate (name : PyStr) (attrs : Fields) : Except Exc Fields := do
  let entry ← spec name
  validateAttrs name entry.attrs attrs

/-! ## Threads -/

/-- What belongs to one thread: the slot of the recorder and that of the adapter's
proxy. A context is named by a number. -/
structure Thread where
  /-- `recorder._local.ctx` -/
  ctx : Option ℕ := none
  /-- `ThreadLocalSpans._local.ctx` -/
  bound : Option ℕ := none
  deriving DecidableEq

namespace Thread

/-- `Recorder.start` binds a context to the thread. -/
def install (ref : ℕ) (t : Thread) : Thread := { t with ctx := some ref }

/-- `Context.finish` takes its own context off the thread. -/
def release (ref : ℕ) (t : Thread) : Thread :=
  { t with ctx := if t.ctx = some ref then none else t.ctx }

/-- `ThreadLocalSpans.bind`. -/
def bind (ref : Option ℕ) (t : Thread) : Thread := { t with bound := ref }

/-- The context that the proxy's methods resolve. -/
def resolve (t : Thread) : Option ℕ := t.bound.or t.ctx

@[simp] theorem install_ctx (ref : ℕ) (t : Thread) : (t.install ref).ctx = some ref := rfl

@[simp] theorem install_bound (ref : ℕ) (t : Thread) : (t.install ref).bound = t.bound := rfl

@[simp] theorem release_bound (ref : ℕ) (t : Thread) : (t.release ref).bound = t.bound := rfl

@[simp] theorem bind_ctx (ref : Option ℕ) (t : Thread) : (t.bind ref).ctx = t.ctx := rfl

@[simp] theorem bind_bound (ref : Option ℕ) (t : Thread) : (t.bind ref).bound = ref := rfl

end Thread

/-! ## Contexts -/

/-- What is read from outside while a request runs: the `n`-th reading of the
clocks, the `n`-th token, the `n`-th draw, and how a message looks. -/
structure Ambient where
  /-- `time.perf_counter()` -/
  clock : ℕ → ℚ
  /-- `time.time()` -/
  wall : ℕ → ℚ
  /-- `secrets.token_hex` -/
  token : ℕ → PyStr
  /-- `rng.random()` -/
  draw : ℕ → ℚ
  /-- `str` of a message -/
  shown : List Piece → PyStr
  /-- `str` of a JSON value -/
  str : Json → PyStr
  /-- how a `float` is written -/
  floats : FloatText

/-- The fields that `Context.set` may set, as `_fields.get` reads them. -/
structure TraceFields where
  /-- `model` -/
  model : Option PyStr := none
  /-- `route_reason` -/
  routeReason : Option PyStr := none
  /-- `lang` -/
  lang : Option PyStr := none
  /-- `queue_ms` -/
  queueMs : ℚ := 0
  /-- `forward_ms` -/
  forwardMs : Option ℚ := none
  /-- `state_bytes` -/
  stateBytes : Option ℤ := none
  /-- `question_count` -/
  questionCount : Option ℤ := none
  /-- `client_key_id` -/
  clientKeyId : Option PyStr := none
  /-- `session_id` -/
  sessionId : Option PyStr := none
  /-- `error_code` -/
  errorCode : Option PyStr := none
  /-- `error_message` -/
  errorMessage : Option PyStr := none
  /-- `tags` -/
  tags : List PyStr := []
  /-- `meta` -/
  metadata : Fields := []

/-- One keyword of `Context.set`; the names it refuses are not among them. -/
inductive FieldValue where
  /-- `model` -/
  | model (v : Option PyStr)
  /-- `route_reason` -/
  | routeReason (v : Option PyStr)
  /-- `lang` -/
  | lang (v : Option PyStr)
  /-- `queue_ms` -/
  | queueMs (v : ℚ)
  /-- `forward_ms` -/
  | forwardMs (v : Option ℚ)
  /-- `state_bytes` -/
  | stateBytes (v : Option ℤ)
  /-- `question_count` -/
  | questionCount (v : Option ℤ)
  /-- `client_key_id` -/
  | clientKeyId (v : Option PyStr)
  /-- `session_id` -/
  | sessionId (v : Option PyStr)
  /-- `error_code` -/
  | errorCode (v : Option PyStr)
  /-- `error_message` -/
  | errorMessage (v : Option PyStr)
  /-- `tags` -/
  | tags (v : List PyStr)
  /-- `meta` -/
  | metadata (v : Fields)

/-- One round of the loop of `Context.set`. -/
def TraceFields.setField (f : TraceFields) : FieldValue → TraceFields
  | .model v => { f with model := v }
  | .routeReason v => { f with routeReason := v }
  | .lang v => { f with lang := v }
  | .queueMs v => { f with queueMs := v }
  | .forwardMs v => { f with forwardMs := v }
  | .stateBytes v => { f with stateBytes := v }
  | .questionCount v => { f with questionCount := v }
  | .clientKeyId v => { f with clientKeyId := v }
  | .sessionId v => { f with sessionId := v }
  | .errorCode v => { f with errorCode := v }
  | .errorMessage v => { f with errorMessage := v.map fun s => s.take 500 }
  | .tags v => { f with tags := v }
  | .metadata v => { f with metadata := v }

/-- One in-flight trace, `Context`. -/
structure Context where
  /-- what the thread slots name it by -/
  ref : ℕ
  /-- `trace_id` -/
  traceId : PyStr
  /-- `route` -/
  route : PyStr
  /-- `method` -/
  method : PyStr
  /-- `_t0` -/
  t0 : ℚ
  /-- `_ts_start` -/
  tsStart : ℚ
  /-- `_fields` -/
  fields : TraceFields := {}
  /-- `_observations` -/
  observations : List Observation := []
  /-- `_stack`, as indices of `observations`, innermost first -/
  stack : List ℕ := []
  /-- `_finished` -/
  finished : Bool := false

/-- The recorder: its configuration, its ring, and the calls it made. -/
structure Recorder where
  /-- `enabled` -/
  enabled : Bool := true
  /-- `sample_rate` -/
  sampleRate : ℚ := 1
  /-- `capture` -/
  capture : Bool := false
  /-- `ring_size` -/
  ringSize : ℕ := 1000
  /-- `_ring`, oldest first -/
  ring : List Trace := []
  /-- the calls of `on_trace` so far -/
  delivered : List Trace := []
  /-- the calls of `on_log` so far -/
  notices : List LogEntry := []

/-- One request on its thread: the recorder, the thread, the context that `start`
returned (`none` is the inert one), and how often the environment was read. -/
structure Recording where
  /-- the recorder -/
  recorder : Recorder
  /-- the thread -/
  thread : Thread := {}
  /-- the context of the request -/
  ctx : Option Context := none
  /-- readings so far -/
  tick : ℕ := 0

/-- A program of the request path. -/
abbrev Traced (α : Type) : Type := Prog Recording Exc α

/-- Replace the `n`-th element. -/
def updateAt {α : Type} (n : ℕ) (f : α → α) (l : List α) : List α :=
  l.mapIdx fun i a => if i = n then f a else a

section

variable (A : Ambient)

/-- `Recorder.start`. -/
def Recorder.start (ref : ℕ) (route method requestId : PyStr) : Traced PUnit :=
  Prog.modify fun s =>
    if s.recorder.enabled then
      let ctx : Context := {
        ref := ref
        traceId := if requestId.isEmpty then A.token s.tick else requestId
        route := route
        method := method
        t0 := A.clock s.tick
        tsStart := A.wall s.tick }
      { s with ctx := some ctx, thread := s.thread.install ref, tick := s.tick + 1 }
    else s

namespace Context

/-- `_check_active`. -/
def checkActive (c : Context) : Except Exc PUnit :=
  if c.finished then
    .error (.exception [.text (py "trace "), .str c.traceId, .text (py " already finished")])
  else .ok ⟨⟩

/-- A method of the context: the inert context does nothing. -/
def act {α : Type} (inert : α) (f : Context → ℕ → Except Exc (α × Context)) : Traced α := fun s =>
  match s.ctx with
  | none => (.ok inert, s)
  | some c =>
    match f c s.tick with
    | .error e => (.error e, { s with tick := s.tick + 1 })
    | .ok (a, c) => (.ok a, { s with ctx := some c, tick := s.tick + 1 })

/-- The observation that a span or an event starts as. -/
def observe (c : Context) (tick : ℕ) (name : PyStr) (entry : SpanSpec) (attrs : Fields)
    (input output : Option PyStr) : Observation where
  id := A.token tick
  traceId := c.traceId
  parentId := (c.stack.head?.bind fun i => c.observations[i]?).map Observation.id
  name := name
  type := entry.type.column
  startMs := (A.clock tick - c.t0) * 1000
  durationMs := 0
  status := if entry.status then py "ok" else py "error"
  model := match Fields.get (py "model") attrs with
    | some (.str m) => some m
    | _ => none
  input := input
  output := output
  metadata := some attrs

/-- `span` and `_Span.__enter__`; the result names the observation. -/
def enterSpan (name : PyStr) (attrs : Fields) (input output : Option PyStr) : Traced (Option ℕ) :=
  act none fun c tick => do
    c.checkActive
    let entry ← spec name
    if entry.type = .event then
      .error (.exception [.repr name, .text (py " is an event; record it with Context.event()")])
    else
      let attrs ← validate name attrs
      .ok (some c.observations.length, { c with
        observations := c.observations ++ [c.observe A tick name entry attrs input output]
        stack := c.observations.length :: c.stack })

/-- `_Span.__exit__`. -/
def exitSpan (span : Option ℕ) (raised : Bool) : Traced PUnit :=
  act ⟨⟩ fun c tick =>
    match span with
    | none => .ok (⟨⟩, c)
    | some i => .ok (⟨⟩, { c with
        observations := updateAt i (fun o => { o with
          durationMs := (A.clock tick - c.t0) * 1000 - o.startMs
          status := if raised then py "error" else o.status }) c.observations
        stack := if c.stack.head? = some i then c.stack.tail else c.stack })

/-- `with ctx.span(name, ..): body`. -/
def withSpan {α : Type} (name : PyStr) (attrs : Fields) (body : Traced α) : Traced α :=
  enterSpan A name attrs none none >>= fun span => Prog.ensure body fun raised =>
    exitSpan A span raised

/-- `event`. -/
def event (name : PyStr) (attrs : Fields) (input output : Option PyStr) : Traced PUnit :=
  act ⟨⟩ fun c tick => do
    c.checkActive
    let entry ← spec name
    if entry.type ≠ .event then
      .error (.exception [.repr name, .text (py " is a timed span; record it with Context.span()")])
    else
      let attrs ← validate name attrs
      .ok (⟨⟩, { c with
        observations := c.observations ++ [c.observe A tick name entry attrs input output] })

/-- `set`. -/
def set (values : List FieldValue) : Traced PUnit :=
  act ⟨⟩ fun c _ => do
    c.checkActive
    .ok (⟨⟩, { c with fields := values.foldl TraceFields.setField c.fields })

/-- `set_meta`. -/
def setMeta (entries : Fields) : Traced PUnit :=
  act ⟨⟩ fun c _ => do
    c.checkActive
    .ok (⟨⟩, { c with fields := { c.fields with
      metadata := entries.foldl (fun m e => Fields.set e.1 e.2 m) c.fields.metadata } })

/-- `always_keep`: errors, refusals and playground runs. -/
def alwaysKeep (c : Context) (status : ℤ) : Bool :=
  decide (400 ≤ status) || PyStr.truthy c.fields.errorCode || PyStr.truthy c.fields.sessionId ||
    match Fields.get (py "source") c.fields.metadata with
    | some (.str s) => decide (s = py "playground")
    | _ => false

/-- The observations of a kept trace: what is still open closes with the trace. -/
def closed (c : Context) (duration : ℚ) : List Observation :=
  c.observations.mapIdx fun i o =>
    if i ∈ c.stack then { o with durationMs := max 0 (duration - o.startMs) } else o

/-- `framework_ms`: what the spans without a parent leave over. -/
def framework (c : Context) (duration : ℚ) : ℚ :=
  max 0 (duration -
    (((c.closed duration).filter fun o => o.parentId.isNone).map Observation.durationMs).sum)

/-- The trace that `finish` assembles. -/
def assemble (c : Context) (r : Recorder) (status : ℤ) (duration : ℚ) (keep : Bool) : Trace where
  id := c.traceId
  tsStart := c.tsStart
  durationMs := duration
  route := c.route
  method := c.method
  status := status
  model := c.fields.model
  routeReason := c.fields.routeReason
  lang := c.fields.lang
  queueMs := c.fields.queueMs
  forwardMs := c.fields.forwardMs
  stateBytes := c.fields.stateBytes
  questionCount := c.fields.questionCount
  clientKeyId := c.fields.clientKeyId
  sessionId := c.fields.sessionId
  errorCode := c.fields.errorCode
  errorMessage := c.fields.errorMessage
  tags := c.fields.tags
  metadata := Fields.set (py "sampled") (.bool keep)
    (Fields.set (py "payload_capture") (.bool r.capture)
      (Fields.set (py "framework_ms") (.float (if keep then c.framework duration else duration))
        c.fields.metadata))
  observations := if keep then c.closed duration else []

/-- The entry of `_notify_dropped`. -/
def dropNotice (c : Context) (ts : ℚ) (status : ℤ) : LogEntry where
  ts := ts
  level := py "debug"
  source := py "server"
  traceId := some c.traceId
  message := A.shown [.text (py "trace "), .str c.traceId, .text (py " sampled out (status "),
    .text (py (toString status)), .text (py ")")]

/-- `finish`. -/
def finish (status : ℤ) : Traced PUnit :=
  Prog.modify fun s =>
    match s.ctx with
    | none => s
    | some c =>
      if c.finished then s
      else
        let duration := max 0 ((A.clock s.tick - c.t0) * 1000)
        let keep := c.alwaysKeep status || decide (A.draw s.tick < s.recorder.sampleRate)
        let trace := c.assemble s.recorder status duration keep
        let r := s.recorder
        { s with
          ctx := some { c with finished := true, stack := [] }
          thread := s.thread.release c.ref
          tick := s.tick + 1
          recorder := { r with
            ring :=
              if keep then (r.ring ++ [trace]).drop (r.ring.length + 1 - r.ringSize) else r.ring
            notices :=
              if keep then r.notices else r.notices ++ [c.dropNotice A (A.wall s.tick) status]
            delivered := r.delivered ++ [trace] } }

end Context

end

/-! ## What a request keeps -/

/-- The context is the trace's, open, and its observations are the trace's. -/
structure Context.Owns (id : PyStr) (c : Context) : Prop where
  /-- the trace -/
  traceId : c.traceId = id
  /-- the context is open -/
  unfinished : c.finished = false
  /-- the observations -/
  observed : ∀ o ∈ c.observations, o.traceId = id

/-- A trace as the recorder assembles it under `id`. -/
structure Trace.Named (id : PyStr) (t : Trace) : Prop where
  /-- its id -/
  named : t.id = id
  /-- its observations refer to it -/
  observed : ∀ o ∈ t.observations, o.traceId = id
  /-- it has no scores yet -/
  unscored : t.scores = []

/-- The trace `id` is in flight, and `d` is what was delivered so far. -/
structure InFlight (d : List Trace) (id : PyStr) (s : Recording) : Prop where
  /-- the deliveries so far -/
  delivered : s.recorder.delivered = d
  /-- the context is the trace's, and open -/
  live : ∃ c, s.ctx = some c ∧ c.Owns id

/-- The trace `id` was delivered once, after `d`, and its context is closed. -/
structure Delivered (d : List Trace) (id : PyStr) (s : Recording) : Prop where
  /-- the deliveries so far -/
  delivered : ∃ t : Trace, t.Named id ∧ s.recorder.delivered = d ++ [t]
  /-- the context is closed -/
  closed : ∃ c, s.ctx = some c ∧ c.finished = true

/-- A span with this name and these attributes is in the vocabulary. -/
def Timed (name : PyStr) (attrs : Fields) : Prop :=
  ∃ entry valid, spec name = .ok entry ∧ entry.type ≠ .event ∧ validate name attrs = .ok valid

/-- An event with this name and these attributes is in the vocabulary. -/
def Instant (name : PyStr) (attrs : Fields) : Prop :=
  ∃ entry valid, spec name = .ok entry ∧ entry.type = .event ∧ validate name attrs = .ok valid

section

variable {A : Ambient} {d : List Trace} {id : PyStr}

/-- A trace starts in flight when recording is on. -/
theorem Recorder.start_yields {ref n : ℕ} {route method requestId : PyStr} :
    Prog.Yields (fun s => s.recorder.enabled = true ∧ s.recorder.delivered = d ∧ s.tick = n)
      (Recorder.start A ref route method requestId) (.ok ⟨⟩)
      (InFlight d (if requestId.isEmpty then A.token n else requestId)) := by
  refine Prog.Yields.modify fun s hs => ?_
  obtain ⟨hon, hd, rfl⟩ := hs
  rw [if_pos hon]
  exact ⟨hd, _, rfl, rfl, rfl, fun o ho => by cases ho⟩

namespace Context

theorem act_ok {α : Type} {inert a : α} {f : Context → ℕ → Except Exc (α × Context)}
    {s : Recording} {c c' : Context} (hc : s.ctx = some c) (hf : f c s.tick = .ok (a, c')) :
    act inert f s = (.ok a, { s with ctx := some c', tick := s.tick + 1 }) := by
  unfold act
  simp only [hc, hf]

theorem act_error {α : Type} {inert : α} {e : Exc} {f : Context → ℕ → Except Exc (α × Context)}
    {s : Recording} {c : Context} (hc : s.ctx = some c) (hf : f c s.tick = .error e) :
    act inert f s = (.error e, { s with tick := s.tick + 1 }) := by
  unfold act
  simp only [hc, hf]

/-- What an accepted observation gives: its name is known, and its type is none that is
refused. -/
theorem observed_ok {α : Type} {c : Context} {name : PyStr} {attrs : Fields}
    {refused : SpanSpec → Prop} [DecidablePred refused] {e : Exc} {k : SpanSpec → Fields → α}
    {p : α}
    (h : (do
      c.checkActive
      let entry ← spec name
      if refused entry then
        .error e
      else
        let attrs ← validate name attrs
        .ok (k entry attrs)) = Except.ok p) : ∃ entry valid, p = k entry valid := by
  obtain ⟨_, _, h⟩ := bind_eq_ok.mp h
  obtain ⟨entry, _, h⟩ := bind_eq_ok.mp h
  by_cases hrefused : refused entry
  · rw [if_pos hrefused] at h
    cases h
  · rw [if_neg hrefused] at h
    obtain ⟨valid, _, h⟩ := bind_eq_ok.mp h
    exact ⟨entry, valid, (Except.ok.inj h).symm⟩

/-- A method of an open context that leaves it open. -/
theorem act_keeps {α : Type} {inert : α} {f : Context → ℕ → Except Exc (α × Context)}
    (hf : ∀ c tick, c.Owns id → ∀ p, f c tick = .ok p → p.2.Owns id) {s : Recording}
    (hs : InFlight d id s) :
    (act inert f).Ends s (fun _ => InFlight d id) fun _ => InFlight d id := by
  obtain ⟨hd, c, hc, hown⟩ := hs
  unfold Prog.Ends
  rcases hfc : f c s.tick with e | ⟨a, c'⟩
  · rw [act_error hc hfc]
    exact ⟨hd, c, hc, hown⟩
  · rw [act_ok hc hfc]
    exact ⟨hd, c', rfl, hf c s.tick hown _ hfc⟩

/-- Such a method returns if it does for every open context. -/
theorem act_returns {α : Type} {inert : α} {f : Context → ℕ → Except Exc (α × Context)}
    (hf : ∀ c tick, c.Owns id → ∃ p, f c tick = .ok p ∧ p.2.Owns id) {s : Recording}
    (hs : InFlight d id s) :
    (act inert f).Ends s (fun _ => InFlight d id) fun _ _ => False := by
  obtain ⟨hd, c, hc, hown⟩ := hs
  obtain ⟨⟨a, c'⟩, hfc, hown'⟩ := hf c s.tick hown
  unfold Prog.Ends
  rw [act_ok hc hfc]
  exact ⟨hd, c', rfl, hown'⟩

/-- An open context passes the check. -/
theorem checkActive_open {c : Context} (h : c.finished = false) : c.checkActive = .ok ⟨⟩ := by
  unfold checkActive
  rw [h, if_neg Bool.false_ne_true]

/-- A new observation is the trace's. -/
theorem Owns.observe {c : Context} (h : c.Owns id) {tick : ℕ} {name : PyStr} {entry : SpanSpec}
    {attrs : Fields} {input output : Option PyStr} {stack : List ℕ} :
    Owns id { c with
      observations := c.observations ++ [c.observe A tick name entry attrs input output]
      stack := stack } := by
  refine ⟨h.traceId, h.unfinished, fun o ho => ?_⟩
  rcases List.mem_append.mp ho with ho | ho
  · exact h.observed o ho
  · rw [List.mem_singleton.mp ho]
    exact h.traceId

/-- Entering a span of the vocabulary returns. -/
theorem enterSpan_returns {name : PyStr} {attrs : Fields} (h : Timed name attrs)
    (input output : Option PyStr) {s : Recording} (hs : InFlight d id s) :
    (enterSpan A name attrs input output).Ends s (fun _ => InFlight d id) fun _ _ => False := by
  obtain ⟨entry, valid, hspec, htype, hvalid⟩ := h
  refine act_returns (fun c tick hown => ?_) hs
  simp only [checkActive_open hown.unfinished, hspec, bind, Except.bind, if_neg htype, hvalid]
  exact ⟨_, rfl, hown.observe⟩

/-- Entering any span keeps the trace in flight. -/
theorem enterSpan_keeps (name : PyStr) (attrs : Fields) (input output : Option PyStr)
    {s : Recording} (hs : InFlight d id s) :
    (enterSpan A name attrs input output).Ends s (fun _ => InFlight d id)
      fun _ => InFlight d id := by
  refine act_keeps (fun c tick hown p hp => ?_) hs
  obtain ⟨entry, valid, rfl⟩ := observed_ok hp
  exact hown.observe

/-- Leaving a span returns. -/
theorem exitSpan_yields (span : Option ℕ) (raised : Bool) :
    Prog.Yields (InFlight d id) (exitSpan A span raised) (.ok ⟨⟩) (InFlight d id) := by
  rintro s ⟨hd, c, hc, hown⟩
  unfold exitSpan
  cases span with
  | none =>
    rw [act_ok hc rfl]
    exact ⟨rfl, hd, c, rfl, hown⟩
  | some i =>
    rw [act_ok hc rfl]
    refine ⟨rfl, hd, _, rfl, hown.traceId, hown.unfinished, fun o ho => ?_⟩
    obtain ⟨j, hj, rfl⟩ := List.mem_mapIdx.mp ho
    split
    · exact hown.observed c.observations[j] (List.getElem_mem hj)
    · exact hown.observed c.observations[j] (List.getElem_mem hj)

/-- A span of the vocabulary around a program has the outcome of the program. -/
theorem withSpan_yields {α : Type} {name : PyStr} {attrs : Fields} (h : Timed name attrs)
    {body : Traced α} {r : Except Exc α}
    (hbody : Prog.Yields (InFlight d id) body r (InFlight d id)) :
    Prog.Yields (InFlight d id) (withSpan A name attrs body) r (InFlight d id) :=
  Prog.Yields.bind_any (fun _ hs => enterSpan_returns h none none hs) fun span =>
    hbody.ensure fun raised => exitSpan_yields span raised

/-- An event of the vocabulary returns. -/
theorem event_yields {name : PyStr} {attrs : Fields} (h : Instant name attrs)
    (input output : Option PyStr) :
    Prog.Yields (InFlight d id) (event A name attrs input output) (.ok ⟨⟩) (InFlight d id) := by
  obtain ⟨entry, valid, hspec, htype, hvalid⟩ := h
  rintro s ⟨hd, c, hc, hown⟩
  unfold event
  rw [act_ok hc (by
    rw [checkActive_open hown.unfinished, hspec]
    simp only [bind, Except.bind, if_neg (not_not.mpr htype), hvalid]
    rfl)]
  exact ⟨rfl, hd, _, rfl, hown.observe⟩

/-- Any event keeps the trace in flight. -/
theorem event_keeps (name : PyStr) (attrs : Fields) (input output : Option PyStr) {s : Recording}
    (hs : InFlight d id s) :
    (event A name attrs input output).Ends s (fun _ => InFlight d id) fun _ => InFlight d id := by
  refine act_keeps (fun c tick hown p hp => ?_) hs
  obtain ⟨entry, valid, rfl⟩ := observed_ok hp
  exact hown.observe

/-- Setting fields of an open context returns. -/
theorem set_yields (values : List FieldValue) :
    Prog.Yields (InFlight d id) (set values) (.ok ⟨⟩) (InFlight d id) := by
  rintro s ⟨hd, c, hc, hown⟩
  unfold set
  rw [act_ok hc (by rw [checkActive_open hown.unfinished]; rfl)]
  exact ⟨rfl, hd, _, rfl, hown.traceId, hown.unfinished, hown.observed⟩

/-- Setting metadata of an open context returns. -/
theorem setMeta_yields (entries : Fields) :
    Prog.Yields (InFlight d id) (setMeta entries) (.ok ⟨⟩) (InFlight d id) := by
  rintro s ⟨hd, c, hc, hown⟩
  unfold setMeta
  rw [act_ok hc (by rw [checkActive_open hown.unfinished]; rfl)]
  exact ⟨rfl, hd, _, rfl, hown.traceId, hown.unfinished, hown.observed⟩

/-- What is assembled of an open context is the trace's. -/
theorem Owns.assemble {c : Context} (h : c.Owns id) {r : Recorder} {status : ℤ} {duration : ℚ}
    {keep : Bool} : (c.assemble r status duration keep).Named id := by
  refine ⟨h.traceId, fun o ho => ?_, rfl⟩
  cases keep with
  | false => cases ho
  | true =>
    obtain ⟨i, hi, rfl⟩ := List.mem_mapIdx.mp ho
    split
    · exact h.observed c.observations[i] (List.getElem_mem hi)
    · exact h.observed c.observations[i] (List.getElem_mem hi)

/-- **Finishing a trace in flight delivers it.** -/
theorem finish_delivers (status : ℤ) :
    Prog.Yields (InFlight d id) (finish A status) (.ok ⟨⟩) (Delivered d id) := by
  refine Prog.Yields.modify fun s hs => ?_
  obtain ⟨hd, c, hc, hown⟩ := hs
  simp only [hc, hown.unfinished, Bool.false_eq_true, if_false]
  exact ⟨⟨_, hown.assemble, by rw [hd]⟩, _, rfl, rfl⟩

/-- Finishing a finished trace does nothing. -/
theorem finish_twice {s : Recording} {c : Context} (hc : s.ctx = some c)
    (hfin : c.finished = true) (status : ℤ) : finish A status s = (.ok ⟨⟩, s) := by
  unfold finish Prog.modify
  simp only [hc, hfin, if_true]

end Context

end

end LayaWatch
