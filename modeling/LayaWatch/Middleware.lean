import LayaWatch.Recorder
import LayaWatch.Query

/-!
# The engine request lifecycle

`http/middleware.py` on the engine paths: `instrument.handle` with its phases, its
`except` clauses and its `finally`, the hook that `_attach_send_hook` leaves on the
response, and `fire` of `app.py`, which runs the hook.

What the database says of the credential, what the body parses to and what the
handler does with the trace are in the request, and so is every exception that
some code between may raise. The result is when exactly a trace is delivered
once (`finished_once`): always, except that a response whose hook never runs
takes its trace with it.
-/

namespace LayaWatch

/-! ## Responses and requests -/

/-- A `Response`, as far as the lifecycle reads it. -/
structure Response where
  /-- `status` -/
  status : ℤ
  /-- `len(body)` -/
  bytes : ℕ
  /-- what `_envelope_error` makes of the body: code and message -/
  failure : PyStr × PyStr

/-- The phases of a request. -/
inductive Phase where
  /-- the span of the intake -/
  | receive
  /-- `_verify_auth` -/
  | auth
  /-- `_parse_body` -/
  | body
  /-- `router.dispatch` and the record of a failed response -/
  | handler
  /-- `_attach_send_hook` -/
  | attach
  deriving DecidableEq, Repr

/-- The value of the variable `phase`. -/
def Phase.name : Phase → PyStr
  | .receive => py "http.receive"
  | .auth => py "auth.verify"
  | .body => py "body.parse"
  | .handler | .attach => py "handler"

/-- What the handler and the engine may do with the trace, directly or through the
adapter's proxy. -/
inductive CtxOp where
  /-- enter a span -/
  | enterSpan (name : PyStr) (attrs : Fields) (input output : Option PyStr)
  /-- leave a span -/
  | exitSpan (span : Option ℕ) (raised : Bool)
  /-- record an event -/
  | event (name : PyStr) (attrs : Fields) (input output : Option PyStr)
  /-- set fields -/
  | set (values : List FieldValue)
  /-- set metadata -/
  | setMeta (entries : Fields)

/-- A request on an engine path, with what the code around the lifecycle does. -/
structure EngineRequest where
  /-- what the thread slots name its context by -/
  ref : ℕ
  /-- `path` -/
  path : PyStr
  /-- `method` -/
  method : PyStr
  /-- `request_id` -/
  requestId : PyStr
  /-- `client_ip` -/
  clientIp : PyStr
  /-- `len(body)` -/
  bytes : ℕ
  /-- the scheme that `_presented_credential` finds -/
  scheme : PyStr
  /-- what the database says: whether a credential is required, and the key that the
  presented one belongs to; or what reading it raised -/
  credential : Except Exc (Bool × Option PyStr)
  /-- `request.json()` -/
  parsed : Except HttpError Json
  /-- what the handler does with the trace -/
  ops : List CtxOp
  /-- what `router.dispatch` returns or raises -/
  dispatched : Except Exc Response
  /-- what is raised at the start of a phase -/
  before : Phase → Option Exc := fun _ => none
  /-- what is raised at the end of a phase; for `attach`, once the span is entered -/
  after : Phase → Option Exc := fun _ => none

/-- The arguments of `instrument`. -/
structure Instrument where
  /-- `close_on_sent` -/
  closeOnSent : Bool := false
  /-- `spans` is given -/
  spans : Bool := true

/-- The closure `sent`: the span its stack still has to close, and the status. -/
structure Hook where
  /-- `stack`, empty once closed -/
  stack : Option (Option ℕ)
  /-- `response.status` -/
  status : ℤ

/-- The variables of `handle`. -/
structure HandleVars where
  /-- the recorder, the thread and `ctx` -/
  recording : Recording
  /-- `response` -/
  response : Option Response := none
  /-- `status` -/
  status : ℤ := 500
  /-- `attached` -/
  attached : Bool := false
  /-- `phase` -/
  phase : Phase := .receive
  /-- `response.on_sent` -/
  onSent : Option Hook := none

/-- A program on the variables of `handle`. -/
abbrev Handling (α : Type) : Type := Prog HandleVars Exc α

/-- A program of the request path, inside `handle`. -/
def onRec {α : Type} (x : Traced α) : Handling α :=
  Prog.zoom HandleVars.recording (fun r f => { f with recording := r }) x

section

variable (A : Ambient)

/-- `error_response`. -/
def errorResponse (e : HttpError) : Response where
  status := e.status
  bytes := (JsonText.dumps A.floats (.obj [(py "error", .obj ([(py "code", .str e.code),
    (py "message", .str (A.shown e.message))] ++
      match e.details with
      | some (field :: rest) => [(py "details", .obj (field :: rest))]
      | _ => []))])).length
  failure := (e.code, A.shown e.message)

/-! ## Phases -/

/-- The refusal of `_verify_auth`. -/
def unauthorized : HttpError :=
  .plain 401 "missing_or_invalid_credential" "missing or invalid credential"

/-- The error of the generic `except` clause. -/
def internalError : HttpError := .plain 500 "internal_error" "internal server error"

/-- `_verify_auth`. -/
def verifyAuth (req : EngineRequest) : Traced PUnit :=
  match req.credential with
  | .error e => Prog.raise e
  | .ok (armed, keyId) =>
    Context.setMeta [(py "armed", .bool armed)] >>= fun _ =>
    Context.set (keyId.toList.map fun k => .clientKeyId (some k)) >>= fun _ =>
    Context.withSpan A (py "auth.verify")
      ([(py "scheme", .str (if armed then req.scheme else py "none")),
        (py "ok", .bool (!armed || keyId.isSome))] ++
        keyId.toList.map fun k => (py "key_id", .str k))
      (Prog.raiseIf (if !armed || keyId.isSome then none else some (.http unauthorized)))

/-- The attributes of the `body.parse` span. -/
def bodyAttrs (bytes : ℕ) (parsed : Json) : Fields :=
  [(py "state_bytes", .int bytes)] ++
    match parsed with
    | .obj fields =>
      (match Fields.get (py "questions") fields with
      | some (.obj l) => [(py "question_count", .int l.length)]
      | some (.arr l) => [(py "question_count", .int l.length)]
      | _ => []) ++
      (match Fields.get (py "model") fields with
      | none | some .null => []
      | some v => [(py "model_param", .str (A.str v))]) ++
      match Fields.get (py "lang") fields with
      | none | some .null => []
      | some v => [(py "lang_param", .str (A.str v))]
    | _ => []

/-- `_parse_body`. -/
def parseBody (req : EngineRequest) : Traced PUnit :=
  match req.parsed with
  | .error e =>
    Context.withSpan A (py "body.parse") [(py "state_bytes", .int req.bytes)] (Prog.raise (.http e))
  | .ok parsed =>
    Context.withSpan A (py "body.parse") (bodyAttrs A req.bytes parsed) (pure ⟨⟩)

/-- One call on the trace. -/
def CtxOp.run : CtxOp → Traced PUnit
  | .enterSpan name attrs input output =>
    Context.enterSpan A name attrs input output >>= fun _ => pure ⟨⟩
  | .exitSpan span raised => Context.exitSpan A span raised
  | .event name attrs input output => Context.event A name attrs input output
  | .set values => Context.set values
  | .setMeta entries => Context.setMeta entries

/-- The calls on the trace that the handler makes; it may catch what one of them
raises. -/
def runOps (ops : List CtxOp) : Traced PUnit := fun s =>
  (.ok ⟨⟩, ops.foldl (fun s op => (op.run A s).2) s)

/-- The event and the fields of a failure. -/
def recordError (phase : Phase) (code message : PyStr) (text : PyStr) : Traced PUnit :=
  Context.event A (py "error")
    [(py "code", .str code), (py "message", .str message), (py "where", .str phase.name)]
    none none >>= fun _ =>
  Context.set [.errorCode (some code), .errorMessage (some text)]

/-- `_record_failure`, for a response that failed. -/
def recordFailure (resp : Response) : Traced PUnit :=
  if 400 ≤ resp.status then
    recordError A .handler resp.failure.1 resp.failure.2 resp.failure.2
  else pure ⟨⟩

/-- A phase: `phase` is set, and its code runs unless something else is raised. -/
def inPhase {α : Type} (req : EngineRequest) (p : Phase) (x : Handling α) : Handling α :=
  Prog.modify (fun f => { f with phase := p }) >>= fun _ =>
  Prog.raiseIf (req.before p) >>= fun _ => x >>= fun a =>
  Prog.raiseIf (req.after p) >>= fun _ => pure a

/-- The body of the inner `try`. -/
def tryPhases (req : EngineRequest) : Handling PUnit :=
  inPhase req .receive (onRec (Context.withSpan A (py "http.receive")
    [(py "method", .str req.method), (py "path", .str req.path),
      (py "remote", .str req.clientIp), (py "content_length", .int req.bytes)]
    (pure ()))) >>= fun _ =>
  inPhase req .auth (onRec (verifyAuth A req)) >>= fun _ =>
  inPhase req .body (onRec (parseBody A req)) >>= fun _ =>
  inPhase req .handler (onRec (runOps A req.ops) >>= fun _ =>
    match req.dispatched with
    | .error e => Prog.raise e
    | .ok resp =>
      Prog.modify (fun f => { f with response := some resp }) >>= fun _ =>
      onRec (recordFailure A resp))

/-- The `except` clauses. -/
def onExc : Exc → Handling PUnit
  | .http e =>
    Prog.modify (fun f => { f with response := some (errorResponse A e) }) >>= fun _ =>
    Prog.get HandleVars.phase >>= fun phase =>
    onRec (recordError A phase e.code (A.shown e.message) (A.shown e.message))
  | .exception text =>
    Prog.modify (fun f => { f with response := some (errorResponse A internalError) }) >>= fun _ =>
    Prog.get HandleVars.phase >>= fun phase =>
    onRec (recordError A phase internalError.code (A.shown internalError.message) (A.shown text))
  | .exit => Prog.raise .exit

/-- `_attach_send_hook`. -/
def attachSendHook (req : EngineRequest) (status : ℤ) (bytes : ℕ) : Handling PUnit :=
  Prog.raiseIf (req.before .attach) >>= fun _ =>
  onRec (Context.enterSpan A (py "response.send")
    [(py "status", .int status), (py "bytes", .int bytes)] none none) >>= fun span =>
  Prog.raiseIf (req.after .attach) >>= fun _ =>
  Prog.modify fun f => { f with onSent := some ⟨some span, status⟩ }

/-- `len(response.body) if response is not None else 0`. -/
def HandleVars.bytes (f : HandleVars) : ℕ := (f.response.map Response.bytes).getD 0

/-- From the inner `try` to the `return`. -/
def serve (cfg : Instrument) (req : EngineRequest) : Handling PUnit :=
  Prog.rescue (tryPhases A req) (onExc A) >>= fun _ =>
  Prog.modify (fun f => { f with status := (f.response.map Response.status).getD 500 }) >>= fun _ =>
  if cfg.closeOnSent then
    Prog.get (fun f : HandleVars => (f.status, f.bytes)) >>= fun sizes =>
    attachSendHook A req sizes.1 sizes.2 >>= fun _ =>
    Prog.modify fun f => { f with attached := true }
  else pure ⟨⟩

/-- `spans.bind`. -/
def bindSpans (cfg : Instrument) (ref : Option ℕ) : Handling PUnit :=
  Prog.modify fun f =>
    if cfg.spans then
      { f with recording := { f.recording with thread := f.recording.thread.bind ref } }
    else f

/-- The `finally` clause. -/
def finalize (cfg : Instrument) : Handling PUnit :=
  bindSpans cfg none >>= fun _ =>
  Prog.get (fun f : HandleVars => (f.attached, f.status, f.bytes)) >>= fun v =>
  if v.1 then pure ⟨⟩
  else
    onRec (Context.withSpan A (py "response.send")
      [(py "status", .int v.2.1), (py "bytes", .int v.2.2)] (pure ())) >>= fun _ =>
    onRec (Context.finish A v.2.1)

/-- `instrument.handle` on an engine path. -/
def Instrument.handle (cfg : Instrument) (req : EngineRequest) : Handling PUnit :=
  onRec (Recorder.start A req.ref req.path req.method req.requestId) >>= fun _ =>
  Prog.get (fun f : HandleVars => f.recording.ctx.map Context.ref) >>= fun ref =>
  bindSpans cfg ref >>= fun _ =>
  Prog.ensure (serve A cfg req) fun _ => finalize A cfg

/-! ## The hook -/

/-- `sent`, on the thread that runs it. -/
def sent (cfg : Instrument) (thread : Thread) (hook : Hook) : Handling PUnit :=
  Prog.modify (fun f => { f with recording := { f.recording with thread := thread } }) >>= fun _ =>
  (match hook.stack with
  | some span => onRec (Context.exitSpan A span false)
  | none => pure ⟨⟩) >>= fun _ =>
  Prog.modify (fun f => { f with onSent := some { hook with stack := none } }) >>= fun _ =>
  onRec (Context.finish A hook.status) >>= fun _ =>
  bindSpans cfg none

/-- `fire`: run the hook if the response carries one. -/
def fire (cfg : Instrument) (thread : Thread) : Handling PUnit :=
  Prog.get HandleVars.onSent >>= fun hook =>
  match hook with
  | some hook => sent A cfg thread hook
  | none => pure ⟨⟩

/-- The hook is invoked on each of these threads, one after the other. -/
def fireAll (cfg : Instrument) (threads : List Thread) : Handling PUnit :=
  Prog.each (fire A cfg) threads

/-- The variables after the wrapper has returned and the hook was invoked on
`threads`. -/
def lifecycle (cfg : Instrument) (req : EngineRequest) (threads : List Thread)
    (r : Recorder) (thread : Thread) : HandleVars :=
  let f := (Instrument.handle A cfg req ⟨⟨r, thread, none, 0⟩, none, 500, false, .receive, none⟩).2
  (fireAll A cfg threads f).2

end

/-! ## What is raised -/

/-- What the `except` clauses do not catch. -/
def Exc.uncaught : Exc → Option Exc
  | .exit => some .exit
  | _ => none

namespace EngineRequest

/-- What a phase raises whose own code raises `own`. -/
def phaseRaises (req : EngineRequest) (p : Phase) (own : Option Exc) : Option Exc :=
  (req.before p).or (own.or (req.after p))

/-- What `_verify_auth` raises. -/
def authRaises (req : EngineRequest) : Option Exc :=
  match req.credential with
  | .error e => some e
  | .ok (armed, keyId) => if !armed || keyId.isSome then none else some (.http unauthorized)

/-- What `_parse_body` raises. -/
def bodyRaises (req : EngineRequest) : Option Exc :=
  match req.parsed with
  | .error e => some (.http e)
  | .ok _ => none

/-- What the dispatch raises. -/
def handlerRaises (req : EngineRequest) : Option Exc :=
  match req.dispatched with
  | .error e => some e
  | .ok _ => none

/-- What reaches the `except` clauses. -/
def raises (req : EngineRequest) : Option Exc :=
  (req.phaseRaises .receive none).or ((req.phaseRaises .auth req.authRaises).or
    ((req.phaseRaises .body req.bodyRaises).or (req.phaseRaises .handler req.handlerRaises)))

/-- What the `except` clauses let through. -/
def escapes (req : EngineRequest) : Option Exc := req.raises.bind Exc.uncaught

/-- What attaching the hook raises. -/
def attachRaises (req : EngineRequest) : Option Exc :=
  (req.before .attach).or (req.after .attach)

end EngineRequest

/-- The trace is left to the hook: `close_on_sent` is on, and the hook is attached. -/
def Instrument.Defers (cfg : Instrument) (req : EngineRequest) : Prop :=
  cfg.closeOnSent = true ∧ req.escapes = none ∧ req.attachRaises = none

/-! ## The stations of a request -/

/-- Inside the outer `try`, before the hook is attached. -/
structure Serving (d : List Trace) (id : PyStr) (f : HandleVars) : Prop where
  /-- the trace is in flight -/
  inFlight : InFlight d id f.recording
  /-- nothing is attached -/
  attached : f.attached = false
  /-- the response carries no hook -/
  noHook : f.onSent = none

/-- The response waits for its hook. -/
structure Waiting (d : List Trace) (id : PyStr) (f : HandleVars) : Prop where
  /-- the trace is in flight -/
  inFlight : InFlight d id f.recording
  /-- the hook is attached -/
  attached : f.attached = true
  /-- the response carries the hook, and its span is open -/
  hook : ∃ span status, f.onSent = some ⟨some span, status⟩

/-- The trace is delivered, and what hook there is has run. -/
structure Done (d : List Trace) (id : PyStr) (f : HandleVars) : Prop where
  /-- the trace was delivered once -/
  delivered : Delivered d id f.recording
  /-- a hook has nothing left to close -/
  hook : ∀ h, f.onSent = some h → h.stack = none

section

variable {A : Ambient} {d : List Trace} {id : PyStr} {cfg : Instrument} {req : EngineRequest}

/-- The bookkeeping of a thread is no part of a trace. -/
theorem InFlight.onThread {s : Recording} (h : InFlight d id s) (t : Thread) :
    InFlight d id { s with thread := t } := ⟨h.delivered, h.live⟩

theorem Delivered.onThread {s : Recording} (h : Delivered d id s) (t : Thread) :
    Delivered d id { s with thread := t } := ⟨h.delivered, h.closed⟩

theorem onRec_serving {α : Type} {x : Traced α} {r : Except Exc α}
    (h : Prog.Yields (InFlight d id) x r (InFlight d id)) :
    Prog.Yields (Serving d id) (onRec x) r (Serving d id) :=
  h.zoom (fun _ hf => hf.inFlight) fun _ _ hf hs => ⟨hs, hf.attached, hf.noHook⟩

/-- Setting a variable of `handle`. -/
theorem modify_serving {g : HandleVars → HandleVars} (hrec : ∀ f, (g f).recording = f.recording)
    (hatt : ∀ f, (g f).attached = f.attached) (hhook : ∀ f, (g f).onSent = f.onSent) :
    Prog.Yields (Serving d id) (Prog.modify g : Handling PUnit) (.ok ⟨⟩) (Serving d id) :=
  Prog.Yields.modify fun f hf =>
    ⟨by rw [hrec]; exact hf.inFlight, by rw [hatt]; exact hf.attached,
      by rw [hhook]; exact hf.noHook⟩

theorem receive_timed (method path remote : PyStr) (bytes : ℤ) :
    Timed (py "http.receive") [(py "method", .str method), (py "path", .str path),
      (py "remote", .str remote), (py "content_length", .int bytes)] :=
  ⟨_, _, rfl, by decide, rfl⟩

theorem send_timed (status bytes : ℤ) :
    Timed (py "response.send") [(py "status", .int status), (py "bytes", .int bytes)] :=
  ⟨_, _, rfl, by decide, rfl⟩

theorem auth_timed (scheme : PyStr) (ok : Bool) (keyId : Option PyStr) :
    Timed (py "auth.verify") ([(py "scheme", .str scheme), (py "ok", .bool ok)] ++
      keyId.toList.map fun k => (py "key_id", .str k)) := by
  cases keyId with
  | none => exact ⟨_, _, rfl, by decide, rfl⟩
  | some k => exact ⟨_, _, rfl, by decide, rfl⟩

theorem error_instant (code message place : PyStr) :
    Instant (py "error") [(py "code", .str code), (py "message", .str message),
      (py "where", .str place)] :=
  ⟨_, _, rfl, rfl, rfl⟩

theorem body_timed (bytes : ℕ) (parsed : Json) :
    Timed (py "body.parse") (bodyAttrs A bytes parsed) := by
  cases parsed with
  | obj fields =>
    simp only [bodyAttrs]
    generalize Fields.get (py "questions") fields = questions
    generalize Fields.get (py "model") fields = model
    generalize Fields.get (py "lang") fields = lang
    split <;> split <;> split <;> exact ⟨_, _, rfl, by decide, rfl⟩
  | _ => exact ⟨_, _, rfl, by decide, rfl⟩

/-! ## The phases keep the trace in flight -/

theorem verifyAuth_yields :
    Prog.Yields (InFlight d id) (verifyAuth A req) (Prog.Yields.raising req.authRaises ⟨⟩)
      (InFlight d id) := by
  unfold verifyAuth EngineRequest.authRaises
  rcases req.credential with e | ⟨armed, keyId⟩
  · exact Prog.Yields.raise e
  · refine (Context.setMeta_yields _).bind ((Context.set_yields _).bind ?_)
    exact Context.withSpan_yields (auth_timed _ _ keyId) (Prog.Yields.raiseIf _)

theorem parseBody_yields :
    Prog.Yields (InFlight d id) (parseBody A req) (Prog.Yields.raising req.bodyRaises ⟨⟩)
      (InFlight d id) := by
  unfold parseBody EngineRequest.bodyRaises
  rcases req.parsed with e | parsed
  · exact Context.withSpan_yields ⟨_, _, rfl, by decide, rfl⟩ (Prog.Yields.raise _)
  · exact Context.withSpan_yields (body_timed _ parsed) (Prog.Yields.pure _)

/-- A call on the trace keeps it in flight, whether it raises or not. -/
theorem CtxOp.run_keeps (op : CtxOp) {s : Recording} (hs : InFlight d id s) :
    InFlight d id (op.run A s).2 := by
  have hyields : ∀ {x : Traced PUnit}, Prog.Yields (InFlight d id) x (.ok ⟨⟩) (InFlight d id) →
      InFlight d id (x s).2 := fun h => (h s hs).2
  have hends : ∀ {x : Traced PUnit},
      x.Ends s (fun _ => InFlight d id) (fun _ => InFlight d id) → InFlight d id (x s).2 := by
    intro x h
    rcases hx : x s with ⟨e | a, t⟩
    · exact h.error hx
    · exact h.ok hx
  cases op with
  | enterSpan name attrs input output =>
    refine hends ((Context.enterSpan_keeps name attrs input output hs).bind fun _ t ht => ?_)
    exact Prog.Ends.pure ht
  | exitSpan span raised => exact hyields (Context.exitSpan_yields span raised)
  | event name attrs input output => exact hends (Context.event_keeps name attrs input output hs)
  | set values => exact hyields (Context.set_yields values)
  | setMeta entries => exact hyields (Context.setMeta_yields entries)

theorem runOps_yields (ops : List CtxOp) :
    Prog.Yields (InFlight d id) (runOps A ops) (.ok ⟨⟩) (InFlight d id) := by
  intro s hs
  refine ⟨rfl, ?_⟩
  change InFlight d id (ops.foldl (fun s op => (op.run A s).2) s)
  induction ops generalizing s with
  | nil => exact hs
  | cons op rest ih => exact ih _ (op.run_keeps hs)

theorem recordError_yields (phase : Phase) (code message text : PyStr) :
    Prog.Yields (InFlight d id) (recordError A phase code message text) (.ok ⟨⟩)
      (InFlight d id) :=
  (Context.event_yields (error_instant code message phase.name) none none).bind
    (Context.set_yields _)

theorem recordFailure_yields (resp : Response) :
    Prog.Yields (InFlight d id) (recordFailure A resp) (.ok ⟨⟩) (InFlight d id) := by
  unfold recordFailure
  by_cases h : 400 ≤ resp.status
  · rw [if_pos h]
    exact recordError_yields _ _ _ _
  · rw [if_neg h]
    exact Prog.Yields.pure _

/-- A phase raises what is raised before it, by its own code or after it. -/
theorem inPhase_yields {p : Phase} {x : Handling PUnit} {own : Option Exc}
    (hx : Prog.Yields (Serving d id) x (Prog.Yields.raising own ⟨⟩) (Serving d id)) :
    Prog.Yields (Serving d id) (inPhase req p x) (Prog.Yields.raising (req.phaseRaises p own) ⟨⟩)
      (Serving d id) := by
  have hlast : Prog.Yields (Serving d id)
      (Prog.raiseIf (req.after p) >>= fun _ => (pure ⟨⟩ : Handling PUnit))
      (Prog.Yields.raising ((req.after p).or none) ⟨⟩) (Serving d id) :=
    (Prog.Yields.raiseIf _).seq (Prog.Yields.pure _)
  rw [Option.or_none] at hlast
  refine Prog.Yields.bind (modify_serving (fun _ => rfl) (fun _ => rfl) fun _ => rfl) ?_
  exact (Prog.Yields.raiseIf _).seq (hx.seq hlast)

theorem receive_yields :
    Prog.Yields (Serving d id) (onRec (Context.withSpan A (py "http.receive")
      [(py "method", .str req.method), (py "path", .str req.path),
        (py "remote", .str req.clientIp), (py "content_length", .int req.bytes)] (pure ())))
      (Prog.Yields.raising none ⟨⟩) (Serving d id) :=
  onRec_serving (Context.withSpan_yields (receive_timed _ _ _ _) (Prog.Yields.pure _))

/-- The body of the inner `try` raises what `raises` says. -/
theorem tryPhases_yields :
    Prog.Yields (Serving d id) (tryPhases A req) (Prog.Yields.raising req.raises ⟨⟩)
      (Serving d id) := by
  refine (inPhase_yields receive_yields).seq
    ((inPhase_yields (onRec_serving verifyAuth_yields)).seq
      ((inPhase_yields (onRec_serving parseBody_yields)).seq (inPhase_yields ?_)))
  refine (onRec_serving (runOps_yields _)).bind ?_
  unfold EngineRequest.handlerRaises
  rcases req.dispatched with e | resp
  · exact Prog.Yields.raise e
  · refine Prog.Yields.bind (modify_serving (fun _ => rfl) (fun _ => rfl) fun _ => rfl) ?_
    exact onRec_serving (recordFailure_yields resp)

/-- The `except` clauses return, unless what they are given is none of theirs. -/
theorem onExc_yields (e : Exc) :
    Prog.Yields (Serving d id) (onExc A e) (Prog.Yields.raising e.uncaught ⟨⟩)
      (Serving d id) := by
  have hrecord : ∀ code message text, Prog.Yields (Serving d id)
      (Prog.get HandleVars.phase >>= fun phase => onRec (recordError A phase code message text))
      (.ok ⟨⟩) (Serving d id) := fun code message text =>
    Prog.Yields.bind_any (J := Serving d id) (fun f hf => hf) fun phase =>
      onRec_serving (recordError_yields phase code message text)
  cases e with
  | http e =>
    exact Prog.Yields.bind (modify_serving (fun _ => rfl) (fun _ => rfl) fun _ => rfl)
      (hrecord _ _ _)
  | exception text =>
    exact Prog.Yields.bind (modify_serving (fun _ => rfl) (fun _ => rfl) fun _ => rfl)
      (hrecord _ _ _)
  | exit => exact Prog.Yields.raise _

theorem rescued_yields :
    Prog.Yields (Serving d id) (Prog.rescue (tryPhases A req) (onExc A))
      (Prog.Yields.raising req.escapes ⟨⟩) (Serving d id) := by
  have hattempt : Prog.Yields (Serving d id) (tryPhases A req)
      (Prog.Yields.raising req.raises ⟨⟩) (Serving d id) := tryPhases_yields
  unfold EngineRequest.escapes
  rcases hr : req.raises with _ | e
  · rw [hr] at hattempt
    exact hattempt.rescue_ok
  · rw [hr] at hattempt
    exact hattempt.rescue_raise (onExc_yields e)

/-! ## The hook is attached, or nothing is -/

/-- The span of the hook is entered. -/
theorem enterSend_returns {status bytes : ℤ} {f : HandleVars} (hf : Serving d id f) :
    (onRec (Context.enterSpan A (py "response.send")
      [(py "status", .int status), (py "bytes", .int bytes)] none none)).Ends f
      (fun _ => Serving d id) fun _ _ => False :=
  ((Context.enterSpan_returns (send_timed status bytes) none none hf.inFlight).mono
    (fun _ _ hs => ⟨hs, hf.attached, hf.noHook⟩) fun _ _ h => h).zoom

/-- Attaching raises what is raised before the span is entered, or after. -/
theorem attachSendHook_raises {status : ℤ} {bytes : ℕ} {e : Exc} (h : req.attachRaises = some e) :
    Prog.Yields (Serving d id) (attachSendHook A req status bytes) (.error e) (Serving d id) := by
  unfold EngineRequest.attachRaises at h
  unfold attachSendHook
  rcases hb : req.before .attach with _ | b
  · rw [hb, Option.none_or] at h
    refine (Prog.Yields.pure _).bind (Prog.Yields.bind_any (fun _ => enterSend_returns) fun _ => ?_)
    rw [h]
    exact (Prog.Yields.raise e).bind_raise
  · rw [hb, Option.some_or] at h
    obtain rfl := Option.some.inj h
    exact (Prog.Yields.raise _).bind_raise

/-- Attaching leaves the hook on the response. -/
theorem attachSendHook_yields {status : ℤ} {bytes : ℕ} (h : req.attachRaises = none) :
    Prog.Yields (Serving d id) (attachSendHook A req status bytes) (.ok ⟨⟩) fun f =>
      InFlight d id f.recording ∧ ∃ span status, f.onSent = some ⟨some span, status⟩ := by
  obtain ⟨hbefore, hafter⟩ := Option.or_eq_none_iff.mp h
  unfold attachSendHook
  rw [hbefore, hafter]
  refine (Prog.Yields.pure _).bind
    (Prog.Yields.bind_any (fun _ => enterSend_returns) fun span => ?_)
  refine (Prog.Yields.pure _).bind (Prog.Yields.modify fun f hf => ?_)
  exact ⟨hf.inFlight, span, status, rfl⟩

/-- When nothing is deferred, the `finally` clause finds the trace in flight and no
hook attached. -/
theorem serve_keeps (h : ¬cfg.Defers req) :
    ∃ r, Prog.Yields (Serving d id) (serve A cfg req) r (Serving d id) := by
  have hrescued : Prog.Yields (Serving d id) (Prog.rescue (tryPhases A req) (onExc A))
      (Prog.Yields.raising req.escapes ⟨⟩) (Serving d id) := rescued_yields
  rcases hesc : req.escapes with _ | e
  · rw [hesc] at hrescued
    have hstatus : Prog.Yields (Serving d id)
        (Prog.modify (fun f => { f with status := (f.response.map Response.status).getD 500 }) :
          Handling PUnit) (.ok ⟨⟩) (Serving d id) :=
      modify_serving (fun _ => rfl) (fun _ => rfl) fun _ => rfl
    by_cases hclose : cfg.closeOnSent = true
    · rcases hatt : req.attachRaises with _ | e
      · exact absurd ⟨hclose, hesc, hatt⟩ h
      · refine ⟨.error e, hrescued.bind (hstatus.bind ?_)⟩
        rw [if_pos hclose]
        refine Prog.Yields.bind_any (J := Serving d id) (fun _ hf => hf) fun sizes => ?_
        exact (attachSendHook_raises hatt).bind_raise
    · refine ⟨.ok ⟨⟩, hrescued.bind (hstatus.bind ?_)⟩
      rw [if_neg hclose]
      exact Prog.Yields.pure _
  · rw [hesc] at hrescued
    exact ⟨.error e, hrescued.bind_raise⟩

/-- When the trace is deferred, the response waits for its hook. -/
theorem serve_defers (h : cfg.Defers req) :
    Prog.Yields (Serving d id) (serve A cfg req) (.ok ⟨⟩) (Waiting d id) := by
  obtain ⟨hclose, hesc, hatt⟩ := h
  have hrescued : Prog.Yields (Serving d id) (Prog.rescue (tryPhases A req) (onExc A))
      (Prog.Yields.raising req.escapes ⟨⟩) (Serving d id) := rescued_yields
  rw [hesc] at hrescued
  refine hrescued.bind
    (Prog.Yields.bind (modify_serving (fun _ => rfl) (fun _ => rfl) fun _ => rfl) ?_)
  rw [if_pos hclose]
  refine Prog.Yields.bind_any (J := Serving d id) (fun _ hf => hf) fun sizes => ?_
  refine (attachSendHook_yields hatt).bind (Prog.Yields.modify fun f hf => ?_)
  exact ⟨hf.1, rfl, hf.2⟩

/-! ## The `finally` clause -/

theorem bindSpans_yields {P : HandleVars → Prop} (ref : Option ℕ)
    (h : ∀ f t, P f → P { f with recording := { f.recording with thread := t } }) :
    Prog.Yields P (bindSpans cfg ref) (.ok ⟨⟩) P := by
  refine Prog.Yields.modify fun f hf => ?_
  by_cases hspans : cfg.spans = true
  · rw [if_pos hspans]
    exact h f _ hf
  · rw [if_neg hspans]
    exact hf

/-- With no hook attached, the `finally` clause delivers the trace. -/
theorem finalize_delivers :
    Prog.Yields (Serving d id) (finalize A cfg) (.ok ⟨⟩) (Done d id) := by
  refine (bindSpans_yields none fun f t hf => ⟨hf.inFlight.onThread t, hf.attached, hf.noHook⟩).bind
    ?_
  rintro f hf
  change ((if f.attached then (pure ⟨⟩ : Handling PUnit) else _) f).1 = _ ∧
    Done d id ((if f.attached then (pure ⟨⟩ : Handling PUnit) else _) f).2
  rw [hf.attached, if_neg Bool.false_ne_true]
  refine Prog.Yields.bind (onRec_serving (Context.withSpan_yields (send_timed _ _)
    (Prog.Yields.pure _))) ?_ f hf
  exact (Context.finish_delivers f.status).zoom (fun g hg => hg.inFlight) fun g s hg hs =>
    ⟨hs, fun hook hhook => by rw [hg.noHook] at hhook; cases hhook⟩

/-- With a hook attached, it leaves the trace to the hook. -/
theorem finalize_waits :
    Prog.Yields (Waiting d id) (finalize A cfg) (.ok ⟨⟩) (Waiting d id) := by
  refine (bindSpans_yields none fun f t hf =>
    ⟨hf.inFlight.onThread t, hf.attached, hf.hook⟩).bind ?_
  rintro f hf
  change ((if f.attached then (pure ⟨⟩ : Handling PUnit) else _) f).1 = _ ∧
    Waiting d id ((if f.attached then (pure ⟨⟩ : Handling PUnit) else _) f).2
  rw [hf.attached, if_pos rfl]
  exact ⟨rfl, hf⟩

/-! ## The hook runs -/

/-- The first run of the hook delivers the trace. -/
theorem sent_delivers {thread : Thread} {span : Option ℕ} {status : ℤ} :
    Prog.Yields (fun f => InFlight d id f.recording) (sent A cfg thread ⟨some span, status⟩)
      (.ok ⟨⟩) (Done d id) := by
  refine Prog.Yields.bind (J := fun f => InFlight d id f.recording)
    (Prog.Yields.modify fun f hf => hf.onThread thread) ?_
  refine Prog.Yields.bind (J := fun f => InFlight d id f.recording)
    ((Context.exitSpan_yields span false).zoom (fun f hf => hf) fun f s _ hs => hs) ?_
  refine Prog.Yields.bind
    (J := fun f => InFlight d id f.recording ∧ f.onSent = some ⟨none, status⟩)
    (Prog.Yields.modify fun f hf => ⟨hf, rfl⟩) ?_
  refine Prog.Yields.bind (J := Done d id)
    ((Context.finish_delivers status).zoom (fun f hf => hf.1) fun f s hf hs => ⟨hs, ?_⟩) ?_
  · rintro h hh
    rw [hf.2] at hh
    obtain rfl := Option.some.inj hh
    rfl
  · exact bindSpans_yields none fun f t hf => ⟨hf.delivered.onThread t, hf.hook⟩

/-- Running it once more changes nothing of the trace. -/
theorem sent_again {thread : Thread} {status : ℤ} :
    Prog.Yields (Done d id) (sent A cfg thread ⟨none, status⟩) (.ok ⟨⟩) (Done d id) := by
  refine Prog.Yields.bind (J := Done d id)
    (Prog.Yields.modify fun f hf => ⟨hf.delivered.onThread thread, hf.hook⟩) ?_
  refine (Prog.Yields.pure _).bind (Prog.Yields.bind (J := Done d id)
    (Prog.Yields.modify fun f hf => ⟨hf.delivered, ?_⟩) ?_)
  · rintro h hh
    obtain rfl := Option.some.inj hh
    rfl
  · have hfinish : Prog.Yields (Done d id) (onRec (Context.finish A status)) (.ok ⟨⟩)
        (Done d id) := by
      intro f hf
      obtain ⟨c, hc, hfin⟩ := hf.delivered.closed
      unfold onRec Prog.zoom
      rw [Context.finish_twice hc hfin]
      exact ⟨rfl, hf.delivered, hf.hook⟩
    exact hfinish.bind (bindSpans_yields none fun f t hf => ⟨hf.delivered.onThread t, hf.hook⟩)

/-- The hook is invoked if there is one. -/
theorem fire_run (cfg : Instrument) (thread : Thread) (f : HandleVars) : fire A cfg thread f =
    match f.onSent with
    | some hook => sent A cfg thread hook f
    | none => (.ok ⟨⟩, f) := by
  have hget : fire A cfg thread f = (match f.onSent with
    | some hook => sent A cfg thread hook
    | none => pure ⟨⟩ : Handling PUnit) f := rfl
  rw [hget]
  cases f.onSent with
  | none => rfl
  | some hook => rfl

theorem fire_delivers {thread : Thread} :
    Prog.Yields (Waiting d id) (fire A cfg thread) (.ok ⟨⟩) (Done d id) := by
  intro f hf
  obtain ⟨span, status, hhook⟩ := hf.hook
  rw [fire_run, hhook]
  exact sent_delivers f hf.inFlight

theorem fire_again {thread : Thread} :
    Prog.Yields (Done d id) (fire A cfg thread) (.ok ⟨⟩) (Done d id) := by
  intro f hf
  rw [fire_run]
  rcases hhook : f.onSent with _ | ⟨stack, status⟩
  · exact ⟨rfl, hf⟩
  · obtain rfl : stack = none := hf.hook _ hhook
    exact sent_again f hf

/-- However often the hook runs, a delivered trace stays delivered once. -/
theorem fireAll_again (threads : List Thread) :
    Prog.Yields (Done d id) (fireAll A cfg threads) (.ok ⟨⟩) (Done d id) := by
  induction threads with
  | nil => exact Prog.Yields.pure _
  | cons thread rest ih => exact fire_again.bind ih

/-! ## Delivery -/

/-- The id of the trace of a request. -/
def EngineRequest.traceId (A : Ambient) (req : EngineRequest) : PyStr :=
  if req.requestId.isEmpty then A.token 0 else req.requestId

/-- Up to the `finally` clause. -/
theorem handle_yields {r : Except Exc PUnit} {P Q : HandleVars → Prop}
    (hserve : Prog.Yields (Serving d (req.traceId A)) (serve A cfg req) r P)
    (hfinal : Prog.Yields P (finalize A cfg) (.ok ⟨⟩) Q) :
    Prog.Yields (fun f => (f.recording.recorder.enabled = true ∧
        f.recording.recorder.delivered = d ∧ f.recording.tick = 0) ∧
        f.attached = false ∧ f.onSent = none)
      (Instrument.handle A cfg req) r Q := by
  refine Prog.Yields.bind (J := Serving d (req.traceId A))
    (Recorder.start_yields.zoom (fun f hf => hf.1) fun f s hf hs => ⟨hs, hf.2.1, hf.2.2⟩) ?_
  refine Prog.Yields.bind_any (J := Serving d (req.traceId A)) (fun _ hf => hf) fun ref => ?_
  refine (bindSpans_yields ref fun f t hf =>
    ⟨hf.inFlight.onThread t, hf.attached, hf.noHook⟩).bind ?_
  exact hserve.ensure fun _ => hfinal

end

section

variable (A : Ambient) {cfg : Instrument} {req : EngineRequest} {r : Recorder}

theorem starting (hon : r.enabled = true) : ((r.enabled = true ∧ r.delivered = r.delivered ∧
    0 = 0) ∧ false = false ∧ (none : Option Hook) = none) := ⟨⟨hon, rfl, rfl⟩, rfl, rfl⟩

/-- While its hook was not invoked, a deferred trace is in flight. -/
theorem lifecycle_waits (hon : r.enabled = true) (hdefers : cfg.Defers req) (thread : Thread) :
    Waiting r.delivered (req.traceId A) (lifecycle A cfg req [] r thread) :=
  (handle_yields (serve_defers hdefers) finalize_waits
    ⟨⟨r, thread, none, 0⟩, none, 500, false, .receive, none⟩ (starting hon)).2

/-- Otherwise it is delivered. -/
theorem lifecycle_delivers {threads : List Thread} (hon : r.enabled = true)
    (h : cfg.Defers req → threads ≠ []) (thread : Thread) :
    Done r.delivered (req.traceId A) (lifecycle A cfg req threads r thread) := by
  by_cases hdefers : cfg.Defers req
  · obtain ⟨first, rest, rfl⟩ := List.exists_cons_of_ne_nil (h hdefers)
    have hall : Prog.Yields (Waiting r.delivered (req.traceId A)) (fireAll A cfg (first :: rest))
        (.ok ⟨⟩) (Done r.delivered (req.traceId A)) := fire_delivers.bind (fireAll_again rest)
    exact (hall _ (lifecycle_waits A hon hdefers thread)).2
  · obtain ⟨outcome, hserve⟩ : ∃ q, Prog.Yields (Serving r.delivered (req.traceId A))
        (serve A cfg req) q (Serving r.delivered (req.traceId A)) := serve_keeps hdefers
    have hdone := (handle_yields hserve finalize_delivers
      ⟨⟨r, thread, none, 0⟩, none, 500, false, .receive, none⟩ (starting hon)).2
    exact (fireAll_again threads _ hdone).2

end

/-- If recording is on, exactly one trace was delivered by the request. -/
def FinishedOnce (A : Ambient) (r : Recorder) (req : EngineRequest) (f : HandleVars) : Prop :=
  r.enabled = true →
    ∃ t : Trace, t.id = req.traceId A ∧ f.recording.recorder.delivered = r.delivered ++ [t]

/-- **Every trace is finished exactly once, unless it waits for a hook that never
runs.** -/
theorem finished_once (A : Ambient) (cfg : Instrument) (req : EngineRequest)
    (threads : List Thread) (r : Recorder) (thread : Thread) :
    FinishedOnce A r req (lifecycle A cfg req threads r thread) ↔
      (r.enabled = true → cfg.Defers req → threads ≠ []) := by
  refine forall_congr' fun hon => ⟨?_, fun h => ?_⟩
  · rintro ⟨t, -, ht⟩ hdefers rfl
    have hsame := (lifecycle_waits A hon hdefers thread).inFlight.delivered.symm.trans ht
    have hlen := congrArg List.length hsame
    rw [List.length_append, List.length_singleton] at hlen
    omega
  · obtain ⟨t, hnamed, ht⟩ := (lifecycle_delivers A hon h thread).delivered.delivered
    exact ⟨t, hnamed.named, ht⟩

/-- An environment whose clocks stand still. -/
def stillAmbient : Ambient where
  clock := fun _ => 0
  wall := fun _ => 0
  token := fun _ => py "0badf00d"
  draw := fun _ => 0
  shown := fun l => l.flatMap fun
    | .text s | .str s | .repr s => s
  str := fun _ => []
  floats := wholeText.toFloatText

/-- `POST /predict` with an empty object, answered with `200`. -/
def plainRequest : EngineRequest where
  ref := 0
  path := py "/predict"
  method := py "POST"
  requestId := py "00000001"
  clientIp := py "127.0.0.1"
  bytes := 2
  scheme := py "none"
  credential := .ok (false, none)
  parsed := .ok (.obj [])
  ops := []
  dispatched := .ok ⟨200, 2, ([], [])⟩

/-- A client that goes away before its response is written takes its trace with it. -/
theorem unsent_lost : ¬FinishedOnce stillAmbient {} plainRequest
    (lifecycle stillAmbient { closeOnSent := true } plainRequest [] {} {}) := by
  intro h
  obtain ⟨t, _, ht⟩ := h rfl
  have hnone : (lifecycle stillAmbient { closeOnSent := true } plainRequest [] {}
      {}).recording.recorder.delivered.length = 0 := by decide +kernel
  rw [ht] at hnone
  cases hnone

end LayaWatch
