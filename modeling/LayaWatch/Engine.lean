import LayaWatch.Middleware
import LayaWatch.LegacyImport
import LayaWatch.Redact

/-!
# Engine requests

`POST /predict` and `POST /route` from the request to the response: `instrument.handle` of
`http/middleware.py` with `_verify_auth` and `_parse_body`, `Router.dispatch`, the handlers
of `api/engine.py`, and the hook that `app.py` runs once the response is written. The
recorder is called throughout; the adapter calls it through the proxy of the middleware.

The adapter is any code with a state of its own that records spans and events of the
vocabulary, sets fields, and returns a result or raises (`Adapter`). What it passes is
typed as documented, so that `Step` carries the proof that the vocabulary knows it.
-/

namespace LayaWatch

namespace Engine

/-! ## What the code is given -/

/-- What the engine paths take from the language and the keys. -/
structure Library where
  /-- API keys -/
  keys : KeyLib
  /-- characters and floats -/
  text : UnicodeText
  /-- `str.lower` -/
  lower : PyStr → PyStr
  /-- `str.upper` -/
  upper : PyStr → PyStr
  /-- how a message looks -/
  shown : List Piece → PyStr
  /-- the text of the `UnicodeEncodeError` of a credential -/
  encodeFailure : PyStr → List Piece

/-- What the recorder reads and calls, besides its configuration. -/
structure Observer where
  /-- `time.perf_counter()` -/
  clock : ℕ → ℚ
  /-- `time.time()` -/
  wall : ℕ → ℚ
  /-- `secrets.token_hex` -/
  token : ℕ → PyStr
  /-- `rng.random()` -/
  draw : ℕ → ℚ
  /-- `payload_max` -/
  payloadMax : ℕ
  /-- what `on_trace` raises -/
  onTrace : ℕ → Trace → Option Exc
  /-- what `on_log` raises -/
  onLog : ℕ → LogEntry → Option Exc

/-- The environment of the recorder. -/
def Observer.ambient (O : Observer) (L : Library) : Ambient where
  clock := O.clock
  wall := O.wall
  token := O.token
  draw := O.draw
  shown := L.shown
  str := fun
    | .str s => s
    | value => L.keys.str value
  floats := L.text.toFloatText

/-! ## The adapter -/

/-- What an adapter raises. -/
inductive Failure where
  /-- an `EnglishOnlyError`, with its `detection` -/
  | englishOnly (text : List Piece) (detection : Option Fields)
  /-- another `ValueError` -/
  | value (text : List Piece)
  /-- anything else -/
  | other (e : Exc)

/-- What an adapter does with the trace, as its `spans` seam allows. -/
inductive Step where
  /-- `with spans.span(name, ..):` -/
  | span (name : PyStr) (attrs : Fields) (documented : Timed name attrs) (body : List Step)
  /-- `spans.event(name, ..)` -/
  | event (name : PyStr) (attrs : Fields) (documented : Instant name attrs)
  /-- `spans.set(..)` -/
  | set (values : List FieldValue)
  /-- something is raised -/
  | fail (e : Failure)

/-- What an adapter returns: a `dict` whose trace fields are texts. -/
structure Result where
  /-- the `dict` -/
  fields : Fields
  /-- the trace fields have the documented types -/
  typed : ∀ name ∈ [py "model", py "route_reason", py "reason", py "lang"], ∀ value,
    Fields.get name fields = some value → value = .null ∨ ∃ s, value = .str s

/-- A trace field of a result. -/
def Result.text (r : Result) (name : PyStr) : Option PyStr :=
  match Fields.get name r.fields with
  | some (.str s) => some s
  | _ => none

/-- One call of an adapter. -/
structure Call (σ : Type) where
  /-- what it does with the trace -/
  steps : List Step
  /-- what it returns, unless it raises -/
  result : Result
  /-- its state afterwards -/
  next : σ

/-- `EngineAdapter`, as far as the handlers call it. -/
structure Adapter (σ : Type) where
  /-- `predict` -/
  predict : σ → (state questions : Fields) → (model task lang : Option Json) → Call σ
  /-- `route` -/
  route : σ → (state questions : Fields) → Call σ

/-! ## Requests and responses -/

/-- `engine_paths`. -/
inductive Route where
  /-- `/predict` -/
  | predict
  /-- `/route` -/
  | route
  deriving DecidableEq

/-- The path of a route. -/
def Route.path : Route → PyStr
  | .predict => py "/predict"
  | .route => py "/route"

/-- A `Request` on an engine path. -/
structure Request where
  /-- the thread that serves it -/
  worker : ℕ
  /-- what the thread slots name its context by -/
  ref : ℕ
  /-- `path` -/
  route : Route
  /-- `method` -/
  method : PyStr
  /-- `headers`, with lowercase names -/
  headers : List (PyStr × PyStr)
  /-- `len(body)` -/
  bytes : ℕ
  /-- `json()` -/
  parsed : Except HttpError Json
  /-- `request_id` -/
  requestId : PyStr
  /-- `client_ip` -/
  clientIp : PyStr
  /-- `time.time()` while the credential is verified -/
  now : ℚ
  /-- what opening the database raises -/
  unopened : Option (List Piece) := none

/-- A `Response`; a body is ASCII. -/
structure Reply where
  /-- `status` -/
  status : ℤ
  /-- `headers` -/
  headers : List (PyStr × PyStr)
  /-- `body` -/
  body : PyStr

/-- The variables of `handle`, the database and the adapter. -/
structure Exchange (σ : Type) where
  /-- the recorder, the thread and `ctx` -/
  recording : Recording
  /-- the database -/
  db : Db
  /-- the state of the adapter -/
  engine : σ
  /-- `response` -/
  reply : Option Reply := none
  /-- `status` -/
  status : ℤ := 500
  /-- `attached` -/
  attached : Bool := false
  /-- `phase` -/
  phase : Phase := .receive
  /-- `response.on_sent` -/
  onSent : Option Hook := none

/-- A program on these. -/
abbrev Exchanging (σ α : Type) : Type := Prog (Exchange σ) Exc α

section

variable {σ : Type}

/-- Calls of the recorder, inside `handle`. -/
def traced {α : Type} (x : Traced α) : Exchanging σ α :=
  Prog.zoom Exchange.recording (fun r s => { s with recording := r }) x

/-! ## Rendering -/

section

variable (L : Library)

/-- `json_response`. -/
def jsonResponse (data : Json) (status : ℤ) (headers : List (PyStr × PyStr)) : Reply where
  status := status
  headers := headers.foldl (fun out h => Dict.upsert h.1 h.2 out)
    [(py "Content-Type", py "application/json; charset=utf-8")]
  body := JsonText.dumps L.text.toFloatText data

/-- `error_response`. -/
def errorResponse (e : HttpError) (requestId : PyStr) : Reply :=
  jsonResponse L (.obj [(py "error", .obj ([(py "code", .str e.code),
    (py "message", .str (L.shown e.message))] ++
      match e.details with
      | some (field :: rest) => [(py "details", .obj (field :: rest))]
      | _ => []))]) e.status [(py "X-Request-Id", requestId)]

/-- `Content-Length`, in any case. -/
def isContentLength (name : PyStr) : Bool := L.lower name = py "content-length"

/-- The headers that `dispatch` sets on every response. -/
def stamp (requestId : PyStr) (r : Reply) : Reply :=
  let headers := Dict.upsert (py "X-Request-Id") requestId r.headers
  if r.status = 204 ∨ r.status = 304 then
    { r with headers := headers.filter fun h => !isContentLength L h.1 }
  else if headers.any fun h => isContentLength L h.1 then { r with headers := headers }
  else { r with headers :=
      Dict.upsert (py "Content-Length") (JsonText.dumpsNat r.body.length) headers }

/-- `_allow`, of an engine path. -/
def allow : PyStr := py "OPTIONS, POST"

/-- `_not_allowed`. -/
def notAllowed (req : Request) : Reply :=
  let r := errorResponse L { status := 405
                             code := py "method_not_allowed"
                             message := [.text (py "method "), .str req.method,
                               .text (py " not allowed")] } req.requestId
  { r with headers := Dict.upsert (py "Allow") allow r.headers }

/-! ## The credential -/

/-- The credential of the `Authorization` header. -/
def bearerCredential (headers : List (PyStr × PyStr)) : Option PyStr × PyStr :=
  let authorization := (Dict.lookup (py "authorization") headers).getD []
  let token := PyStr.strip (authorization.drop 7)
  if L.lower (authorization.take 7) = py "bearer " ∧ token ≠ [] then (some token, py "api_key")
  else (none, py "none")

/-- `_presented_credential`. -/
def presentedCredential (headers : List (PyStr × PyStr)) : Option PyStr × PyStr :=
  match Dict.lookup (py "x-api-key") headers with
  | some header =>
    if header.strip ≠ [] then (some header.strip, py "api_key") else bearerCredential L headers
  | none => bearerCredential L headers

/-- `verify_key`; a credential that is no text of UTF-8 raises a `UnicodeEncodeError`. -/
def verifiedKey (req : Request) (presented : PyStr) : Prog Db Exc (Option PyStr) := fun db =>
  match verifyKey L.keys presented req.now db with
  | (.ok keyId, db) => (.ok keyId, db)
  | (.error _, db) => (.error (.exception (L.encodeFailure presented)), db)

/-- What `_verify_auth` reads of the database: whether keys are required, and the key that
is presented. -/
def credential (req : Request) : Prog Db Exc (Bool × Option PyStr) :=
  Prog.raiseIf (req.unopened.map Exc.exception) >>= fun _ =>
  Prog.get (authArmed L.lower) >>= fun armed =>
  match armed, (presentedCredential L req.headers).1 with
  | true, some presented => verifiedKey L req presented >>= fun keyId => pure (armed, keyId)
  | _, _ => pure (armed, none)

/-- The request may go on. -/
def admits (armed : Bool) (keyId : Option PyStr) : Bool := !armed || keyId.isSome

/-- What a refused credential raises. -/
def refusal (armed : Bool) (keyId : Option PyStr) : Option Exc :=
  if admits armed keyId then none else some (.http unauthorized)

end

/-! ## The body of a request -/

/-- A body of the documented shape, with its `state` and its `questions`. -/
structure Payload where
  /-- the object -/
  fields : Fields
  /-- `payload["state"]` -/
  state : Fields
  /-- `payload["questions"]` -/
  questions : Fields
  /-- it has the state -/
  has_state : Fields.get (py "state") fields = some (.obj state)
  /-- it has the questions -/
  has_questions : Fields.get (py "questions") fields = some (.obj questions)

/-- An error of `_validated`. -/
def invalid (field message : String) : HttpError :=
  .bad (py field) [.text (py message)]

/-- `_validated`. -/
def validated : Json → Except HttpError Payload
  | .obj fields =>
    match hstate : Fields.get (py "state") fields with
    | some (.obj state) =>
      match hquestions : Fields.get (py "questions") fields with
      | some (.obj questions) => .ok ⟨fields, state, questions, hstate, hquestions⟩
      | _ => .error (invalid "questions" "'questions' must be a JSON object")
    | _ => .error (invalid "state" "'state' must be a JSON object")
  | _ => .error (invalid "body" "request body must be a JSON object")

/-- `_param`. -/
def Payload.param (p : Payload) (name : PyStr) : Option Json :=
  (Fields.get name p.fields).filter Json.truthy

/-- What `_record_payload` records of a request. -/
def Payload.request (p : Payload) : Json :=
  .obj ([(py "state", .obj p.state), (py "questions", .obj p.questions)] ++
    [py "model", py "task", py "lang"].filterMap fun name =>
      (p.param name).map fun value => (name, value))

/-! ## The recorder in the handlers -/

section

variable (L : Library) (O : Observer)

/-- The context of a thread slot is called; of another request's, which is finished, the
call raises. -/
def onSlot {α : Type} (slot : Thread → Option ℕ) (absent : α) (x : Traced α) : Traced α := fun s =>
  match slot s.thread with
  | none => (.ok absent, s)
  | some ref =>
    if s.ctx.map Context.ref = some ref then x s
    else (.error (.exception [.text (py "trace already finished")]), s)

/-- `ctx = current_context()`, and nothing if there is none. -/
def onCurrent (x : Traced PUnit) : Traced PUnit := onSlot Thread.ctx ⟨⟩ x

/-- What a call of the recorder raises inside the adapter: misuse of an open trace is a
`ValueError`. -/
def failureOf (s : Recording) : Exc → Failure
  | .exception text =>
    if s.ctx.any fun c => !c.finished && decide (s.thread.resolve = some c.ref) then .value text
    else .other (.exception text)
  | e => .other e

/-- A call of the recorder inside the adapter. -/
def seam {α : Type} (x : Traced α) : Prog Recording Failure α := fun s =>
  match x s with
  | (.ok a, t) => (.ok a, t)
  | (.error e, t) => (.error (failureOf s e), t)

mutual

/-- One step of the adapter, through `ThreadLocalSpans`. -/
def Step.run : Step → Prog Recording Failure PUnit
  | .span name attrs _ body =>
    seam (onSlot Thread.resolve none (Context.enterSpan (O.ambient L) name attrs none none)) >>=
      fun span => Prog.ensure (runSteps body) fun raised =>
        seam (Context.exitSpan (O.ambient L) span raised)
  | .event name attrs _ =>
    seam (onSlot Thread.resolve ⟨⟩ (Context.event (O.ambient L) name attrs none none))
  | .set values => seam (onSlot Thread.resolve ⟨⟩ (Context.set values))
  | .fail e => Prog.raise e

/-- The steps of the adapter. -/
def runSteps : List Step → Prog Recording Failure PUnit
  | [] => pure ⟨⟩
  | step :: rest => step.run >>= fun _ => runSteps rest

end

/-- `_record_request`. -/
def recordRequest (req : Request) (p : Payload) : Traced PUnit :=
  onCurrent (Context.set [.stateBytes (some req.bytes), .questionCount (some p.questions.length)])

/-- `_capture`. -/
def captured (enabled : Bool) (value : Option Json) : Except Exc (Option PyStr) :=
  match value with
  | none => .ok none
  | some value =>
    match Redact.captureValue L.text value enabled O.payloadMax with
    | .ok text => .ok text
    | .error _ => .error (.exception [.text (py "not encodable")])

/-- `ctx.event("payload", input=.., output=..)`. -/
def payloadEvent (input : Json) (output : Option Json) : Traced PUnit :=
  Prog.get (fun s => s.recorder.capture) >>= fun capture =>
  Prog.lift (captured L O capture (some input)) >>= fun input =>
  Prog.lift (captured L O capture output) >>= fun output =>
  Context.event (O.ambient L) (py "payload") [] input output

/-- `except Exception: pass`. -/
def swallow : Exc → Traced PUnit
  | .exit => Prog.raise .exit
  | _ => pure ⟨⟩

/-- `_record_payload`. -/
def recordPayload (p : Payload) (result : Option Result) : Traced PUnit :=
  onCurrent (Prog.get (fun s => s.recorder.capture) >>= fun capture =>
    if capture then
      Prog.rescue (payloadEvent L O p.request (result.map fun r => .obj r.fields)) swallow
    else pure ⟨⟩)

/-- `_record_result`. -/
def recordResult (r : Result) : Traced PUnit :=
  onCurrent (Context.set [.model (r.text (py "model")),
    .routeReason (if PyStr.truthy (r.text (py "route_reason")) then r.text (py "route_reason")
      else r.text (py "reason")),
    .lang (r.text (py "lang"))])

/-! ## The handlers -/

/-- The cases of `_guard`. -/
def guarded : Failure → Exc
  | .englishOnly text detection => .http {
      status := 422
      code := py "english_only"
      message := text
      details := match detection with
        | some (field :: rest) => some [(py "detection", .obj (field :: rest))]
        | _ => none }
  | .value text => .http ⟨400, py "invalid_request", text, none⟩
  | .other e => e

/-- A call of the adapter, in `_guard`. -/
def guardCall (call : σ → Call σ) : Exchanging σ Result := fun s =>
  let c := call s.engine
  match runSteps L O c.steps s.recording with
  | (.ok _, r) => (.ok c.result, { s with recording := r, engine := c.next })
  | (.error e, r) => (.error (guarded e), { s with recording := r, engine := c.next })

variable (adapter : Adapter σ)

/-- The call of `predict`. -/
def Payload.predicts (p : Payload) (s : σ) : Call σ :=
  adapter.predict s p.state p.questions (p.param (py "model")) (p.param (py "task"))
    (p.param (py "lang"))

/-- The call of `route`. -/
def Payload.routes (p : Payload) (s : σ) : Call σ := adapter.route s p.state p.questions

/-- `predict`, of a body that is valid. -/
def predictPayload (req : Request) (p : Payload) : Exchanging σ Reply :=
  traced (recordRequest req p) >>= fun _ =>
  Prog.ensureWith (guardCall L O (p.predicts adapter))
    (fun result => traced (recordPayload L O p result)) >>= fun result =>
  traced (recordResult result) >>= fun _ =>
  pure (jsonResponse L (.obj result.fields) 200 [])

/-- `route`, of a body that is valid. -/
def routePayload (req : Request) (p : Payload) : Exchanging σ Reply :=
  traced (recordRequest req p) >>= fun _ =>
  guardCall L O (p.routes adapter) >>= fun decision =>
  traced (recordResult decision) >>= fun _ =>
  pure (jsonResponse L (.obj decision.fields) 200 [])

/-- The handler of `POST`. -/
def post (req : Request) (parsed : Json) : Exchanging σ Reply :=
  Prog.lift ((validated parsed).mapError Exc.http) >>= fun p =>
  match req.route with
  | .predict => predictPayload L O adapter req p
  | .route => routePayload L O adapter req p

/-- `_route`, of an engine path. -/
def routed (req : Request) (parsed : Json) : Exchanging σ Reply :=
  if L.upper req.method = py "OPTIONS" then pure ⟨204, [(py "Allow", allow)], []⟩
  else if L.upper req.method = py "POST" then post L O adapter req parsed
  else pure (notAllowed L req)

/-- How an exception is rendered. -/
def rendered (req : Request) : Exc → Except Exc Reply
  | .http e => .ok (errorResponse L e req.requestId)
  | .exception _ => .ok (errorResponse L internalError req.requestId)
  | .exit => .error .exit

/-- `Router.dispatch`. -/
def dispatch (req : Request) (parsed : Json) : Exchanging σ Reply :=
  Prog.rescue (routed L O adapter req parsed) (fun e => Prog.lift (rendered L req e)) >>= fun r =>
  pure (stamp L req.requestId r)

/-! ## The phases -/

/-- `_verify_auth`. -/
def verifyAuth (req : Request) : Exchanging σ PUnit :=
  Prog.zoom Exchange.db (fun db s => { s with db := db }) (credential L req) >>= fun found =>
  traced (Context.setMeta [(py "armed", .bool found.1)]) >>= fun _ =>
  traced (Context.set (found.2.toList.map fun k => .clientKeyId (some k))) >>= fun _ =>
  traced (Context.withSpan (O.ambient L) (py "auth.verify")
    ([(py "scheme", .str (if found.1 then (presentedCredential L req.headers).2 else py "none")),
      (py "ok", .bool (admits found.1 found.2))] ++
      found.2.toList.map fun k => (py "key_id", .str k))
    (Prog.raiseIf (refusal found.1 found.2)))

/-- `_parse_body`. -/
def parseBody (req : Request) : Exchanging σ Json :=
  match req.parsed with
  | .error e => traced (Context.withSpan (O.ambient L) (py "body.parse")
      [(py "state_bytes", .int req.bytes)] (Prog.raise (.http e)))
  | .ok parsed => traced (Context.withSpan (O.ambient L) (py "body.parse")
      (bodyAttrs (O.ambient L) req.bytes parsed) (pure parsed))

/-- `_envelope_error`. -/
def envelopeError (r : Reply) : PyStr × PyStr :=
  let fallback := (py "http_" ++ JsonText.dumpsInt r.status, [])
  match JsonText.loads L.text.toFloatText r.body with
  | some (.obj fields) =>
    match Fields.get (py "error") fields with
    | some (.obj error) =>
      match Fields.get (py "code") error with
      | some code => ((O.ambient L).str code,
          (O.ambient L).str ((Fields.get (py "message") error).getD (.str [])))
      | none => fallback
    | _ => fallback
  | _ => fallback

/-- `_record_failure`, of a response that failed. -/
def recordFailure (r : Reply) : Traced PUnit :=
  if 400 ≤ r.status then
    recordError (O.ambient L) .handler (envelopeError L O r).1 (envelopeError L O r).2
      (envelopeError L O r).2
  else pure ⟨⟩

/-- `phase = ..`. -/
def setPhase (p : Phase) : Exchanging σ PUnit := Prog.modify fun s => { s with phase := p }

/-- `response = ..`. -/
def setReply (r : Reply) : Exchanging σ PUnit := Prog.modify fun s => { s with reply := some r }

/-- The body of the inner `try`. -/
def tryPhases (req : Request) : Exchanging σ Reply :=
  setPhase .receive >>= fun _ =>
  traced (Context.withSpan (O.ambient L) (py "http.receive")
    [(py "method", .str req.method), (py "path", .str req.route.path),
      (py "remote", .str req.clientIp), (py "content_length", .int req.bytes)]
    (pure ())) >>= fun _ =>
  setPhase .auth >>= fun _ =>
  verifyAuth L O req >>= fun _ =>
  setPhase .body >>= fun _ =>
  parseBody L O req >>= fun parsed =>
  setPhase .handler >>= fun _ =>
  dispatch L O adapter req parsed >>= fun r =>
  (setReply r >>= fun _ => traced (recordFailure L O r)) >>= fun _ => pure r

/-- What an exception is recorded as: its code, its message, and the text of the field. -/
def recordedAs : Exc → PyStr × PyStr × PyStr
  | .http e => (e.code, L.shown e.message, L.shown e.message)
  | .exception text => (internalError.code, L.shown internalError.message, L.shown text)
  | .exit => ([], [], [])

/-- The `except` clauses. -/
def onExc (req : Request) (e : Exc) : Exchanging σ Reply :=
  Prog.lift (rendered L req e) >>= fun r =>
  (setReply r >>= fun _ =>
    Prog.get Exchange.phase >>= fun phase =>
    traced (recordError (O.ambient L) phase (recordedAs L e).1 (recordedAs L e).2.1
      (recordedAs L e).2.2)) >>= fun _ => pure r

/-! ## The trace is closed -/

/-- What `except Exception` does not catch. -/
def exits : Exc → Bool
  | .exit => true
  | _ => false

/-- `finish`, with its sinks: an `Exception` of theirs is swallowed. -/
def finish (status : ℤ) : Traced PUnit := fun s =>
  let t := (Context.finish (O.ambient L) status s).2
  let logged := t.recorder.notices.drop s.recorder.notices.length
  let delivered := t.recorder.delivered.drop s.recorder.delivered.length
  if logged.any fun entry => (O.onLog s.tick entry).any exits then
    -- `on_trace` is not reached
    (.error .exit, { t with recorder := { t.recorder with delivered := s.recorder.delivered } })
  else if delivered.any fun trace => (O.onTrace s.tick trace).any exits then (.error .exit, t)
  else (.ok ⟨⟩, t)

variable (cfg : Instrument)

/-- `_attach_send_hook`. -/
def attachSendHook (r : Reply) : Exchanging σ PUnit :=
  traced (Context.enterSpan (O.ambient L) (py "response.send")
    [(py "status", .int r.status), (py "bytes", .int r.body.length)] none none) >>= fun span =>
  Prog.modify fun s => { s with onSent := some ⟨some span, r.status⟩ }

/-- After the inner `try`. -/
def afterTry (r : Reply) : Exchanging σ PUnit :=
  Prog.modify (fun s : Exchange σ => { s with status := r.status }) >>= fun _ =>
  if cfg.closeOnSent then
    attachSendHook L O r >>= fun _ => Prog.modify fun s => { s with attached := true }
  else pure ⟨⟩

/-- From the inner `try` to the `return`. -/
def serve (req : Request) : Exchanging σ Reply :=
  Prog.rescue (tryPhases L O adapter req) (onExc L O req) >>= fun r =>
  afterTry L O cfg r >>= fun _ => pure r

/-- `spans.bind`. -/
def bindSpans (ref : Option ℕ) : Exchanging σ PUnit :=
  Prog.modify fun s =>
    if cfg.spans then
      { s with recording := { s.recording with thread := s.recording.thread.bind ref } }
    else s

/-- `len(response.body) if response is not None else 0`. -/
def Exchange.bytes (s : Exchange σ) : ℕ := (s.reply.map fun r => r.body.length).getD 0

/-- The `finally` clause. -/
def finalize : Exchanging σ PUnit :=
  bindSpans cfg none >>= fun _ =>
  Prog.get (fun s : Exchange σ => (s.attached, s.status, s.bytes)) >>= fun v =>
  if v.1 then pure ⟨⟩
  else
    traced (Context.withSpan (O.ambient L) (py "response.send")
      [(py "status", .int v.2.1), (py "bytes", .int v.2.2)] (pure ())) >>= fun _ =>
    traced (finish L O v.2.1)

/-- `instrument.handle` on an engine path. -/
def handle (req : Request) : Exchanging σ Reply :=
  traced (Recorder.start (O.ambient L) req.ref req.route.path req.method req.requestId) >>= fun _ =>
  Prog.get (fun s : Exchange σ => s.recording.ctx.map Context.ref) >>= fun ref =>
  bindSpans cfg ref >>= fun _ =>
  Prog.ensure (serve L O adapter cfg req) fun _ => finalize L O cfg

/-- `sent`. -/
def sent (hook : Hook) : Exchanging σ PUnit :=
  (match hook.stack with
  | some span => traced (Context.exitSpan (O.ambient L) span false)
  | none => pure ⟨⟩) >>= fun _ =>
  Prog.modify (fun s : Exchange σ => { s with onSent := some { hook with stack := none } }) >>=
    fun _ => traced (finish L O hook.status) >>= fun _ => bindSpans cfg none

/-- `fire`, on the thread that served the request. -/
def fire : Exchanging σ PUnit :=
  Prog.get Exchange.onSent >>= fun hook =>
  match hook with
  | some hook => sent L O cfg hook
  | none => pure ⟨⟩

/-! ## One request after the other -/

/-- What there is between two requests. -/
structure Server (σ : Type) where
  /-- the recorder -/
  recorder : Recorder
  /-- the slots of the threads -/
  threads : ℕ → Thread
  /-- readings so far -/
  tick : ℕ
  /-- the database -/
  db : Db
  /-- the state of the adapter -/
  engine : σ

/-- The variables before `handle` runs. -/
def Server.exchange (s : Server σ) (worker : ℕ) : Exchange σ where
  recording := ⟨s.recorder, s.threads worker, none, s.tick⟩
  db := s.db
  engine := s.engine

/-- What there is after it. -/
def Server.after (s : Server σ) (worker : ℕ) (t : Exchange σ) : Server σ where
  recorder := t.recording.recorder
  threads := Function.update s.threads worker t.recording.thread
  tick := t.recording.tick
  db := t.db
  engine := t.engine

/-- What a request comes to. -/
structure Answer where
  /-- what `handle` returns or raises -/
  reply : Except Exc Reply
  /-- what the hook raises -/
  hook : Except Exc PUnit

/-- The variables after `handle` has returned and the hook has run. -/
def served (req : Request) (s : Server σ) : Exchange σ :=
  (fire L O cfg (handle L O adapter cfg req (s.exchange req.worker)).2).2

/-- A request, and its hook once the response is written. -/
def answer (req : Request) (s : Server σ) : Answer where
  reply := (handle L O adapter cfg req (s.exchange req.worker)).1
  hook := (fire L O cfg (handle L O adapter cfg req (s.exchange req.worker)).2).1

/-- Requests, one after the other. -/
def answers : List Request → Server σ → List Answer
  | [], _ => []
  | req :: rest, s => answer L O adapter cfg req s ::
      answers rest (s.after req.worker (served L O adapter cfg req s))

/-- The server after them. -/
def afterwards : List Request → Server σ → Server σ
  | [], s => s
  | req :: rest, s => afterwards rest (s.after req.worker (served L O adapter cfg req s))

end

end

end Engine

end LayaWatch
