import LayaWatch.Keys
import LayaWatch.SessionLifecycle
import LayaWatch.Settings

/-!
# The other handlers that change something

The handlers of `api/traces.py`, `api/keys.py`, `api/users.py`, `api/settings.py`,
`api/ratelimits.py` and `api/playground.py` that `docs/api-reference.md` lists as
gated, besides those of `Keys`, `Sessions` and `Users`. A handler reads the clock
once. What is not a table (the buckets of the rate limits, the backoff of logins,
the trace of a playground run) is left out.
-/

namespace LayaWatch

open Auth

/-- A request, with what handlers read of it besides its session. -/
structure ApiRequest extends SessionRequest where
  /-- `path` -/
  path : PyStr := []
  /-- `query` -/
  query : Params := Dict.empty
  /-- `_presented_key` -/
  presented : Option PyStr := none

/-- `gate`, with its permission. -/
def gated (r : SessionRequest) (cached : Option Caller) (permission action : String)
    (target : Option PyStr) (now : ℚ) : Handler Caller := do
  let who ← gate r cached
  requirePermission who (py permission) (py action) target now
  pure who

/-- An audit row of a handler. -/
def callerEntry (who : Caller) (now : ℚ) (action : String) (target : Option PyStr)
    (metadata : Fields) : AuditEntry :=
  { ts := now
    actorId := who.actorId
    actor := who.actor
    action := py action
    target := target
    metadata := some metadata }

/-- `_reject_unknown_query`. -/
def rejectQuery (query : Params) : Except HttpError Unit :=
  match query.keys.head? with
  | some key => .error (QueryError.http [.text (py "unknown query parameter "), .repr key])
  | none => .ok ()

/-- A body that must be an object; the error names the body. -/
def objectBody (r : SessionRequest) : Except HttpError Fields :=
  match r.body with
  | .error e => .error e
  | .ok (.obj payload) => .ok payload
  | .ok _ => .error (.bad (py "body") [.text (py "request body must be a JSON object")])

theorem objectBody_eq_ok {r : SessionRequest} {payload : Fields} :
    objectBody r = .ok payload ↔ r.body = .ok (.obj payload) := by
  unfold objectBody
  constructor
  · intro h
    split at h
    · cases h
    · next hbody =>
      rw [hbody, Except.ok.inj h]
    · cases h
  · intro hbody
    rw [hbody]

/-- The parts of a path below its prefix. -/
def pathParts (start : String) (path : PyStr) : List PyStr :=
  (path.drop (py start).length).splitOn (CodePoint.ofChar '/')

/-- An integer, or NULL, as JSON. -/
def optionalInt (value : Option ℤ) : Json := (value.map Json.int).getD .null

/-! ## Traces -/

/-- `_MAX_TAGS`. -/
def maxTags : ℕ := 10

/-- `_MAX_TAG_LEN`. -/
def maxTagLen : ℕ := 32

/-- `_MAX_COMMENT`. -/
def maxComment : ℕ := 500

/-- `_DATA_TYPES`. -/
def dataTypes : List PyStr := [py "numeric", py "boolean", py "categorical"]

/-- A validated score: the columns that the request gives. -/
structure ScoreForm where
  /-- `name` -/
  name : PyStr
  /-- `value` -/
  value : SqlValue
  /-- `data_type` -/
  dataType : PyStr
  /-- `comment` -/
  comment : Option PyStr
  deriving DecidableEq

/-- The stored value of a score, and the type that it is taken for. -/
def scoreValue (T : PyText) : Json → Except HttpError (SqlValue × PyStr)
  | .bool b => .ok (.real (if b then 1 else 0), py "boolean")
  | .int n =>
    -- `math.isfinite` converts it
    match T.floatOfInt n with
    | some x => .ok (.real x, py "numeric")
    | none => .error .unhandled
  | .float x => .ok (.real x, py "numeric")
  | .str s => .ok (.text s, py "categorical")
  | _ => .error (.bad (py "value") [.text (py "'value' must be a string, number or boolean")])

/-- `_validated_score`. -/
def validatedScore (T : PyText) (r : SessionRequest) : Except HttpError ScoreForm := do
  let payload ← objectBody r
  let name ← match payload.get (py "name") with
    | some (.str name) =>
      if name.isEmpty then
        .error (.bad (py "name") [.text (py "'name' must be a non-empty string")])
      else .ok name
    | _ => .error (.bad (py "name") [.text (py "'name' must be a non-empty string")])
  let (value, inferred) ← match payload.get (py "value") with
    | none => .error (.bad (py "value") [.text (py "'value' is required")])
    | some value => scoreValue T value
  let wrongType : HttpError :=
    .bad (py "data_type") [.text (py "'data_type' must be numeric, boolean or categorical")]
  let dataType ← match payload.get (py "data_type") with
    | none | some .null => .ok inferred
    | some (.str dataType) =>
      if dataTypes.contains dataType then .ok dataType else .error wrongType
    | some _ => .error wrongType
  let wrongComment : HttpError :=
    .bad (py "comment") [.text (py "'comment' must be a string of at most 500 characters")]
  let comment ← match payload.get (py "comment") with
    | none | some .null => .ok none
    | some (.str comment) =>
      if maxComment < comment.length then .error wrongComment else .ok (some comment)
    | some _ => .error wrongComment
  let wrongSource : HttpError := .bad (py "source") [.text (py "'source' must be 'api'")]
  match payload.get (py "source") with
  | none | some .null => .ok ⟨name, value, dataType, comment⟩
  | some (.str source) =>
    if source = py "api" then .ok ⟨name, value, dataType, comment⟩ else .error wrongSource
  | some _ => .error wrongSource

/-- One tag of a body. -/
def tagText : Json → Except HttpError PyStr
  | .str tag =>
    if maxTagLen < tag.length then
      .error (.bad (py "tags") [.text (py "tags must be at most 32 characters")])
    else .ok tag
  | _ => .error (.bad (py "tags") [.text (py "tags must be strings")])

/-- A list of `_validated_tags`, before its entries are looked at. -/
def tagItems (payload : Fields) (field : String) : Except HttpError (List Json) :=
  match payload.get (py field) with
  | none => .ok []
  | some (.arr items) => .ok items
  | some _ =>
    .error (.bad (py field) [.text (py ("'" ++ field ++ "' must be an array of strings"))])

/-- `_validated_tags`: what to add and what to remove. -/
def validatedTags (r : SessionRequest) : Except HttpError (List PyStr × List PyStr) := do
  let payload ← objectBody r
  let add ← tagItems payload "add"
  let remove ← tagItems payload "remove"
  let add ← add.mapM tagText
  let remove ← remove.mapM tagText
  .ok (add, remove)

/-- The tags of a trace after a change. -/
def mergedTags (stored add remove : List PyStr) : List PyStr :=
  add.foldl (fun tags tag => if tags.contains tag then tags else tags ++ [tag])
    (stored.filter fun tag => !remove.contains tag)

/-- The row of a trace, as `trace_detail` finds it. -/
def storedTrace (db : Db) (id : PyStr) : Option TraceRow :=
  db.traces.find? fun row => decide (row.id = id)

/-- `trace_detail`, as far as the handlers that change a trace read it. -/
def loadTrace (id : PyStr) : Handler TraceRow := fun db =>
  if !id.encodable then (.error .unhandled, db)
  else
    match storedTrace db id with
    | some row => (.ok row, db)
    | none => (.error ⟨404, py "not_found",
        [.text (py "trace "), .str id, .text (py " not found")], none⟩, db)

/-- `trace_detail` only reads. -/
theorem loadTrace_reads (id : PyStr) (db : Db) : loadTrace id db = ((loadTrace id db).1, db) := by
  unfold loadTrace
  by_cases hid : (!id.encodable) = true
  · rw [if_pos hid]
  · rw [if_neg hid]
    rcases storedTrace db id with _ | row <;> rfl

/-- The row that is loaded is the stored one. -/
theorem loadTrace_eq_ok {id : PyStr} {row : TraceRow} {db : Db} :
    (loadTrace id db).1 = .ok row ↔ id.encodable = true ∧ storedTrace db id = some row := by
  unfold loadTrace
  cases hid : id.encodable with
  | false => exact iff_of_false (fun h => by cases h) fun h => by cases h.1
  | true =>
    rcases hrow : storedTrace db id with _ | row'
    · exact iff_of_false (fun h => by cases h) fun h => by cases h.2
    · constructor
      · intro h
        exact ⟨rfl, congrArg some (Except.ok.inj h)⟩
      · rintro ⟨-, h⟩
        exact congrArg Except.ok (Option.some.inj h)

/-- `insert_audit`, by the actor `api`. -/
def apiEntry (action : String) (target : PyStr) (now : ℚ) : AuditEntry :=
  { ts := now
    actorId := none
    actor := py "api"
    action := py action
    target := some target }

/-- The new row of `scores`. -/
def ScoreForm.row (form : ScoreForm) (scoreId traceId : PyStr) (now : ℚ) : Score where
  id := scoreId
  traceId := traceId
  name := form.name
  value := form.value
  dataType := form.dataType
  source := py "api"
  comment := form.comment
  ts := now

/-- The texts of a score can be bound. -/
def ScoreForm.bindable (form : ScoreForm) : Bool :=
  form.name.encodable && form.value.bindable && form.comment.all PyStr.encodable

/-- A value of a score as JSON. -/
def SqlValue.json : SqlValue → Json
  | .null => .null
  | .integer n => .int n
  | .real x => .float x
  | .text s => .str s

section

variable (A : AuthLib) (T : PyText)

/-- `_scores`, with `secrets.token_hex(8)`. It asks for no caller. -/
def scores (r : SessionRequest) (traceId scoreId : PyStr) (now : ℚ) : Handler Fields := do
  let form ← Prog.lift (validatedScore T r)
  let _ ← loadTrace traceId
  let taken ← Prog.get fun db => db.scores.any fun row => decide (row.id = scoreId)
  -- the primary key, and values that cannot be bound
  Prog.raiseIf (if taken || !form.bindable then some .unhandled else none)
  Prog.modify fun db =>
    ({ db with scores := db.scores ++ [form.row scoreId traceId now] }).audit
      (apiEntry "trace.scored" traceId now)
  pure [(py "id", .str scoreId), (py "name", .str form.name), (py "value", form.value.json),
    (py "data_type", .str form.dataType), (py "source", .str (py "api")),
    (py "comment", (form.comment.map Json.str).getD .null), (py "ts", .float now)]

/-- `set_trace_tags`. -/
def setTraceTags (traceId : PyStr) (tags : List PyStr) (db : Db) : Db :=
  { db with
    traces := db.traces.map fun row => if row.id = traceId then { row with tags := tags } else row }

/-- `_tags`. It asks for no caller. -/
def tags (r : SessionRequest) (traceId : PyStr) (now : ℚ) : Handler Fields := do
  let (add, remove) ← Prog.lift (validatedTags r)
  let row ← loadTrace traceId
  let merged := mergedTags row.tags add remove
  Prog.raiseIf (if maxTags < merged.length then
    some (.bad (py "tags") [.text (py "a trace may carry at most 10 tags")]) else none)
  Prog.modify fun db => (setTraceTags traceId merged db).audit (apiEntry "trace.tagged" traceId now)
  pure [(py "tags", .arr (merged.map Json.str))]

/-- `post_route` of the traces. -/
def postTrace (r : ApiRequest) (scoreId : PyStr) (now : ℚ) : Handler Fields := do
  let _ ← enforceBrowserSession A r.toSessionRequest false now
  match pathParts "/api/v1/traces/" r.path with
  | [traceId, action] =>
    if action = py "scores" then scores T r.toSessionRequest traceId scoreId now
    else if action = py "tags" then tags r.toSessionRequest traceId now
    else Prog.raise (unmatched "POST" r.path)
  | _ => Prog.raise (unmatched "POST" r.path)

/-- `_RANGE_PARAMS`. -/
def rangeParams : List PyStr := [py "since", py "until", py "range"]

/-- What `delete_range` checks before its gate: the window. -/
def rangeWindow (query : Params) (now : ℚ) : Except HttpError Window :=
  match query.keys.find? fun key => !rangeParams.contains key with
  | some key => .error (QueryError.http [.text (py "unknown query parameter "), .repr key])
  | none =>
    match resolveWindow T query now with
    | .error (.invalid message) => .error (QueryError.http message)
    | .error .crashed => .error .unhandled
    | .ok window =>
      match window.sinceTs, window.untilTs with
      | none, none => .error (QueryError.http
          [.text (py "a time range is required: pass since, until or range")])
      | some since, some til =>
        if til ≤ since then .error (QueryError.http [.text (py "since must be before until")])
        else .ok window
      | _, _ => .ok window

/-- A row is in the window. -/
def Window.holds (window : Window) (row : TraceRow) : Bool :=
  (window.sinceTs.all fun since => decide (since ≤ row.tsStart)) &&
    window.untilTs.all fun til => decide (row.tsStart < til)

/-- `DELETE FROM traces WHERE ..`; observations and scores follow their trace. -/
def deleteTraces (window : Window) (db : Db) : Db :=
  let ids := (db.traces.filter window.holds).map fun row => row.id
  { db with
    traces := db.traces.filter fun row => !window.holds row
    observations := db.observations.filter fun o => !decide (o.traceId ∈ ids)
    scores := db.scores.filter fun s => !decide (s.traceId ∈ ids) }

/-- A bound as JSON. -/
def optionalFloat (value : Option ℚ) : Json := (value.map Json.float).getD .null

/-- `delete_range`. -/
def deleteRange (r : ApiRequest) (now : ℚ) : Handler Fields := do
  let cached ← enforceBrowserSession A r.toSessionRequest false now
  let window ← Prog.lift (rangeWindow T r.query now)
  let who ← gated r.toSessionRequest cached "traces.delete" "trace.deleted" none now
  let deleted ← Prog.get fun db => db.traces.countP window.holds
  Prog.modify fun db => (deleteTraces window db).audit
    (callerEntry who now "trace.deleted" none
      [(py "since", optionalFloat window.sinceTs), (py "until", optionalFloat window.untilTs),
        (py "count", .int deleted)])
  pure [(py "deleted", .int deleted), (py "since", optionalFloat window.sinceTs),
    (py "until", optionalFloat window.untilTs)]

end

/-! ## Keys -/

section

variable (A : AuthLib)

/-- What `_set_limits` checks before its gate. -/
def limitUpdate (r : SessionRequest) : Except HttpError KeyLimits := do
  let payload ← bodyObject r
  match payload.find? fun e => !limitNames.contains e.1 with
  | some (field, _) => .error (.bad field [.text (py "unknown field "), .repr field])
  | none =>
    if payload.isEmpty then
      .error (.bad (py "rate_limit_per_min") [.text (py "no limit fields to update")])
    else KeyLimits.ofPayload payload

/-- `_set_limits`. -/
def setLimits (r : SessionRequest) (cached : Option Caller) (keyId : PyStr) (now : ℚ) :
    Handler Fields := do
  let limits ← Prog.lift (limitUpdate r)
  let who ← gated r cached "keys.write" "ratelimit.updated" (some (py "key:" ++ keyId)) now
  let row ← loadKey keyId
  let before : KeyLimits := ⟨row.rateLimitPerMin, row.burst⟩
  Prog.raiseIf (if limits.bindable then none else some .unhandled)
  Prog.modify fun db => (db.mapKey keyId fun row =>
    { row with rateLimitPerMin := limits.rateLimitPerMin, burst := limits.burst }).audit
      (callerEntry who now "ratelimit.updated" (some (py "key:" ++ keyId))
        [(py "before", .obj before.fields), (py "after", .obj limits.fields)])
  pure ((py "id", .str keyId) :: limits.fields)

/-- `patch_key`. -/
def patchKey (r : ApiRequest) (now : ℚ) : Handler Fields := do
  let cached ← enforceBrowserSession A r.toSessionRequest false now
  match keyPathParts r.path with
  | [keyId] =>
    if keyId.isEmpty then Prog.raise (unmatched "PATCH" r.path)
    else setLimits r.toSessionRequest cached keyId now
  | _ => Prog.raise (unmatched "PATCH" r.path)

/-- What `set_auth_state` checks before its gate. -/
def armedFlag (r : SessionRequest) : Except HttpError Bool := do
  let payload ← bodyObject r
  match payload.get (py "enabled") with
  | some (.bool enabled) => .ok enabled
  | _ => .error (.bad (py "enabled") [.text (py "'enabled' must be true or false")])

/-- `INSERT INTO settings .. ON CONFLICT(key) DO UPDATE`. -/
def upsertSetting (key value : PyStr) (who : PyStr) (now : ℚ) (db : Db) : Db :=
  { db with
    settings := db.settings.set key { value := value, updatedAt := now, updatedBy := some who } }

/-- `set_auth_state`. -/
def setAuthState (r : SessionRequest) (now : ℚ) : Handler Fields := do
  let cached ← enforceBrowserSession A r false now
  let enabled ← Prog.lift (armedFlag r)
  let who ← gated r cached "keys.write" "key.auth_changed" (some (py "keys.auth")) now
  let active ← Prog.get fun db => db.apiKeys.any fun row => row.revokedAt.isNone
  Prog.raiseIf (if enabled && !active then
    some (.bad (py "enabled") [.text (py "cannot arm key auth without at least one active key")])
    else none)
  Prog.modify fun db =>
    (upsertSetting authSettingsKey (py (if enabled then "true" else "false")) who.actor now
      db).audit (callerEntry who now "key.auth_changed" (some (py "keys.auth"))
        [(py "enabled", .bool enabled)])
  pure [(py "enabled", .bool enabled)]

/-! ## Users -/

/-- A validated new user. -/
structure UserForm where
  /-- `email` -/
  email : PyStr
  /-- `name` -/
  name : PyStr
  /-- `role` -/
  role : Role
  /-- `password` -/
  password : PyStr

/-- `_validated_create`, but for the hash. -/
def validatedCreate (r : SessionRequest) : Except HttpError UserForm := do
  let payload ← bodyObject r
  let email ← match payload.get (py "email") with
    | some (.str email) => normalizeEmail A email
    | _ => .error (.bad (py "email") [.text (py "email is required")])
  let name ← nameField ((payload.get (py "name")).getD .null)
  let role ← roleField ((payload.get (py "role")).getD .null)
  let password ← textField "password" "'password' is required" payload
  match policyError A email password with
  | some reason => .error (.bad (py "password") [.str reason])
  | none => .ok ⟨email, name, role, password⟩

/-- The row of a new user. -/
def UserForm.row (form : UserForm) (userId salt : PyStr) (now : ℚ) : UserRow where
  id := userId
  email := form.email
  name := form.name
  role := form.role
  passwordHash := A.hashPassword form.password salt
  createdAt := now
  mustChange := true

/-- `create_user`, with `secrets.token_hex(8)` and the salt of the hash. -/
def createUser (r : SessionRequest) (userId salt : PyStr) (now : ℚ) : Handler Fields := do
  let cached ← enforceBrowserSession A r false now
  let who ← gated r cached "users.write" "user.created" none now
  let form ← Prog.lift (validatedCreate A r)
  Prog.raiseIf (if form.email.encodable && form.name.encodable && form.password.encodable then none
    else some .unhandled)
  let taken ← Prog.get fun db =>
    db.users.any fun u => decide (u.email = form.email) || decide (u.id = userId)
  Prog.raiseIf (if taken then
    some (.plain 409 "email_taken" "a user with that email already exists") else none)
  Prog.modify fun db => ({ db with users := db.users ++ [form.row A userId salt now] }).audit
    (callerEntry who now "user.created" (some userId)
      [(py "email", .str form.email), (py "role", .str form.role.name),
        (py "must_change", .bool true)])
  pure (userPayload (form.row A userId salt now))

/-- The rest of a PATCH or DELETE of a user, past its gate: the program of `Users`,
which asks for the session once more. -/
def userRest (r : SessionRequest) (who : Caller) (userId : PyStr) (op : UserOp) (now : ℚ) :
    Handler Fields := fun db =>
  match userAlone ⟨who.sessionId.getD [], r.csrf, userId, op, fun _ => now⟩ db with
  | (.ok fields, db) => (.ok fields, db)
  | (.error (.http e), db) => (.error e, db)
  | (.error .assertion, db) => (.error .unhandled, db)

/-- `user_wildcard`. -/
def userWildcard (r : ApiRequest) (now : ℚ) : Handler Fields := do
  let cached ← enforceBrowserSession A r.toSessionRequest false now
  match pathParts "/api/v1/users/" r.path with
  | [userId] =>
    if userId.isEmpty then Prog.raise (unmatched "PATCH" r.path)
    else do
      let payload ← Prog.lift (bodyObject r.toSessionRequest)
      let who ← gate r.toSessionRequest cached
      requirePermission who (py "users.write")
        ((intentAction payload).getD (py "users.write")) (some userId) now
      userRest r.toSessionRequest who userId (.patch (.ok (.obj payload))) now
  | _ => Prog.raise (unmatched "PATCH" r.path)

/-- `delete_user_route`. -/
def deleteUserRoute (r : ApiRequest) (now : ℚ) : Handler Fields := do
  let cached ← enforceBrowserSession A r.toSessionRequest false now
  match pathParts "/api/v1/users/" r.path with
  | [userId] =>
    if userId.isEmpty then Prog.raise (unmatched "DELETE" r.path)
    else do
      let who ← gated r.toSessionRequest cached "users.write" "user.deleted" (some userId) now
      userRest r.toSessionRequest who userId .delete now
  | _ => Prog.raise (unmatched "DELETE" r.path)

end

/-! ## Settings -/

/-- `_CONTROLS`. -/
def controls : List PyStr :=
  [py "retention_traces", py "retention_days", py "log_ring_size", py "trace_sample",
    py "stream_tick", py "capture_payloads"]

/-- `_TRUE_TEXT`. -/
def trueText : List PyStr := [py "1", py "true", py "yes", py "on"]

/-- `_SECRET_KEY_FRAGMENTS`. -/
def secretFragments : List PyStr := [py "secret", py "token", py "password"]

/-- A float as JSON, if it is a number. -/
def PyFloat.json (x : PyFloat) : Json := (x.toRat?.map Json.float).getD .null

namespace Config

/-- The default of a control. -/
def control (cfg : Config) : List (PyStr × Json) :=
  [(py "retention_traces", .int cfg.retentionTraces), (py "retention_days", .int cfg.retentionDays),
    (py "log_ring_size", .int cfg.logRingSize), (py "trace_sample", cfg.traceSample.json),
    (py "stream_tick", .int cfg.streamTick), (py "capture_payloads", .bool cfg.capturePayloads)]

/-- `safe_config_snapshot`. -/
def safeSnapshot (cfg : Config) : Fields :=
  [(py "bind", .str cfg.bind), (py "port", .int cfg.port), (py "device", .str cfg.device),
    (py "models", .arr (cfg.models.map Json.str)), (py "english_only", .bool cfg.englishOnly),
    (py "record", .bool cfg.record), (py "api", .bool cfg.api),
    (py "trust_proxy", .bool cfg.trustProxy), (py "trace_sample", cfg.traceSample.json),
    (py "capture_payloads", .bool cfg.capturePayloads), (py "payload_max", .int cfg.payloadMax),
    (py "retention_traces", .int cfg.retentionTraces),
    (py "retention_days", .int cfg.retentionDays), (py "ring_traces", .int cfg.ringTraces),
    (py "stream_tick", .int cfg.streamTick), (py "max_body_bytes", .int cfg.maxBodyBytes),
    (py "socket_timeout", cfg.socketTimeout.json), (py "log_level", .str cfg.logLevel)]

end Config

section

variable (A : AuthLib) (T : PyText) (cfg : Config)

/-- `_typed`, unless it raises. -/
def typedControl (name text : PyStr) : Option Json :=
  if name = py "capture_payloads" then some (.bool (trueText.contains (T.lower text.strip)))
  else if name = py "trace_sample" then (T.float text).bind fun x => x.map Json.float
  else (T.int text).map Json.int

/-- `_effective_value`. -/
def effectiveValue (db : Db) (name : PyStr) : Json :=
  let default := (cfg.control.lookup name).getD .null
  match db.settings.get name with
  | none => default
  | some row => (typedControl T name row.value).getD default

/-- `_secret_key`. -/
def secretKey (key : PyStr) : Bool :=
  secretFragments.any fun part => decide (part <:+: T.lower key)

/-- `_payload` of the settings. -/
def settingsPayload (db : Db) : Fields :=
  let rows := (db.settings.entries.insertionSort fun a b => a.1 ≤ b.1).filter fun e =>
    !secretKey T e.1
  [(py "config", .obj cfg.safeSnapshot),
    (py "settings", .obj (rows.map fun e => (e.1, .str e.2.value))),
    (py "effective", .obj (controls.map fun name => (name, effectiveValue T cfg db name))),
    (py "note", .str (py ("runtime settings override config where present; " ++
      "writes gated by settings.write (admin+)")))]

/-- What `update` checks before its gate: the texts to store. -/
def settingTexts (r : ApiRequest) : Except HttpError (List (PyStr × PyStr)) := do
  rejectQuery r.query
  let payload ← objectBody r.toSessionRequest
  if payload.isEmpty then .error (.bad (py "body") [.text (py "no settings to update")])
  else payload.mapM fun e => (controlText T e.1 e.2).map fun text => (e.1, text)

/-- `update`, of `POST /api/v1/settings`. -/
def updateSettings (r : ApiRequest) (now : ℚ) : Handler Fields := do
  let cached ← enforceBrowserSession A r.toSessionRequest false now
  let stored ← Prog.lift (settingTexts T r)
  let who ← gated r.toSessionRequest cached "settings.write" "settings.updated" none now
  let capture := py "capture_payloads"
  let toggled := stored.any fun e => decide (e.1 = capture)
  if toggled then
    requirePermission who (py "settings.capture") (py "payload_capture.toggled") none now
  let sorted := stored.insertionSort fun a b => a.1 ≤ b.1
  let before ← Prog.get fun db => sorted.map fun e => (e.1, effectiveValue T cfg db e.1)
  let after ← Prog.lift (sorted.mapM fun e =>
    match typedControl T e.1 e.2 with
    | some value => Except.ok (e.1, value)
    | none => .error .unhandled)
  Prog.modify fun db =>
    (stored.foldl (fun db e => upsertSetting e.1 e.2 who.actor now db) db).audit
      (callerEntry who now "settings.updated"
        (some (List.intercalate (py ",") (sorted.map Prod.fst)))
        [(py "before", .obj before), (py "after", .obj after)])
  if toggled then
    Prog.modify (Db.audit (callerEntry who now "payload_capture.toggled" (some capture)
      [(py "before", (Fields.get capture before).getD .null),
        (py "after", (Fields.get capture after).getD .null)]))
  Prog.get (settingsPayload T cfg)

end

/-! ## Rate limits -/

/-- The kinds of `_POLICY_FIELDS`, with their constraints. -/
inductive PolicyKind where
  /-- `"bool"` -/
  | bool
  /-- `"int"` -/
  | int (minimum : ℤ)
  /-- `"window"` -/
  | window (choices : List ℤ)

/-- A row of `_POLICY_FIELDS`. -/
structure PolicyField where
  /-- the name -/
  name : String
  /-- the key in `settings` -/
  key : String
  /-- the attribute of the configuration -/
  default : Config → Json
  /-- the kind -/
  kind : PolicyKind

/-- `_POLICY_FIELDS`. -/
def policyFields : List PolicyField :=
  [⟨"enabled", "ratelimit.enabled", fun cfg => .bool cfg.ratelimitEnabled, .bool⟩,
    ⟨"engine_per_min", "ratelimit.engine_per_min", fun cfg => .int cfg.ratelimitEnginePerMin,
      .int 0⟩,
    ⟨"ip_per_min", "ratelimit.ip_per_min", fun cfg => .int cfg.ratelimitIpPerMin, .int 0⟩,
    ⟨"login", "ratelimit.login", fun cfg => .int cfg.ratelimitLogin, .int 1⟩,
    ⟨"login_window", "ratelimit.login_window", fun cfg => .int cfg.ratelimitLoginWindow,
      .window [300, 900, 3600]⟩,
    ⟨"mutation_per_min", "ratelimit.mutation_per_min",
      fun cfg => .int cfg.ratelimitMutationPerMin, .int 0⟩,
    ⟨"playground_per_min", "ratelimit.playground_per_min",
      fun cfg => .int cfg.ratelimitPlaygroundPerMin, .int 0⟩,
    ⟨"engine_max_inflight", "ratelimit.engine_max_inflight",
      fun cfg => .int cfg.engineMaxInflight, .int 1⟩,
    ⟨"engine_queue_max", "ratelimit.engine_queue_max", fun cfg => .int cfg.engineQueueMax, .int 1⟩,
    ⟨"loopback_exempt", "ratelimit.loopback", fun cfg => .bool cfg.ratelimitLoopback, .bool⟩]

/-- The constraint at the end of `_parse`. -/
def policyInt (name : PyStr) (kind : PolicyKind) (value : ℤ) : Except HttpError Json :=
  match kind with
  | .window choices =>
    if choices.contains value then .ok (.int value)
    else .error (.bad name
      [.text (py "'"), .str name, .text (py "' must be one of [300, 900, 3600] seconds")])
  | .int minimum =>
    if value < minimum then
      .error (.bad name [.text (py "'"), .str name, .text (py "' must be at least "),
        .str (JsonText.dumpsInt minimum)])
    else .ok (.int value)
  | .bool => .ok (.int value)

/-- `_parse`, of a value of a body. -/
def parsePolicy (field : PolicyField) (raw : Json) : Except HttpError Json :=
  let name := py field.name
  match field.kind, raw with
  | .bool, .bool b => .ok (.bool b)
  | .bool, _ => .error (.bad name [.text (py "'"), .str name, .text (py "' must be a boolean")])
  | kind, .int value => policyInt name kind value
  | _, _ => .error (.bad name [.text (py "'"), .str name, .text (py "' must be an integer")])

/-- `validated_update`, of `request.json()`. -/
def validatedUpdate (r : SessionRequest) : Except HttpError (List (PolicyField × Json)) := do
  let payload ← objectBody r
  if payload.isEmpty then .error (.bad (py "body") [.text (py "no policy fields to update")])
  else payload.mapM fun e =>
    match policyFields.find? fun field => py field.name = e.1 with
    | none => .error (.bad e.1 [.text (py "unknown policy field "), .repr e.1])
    | some field => (parsePolicy field e.2).map fun value => (field, value)

section

variable (A : AuthLib) (T : PyText) (cfg : Config)

/-- `_parse`, of a stored text. -/
def parsePolicyText (field : PolicyField) (text : PyStr) : Option Json :=
  match field.kind with
  | .bool => some (.bool (trueText.contains (T.lower text.strip)))
  | kind => (T.int text.strip).bind fun value => (policyInt (py field.name) kind value).toOption

/-- `effective_policy`. -/
def effectivePolicy (db : Db) : Fields :=
  policyFields.map fun field =>
    (py field.name, ((db.settings.get (py field.key)).bind fun row =>
      parsePolicyText T field row.value).getD (field.default cfg))

/-- The text that `upsert_policy` stores. -/
def policyText : Json → PyStr
  | .bool b => py (if b then "1" else "0")
  | .int n => JsonText.dumpsInt n
  | _ => []

/-- `_key_overrides`. -/
def keyOverrides (db : Db) : Json :=
  let rows := db.apiKeys.insertionSort fun a b => a.createdAt < b.createdAt ∨
    a.createdAt = b.createdAt ∧ a.id ≤ b.id
  .arr (rows.map fun row => .obj [(py "id", .str row.id), (py "prefix", .str row.keyPrefix),
    (py "rate_limit_per_min", optionalInt row.rateLimitPerMin),
    (py "burst", optionalInt row.burst)])

/-- `update_policy`. -/
def updatePolicy (r : SessionRequest) (now : ℚ) : Handler Fields := do
  let cached ← enforceBrowserSession A r false now
  let updates ← Prog.lift (validatedUpdate r)
  let who ← gated r cached "settings.write" "ratelimit.updated" none now
  let current ← Prog.get (effectivePolicy T cfg)
  let merged := updates.foldl (fun policy e => Fields.set (py e.1.name) e.2 policy) current
  let before := updates.map fun e => (py e.1.name, (current.get (py e.1.name)).getD .null)
  let after := updates.map fun e => (py e.1.name, (merged.get (py e.1.name)).getD .null)
  Prog.modify fun db =>
    (updates.foldl (fun db e => upsertSetting (py e.1.key) (policyText e.2) who.actor now db)
      db).audit (callerEntry who now "ratelimit.updated" (some (py "policy"))
        [(py "before", .obj before), (py "after", .obj after)])
  let keys ← Prog.get keyOverrides
  pure (merged ++ [(py "keys", keys)])

end

/-- `SCOPES`. -/
def scopes : List PyStr :=
  [py "api_key", py "ip", py "login", py "session", py "playground", py "sse", py "engine"]

/-- `_validated_reset`: all buckets, or those of a subject and scope. -/
def validatedReset (r : SessionRequest) : Except HttpError (Option (PyStr × PyStr)) := do
  let payload ← objectBody r
  match payload.find? fun e => !([py "all", py "subject", py "scope"].contains e.1) with
  | some (name, _) => .error (.bad name [.text (py "unknown field "), .repr name])
  | none =>
    match payload.get (py "all") with
    | some (.bool true) =>
      if (payload.get (py "subject")).isSome || (payload.get (py "scope")).isSome then
        .error (.bad (py "all")
          [.text (py "'all' cannot be combined with 'subject' or 'scope'")])
      else .ok none
    | some _ => .error (.bad (py "all") [.text (py "'all' must be true when present")])
    | none => do
      let subject ← match payload.get (py "subject") with
        | some (.str subject) =>
          if subject.strip.isEmpty then
            .error (.bad (py "subject") [.text (py "'subject' is required")])
          else .ok (subject.strip.take 200)
        | _ => .error (.bad (py "subject") [.text (py "'subject' is required")])
      let wrongScope : HttpError := .bad (py "scope") [.text (py ("'scope' must be one of " ++
        "['api_key', 'ip', 'login', 'session', 'playground', 'sse', 'engine']"))]
      match payload.get (py "scope") with
      | some (.str scope) =>
        if scopes.contains scope then .ok (some (subject, scope)) else .error wrongScope
      | _ => .error wrongScope

section

variable (A : AuthLib)

/-- `reset`, with the buckets that there are. -/
def resetBuckets (r : SessionRequest) (buckets : List (PyStr × PyStr)) (now : ℚ) :
    Handler Fields := do
  let cached ← enforceBrowserSession A r false now
  let form ← Prog.lift (validatedReset r)
  let who ← gated r cached "settings.write" "ratelimit.reset" none now
  let (cleared, target, fields) := match form with
    | none => (buckets.length, py "all", [(py "all", Json.bool true)])
    | some (subject, scope) => (buckets.count (subject, scope), subject,
        [(py "subject", .str subject), (py "scope", .str scope)])
  Prog.raiseIf (if target.encodable then none else some .unhandled)
  Prog.modify (Db.audit (callerEntry who now "ratelimit.reset" (some target) fields))
  pure [(py "reset", .int cleared)]

/-! ## Playground -/

/-- `_validated` of the playground. -/
def validatedRun (r : SessionRequest) : Except HttpError Fields := do
  let payload ← objectBody r
  match payload.get (py "state"), payload.get (py "questions") with
  | some (.obj _), some (.obj _) => .ok payload
  | some (.obj _), _ =>
    .error (.bad (py "questions") [.text (py "'questions' must be a JSON object")])
  | _, _ => .error (.bad (py "state") [.text (py "'state' must be a JSON object")])

/-- `run`, of the playground, with what the engine answers. -/
def runPlayground (predict : Fields → Except HttpError Fields) (r : SessionRequest) (now : ℚ) :
    Handler Fields := do
  let cached ← enforceBrowserSession A r false now
  let _ ← gated r cached "playground.run" "playground.run" none now
  let payload ← Prog.lift (validatedRun r)
  Prog.lift (predict payload)

end

end LayaWatch
