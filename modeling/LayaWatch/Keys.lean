import LayaWatch.Sessions

/-!
# API keys

`engine/keys.py`, the handlers of `api/keys.py` that change something, and what
`engine/legacy_state.py` imports. A secret is stored only as a digest, of one of two
kinds: the peppered HMAC of keys made here, and the plain SHA-256 that the legacy
file holds. Both are hex text, on which `hmac.compare_digest` is equality.
They are parameters (`KeyLib`), as are `str` of what is not a string and the
reading of a local timestamp.

A handler reads the clock once here. An exception that is not an `HttpError` shows
as the 500 that `Router.dispatch` makes of it.
-/

namespace LayaWatch

/-- What API keys take from `hmac`, `hashlib`, `str` and `time`. -/
structure KeyLib where
  /-- `hash_secret`, with the pepper of the server -/
  hmac : PyStr → PyStr
  /-- `hashlib.sha256(..).hexdigest()` -/
  sha256 : PyStr → PyStr
  /-- `str(value)`, of what is not a string -/
  str : Json → PyStr
  /-- `time.mktime(time.strptime(..))` -/
  mktime : PyStr → Option ℚ

/-! ## Secrets -/

/-- `_BASE62`. -/
def base62 : List CodePoint :=
  py "0123456789ABCDEFGHIJKLMNOPQRSTUVWXYZabcdefghijklmnopqrstuvwxyz"

/-- `generate_secret`, with what it draws. -/
def generateSecret (drawn : List (Fin 62)) : PyStr :=
  py "lay_" ++ drawn.map fun i : Fin 62 => base62.getD i.val 0

/-- `prefix_of`. -/
def prefixOf (secret : PyStr) : PyStr := secret.take 8

namespace Db

/-- Change the row of a key. -/
def mapKey (id : PyStr) (f : ApiKeyRow → ApiKeyRow) (db : Db) : Db :=
  { db with apiKeys := db.apiKeys.map fun row => if row.id = id then f row else row }

end Db

/-! ## Verification -/

section

variable (L : KeyLib)

/-- One of the two digests of the secret is stored here. -/
def isDigest (stored secret : PyStr) : Bool :=
  decide (stored = L.hmac secret) || decide (stored = L.sha256 secret)

/-- The `SELECT` of `verify_key`. -/
def isCandidate (secret : PyStr) (row : ApiKeyRow) : Bool :=
  (decide (row.keyPrefix = prefixOf secret) || decide (row.prevPrefix = some (prefixOf secret))) &&
    row.revokedAt.isNone

/-- The rotation grace: the digest before the last rotation, while it is accepted. -/
def graceDigest (now : ℚ) (row : ApiKeyRow) : Option PyStr :=
  match row.prevHash, row.prevExpiresAt with
  | some hash, some expires => if !hash.isEmpty && decide (now < expires) then some hash else none
  | _, _ => none

/-- `matched`, in the loop of `verify_key`. -/
def isMatch (secret : PyStr) (now : ℚ) (row : ApiKeyRow) : Bool :=
  isDigest L row.hash secret || (graceDigest now row).any fun hash => isDigest L hash secret

/-- `verify_key`. -/
def verifyKey (presented : PyStr) (now : ℚ) : Auth.Handler (Option PyStr) :=
  if presented.isEmpty then pure none
  else if !presented.encodable then Prog.raise .unhandled
  else do
    let rows ← Prog.get fun db => db.apiKeys.filter (isCandidate presented)
    match rows.find? (isMatch L presented now) with
    | none => pure none
    | some row => do
      Prog.modify (Db.mapKey row.id fun row =>
        { row with lastUsed := some now, requestCount := row.requestCount + 1 })
      pure (some row.id)

end

/-! ## Bodies and paths -/

/-- `_LIMIT_FIELDS`. -/
def limitNames : List PyStr := [py "rate_limit_per_min", py "burst"]

/-- One field of `_limits`. -/
def limitField (payload : Fields) (field : PyStr) : Except HttpError (Option ℤ) :=
  match payload.get field with
  | none | some .null => .ok none
  | some (.int n) =>
    if n < 0 then
      .error (.bad field [.text (py "'"), .str field,
        .text (py "' must be a non-negative integer or null")])
    else .ok (some n)
  | some _ => .error (.bad field [.text (py "'"), .str field,
      .text (py "' must be a non-negative integer or null")])

/-- What `_limits` returns. -/
structure KeyLimits where
  /-- `rate_limit_per_min` -/
  rateLimitPerMin : Option ℤ
  /-- `burst` -/
  burst : Option ℤ

namespace KeyLimits

/-- `_limits`. -/
def ofPayload (payload : Fields) : Except HttpError KeyLimits := do
  let rateLimitPerMin ← limitField payload (py "rate_limit_per_min")
  let burst ← limitField payload (py "burst")
  .ok ⟨rateLimitPerMin, burst⟩

/-- SQLite can bind both. -/
def bindable (l : KeyLimits) : Bool :=
  [l.rateLimitPerMin, l.burst].all fun limit => limit.all fun n => decide (n < 2 ^ 63)

/-- The two limits as JSON. -/
def fields (l : KeyLimits) : Fields :=
  [(py "rate_limit_per_min", (l.rateLimitPerMin.map Json.int).getD .null),
    (py "burst", (l.burst.map Json.int).getD .null)]

end KeyLimits

/-- The name of a new key. -/
def keyName (payload : Fields) : Except HttpError PyStr :=
  match payload.get (py "name") with
  | some (.str name) =>
    if name.strip.isEmpty then .error (.bad (py "name") [.text (py "'name' is required")])
    else .ok name.strip
  | _ => .error (.bad (py "name") [.text (py "'name' is required")])

/-- `_unmatched`. -/
def unmatched (method : String) (path : PyStr) : HttpError where
  status := 404
  code := py "not_found"
  message := [.text (py "no route for "), .str (py method), .text (py " "), .str path]

/-- `path[len(_PREFIX):].split("/")`. -/
def keyPathParts (path : PyStr) : List PyStr :=
  (path.drop (py "/api/v1/keys/").length).splitOn (CodePoint.ofChar '/')

/-! ## Handlers -/

section

variable (A : AuthLib) (L : KeyLib)

open Auth

/-- The start of a key handler: a caller that may write keys. -/
def keyWriter (r : SessionRequest) (cached : Option Caller) (action : String)
    (target : Option PyStr) (now : ℚ) : Handler Caller := do
  let who ← gate r cached
  requirePermission who (py "keys.write") (py action) target now
  pure who

/-- An audit row of a key handler. -/
def keyEntry (who : Caller) (now : ℚ) (action : String) (target : PyStr) (metadata : Fields) :
    AuditEntry :=
  { ts := now
    actorId := who.actorId
    actor := who.actor
    action := py action
    target := some target
    metadata := some metadata }

/-- `_load`. -/
def loadKey (keyId : PyStr) : Handler ApiKeyRow := fun db =>
  if !keyId.encodable then (.error .unhandled, db)
  else
    match db.apiKeys.find? fun row => decide (row.id = keyId) with
    | some row => (.ok row, db)
    | none => (.error {
        status := 404
        code := py "not_found"
        message := [.text (py "key "), .str keyId, .text (py " not found")] }, db)

/-- The row of a new key. -/
def newKey (keyId name secret : PyStr) (limits : KeyLimits) (now : ℚ) : ApiKeyRow where
  id := keyId
  name := name.take 120
  keyPrefix := prefixOf secret
  hash := L.hmac secret
  createdAt := now
  rateLimitPerMin := limits.rateLimitPerMin
  burst := limits.burst

/-- `create_key`, with `secrets.token_hex(6)` and what `generate_secret` draws. -/
def createKey (r : SessionRequest) (keyId : PyStr) (drawn : List (Fin 62)) (now : ℚ) :
    Handler Fields := do
  let cached ← enforceBrowserSession A r false now
  let payload ← Prog.lift (bodyObject r)
  let name ← Prog.lift (keyName payload)
  let limits ← Prog.lift (KeyLimits.ofPayload payload)
  let who ← keyWriter r cached "key.created" none now
  let secret := generateSecret drawn
  let taken ← Prog.get fun db => db.apiKeys.any fun row => decide (row.id = keyId)
  -- the primary key, and values that cannot be bound
  Prog.raiseIf (if taken || !limits.bindable || !PyStr.encodable (name.take 120) then
    some .unhandled else none)
  Prog.modify fun db =>
    ({ db with apiKeys := db.apiKeys ++ [newKey L keyId name secret limits now] }).audit
      (keyEntry who now "key.created" keyId
        [(py "name", .str name), (py "prefix", .str (prefixOf secret))])
  pure ([(py "id", .str keyId), (py "name", .str name), (py "key", .str secret),
    (py "prefix", .str (prefixOf secret))] ++ limits.fields ++
      [(py "note", .str (py "store this key now; it is not shown again"))])

/-- The `UPDATE` of a revocation. -/
def revokedKey (now : ℚ) (row : ApiKeyRow) : ApiKeyRow :=
  { row with revokedAt := some now, prevHash := none, prevPrefix := none, prevExpiresAt := none }

/-- `_revoke`. -/
def revokeKey (r : SessionRequest) (cached : Option Caller) (keyId : PyStr) (now : ℚ) :
    Handler Fields := do
  let who ← keyWriter r cached "key.revoked" (some keyId) now
  let row ← loadKey keyId
  if row.revokedAt.isNone then
    Prog.modify fun db => (db.mapKey keyId (revokedKey now)).audit
      (keyEntry who now "key.revoked" keyId
        [(py "name", .str row.name), (py "prefix", .str row.keyPrefix)])
  pure [(py "id", .str keyId), (py "revoked", .bool true)]

/-- `GRACE_SECONDS`. -/
def graceSeconds : ℚ := 300

/-- The `UPDATE` of a rotation. -/
def rotatedKey (secret : PyStr) (now : ℚ) (row : ApiKeyRow) : ApiKeyRow :=
  { row with
    prevHash := some row.hash
    prevPrefix := some row.keyPrefix
    prevExpiresAt := some (now + graceSeconds)
    hash := L.hmac secret
    keyPrefix := prefixOf secret }

/-- `_rotate`. -/
def rotateKey (r : SessionRequest) (cached : Option Caller) (keyId : PyStr)
    (drawn : List (Fin 62)) (now : ℚ) : Handler Fields := do
  let who ← keyWriter r cached "key.rotated" (some keyId) now
  let row ← loadKey keyId
  Prog.raiseIf (if row.revokedAt.isSome then
    some (.plain 400 "invalid_request" "cannot rotate a revoked key") else none)
  let secret := generateSecret drawn
  Prog.modify fun db => (db.mapKey keyId (rotatedKey L secret now)).audit
    (keyEntry who now "key.rotated" keyId
      [(py "prefix", .str (prefixOf secret)), (py "grace_seconds", .int 300)])
  pure [(py "id", .str keyId), (py "key", .str secret), (py "prefix", .str (prefixOf secret)),
    (py "grace", .int 300), (py "note", .str (py "store this key now; it is not shown again"))]

/-- `delete_by_path`. -/
def deleteByPath (r : SessionRequest) (path : PyStr) (now : ℚ) : Handler Fields := do
  let cached ← enforceBrowserSession A r false now
  match keyPathParts path with
  | [keyId] =>
    if keyId.isEmpty then Prog.raise (unmatched "DELETE" path)
    else revokeKey r cached keyId now
  | _ => Prog.raise (unmatched "DELETE" path)

/-- `delete_by_body`. -/
def deleteByBody (r : SessionRequest) (now : ℚ) : Handler Fields := do
  let cached ← enforceBrowserSession A r false now
  let payload ← Prog.lift (bodyObject r)
  let keyId ← Prog.lift (textField "id" "'id' is required" payload)
  revokeKey r cached keyId now

/-- `post_wildcard`. -/
def postWildcard (r : SessionRequest) (path : PyStr) (drawn : List (Fin 62)) (now : ℚ) :
    Handler Fields := do
  let cached ← enforceBrowserSession A r false now
  match keyPathParts path with
  | [keyId, verb] =>
    if !keyId.isEmpty && decide (verb = py "rotate") then rotateKey L r cached keyId drawn now
    else Prog.raise (unmatched "POST" path)
  | _ => Prog.raise (unmatched "POST" path)

end

/-! ## The legacy file -/

section

variable (L : KeyLib)

/-- `str(value)`. -/
def pyText : Json → PyStr
  | .str s => s
  | value => L.str value

/-- `str(entry.get(key) or "")`. -/
def textOr (entry : Fields) (key : String) : PyStr :=
  match entry.get (py key) with
  | some value => if value.truthy then pyText L value else []
  | none => []

/-- `_epoch`. -/
def epoch (value : Option Json) (fallback : Option ℚ) : Option ℚ :=
  match value with
  | none | some .null => fallback
  | some (.bool b) => some (if b then 1 else 0)
  | some (.int n) => some n
  | some (.float x) => some x
  | some value => (L.mktime (pyText L value)).or fallback

/-- One row of `_key_rows`; a malformed entry is skipped. -/
def legacyRow (now : ℚ) : Json → Option ApiKeyRow
  | .obj entry =>
    match Fields.get (py "sha256") entry, Fields.get (py "id") entry with
    | some hash, some id =>
      if hash.truthy && id.truthy then some {
        id := pyText L id
        name := textOr L entry "name"
        keyPrefix := (textOr L entry "prefix").take 8
        hash := pyText L hash
        createdAt := (epoch L (Fields.get (py "created") entry) (some now)).getD now
        lastUsed := epoch L (Fields.get (py "last_used") entry) none }
      else none
    | _, _ => none
  | _ => none

/-- `_key_rows`. -/
def legacyRows (now : ℚ) (entries : List Json) : List ApiKeyRow :=
  entries.filterMap (legacyRow L now)

/-- `INSERT OR IGNORE INTO api_keys`. -/
def insertOrIgnore (db : Db) (row : ApiKeyRow) : Db :=
  if db.apiKeys.any fun old => decide (old.id = row.id) then db
  else { db with apiKeys := db.apiKeys ++ [row] }

/-- The keys and the flag of a legacy file. -/
def legacyContents : Option Json → Option (List Json × Bool)
  | some (.obj data) =>
    match Fields.get (py "keys") data, Fields.get (py "enabled") data with
    | some (.arr keys), some (.bool enabled) => some (keys, enabled)
    | _, _ => none
  | _ => none

/-- `AUTH_SETTINGS_KEY`. -/
def authSettingsKey : PyStr := py "keys.auth"

/-- The upsert of the armed flag; who set the old one stays. -/
def armLegacy (enabled : Bool) (now : ℚ) (db : Db) : Db :=
  { db with
    settings := db.settings.set authSettingsKey {
      value := if enabled then py "true" else py "false"
      updatedAt := now
      updatedBy := (db.settings.get authSettingsKey).bind SettingRow.updatedBy } }

/-- All texts of a row can be bound. -/
def ApiKeyRow.bindable (row : ApiKeyRow) : Bool :=
  [row.id, row.name, row.keyPrefix, row.hash].all PyStr.encodable

/-- `import_once`, with what the file holds: `none` where there is no file, or it
cannot be read. -/
def importOnce (file : Option Json) (now : ℚ) : Auth.Handler ℕ :=
  match legacyContents file with
  | none => pure 0
  | some (keys, enabled) => do
    let rows := legacyRows L now keys
    Prog.raiseIf (if rows.all ApiKeyRow.bindable then none else some .unhandled)
    let before ← Prog.get fun db => db.apiKeys.length
    Prog.modify fun db => armLegacy enabled now (rows.foldl insertOrIgnore db)
    let after ← Prog.get fun db => db.apiKeys.length
    pure (after - before)

end

end LayaWatch
