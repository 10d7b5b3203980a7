import LayaWatch.Users
import LayaWatch.Lib.Prog
import Mathlib.Data.List.Sort

/-!
# Sessions

`auth/sessions.py` and the handlers that start and end sessions: login, logout
and the password change of `api/auth.py`, and `DELETE /api/v1/sessions`. Each
handler is a program on the committed database; its writes are one transaction,
committed before the handler returns, and what it raises it raises outside of
one. (PATCH and DELETE of a user are in `Users`.) What the handlers compute
between their statements stands as functions of its own.

How a password is hashed and a token digested, the lower case of a string and
the list of common passwords are parameters (`AuthLib`). What the login backoff
answers is part of the request.
-/

namespace LayaWatch

/-- What authentication takes from `hashlib`, from `str.lower` and from the file of
common passwords. -/
structure AuthLib where
  /-- `token_digest` -/
  digest : PyStr → PyStr
  /-- a password against an encoding, at the end of `verify_password` -/
  hashMatches : PyStr → PyStr → Bool
  /-- `hash_password`, with its salt -/
  hashPassword : PyStr → PyStr → PyStr
  /-- `s.lower()` -/
  lower : PyStr → PyStr
  /-- `_load_deny_list` -/
  denyList : PyStr → Bool

/-! ## Statements on `sessions` -/

namespace Db

/-- `UPDATE sessions SET revoked = 1 WHERE .. AND revoked = 0`. -/
def revokeWhere (p : SessionRow → Bool) (db : Db) : Db :=
  { db with
    sessions := db.sessions.map fun s =>
      if p s && !s.revoked then { s with revoked := true } else s }

/-- How many rows `revokeWhere` changes. -/
def revocable (p : SessionRow → Bool) (db : Db) : ℕ := db.sessions.countP fun s => p s && !s.revoked

/-- `revoke_session`. -/
def revokeSession (id : PyStr) : Db → Db := revokeWhere fun s => decide (s.id = id)

/-- The rows that `revoke_other_sessions` is about. -/
def otherSession (userId : PyStr) (keep : Option PyStr) (s : SessionRow) : Bool :=
  decide (s.userId = userId) && decide (some s.id ≠ keep)

/-- `revoke_other_sessions`. -/
def revokeOtherSessions (userId : PyStr) (keep : Option PyStr) : Db → Db :=
  revokeWhere (otherSession userId keep)

/-- `revoke_all_sessions`. -/
def revokeAllSessions (keep : Option PyStr) : Db → Db :=
  revokeWhere fun s => decide (some s.id ≠ keep)

/-- `UPDATE sessions SET last_seen = ?`, at most once a minute. -/
def touchSession (id : PyStr) (now : ℚ) (db : Db) : Db :=
  { db with
    sessions := db.sessions.map fun s =>
      if s.id = id ∧ 60 ≤ now - s.lastSeen then { s with lastSeen := now } else s }

/-- Change the row of a user. -/
def mapUser (id : PyStr) (f : UserRow → UserRow) (db : Db) : Db :=
  { db with users := db.users.map fun u => if u.id = id then f u else u }

end Db

namespace Auth

/-- `s or None`. -/
def orNone (s : PyStr) : Option PyStr := if s.isEmpty then none else some s

section

variable (L : AuthLib)

/-- `resolve_session`, but for its `UPDATE`: the user of a live token. -/
def resolveToken (db : Db) (token : PyStr) (now : ℚ) : Option UserRow :=
  if token.isEmpty then none else resolveSession db (L.digest token) now

/-! ## Requests and callers -/

/-- A request, as far as authentication reads it. -/
structure SessionRequest where
  /-- `session_token_from` -/
  cookie : Option PyStr := none
  /-- the key that `X-API-Key` or a bearer token verifies as -/
  apiKey : Option PyStr := none
  /-- the CSRF header echoes the cookie -/
  csrf : Bool := true
  /-- `request.json()` -/
  body : Except HttpError Json := .ok (.obj [])
  /-- `client_ip` -/
  clientIp : PyStr := []
  /-- the `User-Agent` header -/
  userAgent : PyStr := []

/-- `Principal`, of either kind. -/
inductive Caller where
  /-- a browser session -/
  | session (user : UserRow) (sessionId : PyStr)
  /-- an API key -/
  | apiKey (keyId : PyStr)

namespace Caller

/-- `role`. -/
def role : Caller → Role
  | session user _ => user.role
  | apiKey _ => .viewer

/-- `actor`. -/
def actor : Caller → PyStr
  | session user _ => user.email
  | apiKey keyId => py "key:" ++ keyId

/-- `actor_id`. -/
def actorId : Caller → Option PyStr
  | session user _ => some user.id
  | apiKey _ => none

/-- `session_id`. -/
def sessionId : Caller → Option PyStr
  | session _ sessionId => some sessionId
  | apiKey _ => none

end Caller

/-- `missing_or_invalid_credential`. -/
def credentialError (message : String) : HttpError :=
  .plain 401 "missing_or_invalid_credential" message

/-- A program on the database that may answer with an `HttpError`. -/
abbrev Handler (α : Type) : Type := Prog Db HttpError α

/-- `enforce_browser_session`, on a request that changes something. `forced` is
`POST /api/v1/auth/password`. -/
def enforceBrowserSession (r : SessionRequest) (forced : Bool) (now : ℚ) :
    Handler (Option Caller) := fun db =>
  match r.cookie with
  | none => (.ok none, db)
  | some token =>
    match resolveToken L db token now with
    | none => (.error (credentialError "missing or invalid credential"), db)
    | some user =>
      if user.mustChange && !forced then
        (.error (.plain 403 "password_change_required"
          "a new password is required before any other action"), db)
      else if !r.csrf then
        (.error (.plain 403 "csrf_failed"
          "missing or invalid CSRF token: the X-CSRF-Token header must echo the lw_csrf cookie"),
          db)
      else (.ok (some (.session user (L.digest token))), db)

/-- `gate`, up to its permission. For a session it asks again what
`enforce_browser_session` has asked. -/
def gate (r : SessionRequest) (cached : Option Caller) : Handler Caller :=
  match cached, r.apiKey with
  | some who, _ => pure who
  | none, some keyId => pure (.apiKey keyId)
  | none, none => Prog.raise (credentialError "missing or invalid credential")

/-- `require_permission`. -/
def requirePermission (who : Caller) (permission action : PyStr) (target : Option PyStr)
    (now : ℚ) : Handler PUnit :=
  if roleAllows who.role permission then pure ⟨⟩
  else do
    let needed := requiredRole permission
    Prog.modify (Db.audit {
      ts := now
      actorId := who.actorId
      actor := who.actor
      action := action
      target := target
      result := .denied
      metadata := some [(py "permission", .str permission),
        (py "required_role", .str needed.name), (py "role", .str who.role.name)] })
    Prog.raise {
      status := 403
      code := py "forbidden"
      message := [.str permission, .text (py " requires the "), .str needed.name,
        .text (py " role")]
      details := some [(py "required_role", .str needed.name),
        (py "role", .str who.role.name)] }

/-! ## Bodies -/

/-- `_body`. -/
def bodyObject (r : SessionRequest) : Except HttpError Fields :=
  match r.body with
  | .error e => .error e
  | .ok (.obj payload) => .ok payload
  | .ok _ => .error (.plain 400 "invalid_request" "request body must be a JSON object")

/-- A field that must be a string with something in it. -/
def textField (field message : String) (payload : Fields) : Except HttpError PyStr :=
  match payload.get (py field) with
  | some (.str s) => if s.isEmpty then .error (.bad (py field) [.text (py message)]) else .ok s
  | _ => .error (.bad (py field) [.text (py message)])

/-- `_EMAIL_RE.match`, of a stripped string. -/
def looksLikeEmail (s : PyStr) : Bool :=
  let sign := CodePoint.ofChar '@'
  let name := s.takeWhile (· ≠ sign)
  let domain := (s.dropWhile (· ≠ sign)).tail
  !name.isEmpty && decide (s.count sign = 1) && !(s.any CodePoint.isSpace) &&
    ((domain.drop 1).dropLast).contains (CodePoint.ofChar '.')

/-- `normalize_email`, of a string. -/
def normalizeEmail (email : PyStr) : Except HttpError PyStr :=
  if email.strip.isEmpty then .error (.bad (py "email") [.text (py "email is required")])
  else
    let cleaned := L.lower email.strip
    if 254 < cleaned.length || !looksLikeEmail cleaned then
      .error (.bad (py "email") [.text (py "email must look like an email address")])
    else .ok cleaned

/-- The start of `login`: the normalised email and the password. -/
def loginFields (r : SessionRequest) : Except HttpError (PyStr × PyStr) := do
  let payload ← bodyObject r
  let email ← match payload.get (py "email") with
    | some (.str s) =>
      if s.strip.isEmpty then .error (.bad (py "email") [.text (py "email is required")]) else .ok s
    | _ => .error (.bad (py "email") [.text (py "email is required")])
  let password ← textField "password" "password is required" payload
  let email ← normalizeEmail L email
  .ok (email, password)

/-- `check_policy`: what is wrong with a password. -/
def policyError (email password : PyStr) : Option PyStr :=
  let name := L.lower (PyStr.strip (email.takeWhile (· ≠ CodePoint.ofChar '@')))
  if password.length < 12 then some (py "password must be at least 12 characters")
  else if !name.isEmpty && decide (L.lower password.strip = name) then
    some (py "password must not equal the email local part")
  else if L.denyList (L.lower password.strip) then
    some (py "password appears in the common-password list")
  else none

/-! ## Login -/

/-- A login, with what its process adds. -/
structure LoginRequest extends SessionRequest where
  /-- `_login_limited` -/
  limited : Bool := false
  /-- `BACKOFF.refused` -/
  refused : Option ℕ := none
  /-- `secrets.token_urlsafe(32)` -/
  token : PyStr

/-- What a login answers, without an error. -/
inductive LoginAnswer where
  /-- `_rate_limited` -/
  | rateLimited (retry : ℕ)
  /-- the new token, and `_me_payload` -/
  | signedIn (token : PyStr) (payload : Fields)

/-- The `SELECT` of `login`. -/
def userByEmail (db : Db) (email : PyStr) : Option UserRow :=
  db.users.find? fun u => decide (u.email = email)

/-- `stored`: the hash that the password is verified against. -/
def storedHash (user : Option UserRow) : Option PyStr :=
  match user with
  | some user => if user.disabled then none else some user.passwordHash
  | none => none

/-- `verify_password`. -/
def verifyPassword (password stored : PyStr) : Bool :=
  !stored.isEmpty && L.hashMatches password stored

/-- `verify_or_dummy`. -/
def verifyOrDummy (password : PyStr) (stored : Option PyStr) : Bool :=
  match stored with
  | some hash => verifyPassword L password hash
  | none => false

/-- `permissions_for`. -/
def permissionsFor (role : Role) : List PyStr :=
  ((permissions.map Prod.fst).filter (roleAllows role)).mergeSort fun a b => decide (a ≤ b)

/-- `_me_payload`. -/
def mePayload (user : UserRow) : Fields :=
  [(py "id", .str user.id), (py "email", .str user.email), (py "name", .str user.name),
    (py "role", .str user.role.name),
    (py "permissions", .arr ((permissionsFor user.role).map Json.str))]

/-- An audit row of `login` about its email. -/
def loginEntry (r : SessionRequest) (now : ℚ) (action : String) (email : PyStr)
    (actorId : Option PyStr) (more : Fields) : AuditEntry :=
  { ts := now
    actorId := actorId
    actor := email
    action := py action
    target := some email
    metadata := some ((py "ip", .str r.clientIp) :: more) }

/-- The rotation on login: the session that the request presents is revoked. -/
def rotateSession (r : SessionRequest) (now : ℚ) (db : Db) : Db :=
  match r.cookie with
  | none => db
  | some previous =>
    match resolveToken L db previous now with
    | none => db
    | some _ => (db.touchSession (L.digest previous) now).revokeSession (L.digest previous)

/-- `issue_session`. -/
def issueSession (r : LoginRequest) (ttl : ℚ) (userId : PyStr) (now : ℚ) (db : Db) : Db :=
  { db with
    sessions := db.sessions ++ [{
      id := L.digest r.token
      userId := userId
      createdAt := now
      expiresAt := now + ttl
      lastSeen := now
      userAgent := orNone (r.userAgent.take 256)
      ip := orNone r.clientIp }] }

/-- The transaction of a login that succeeds. -/
def signIn (r : LoginRequest) (ttl : ℚ) (user : UserRow) (now : ℚ) (db : Db) : Db :=
  ((issueSession L r ttl user.id now (rotateSession L r.toSessionRequest now db)).mapUser user.id
    fun u => { u with lastLoginAt := some now }).audit
      (loginEntry r.toSessionRequest now "auth.login" user.email (some user.id) [])

/-- `login`. -/
def login (ttl : ℚ) (r : LoginRequest) (now : ℚ) : Handler LoginAnswer := do
  let (email, password) ← Prog.lift (loginFields L r.toSessionRequest)
  match if r.limited then r.refused else none with
  | some retry => do
    Prog.modify (Db.audit (loginEntry r.toSessionRequest now "auth.login_blocked" email none
      [(py "retry_after", .int retry)]))
    pure (.rateLimited retry)
  | none => do
    let user ← Prog.get fun db => userByEmail db email
    match user with
    | some user =>
      if verifyOrDummy L password (storedHash (some user)) then do
        Prog.modify (signIn L r ttl user now)
        pure (.signedIn r.token (mePayload user))
      else do
        Prog.modify (Db.audit (loginEntry r.toSessionRequest now "auth.login_failed" email
          (some user.id) []))
        Prog.raise (credentialError "invalid email or password")
    | none => do
      Prog.modify (Db.audit (loginEntry r.toSessionRequest now "auth.login_failed" email none []))
      Prog.raise (credentialError "invalid email or password")

/-! ## Logout, password change, revoke all -/

/-- An audit row of a session's user. -/
def sessionEntry (now : ℚ) (user : UserRow) (action : String) (target : Option PyStr)
    (metadata : Fields) : AuditEntry :=
  { ts := now
    actorId := some user.id
    actor := user.email
    action := py action
    target := target
    metadata := some metadata }

/-- `logout`. -/
def logout (r : SessionRequest) (now : ℚ) : Handler Fields := do
  match ← gate r (← enforceBrowserSession L r false now) with
  | .apiKey _ => Prog.raise (credentialError "no session to log out of")
  | .session user sessionId => do
    Prog.modify fun db => (db.revokeSession sessionId).audit
      (sessionEntry now user "auth.logout" (some user.email) [(py "ip", .str r.clientIp)])
    pure [(py "ok", .bool true)]

/-- The start of `change_password`: the two passwords. -/
def passwordFields (r : SessionRequest) : Except HttpError (PyStr × PyStr) := do
  let payload ← bodyObject r
  let current ← textField "current_password" "'current_password' is required" payload
  let new ← textField "new_password" "'new_password' is required" payload
  .ok (current, new)

/-- What `change_password` checks of the passwords, against the row that the session
was resolved to. -/
def passwordError (user : UserRow) (current new : PyStr) : Option HttpError :=
  if !verifyPassword L current user.passwordHash then
    some (credentialError "current password is incorrect")
  else (policyError L user.email new).map fun reason => .bad (py "new_password") [.str reason]

/-- The transaction of a password change. -/
def replacePassword (user : UserRow) (sessionId new salt : PyStr) (now : ℚ) (db : Db) : Db :=
  let db := db.mapUser user.id fun u =>
    { u with passwordHash := L.hashPassword new salt, mustChange := false }
  let revoked := db.revocable (Db.otherSession user.id (some sessionId))
  let db := db.revokeOtherSessions user.id (some sessionId)
  if revoked = 0 then db
  else db.audit (sessionEntry now user "session.revoked_all" (some user.id)
    [(py "revoked", .int revoked), (py "via", .str (py "password_change"))])

/-- `change_password`, with the salt of the new hash. -/
def changePassword (r : SessionRequest) (salt : PyStr) (now : ℚ) : Handler Fields := do
  let cached ← enforceBrowserSession L r true now
  let (current, new) ← Prog.lift (passwordFields r)
  match ← gate r cached with
  | .apiKey _ => Prog.raise (credentialError "session cookie required")
  | .session user sessionId => do
    Prog.raiseIf (passwordError L user current new)
    Prog.modify (replacePassword L user sessionId new salt now)
    pure [(py "ok", .bool true)]

/-- `revoke_other_sessions_route`. -/
def revokeAll (r : SessionRequest) (now : ℚ) : Handler Fields := do
  let who ← gate r (← enforceBrowserSession L r false now)
  requirePermission who (py "sessions.revoke_all") (py "session.revoked_all") none now
  let revoked ← Prog.get (Db.revocable fun s => decide (some s.id ≠ who.sessionId))
  Prog.modify fun db => (db.revokeAllSessions who.sessionId).audit {
    ts := now
    actorId := who.actorId
    actor := who.actor
    action := py "session.revoked_all"
    target := none
    metadata := some [(py "revoked", .int revoked), (py "scope", .str (py "all"))] }
  pure [(py "revoked", .int revoked)]

/-! ## How the handlers end -/

section

variable {L} {db : Db}

/-- The two gates change nothing, and let a session through only if its token
resolves. -/
theorem gates_cases (r : SessionRequest) (forced : Bool) (now : ℚ) (db : Db) :
    (∃ e, enforceBrowserSession L r forced now db = (.error e, db)) ∨
      ∃ cached, enforceBrowserSession L r forced now db = (.ok cached, db) ∧
        ((∃ e, gate r cached db = (.error e, db)) ∨
          (∃ key, gate r cached db = (.ok (.apiKey key), db)) ∨
          ∃ token user, r.cookie = some token ∧ resolveToken L db token now = some user ∧
            gate r cached db = (.ok (.session user (L.digest token)), db)) := by
  unfold enforceBrowserSession
  rcases r.cookie with _ | token
  · refine Or.inr ⟨none, rfl, ?_⟩
    unfold gate
    rcases r.apiKey with _ | key
    · exact Or.inl ⟨_, rfl⟩
    · exact Or.inr (Or.inl ⟨key, rfl⟩)
  · dsimp only
    rcases hres : resolveToken L db token now with _ | user
    · exact Or.inl ⟨_, rfl⟩
    · dsimp only
      split
      · exact Or.inl ⟨_, rfl⟩
      · split
        · exact Or.inl ⟨_, rfl⟩
        · exact Or.inr ⟨_, rfl, Or.inr (Or.inr ⟨token, user, rfl, hres, rfl⟩)⟩

/-- `enforce_browser_session` changes nothing. -/
theorem enforce_ends (r : SessionRequest) (forced : Bool) (now : ℚ) (db : Db) :
    (enforceBrowserSession L r forced now).Ends db (fun _ t => t = db) fun _ t => t = db := by
  rcases gates_cases (L := L) r forced now db with ⟨e, he⟩ | ⟨cached, hc, -⟩
  · unfold Prog.Ends
    rw [he]
  · unfold Prog.Ends
    rw [hc]

/-- `gate` changes nothing. -/
theorem gate_ends (r : SessionRequest) (cached : Option Caller) (db : Db) :
    (gate r cached).Ends db (fun _ t => t = db) fun _ t => t = db := by
  rcases hc : cached with _ | who
  · rcases hk : r.apiKey with _ | key
    · unfold gate
      rw [hk]
      exact Prog.Ends.raise rfl
    · unfold gate
      rw [hk]
      exact Prog.Ends.pure rfl
  · exact Prog.Ends.pure rfl

theorem requirePermission_allows {who : Caller} {permission action : PyStr}
    {target : Option PyStr} {now : ℚ} (h : roleAllows who.role permission = true) :
    requirePermission who permission action target now db = (.ok ⟨⟩, db) := by
  unfold requirePermission
  rw [if_pos h]
  rfl

/-- A refusal leaves an audit row. -/
theorem requirePermission_denies {w : Caller} {permission : PyStr}
    (h : ¬roleAllows w.role permission = true) (action : PyStr) (target : Option PyStr) (now : ℚ)
    (db : Db) : ∃ e entry, requirePermission w permission action target now db =
      (.error e, db.audit entry) := by
  unfold requirePermission
  rw [if_neg h]
  exact ⟨_, _, rfl⟩

/-- `require_permission` changes nothing but the audit trail, and that if it refuses. -/
theorem requirePermission_ends (who : Caller) (permission action : PyStr) (target : Option PyStr)
    (now : ℚ) (db : Db) : (requirePermission who permission action target now).Ends db
      (fun _ t => t = db) fun _ t => ∃ entry, t = db.audit entry := by
  by_cases hallow : roleAllows who.role permission = true
  · unfold Prog.Ends
    rw [requirePermission_allows hallow]
  · obtain ⟨e, entry, hdeny⟩ := requirePermission_denies hallow action target now db
    unfold Prog.Ends
    rw [hdeny]
    exact ⟨entry, rfl⟩

/-- A logout revokes the session of its cookie, or fails. -/
theorem logout_cases (r : SessionRequest) (now : ℚ) (db : Db) :
    (∃ e, logout L r now db = (.error e, db)) ∨
      ∃ token fields entry, r.cookie = some token ∧
        logout L r now db = (.ok fields, (db.revokeSession (L.digest token)).audit entry) := by
  unfold logout
  rcases gates_cases r false now db with ⟨e, he⟩ | ⟨cached, hc, ⟨e, he⟩ | ⟨key, hk⟩ |
    ⟨token, user, hcookie, hres, hs⟩⟩
  · exact Or.inl ⟨e, Prog.run_bind_error he⟩
  · exact Or.inl ⟨e, (Prog.run_bind_ok hc).trans (Prog.run_bind_error he)⟩
  · exact Or.inl ⟨_, (Prog.run_bind_ok hc).trans (Prog.run_bind_ok hk)⟩
  · exact Or.inr ⟨token, _, _, hcookie, (Prog.run_bind_ok hc).trans (Prog.run_bind_ok hs)⟩

/-- A password change replaces the password of the user of its cookie, or fails. -/
theorem changePassword_cases (r : SessionRequest) (salt : PyStr) (now : ℚ) (db : Db) :
    (∃ e, changePassword L r salt now db = (.error e, db)) ∨
      ∃ token user current new fields, r.cookie = some token ∧
        resolveToken L db token now = some user ∧
        verifyPassword L current user.passwordHash = true ∧
        changePassword L r salt now db =
          (.ok fields, replacePassword L user (L.digest token) new salt now db) := by
  unfold changePassword
  rcases gates_cases r true now db with ⟨e, he⟩ | ⟨cached, hc, hgate⟩
  · exact Or.inl ⟨e, Prog.run_bind_error he⟩
  rcases hf : passwordFields r with e | ⟨current, new⟩
  · exact Or.inl ⟨e, (Prog.run_bind_ok hc).trans rfl⟩
  have hlift : (Prog.lift (.ok (current, new)) : Handler (PyStr × PyStr)) db =
      (.ok (current, new), db) := rfl
  rcases hgate with ⟨e, he⟩ | ⟨key, hk⟩ | ⟨token, user, hcookie, hres, hs⟩
  · exact Or.inl ⟨e, (Prog.run_bind_ok hc).trans
      ((Prog.run_bind_ok hlift).trans (Prog.run_bind_error he))⟩
  · exact Or.inl ⟨_, (Prog.run_bind_ok hc).trans
      ((Prog.run_bind_ok hlift).trans (Prog.run_bind_ok hk))⟩
  rcases herr : passwordError L user current new with _ | e
  · refine Or.inr ⟨token, user, current, new, [(py "ok", .bool true)], hcookie, hres, ?_,
      (Prog.run_bind_ok hc).trans ((Prog.run_bind_ok hlift).trans
        ((Prog.run_bind_ok hs).trans ?_))⟩
    · unfold passwordError at herr
      split at herr
      · cases herr
      · next hv => simpa using hv
    · change (Prog.raiseIf (passwordError L user current new) >>= _) db = _
      rw [herr]
      rfl
  · refine Or.inl ⟨e, (Prog.run_bind_ok hc).trans ((Prog.run_bind_ok hlift).trans
      ((Prog.run_bind_ok hs).trans ?_))⟩
    change (Prog.raiseIf (passwordError L user current new) >>= _) db = _
    rw [herr]
    rfl

/-- A revoke-all revokes all sessions but that of its cookie, or fails. -/
theorem revokeAll_cases (r : SessionRequest) (now : ℚ) (db : Db) :
    (∃ e db', revokeAll L r now db = (.error e, db') ∧ db'.users = db.users ∧
        db'.sessions = db.sessions) ∨
      ∃ token fields entry, r.cookie = some token ∧
        revokeAll L r now db =
          (.ok fields, (db.revokeAllSessions (some (L.digest token))).audit entry) := by
  unfold revokeAll
  rcases gates_cases r false now db with ⟨e, he⟩ | ⟨cached, hc, ⟨e, he⟩ | ⟨key, hk⟩ |
    ⟨token, user, hcookie, hres, hs⟩⟩
  · exact Or.inl ⟨e, db, Prog.run_bind_error he, rfl, rfl⟩
  · exact Or.inl ⟨e, db, (Prog.run_bind_ok hc).trans (Prog.run_bind_error he), rfl, rfl⟩
  · exact Or.inl ⟨_, _, (Prog.run_bind_ok hc).trans ((Prog.run_bind_ok hk).trans rfl), rfl, rfl⟩
  · by_cases hallow : roleAllows user.role (py "sessions.revoke_all") = true
    · exact Or.inr ⟨token, _, _, hcookie, (Prog.run_bind_ok hc).trans ((Prog.run_bind_ok hs).trans
        (Prog.run_bind_ok (requirePermission_allows hallow)))⟩
    · obtain ⟨e, entry, hdeny⟩ := requirePermission_denies (w := .session user (L.digest token))
        hallow (py "session.revoked_all") none now db
      exact Or.inl ⟨e, _, (Prog.run_bind_ok hc).trans ((Prog.run_bind_ok hs).trans
        (Prog.run_bind_error hdeny)), rfl, rfl⟩

/-- What a login comes to. -/
theorem login_eq (ttl : ℚ) (r : LoginRequest) (now : ℚ) (db : Db) :
    login L ttl r now db =
      match loginFields L r.toSessionRequest with
      | .error e => (.error e, db)
      | .ok (email, password) =>
        match if r.limited then r.refused else none with
        | some retry => (.ok (.rateLimited retry),
            db.audit (loginEntry r.toSessionRequest now "auth.login_blocked" email none
              [(py "retry_after", .int retry)]))
        | none =>
          match userByEmail db email with
          | some user =>
            if verifyOrDummy L password (storedHash (some user)) then
              (.ok (.signedIn r.token (mePayload user)), signIn L r ttl user now db)
            else (.error (credentialError "invalid email or password"),
              db.audit (loginEntry r.toSessionRequest now "auth.login_failed" email
                (some user.id) []))
          | none => (.error (credentialError "invalid email or password"),
              db.audit (loginEntry r.toSessionRequest now "auth.login_failed" email none [])) := by
  unfold login
  rcases hf : loginFields L r.toSessionRequest with e | ⟨email, password⟩
  · rfl
  have hlift : (Prog.lift (.ok (email, password)) : Handler (PyStr × PyStr)) db =
      (.ok (email, password), db) := rfl
  rw [Prog.run_bind_ok hlift]
  dsimp only
  rcases (if r.limited then r.refused else none) with _ | retry
  · have hget : (Prog.get fun db => userByEmail db email : Handler (Option UserRow)) db =
        (.ok (userByEmail db email), db) := rfl
    dsimp only
    rw [Prog.run_bind_ok hget]
    rcases userByEmail db email with _ | user
    · rfl
    · dsimp only
      split <;> rfl
  · rfl

/-- A login signs in an enabled user whose password it has verified, or leaves
accounts as they are. -/
theorem login_cases (ttl : ℚ) (r : LoginRequest) (now : ℚ) (db : Db) :
    (∃ db', db'.users = db.users ∧ db'.sessions = db.sessions ∧
        ((∃ e, login L ttl r now db = (.error e, db')) ∨
          ∃ retry, login L ttl r now db = (.ok (.rateLimited retry), db'))) ∨
      ∃ email password user, loginFields L r.toSessionRequest = .ok (email, password) ∧
        userByEmail db email = some user ∧ user.disabled = false ∧
        verifyPassword L password user.passwordHash = true ∧
        login L ttl r now db =
          (.ok (.signedIn r.token (mePayload user)), signIn L r ttl user now db) := by
  rw [login_eq]
  rcases loginFields L r.toSessionRequest with e | ⟨email, password⟩
  · exact Or.inl ⟨db, rfl, rfl, Or.inl ⟨e, rfl⟩⟩
  dsimp only
  rcases (if r.limited then r.refused else none) with _ | retry
  · dsimp only
    rcases huser : userByEmail db email with _ | user
    · exact Or.inl ⟨db.audit _, rfl, rfl, Or.inl ⟨_, rfl⟩⟩
    · dsimp only
      by_cases hv : verifyOrDummy L password (storedHash (some user)) = true
      · rw [if_pos hv]
        unfold storedHash at hv
        dsimp only at hv
        by_cases hdis : user.disabled = true
        · rw [if_pos hdis] at hv
          cases hv
        · rw [if_neg hdis] at hv
          exact Or.inr ⟨email, password, user, rfl, huser, Bool.eq_false_iff.mpr hdis, hv, rfl⟩
      · rw [if_neg hv]
        exact Or.inl ⟨db.audit _, rfl, rfl, Or.inl ⟨_, rfl⟩⟩
  · exact Or.inl ⟨db.audit _, rfl, rfl, Or.inr ⟨retry, rfl⟩⟩

end

end

end Auth

end LayaWatch
