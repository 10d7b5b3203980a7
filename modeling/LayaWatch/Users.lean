import LayaWatch.Http
import LayaWatch.Schema
import LayaWatch.Lib.Wal

/-!
# User management

`PATCH /api/v1/users/{id}` and `DELETE /api/v1/users/{id}`: `api/users.py` with the
guards and mutations of `auth/users.py`, as a program of single statements on the
connection of the request. The control points are the places between two
statements. The guards are queries outside a transaction; the first `UPDATE`,
`DELETE` or audit row takes the write lock. (`login_limit` keeps no table and is
left out; the `last_seen` that `resolve_session` may write is rolled back when its
connection is closed, before the handler starts.)
-/

namespace LayaWatch

/-! ## Roles -/

namespace Role

/-- The name of a role. -/
def name : Role → PyStr
  | viewer => py "viewer"
  | admin => py "admin"
  | owner => py "owner"

/-- `ROLES`. -/
def all : List Role := [viewer, admin, owner]

/-- `ROLE_RANK`. -/
def rank : Role → ℕ
  | viewer => 0
  | admin => 1
  | owner => 2

end Role

/-- `PERMISSIONS`. -/
def permissions : List (PyStr × Role) :=
  [(py "traces.read", .viewer), (py "metrics.read", .viewer), (py "logs.read", .viewer),
    (py "models.read", .viewer), (py "keys.list", .viewer), (py "keys.read_auth", .viewer),
    (py "settings.read", .viewer), (py "auth.me", .viewer), (py "traces.write", .admin),
    (py "traces.delete", .admin), (py "logs.export", .admin), (py "models.write", .admin),
    (py "keys.write", .admin), (py "settings.write", .admin), (py "audit.read", .admin),
    (py "playground.run", .admin), (py "users.read", .admin), (py "users.write", .owner),
    (py "sessions.read", .owner), (py "sessions.revoke_all", .owner),
    (py "settings.capture", .owner)]

/-- `required_role`. -/
def requiredRole (permission : PyStr) : Role :=
  ((permissions.find? fun e => e.1 = permission).map Prod.snd).getD .owner

/-- `role_allows`. -/
def roleAllows (role : Role) (permission : PyStr) : Bool :=
  decide ((requiredRole permission).rank ≤ role.rank)

/-! ## Requests -/

/-- A validated PATCH: the fields it sets. -/
structure UserPatch where
  /-- `name` -/
  name : Option PyStr := none
  /-- `role` -/
  role : Option Role := none
  /-- `disabled` -/
  disabled : Option Bool := none
  /-- `must_change` -/
  mustChange : Option Bool := none

/-- `_name`. -/
def nameField : Json → Except HttpError PyStr
  | .str s =>
    if s.strip.isEmpty then .error (.bad (py "name") [.text (py "'name' is required")])
    else .ok (s.strip.take 120)
  | _ => .error (.bad (py "name") [.text (py "'name' is required")])

/-- `_role`. -/
def roleField (value : Json) : Except HttpError Role :=
  let found := match value with
    | .str s => Role.all.find? fun role => role.name = s
    | _ => none
  match found with
  | some role => .ok role
  | none => .error (.bad (py "role") [.text (py "'role' must be one of viewer, admin, owner")])

/-- A flag of `_validated_patch`. -/
def flagField (field : PyStr) : Json → Except HttpError Bool
  | .bool b => .ok b
  | _ => .error (.bad field [.text (py "'"), .str field, .text (py "' must be true or false")])

/-- A field that is read when it is there. -/
def optionalField {α : Type} (field : PyStr) (read : Json → Except HttpError α)
    (payload : Fields) : Except HttpError (Option α) :=
  match payload.get field with
  | none => .ok none
  | some value => (read value).map some

/-- `allowed` of `_validated_patch`. -/
def patchFields : List PyStr := [py "name", py "role", py "disabled", py "must_change"]

/-- `_validated_patch`. -/
def validatedPatch (payload : Fields) : Except HttpError UserPatch :=
  match payload.find? fun e => decide (e.1 ∉ patchFields) with
  | some (key, _) => .error (.bad key [.text (py "unknown field "), .repr key])
  | none =>
    if payload.isEmpty then .error (.bad (py "name") [.text (py "no fields to update")])
    else do
      let name ← optionalField (py "name") nameField payload
      let role ← optionalField (py "role") roleField payload
      let disabled ← optionalField (py "disabled") (flagField (py "disabled")) payload
      let mustChange ← optionalField (py "must_change") (flagField (py "must_change")) payload
      .ok ⟨name, role, disabled, mustChange⟩

/-- `_intent_action`. -/
def intentAction (payload : Fields) : Option PyStr :=
  if (payload.get (py "role")).isSome then some (py "user.role_changed")
  else if (payload.get (py "disabled")).isSome then some (py "user.disabled")
  else none

/-- What a request wants. -/
inductive UserOp where
  /-- PATCH, with what `request.json()` makes of the body -/
  | patch (body : Except HttpError Json)
  /-- DELETE -/
  | delete

/-- A PATCH or DELETE request of a browser session. -/
structure UserRequest where
  /-- the stored id of the session behind the cookie -/
  session : PyStr
  /-- the CSRF header echoes the cookie -/
  csrf : Bool := true
  /-- `{id}` -/
  userId : PyStr
  /-- what it wants -/
  op : UserOp
  /-- the readings of the clock -/
  clock : ℕ → ℚ

/-- `Principal` of a session. -/
structure Principal where
  /-- `role` -/
  role : Role
  /-- `actor` -/
  actor : PyStr
  /-- `actor_id` -/
  actorId : PyStr

/-! ## Queries and changes -/

/-- `resolve_session`: the user of a live session. -/
def resolveSession (db : Db) (session : PyStr) (now : ℚ) : Option UserRow :=
  (db.sessions.find? fun s => decide (s.id = session ∧ s.revoked = false ∧ now < s.expiresAt)).bind
    fun s => db.users.find? fun u => decide (u.id = s.userId ∧ u.disabled = false)

/-- `fetch_user`. -/
def fetchUser (db : Db) (id : PyStr) : Option UserRow := db.users.find? fun u => decide (u.id = id)

/-- `role = 'owner' AND disabled = 0`. -/
def UserRow.enabledOwner (user : UserRow) : Bool := decide (user.role = .owner) && !user.disabled

/-- `enabled_owner_count`. -/
def enabledOwnerCount (db : Db) (excluding : Option PyStr) : ℕ :=
  db.users.countP fun u => u.enabledOwner && decide (some u.id ≠ excluding)

/-- The columns of a row after an `UPDATE`. -/
def UserPatch.apply (changed : UserPatch) (user : UserRow) : UserRow :=
  { user with
    name := changed.name.getD user.name
    role := changed.role.getD user.role
    disabled := changed.disabled.getD user.disabled
    mustChange := changed.mustChange.getD user.mustChange }

namespace Db

/-- `UPDATE users SET .. WHERE id = ?`. -/
def updateUser (id : PyStr) (changed : UserPatch) (db : Db) : Db :=
  { db with users := db.users.map fun u => if u.id = id then changed.apply u else u }

/-- `DELETE FROM users WHERE id = ?`; sessions follow their user. -/
def deleteUser (id : PyStr) (db : Db) : Db :=
  { db with
    users := db.users.filter fun u => decide (u.id ≠ id)
    sessions := db.sessions.filter fun s => decide (s.userId ≠ id) }

/-- `UPDATE sessions SET revoked = 1 WHERE user_id = ? AND revoked = 0`. -/
def revokeSessions (id : PyStr) (db : Db) : Db :=
  { db with
    sessions := db.sessions.map fun s =>
      if s.userId = id ∧ s.revoked = false then { s with revoked := true } else s }

/-- `audit`. -/
def audit (entry : AuditEntry) (db : Db) : Db :=
  { db with auditLog := db.auditLog ++ [⟨entry, db.auditSeq + 1⟩], auditSeq := db.auditSeq + 1 }

end Db

/-- `user_payload`. -/
def userPayload (user : UserRow) : Fields :=
  [(py "id", .str user.id), (py "email", .str user.email), (py "name", .str user.name),
    (py "role", .str user.role.name), (py "created_at", .float user.createdAt),
    (py "last_login_at", (user.lastLoginAt.map Json.float).getD .null),
    (py "disabled", .bool user.disabled), (py "must_change", .bool user.mustChange)]

/-! ## The program of a request -/

/-- What the gate lets through. -/
inductive UserPlan where
  /-- a PATCH with a JSON object -/
  | patch (payload : Fields)
  /-- a DELETE -/
  | delete

/-- How a request ends. -/
inductive UserFailure where
  /-- an `HttpError` -/
  | http (e : HttpError)
  /-- the `assert` of `apply_user_update` -/
  | assertion

/-- The local variables of `apply_user_update`. -/
structure Patching where
  /-- `principal` -/
  who : Principal
  /-- `target`, as it was fetched -/
  target : UserRow
  /-- `changed` -/
  changed : UserPatch

/-- The places between two statements of a request. -/
inductive UserPoint where
  /-- before the session is resolved -/
  | authenticate
  /-- before `fetch_user` -/
  | fetch (who : Principal) (plan : UserPlan)
  /-- `_guard_role_change`: before the other owners are counted -/
  | guardRole (patching : Patching)
  /-- the guard of a disable: before the other owners are counted -/
  | guardDisable (patching : Patching)
  /-- before the `UPDATE` -/
  | update (patching : Patching)
  /-- before the audit row of a role change -/
  | auditRole (patching : Patching)
  /-- before the sessions are revoked for a role change -/
  | revokeRole (patching : Patching)
  /-- before the audit row of a disable or enable -/
  | auditDisabled (patching : Patching)
  /-- before the sessions are revoked for a disable -/
  | revokeDisabled (patching : Patching)
  /-- before the updated row is read back -/
  | refetch (target : UserRow)
  /-- the guard of `delete_user`: before the other owners are counted -/
  | guardDelete (who : Principal) (target : UserRow)
  /-- before the `DELETE` -/
  | delete (who : Principal) (target : UserRow)
  /-- before the audit row of a deletion -/
  | auditDelete (who : Principal) (target : UserRow)
  /-- before the commit of the change -/
  | commitAll (result : Fields)
  /-- before the audit row of a refusal -/
  | deny (entry : AuditEntry) (e : HttpError)
  /-- before the commit of a refusal -/
  | commitDenied (e : HttpError)
  /-- `finally: conn.close()`, which rolls back what is open -/
  | closing (result : Except UserFailure Fields)
  /-- the response is on its way -/
  | done (result : Except UserFailure Fields)

namespace UserPoint

variable (r : UserRequest)

/-- Fail with an `HttpError`. -/
def fail (e : HttpError) : UserPoint := closing (.error (.http e))

/-- The refusal of `require_permission`. -/
def forbid (who : Principal) (permission : PyStr) (action : Option PyStr) : UserPoint :=
  let needed := requiredRole permission
  deny
    { ts := r.clock 1
      actorId := some who.actorId
      actor := who.actor
      action := action.getD permission
      target := some r.userId
      result := .denied
      metadata := some [(py "permission", .str permission),
        (py "required_role", .str needed.name), (py "role", .str who.role.name)] }
    { status := 403
      code := py "forbidden"
      message := [.str permission, .text (py " requires the "), .str needed.name,
        .text (py " role")]
      details := some [(py "required_role", .str needed.name),
        (py "role", .str who.role.name)] }

/-- `_denied`. -/
def refuse (who : Principal) (action : String) (target : PyStr) (reason : String) : UserPoint :=
  deny
    { ts := r.clock 1
      actorId := some who.actorId
      actor := who.actor
      action := py action
      target := some target
      result := .denied
      metadata := some [(py "reason", .str (py reason)), (py "role", .str who.role.name)] }
    (.plain 403 "forbidden" reason)

/-- The refusal of `_guard_last_owner`. -/
def refuseLastOwner (who : Principal) (action : String) (target : UserRow) : UserPoint :=
  refuse r who action target.id "the last enabled owner can never be deleted, demoted or disabled"

/-- The gate, with the permission of a write. -/
def gate (who : Principal) (action : Option PyStr) (plan : UserPlan) : UserPoint :=
  if roleAllows who.role (py "users.write") then fetch who plan
  else forbid r who (py "users.write") action

/-- `enforce_browser_session` and the start of the handler, for a session that
resolves to `user`. -/
def enter (user : UserRow) : UserPoint :=
  if user.mustChange then
    fail (.plain 403 "password_change_required"
      "a new password is required before any other action")
  else if !r.csrf then
    fail (.plain 403 "csrf_failed"
      "missing or invalid CSRF token: the X-CSRF-Token header must echo the lw_csrf cookie")
  else
    let who : Principal := ⟨user.role, user.email, user.id⟩
    match r.op with
    | .patch (.error e) => fail e
    | .patch (.ok (.obj payload)) => gate r who (intentAction payload) (.patch payload)
    | .patch (.ok _) => fail (.plain 400 "invalid_request" "request body must be a JSON object")
    | .delete => gate r who (some (py "user.deleted")) .delete

/-- `role_changed`. -/
def roleChanged (p : Patching) : Bool :=
  match p.changed.role with
  | some role => decide (role ≠ p.target.role)
  | none => false

/-- `disabled_changed`. -/
def disabledChanged (p : Patching) : Bool :=
  match p.changed.disabled with
  | some disabled => disabled != p.target.disabled
  | none => false

/-- The second guard of `apply_user_update`. -/
def afterRoleGuard (p : Patching) : UserPoint :=
  if p.changed.disabled = some true ∧ p.target.disabled = false then
    if p.target.enabledOwner then guardDisable p else update p
  else update p

/-- `apply_user_update`, up to its first statement. -/
def applyUserUpdate (p : Patching) : UserPoint :=
  if roleChanged p then
    if p.who.actorId = p.target.id then
      refuse r p.who "user.role_changed" p.target.id "users cannot change their own role"
    else if p.target.enabledOwner then guardRole p
    else afterRoleGuard p
  else afterRoleGuard p

/-- `delete_user`, up to its first statement. -/
def deleteUser (who : Principal) (target : UserRow) : UserPoint :=
  if who.actorId = target.id then
    refuse r who "user.deleted" target.id "users cannot delete themselves"
  else if target.enabledOwner then guardDelete who target
  else delete who target

/-- After the role's part of the change. -/
def afterRole (p : Patching) : UserPoint :=
  if disabledChanged p then auditDisabled p else refetch p.target

/-- After the `UPDATE`. -/
def afterUpdate (p : Patching) : UserPoint := if roleChanged p then auditRole p else afterRole p

/-- After the audit row of a disable or enable. -/
def afterAudit (p : Patching) : UserPoint :=
  if p.changed.disabled = some true then revokeDisabled p else refetch p.target

end UserPoint

open UserPoint

/-- An audit row about a target. -/
def auditEntry (r : UserRequest) (n : ℕ) (who : Principal) (action : String) (target : UserRow)
    (metadata : Fields) : AuditEntry :=
  { ts := r.clock n
    actorId := some who.actorId
    actor := who.actor
    action := py action
    target := some target.id
    metadata := some metadata }

/-- The audit row of a role change. -/
def roleEntry (r : UserRequest) (p : Patching) : AuditEntry :=
  auditEntry r 1 p.who "user.role_changed" p.target
    [(py "from", .str p.target.role.name),
      (py "to", .str (p.changed.role.getD p.target.role).name), (py "email", .str p.target.email)]

/-- The audit row of a disable or enable. -/
def disabledEntry (r : UserRequest) (p : Patching) : AuditEntry :=
  auditEntry r (if roleChanged p then 2 else 1) p.who "user.disabled" p.target
    [(py "disabled", .bool (p.changed.disabled.getD p.target.disabled)),
      (py "email", .str p.target.email)]

/-- The audit row of a deletion. -/
def deletedEntry (r : UserRequest) (who : Principal) (target : UserRow) : AuditEntry :=
  auditEntry r 1 who "user.deleted" target
    [(py "email", .str target.email), (py "role", .str target.role.name)]

/-- The next statement of a request. -/
def userCode (r : UserRequest) : UserPoint → Option (Wal.Stmt Db UserPoint)
  | authenticate => some (.select fun db =>
      match resolveSession db r.session (r.clock 0) with
      | none => fail (.plain 401 "missing_or_invalid_credential" "missing or invalid credential")
      | some user => enter r user)
  | fetch who plan => some (.select fun db =>
      match fetchUser db r.userId, plan with
      | none, _ =>
        fail ⟨404, py "not_found", [.text (py "user "), .str r.userId, .text (py " not found")],
          none⟩
      | some target, .patch payload =>
        match validatedPatch payload with
        | .error e => fail e
        | .ok changed => applyUserUpdate r ⟨who, target, changed⟩
      | some target, .delete => deleteUser r who target)
  | guardRole p => some (.select fun db =>
      if enabledOwnerCount db (some p.target.id) = 0 then
        refuseLastOwner r p.who "user.role_changed" p.target
      else afterRoleGuard p)
  | guardDisable p => some (.select fun db =>
      if enabledOwnerCount db (some p.target.id) = 0 then
        refuseLastOwner r p.who "user.disabled" p.target
      else update p)
  | update p => some (.dml (Db.updateUser p.target.id p.changed) fun _ => afterUpdate p)
  | auditRole p => some (.dml (Db.audit (roleEntry r p)) fun _ => revokeRole p)
  | revokeRole p => some (.dml (Db.revokeSessions p.target.id) fun _ => afterRole p)
  | auditDisabled p => some (.dml (Db.audit (disabledEntry r p)) fun _ => afterAudit p)
  | revokeDisabled p => some (.dml (Db.revokeSessions p.target.id) fun _ => refetch p.target)
  | refetch target => some (.select fun db =>
      match fetchUser db target.id with
      | none => closing (.error .assertion)
      | some user => commitAll (userPayload user))
  | guardDelete who target => some (.select fun db =>
      if enabledOwnerCount db (some target.id) = 0 then
        refuseLastOwner r who "user.deleted" target
      else delete who target)
  | delete who target => some (.dml (Db.deleteUser target.id) fun _ => auditDelete who target)
  | auditDelete who target => some (.dml (Db.audit (deletedEntry r who target)) fun _ =>
      commitAll [(py "id", .str r.userId), (py "deleted", .bool true)])
  | commitAll result => some (.commit (closing (.ok result)))
  | deny entry e => some (.dml (Db.audit entry) fun _ => commitDenied e)
  | commitDenied e => some (.commit (fail e))
  | closing result => some (.rollback (done result))
  | done _ => none

/-- A request at one of its points. -/
structure UserPc where
  /-- the request -/
  request : UserRequest
  /-- where it is -/
  point : UserPoint

/-- Requests beside each other, each on its own connection, and nothing else. -/
def userRequests : Wal.Client Db Unit UserPc Empty where
  code p := (userCode p.request p.point).map (Wal.Stmt.map (UserPc.mk p.request))
  start p := match p.point with
    | authenticate => true
    | _ => false
  ext x := x.elim

/-- A world of user management. -/
abbrev UserWorld : Type := Wal.World Db Unit UserPc

/-- No request yet. -/
def UserWorld.idle (db : Db) : UserWorld := ⟨db, (), none, []⟩

end LayaWatch
