import LayaWatch.Gates
import LayaWatch.KeyEdits
import LayaWatch.PasswordChange
import LayaWatch.Lib.Handle

/-!
# When a session was last seen

`resolve_session` with its `UPDATE` of `last_seen`, on the cached connection of a
thread, and the way of a browser's request through `enforce_browser_session` and the
`gate` of its handler. The first opens the connection, resolves the session and closes
the connection, which rolls back the `UPDATE`; the second finds the principal on the
request and resolves nothing. So no request changes the `last_seen` that is stored, and
it slides exactly in the runs in which it need not (`last_seen_slides`).

But for the `UPDATE`, a request is what the programs of `Sessions` and `Mutations` say
(`BrowserRequest.serve_run`, `mutation_endpoint`).
-/

namespace LayaWatch

open Auth

/-! ## The column -/

namespace Db

/-- The id and the `last_seen` of each session. -/
def stamps (db : Db) : List (PyStr × ℚ) := db.sessions.map fun s => (s.id, s.lastSeen)

/-- The `last_seen` of the session with this id. -/
def lastSeen (db : Db) (id : PyStr) : Option ℚ := Dict.lookup id db.stamps

/-- It is a minute old, or older. -/
def touchDue (db : Db) (id : PyStr) (now : ℚ) : Bool :=
  (db.lastSeen id).any fun seen => decide (60 ≤ now - seen)

/-- The sessions of the second database are sessions of the first, with the `last_seen`
that they had. -/
def SeenKept (db t : Db) : Prop := t.stamps.Sublist db.stamps

variable {db t : Db}

instance : Std.Refl SeenKept := ⟨fun db => List.Sublist.refl db.stamps⟩

instance : IsTrans Db SeenKept := ⟨fun _ _ _ h h' => h'.trans h⟩

theorem SeenKept.of_sessions (h : t.sessions = db.sessions) : db.SeenKept t := by
  unfold SeenKept stamps
  rw [h]

/-- An update of other columns. -/
theorem SeenKept.of_map {f : SessionRow → SessionRow} (hf : ∀ s, (f s).id = s.id)
    (hseen : ∀ s, (f s).lastSeen = s.lastSeen) (h : t.sessions = db.sessions.map f) :
    db.SeenKept t := by
  have hstamps : t.stamps = db.stamps := by
    unfold stamps
    rw [h, List.map_map]
    refine List.map_congr_left fun s _ => ?_
    rw [Function.comp_apply, hf, hseen]
  unfold SeenKept
  rw [hstamps]

theorem seenKept_revokeWhere (p : SessionRow → Bool) (db : Db) :
    db.SeenKept (db.revokeWhere p) := by
  refine .of_map (fun s => ?_) (fun s => ?_) rfl
  · split <;> rfl
  · split <;> rfl

theorem seenKept_revokeSessions (id : PyStr) (db : Db) : db.SeenKept (db.revokeSessions id) := by
  refine .of_map (fun s => ?_) (fun s => ?_) rfl
  · split <;> rfl
  · split <;> rfl

theorem seenKept_deleteUser (id : PyStr) (db : Db) : db.SeenKept (db.deleteUser id) :=
  List.filter_sublist.map _

theorem keys_stamps (db : Db) : db.stamps.map Prod.fst = db.sessionIds := by
  unfold stamps sessionIds
  rw [List.map_map]
  rfl

theorem SeenKept.nodup (h : db.SeenKept t) (hkeys : db.sessionIds.Nodup) : t.sessionIds.Nodup := by
  rw [← keys_stamps] at hkeys ⊢
  exact hkeys.sublist (List.Sublist.map Prod.fst h)

/-- A session that is still there has the `last_seen` that it had. -/
theorem SeenKept.lastSeen (h : db.SeenKept t) (hkeys : db.sessionIds.Nodup) {id : PyStr} {seen : ℚ}
    (hseen : t.lastSeen id = some seen) : db.lastSeen id = some seen := by
  rw [← keys_stamps] at hkeys
  exact Dict.lookup_of_mem hkeys (h.subset (Dict.lookup_mem hseen))

/-- What the `UPDATE` does, when it is due. -/
theorem lastSeen_touchSession {id : PyStr} {now : ℚ} (hdue : db.touchDue id now = true) :
    (db.touchSession id now).lastSeen id = some now := by
  unfold touchDue at hdue
  unfold lastSeen stamps at hdue ⊢
  unfold touchSession
  dsimp only
  generalize db.sessions = sessions at hdue ⊢
  induction sessions with
  | nil => cases hdue
  | cons s sessions ih =>
    by_cases hid : s.id = id
    · simp only [List.map_cons, Dict.lookup, hid, if_true, Option.any_some,
        decide_eq_true_eq] at hdue
      simp only [List.map_cons, Dict.lookup, hid, hdue, and_self, if_true]
    · simp only [List.map_cons, Dict.lookup, hid, if_false] at hdue
      simp only [List.map_cons, Dict.lookup, hid, false_and, if_false]
      exact ih hdue

end Db

namespace Auth

section

variable (L : AuthLib)

/-! ## On the connection of a thread -/

/-- `resolve_session`: the user of a live token, and the `UPDATE` of its `last_seen`. -/
def resolveAndTouch (token : PyStr) (now : ℚ) : Prog (Handle Db) HttpError (Option UserRow) := do
  let row ← Handle.query fun db =>
    (resolveToken L db token now).map fun user => (user, db.touchDue (L.digest token) now)
  match row with
  | none => pure none
  | some (user, due) => do
    if due then Handle.change (Db.touchSession (L.digest token) now)
    pure (some user)

/-- What both gates ask of a session: no new password is required, but for the request
that sets one (`forced`), and the CSRF header echoes the cookie. -/
def sessionError (r : SessionRequest) (forced : Bool) (user : UserRow) : Option HttpError :=
  if user.mustChange && !forced then
    some (.plain 403 "password_change_required"
      "a new password is required before any other action")
  else if !r.csrf then
    some (.plain 403 "csrf_failed"
      "missing or invalid CSRF token: the X-CSRF-Token header must echo the lw_csrf cookie")
  else none

/-- `enforce_browser_session`: the principal that it leaves on the request. -/
def enforceOnHandle (r : SessionRequest) (forced : Bool) (now : ℚ) :
    Prog (Handle Db) HttpError (Option Caller) :=
  match r.cookie with
  | none => pure none
  | some token => do
    match ← Handle.owned (resolveAndTouch L token now) with
    | none => Prog.raise (credentialError "missing or invalid credential")
    | some user => do
      Prog.raiseIf (sessionError r forced user)
      pure (some (.session user (L.digest token)))

/-- `authenticate`, on a request that carries this principal. -/
def authenticateOnHandle (r : SessionRequest) (cached : Option Caller) (now : ℚ) :
    Prog (Handle Db) HttpError (Option Caller) :=
  match cached with
  | some who => pure (some who)
  | none =>
    match r.cookie with
    | some token => do
      let resolved ← Handle.owned (resolveAndTouch L token now)
      pure (resolved.map fun user => .session user (L.digest token))
    | none => pure (r.apiKey.map .apiKey)

/-- `gate`, up to its permission. -/
def gateOnHandle (r : SessionRequest) (forced : Bool) (cached : Option Caller) (now : ℚ) :
    Prog (Handle Db) HttpError Caller := do
  match ← authenticateOnHandle L r cached now with
  | none => Prog.raise (credentialError "missing or invalid credential")
  | some (.session user sessionId) => do
    Prog.raiseIf (sessionError r forced user)
    pure (.session user sessionId)
  | some (.apiKey keyId) => pure (.apiKey keyId)

end

/-! ## Handlers -/

/-- A handler below `/api/v1/`, on its request. -/
inductive Endpoint where
  /-- it checks the request, asks `gate` for its caller, and goes on with it -/
  | gated (checked : Except HttpError (Caller → Handler Fields))
  /-- it asks for no caller -/
  | ungated (run : Handler Fields)

namespace Endpoint

/-- It writes no `last_seen`, and starts no session. -/
def LeavesSeen : Endpoint → Prop
  | gated checked => ∀ body, checked = .ok body → ∀ who, (body who).Respects Db.SeenKept
  | ungated run => run.Respects Db.SeenKept

/-- The handler as a program on the database, with the gate of `Sessions`. -/
def program (r : SessionRequest) (cached : Option Caller) : Endpoint → Handler Fields
  | gated checked => do
    let body ← Prog.lift checked
    let who ← gate r cached
    body who
  | ungated run => run

/-- The handler on the connection of its thread. -/
def onHandle (L : AuthLib) (r : SessionRequest) (forced : Bool) (cached : Option Caller)
    (now : ℚ) : Endpoint → Prog (Handle Db) HttpError Fields
  | gated checked => Handle.owned do
    let body ← Prog.lift checked
    let who ← gateOnHandle L r forced cached now
    Handle.committing (body who)
  | ungated run => Handle.owned (Handle.committing run)

end Endpoint

/-- A request below `/api/v1/`. -/
structure BrowserRequest where
  /-- the thread that serves it -/
  thread : ℕ
  /-- what authentication reads of it -/
  request : SessionRequest
  /-- it is `POST /api/v1/auth/password` -/
  forced : Bool := false
  /-- when it is served -/
  now : ℚ
  /-- its handler -/
  endpoint : Endpoint
  /-- its handler leaves `last_seen` to `resolve_session` -/
  leavesSeen : endpoint.LeavesSeen

namespace BrowserRequest

variable (L : AuthLib) (q : BrowserRequest)

/-- `instrument.handle`: the gate of the middleware, and the handler. -/
def serve : Prog (Handle Db) HttpError Fields := do
  let cached ← enforceOnHandle L q.request q.forced q.now
  q.endpoint.onHandle L q.request q.forced cached q.now

/-- The same without connections. -/
def program : Handler Fields := do
  let cached ← enforceBrowserSession L q.request q.forced q.now
  q.endpoint.program q.request cached

/-- The session that the request resolves to. -/
def session (db : Db) : Option PyStr :=
  q.request.cookie.bind fun token =>
    (resolveToken L db token q.now).map fun _ => L.digest token

end BrowserRequest

/-! ## What the gates leave behind -/

section

variable {L : AuthLib} {r : SessionRequest} {forced : Bool} {now : ℚ} {token : PyStr}

/-- `resolve_session` commits nothing. -/
theorem resolveAndTouch_keeps : (resolveAndTouch L token now).Keeps Handle.committed := by
  refine .bind (Handle.query_keeps _) fun row => ?_
  rcases row with _ | ⟨user, due⟩
  · exact .pure _
  · dsimp only
    split
    · exact .bind (Handle.change_keeps _) fun _ => .pure _
    · exact .pure _

theorem resolveAndTouch_outcome (db : Db) :
    (resolveAndTouch L token now (Handle.clean db)).1 = .ok (resolveToken L db token now) := by
  unfold resolveAndTouch
  rw [Handle.query, Prog.run_get_bind, Handle.visible_clean]
  rcases resolveToken L db token now with _ | user
  · rfl
  · dsimp only [Option.map_some]
    rcases db.touchDue (L.digest token) now with _ | _
    · rfl
    · rfl

/-- On its connection, `resolve_session` does slide what is due. -/
theorem resolveAndTouch_slides {db : Db} {user : UserRow}
    (hres : resolveToken L db token now = some user)
    (hdue : db.touchDue (L.digest token) now = true) :
    (resolveAndTouch L token now (Handle.clean db)).2.visible.lastSeen (L.digest token) =
      some now := by
  unfold resolveAndTouch
  rw [Handle.query, Prog.run_get_bind, Handle.visible_clean, hres]
  dsimp only [Option.map_some]
  rw [hdue]
  exact Db.lastSeen_touchSession hdue

/-- **The session is resolved, and its `UPDATE` is rolled back.** -/
theorem owned_resolveAndTouch (db : Db) :
    Handle.owned (resolveAndTouch L token now) (Handle.clean db) =
      (.ok (resolveToken L db token now), Handle.clean db) := by
  rw [Handle.owned_lost resolveAndTouch_keeps, resolveAndTouch_outcome]

/-- What `enforce_browser_session` answers, and what it leaves behind. -/
theorem enforceOnHandle_run (db : Db) :
    enforceOnHandle L r forced now (Handle.clean db) =
      ((enforceBrowserSession L r forced now db).1, Handle.clean db) := by
  unfold enforceOnHandle enforceBrowserSession
  rcases r.cookie with _ | token
  · rfl
  dsimp only
  rw [Prog.run_bind_ok (owned_resolveAndTouch db)]
  rcases resolveToken L db token now with _ | user
  · rfl
  dsimp only
  unfold sessionError
  by_cases hheld : (user.mustChange && !forced) = true
  · rw [if_pos hheld, if_pos hheld]
    rfl
  rw [if_neg hheld, if_neg hheld]
  by_cases hcsrf : (!r.csrf) = true
  · rw [if_pos hcsrf, if_pos hcsrf]
    rfl
  · rw [if_neg hcsrf, if_neg hcsrf]
    rfl

/-- The session that `enforce_browser_session` lets through may pass the other gate. -/
theorem enforce_ok {db t : Db} {cached : Option Caller}
    (h : enforceBrowserSession L r forced now db = (.ok cached, t)) :
    cached = none ∧ r.cookie = none ∨
      ∃ user sessionId, cached = some (.session user sessionId) ∧
        sessionError r forced user = none := by
  unfold enforceBrowserSession at h
  rcases hcookie : r.cookie with _ | token
  · rw [hcookie] at h
    cases h
    exact Or.inl ⟨rfl, rfl⟩
  rw [hcookie] at h
  dsimp only at h
  rcases hres : resolveToken L db token now with _ | user
  · rw [hres] at h
    cases h
  rw [hres] at h
  dsimp only at h
  unfold sessionError
  by_cases hheld : (user.mustChange && !forced) = true
  · rw [if_pos hheld] at h
    cases h
  rw [if_neg hheld] at h
  by_cases hcsrf : (!r.csrf) = true
  · rw [if_pos hcsrf] at h
    cases h
  rw [if_neg hcsrf] at h
  cases h
  exact Or.inr ⟨user, L.digest token, rfl, by rw [if_neg hheld, if_neg hcsrf]⟩

/-- **Behind the middleware, `gate` resolves nothing**: the principal is on the request. -/
theorem gateOnHandle_run {db t : Db} {cached : Option Caller}
    (h : enforceBrowserSession L r forced now db = (.ok cached, t)) (h' : Handle Db) :
    gateOnHandle L r forced cached now h' = ((gate r cached db).1, h') := by
  rcases enforce_ok h with ⟨rfl, hcookie⟩ | ⟨user, sessionId, rfl, hpass⟩
  · unfold gateOnHandle authenticateOnHandle gate
    rw [hcookie]
    rcases r.apiKey with _ | keyId
    · rfl
    · rfl
  · unfold gateOnHandle authenticateOnHandle
    dsimp only
    rw [Prog.run_bind_ok (Prog.run_pure _ _)]
    dsimp only
    rw [hpass]
    rfl

/-- **A request, on the connection of its thread and without**: the outcome is the same,
and what the handler commits is all that is left. -/
theorem BrowserRequest.serve_run (q : BrowserRequest) (db : Db) :
    q.serve L (Handle.clean db) = ((q.program L db).1, Handle.clean (q.program L db).2) := by
  unfold serve program
  have henforce : enforceOnHandle L q.request q.forced q.now (Handle.clean db) = _ :=
    enforceOnHandle_run db
  rcases hrun : enforceBrowserSession L q.request q.forced q.now db with ⟨e | cached, t⟩
  · rw [hrun] at henforce
    obtain rfl := (enforce_ends q.request q.forced q.now db).error hrun
    rw [Prog.run_bind_error henforce, Prog.run_bind_error hrun]
  rw [hrun] at henforce
  obtain rfl := (enforce_ends q.request q.forced q.now db).ok hrun
  rw [Prog.run_bind_ok henforce, Prog.run_bind_ok hrun]
  rcases q.endpoint with checked | run
  · unfold Endpoint.onHandle Endpoint.program
    dsimp only
    rw [Handle.owned_run]
    rcases checked with e | body
    · rfl
    rw [Prog.run_lift_bind, Prog.run_lift_bind]
    have hgate := gateOnHandle_run hrun (Handle.clean t)
    rcases hasked : gate q.request cached t with ⟨e | who, u⟩
    · obtain rfl := (gate_ends q.request cached t).error hasked
      rw [hasked] at hgate
      rw [Prog.run_bind_error hgate, Prog.run_bind_error hasked]
      rfl
    · obtain rfl := (gate_ends q.request cached t).ok hasked
      rw [hasked] at hgate
      rw [Prog.run_bind_ok hgate, Prog.run_bind_ok hasked, Handle.committing_run]
      rfl
  · unfold Endpoint.onHandle Endpoint.program
    dsimp only
    rw [Handle.owned_run, Handle.committing_run]
    rfl

/-! ## Handlers leave it alone -/

theorem enforce_respects : (enforceBrowserSession L r forced now).Respects Db.SeenKept :=
  .of_same (enforce_keeps id r forced now)

theorem gate_respects {cached : Option Caller} : (gate r cached).Respects Db.SeenKept :=
  .of_ends fun db => (gate_ends r cached db).mono (fun _ _ h => .of_sessions (by rw [h]))
    fun _ _ h => .of_sessions (by rw [h])

theorem Endpoint.program_respects {endpoint : Endpoint} (h : endpoint.LeavesSeen)
    (cached : Option Caller) : (endpoint.program r cached).Respects Db.SeenKept := by
  cases endpoint with
  | gated checked =>
    cases checked with
    | error e => exact .of_same fun _ => rfl
    | ok body =>
      change (gate r cached >>= body).Respects Db.SeenKept
      exact .bind gate_respects (h body rfl)
  | ungated run => exact h

/-- **A request leaves the `last_seen` of every session as it is.** -/
theorem BrowserRequest.program_respects (q : BrowserRequest) :
    (q.program L).Respects Db.SeenKept :=
  .bind enforce_respects fun cached => Endpoint.program_respects q.leavesSeen cached

end

/-! ## The mutating handlers -/

section

variable {L : AuthLib} {r : SessionRequest} {now : ℚ} {β : Type}

theorem requirePermission_respects {who : Caller} {permission action : PyStr}
    {target : Option PyStr} : (requirePermission who permission action target now).Respects
      Db.SeenKept :=
  .of_ends fun db => (requirePermission_ends who permission action target now db).mono
    (fun _ _ h => .of_sessions (by rw [h])) fun _ _ ⟨_, h⟩ => .of_sessions (by rw [h]; rfl)

theorem loadKey_respects {keyId : PyStr} : (loadKey keyId).Respects Db.SeenKept :=
  .of_same (loadKey_keeps id keyId)

/-- What a handler does with the principal of its request is what one of `Endpoint` does. -/
def IsEndpoint (r : SessionRequest) (h : Option Caller → Handler Fields) : Prop :=
  ∃ endpoint : Endpoint, endpoint.LeavesSeen ∧ ∀ cached, h cached = endpoint.program r cached

namespace IsEndpoint

theorem raise (e : HttpError) : IsEndpoint r fun _ => Prog.raise e :=
  ⟨.gated (.error e), fun _ h => (by cases h), fun _ => rfl⟩

theorem ungated {run : Handler Fields} (h : run.Respects Db.SeenKept) : IsEndpoint r fun _ => run :=
  ⟨.ungated run, h, fun _ => rfl⟩

/-- What is checked comes first. -/
theorem lift {x : Except HttpError β} {k : β → Option Caller → Handler Fields}
    (h : ∀ b, IsEndpoint r (k b)) :
    IsEndpoint r fun cached => Prog.lift x >>= fun b => k b cached := by
  cases x with
  | error e => exact raise e
  | ok b => exact h b

theorem gate {body : Caller → Handler Fields} (h : ∀ who, (body who).Respects Db.SeenKept) :
    IsEndpoint r fun cached => Auth.gate r cached >>= body :=
  ⟨.gated (.ok body), fun _ hok who => (Except.ok.inj hok) ▸ h who, fun _ => rfl⟩

/-- The gate with a permission. -/
theorem gated {permission action : String} {target : Option PyStr} {body : Caller → Handler Fields}
    (h : ∀ who, (body who).Respects Db.SeenKept) :
    IsEndpoint r fun cached =>
      LayaWatch.gated r cached permission action target now >>= body := by
  have hbody : ∀ who, ((requirePermission who (py permission) (py action) target now >>=
      fun _ => (pure who : Handler Caller)) >>= body).Respects Db.SeenKept := fun who =>
    .bind (.bind requirePermission_respects fun _ => .pure who) h
  obtain ⟨endpoint, hleaves, hsame⟩ := gate (r := r) hbody
  exact ⟨endpoint, hleaves, fun cached => (Prog.bind_bind ..).trans (hsame cached)⟩

/-- A path below a prefix is split before anything else. -/
theorem onePart {parts : List PyStr} {e : HttpError} {k : PyStr → Option Caller → Handler Fields}
    (h : ∀ part, IsEndpoint r (k part)) : IsEndpoint r fun cached =>
      match parts with
      | [part] => if part.isEmpty then Prog.raise e else k part cached
      | _ => Prog.raise e := by
  rcases parts with _ | ⟨part, _ | ⟨_, _⟩⟩
  · exact raise e
  · dsimp only
    split
    · exact raise e
    · exact h part
  · exact raise e

theorem twoParts {parts : List PyStr} {e : HttpError}
    {k : PyStr → PyStr → Option Caller → Handler Fields}
    (h : ∀ part verb, IsEndpoint r (k part verb)) : IsEndpoint r fun cached =>
      match parts with
      | [part, verb] => k part verb cached
      | _ => Prog.raise e := by
  rcases parts with _ | ⟨part, _ | ⟨verb, _ | ⟨_, _⟩⟩⟩
  · exact raise e
  · exact raise e
  · exact h part verb
  · exact raise e

/-- The middleware, and what comes behind it. -/
theorem behind {h : Option Caller → Handler Fields} (hh : IsEndpoint r h) (forced : Bool) :
    ∃ endpoint : Endpoint, endpoint.LeavesSeen ∧
      enforceBrowserSession L r forced now >>= h = enforceBrowserSession L r forced now >>=
        fun cached => endpoint.program r cached := by
  obtain ⟨endpoint, hleaves, hsame⟩ := hh
  exact ⟨endpoint, hleaves, congrArg _ (funext hsame)⟩

end IsEndpoint

/-- PATCH and DELETE of a user revoke sessions, or delete them. -/
theorem seenKept_userEffect (db : Db) (userId : PyStr) (op : UserOp) :
    db.SeenKept (userEffect db userId op) := by
  unfold userEffect
  split
  · exact Db.seenKept_deleteUser userId db
  · split
    · dsimp only
      split
      · exact Db.seenKept_revokeSessions userId _
      · exact .of_sessions rfl
    · exact .of_sessions rfl
  · exact .of_sessions rfl

theorem userRest_respects {who : Caller} {userId : PyStr} {op : UserOp} :
    (userRest r who userId op now).Respects Db.SeenKept := by
  intro db
  have halone : db.SeenKept
      (userAlone ⟨who.sessionId.getD [], r.csrf, userId, op, fun _ => now⟩ db).2 := by
    obtain ⟨result, t, hrun, hends⟩ :=
      user_settles ⟨who.sessionId.getD [], r.csrf, userId, op, fun _ => now⟩ db
    unfold userAlone
    rw [hrun]
    rcases result with e | fields
    · exact .of_sessions hends.sessions.symm
    · have hsame := hends.sessions.symm
      exact IsTrans.trans _ _ _ (seenKept_userEffect db userId op) (.of_sessions hsame)
  unfold userRest
  rcases hrun : userAlone ⟨who.sessionId.getD [], r.csrf, userId, op, fun _ => now⟩ db with
    ⟨(e | _) | fields, t⟩ <;> rw [hrun] at halone <;> exact halone

theorem changePassword_respects {user : UserRow} {sessionId new salt : PyStr} :
    (Prog.modify (replacePassword L user sessionId new salt now) :
      Handler PUnit).Respects Db.SeenKept := by
  refine .modify fun db => ?_
  have hsame := (accounts_replacePassword L user sessionId new salt now db).sessions.symm
  exact IsTrans.trans _ _ _ (Db.seenKept_revokeWhere _ _) (.of_sessions hsame)

theorem revokeKey_isEndpoint {keyId : PyStr} :
    IsEndpoint r fun cached => revokeKey r cached keyId now := by
  refine .gated fun who => .bind loadKey_respects fun row => ?_
  split
  · exact .bind (.modify fun _ => .of_sessions rfl) fun _ => .pure _
  · exact .pure _

theorem rotateKey_isEndpoint {K : KeyLib} {keyId : PyStr} {drawn : List (Fin 62)} :
    IsEndpoint r fun cached => rotateKey K r cached keyId drawn now :=
  .gated fun _ => .bind loadKey_respects fun _ => .bind (.raiseIf _) fun _ =>
    .bind (.modify fun _ => .of_sessions rfl) fun _ => .pure _

theorem setLimits_isEndpoint {keyId : PyStr} :
    IsEndpoint r fun cached => setLimits r cached keyId now :=
  .lift fun _ => .gated fun _ => .bind loadKey_respects fun _ => .bind (.raiseIf _) fun _ =>
    .bind (.modify fun _ => .of_sessions rfl) fun _ => .pure _

theorem loadTrace_respects {traceId : PyStr} : (loadTrace traceId).Respects Db.SeenKept := by
  refine .of_same fun db => ?_
  rw [loadTrace_reads]

theorem scores_respects {T : PyText} {traceId scoreId : PyStr} :
    (scores T r traceId scoreId now).Respects Db.SeenKept :=
  .bind (.lift _) fun _ => .bind loadTrace_respects fun _ => .bind (.get _) fun _ =>
    .bind (.raiseIf _) fun _ => .bind (.modify fun _ => .of_sessions rfl) fun _ => .pure _

theorem tags_respects {traceId : PyStr} : (tags r traceId now).Respects Db.SeenKept :=
  .bind (.lift _) fun _ => .bind loadTrace_respects fun _ => .bind (.raiseIf _) fun _ =>
    .bind (.modify fun _ => .of_sessions rfl) fun _ => .pure _

/-- Settings are not sessions. -/
theorem storeSettings_respects {γ : Type} {key value : γ → PyStr} {who : PyStr} {l : List γ}
    {entry : AuditEntry} : (Prog.modify fun db => (l.foldl (fun db e =>
      upsertSetting (key e) (value e) who now db) db).audit entry : Handler PUnit).Respects
        Db.SeenKept := by
  refine .modify fun db => .of_sessions ?_
  exact foldl_keeps Db.sessions (fun db e => upsertSetting (key e) (value e) who now db)
    (fun _ _ => rfl) l db

/-- **Each mutating handler** is `enforce_browser_session` and an endpoint behind it. -/
theorem mutation_endpoint (S : Services) (r : ApiRequest) (now : ℚ) (m : Mutation) :
    ∃ (forced : Bool) (endpoint : Endpoint), endpoint.LeavesSeen ∧
      m.handler S r now = enforceBrowserSession S.auth r.toSessionRequest forced now >>=
        fun cached => endpoint.program r.toSessionRequest cached := by
  cases m with
  | logout =>
    refine ⟨false, (IsEndpoint.gate fun who => ?_).behind _⟩
    cases who with
    | apiKey keyId => exact .raise _
    | session user sessionId =>
      exact .bind (.modify fun db => IsTrans.trans _ _ _ (Db.seenKept_revokeWhere _ db)
        (.of_sessions rfl)) fun _ => .pure _
  | changePassword salt =>
    refine ⟨true, (IsEndpoint.lift fun form => IsEndpoint.gate fun who => ?_).behind _⟩
    cases who with
    | apiKey keyId => exact .raise _
    | session user sessionId =>
      exact .bind (.raiseIf _) fun _ => .bind changePassword_respects fun _ => .pure _
  | revokeAll =>
    refine ⟨false, (IsEndpoint.gate fun who => ?_).behind _⟩
    exact .bind requirePermission_respects fun _ => .bind (.get _) fun _ =>
      .bind (.modify fun db => IsTrans.trans _ _ _ (Db.seenKept_revokeWhere _ db)
        (.of_sessions rfl)) fun _ => .pure _
  | createKey keyId drawn =>
    refine ⟨false, (IsEndpoint.lift fun _ => IsEndpoint.lift fun _ => IsEndpoint.lift fun _ =>
      IsEndpoint.gated fun who => ?_).behind _⟩
    exact .bind (.get _) fun _ => .bind (.raiseIf _) fun _ =>
      .bind (.modify fun _ => .of_sessions rfl) fun _ => .pure _
  | deleteByPath =>
    exact ⟨false, (IsEndpoint.onePart fun _ => revokeKey_isEndpoint).behind _⟩
  | deleteByBody =>
    exact ⟨false, (IsEndpoint.lift fun _ => IsEndpoint.lift fun _ =>
      revokeKey_isEndpoint).behind _⟩
  | postWildcard drawn =>
    refine ⟨false, (IsEndpoint.twoParts fun keyId verb => ?_).behind _⟩
    split
    · exact rotateKey_isEndpoint
    · exact .raise _
  | patchKey => exact ⟨false, (IsEndpoint.onePart fun _ => setLimits_isEndpoint).behind _⟩
  | setAuthState =>
    refine ⟨false, (IsEndpoint.lift fun _ => IsEndpoint.gated fun who => ?_).behind _⟩
    exact .bind (.get _) fun _ => .bind (.raiseIf _) fun _ =>
      .bind (.modify fun _ => .of_sessions rfl) fun _ => .pure _
  | createUser userId salt =>
    refine ⟨false, (IsEndpoint.gated fun who => ?_).behind _⟩
    exact .bind (.lift _) fun _ => .bind (.raiseIf _) fun _ => .bind (.get _) fun _ =>
      .bind (.raiseIf _) fun _ => .bind (.modify fun _ => .of_sessions rfl) fun _ => .pure _
  | userWildcard =>
    refine ⟨false, (IsEndpoint.onePart fun _ => IsEndpoint.lift fun _ =>
      IsEndpoint.gate fun who => ?_).behind _⟩
    exact .bind requirePermission_respects fun _ => userRest_respects
  | deleteUserRoute =>
    exact ⟨false, (IsEndpoint.onePart fun _ =>
      IsEndpoint.gated fun who => userRest_respects).behind _⟩
  | updateSettings =>
    refine ⟨false, (IsEndpoint.lift fun stored => IsEndpoint.gated fun who => ?_).behind _⟩
    dsimp only
    split
    · refine .bind requirePermission_respects fun _ => .bind (.get _) fun _ =>
        .bind (.lift _) fun _ => .bind storeSettings_respects fun _ => ?_
      exact .bind (.modify fun _ => .of_sessions rfl) fun _ => .get _
    · refine .bind (.get _) fun _ => .bind (.lift _) fun _ =>
        .bind storeSettings_respects fun _ => ?_
      exact .get _
  | updatePolicy =>
    refine ⟨false, (IsEndpoint.lift fun _ => IsEndpoint.gated fun who => ?_).behind _⟩
    exact .bind (.get _) fun _ => .bind storeSettings_respects fun _ =>
      .bind (.get _) fun _ => .pure _
  | resetBuckets buckets =>
    refine ⟨false, (IsEndpoint.lift fun form => IsEndpoint.gated fun who => ?_).behind _⟩
    rcases form with _ | ⟨subject, scope⟩
    · exact .bind (.raiseIf _) fun _ => .bind (.modify fun _ => .of_sessions rfl) fun _ => .pure _
    · exact .bind (.raiseIf _) fun _ => .bind (.modify fun _ => .of_sessions rfl) fun _ => .pure _
  | runPlayground predict =>
    exact ⟨false, (IsEndpoint.gated fun who => .bind (.lift _) fun _ => .lift _).behind _⟩
  | deleteRange =>
    refine ⟨false, (IsEndpoint.lift fun _ => IsEndpoint.gated fun who => ?_).behind _⟩
    exact .bind (.get _) fun _ => .bind (.modify fun _ => .of_sessions rfl) fun _ => .pure _
  | postTrace scoreId =>
    refine ⟨false, (IsEndpoint.twoParts fun traceId action => IsEndpoint.ungated ?_).behind _⟩
    split
    · exact scores_respects
    · split
      · exact tags_respects
      · exact .raise _

end

/-! ## Runs -/

/-- The server, as far as `last_seen` is about it. -/
structure BrowserSystem where
  /-- what is committed -/
  db : Db
  /-- the transactions that are open, on the cached connections of the threads -/
  work : ℕ → Option Db
  /-- when the last request of each session was authenticated -/
  latest : PyStr → Option ℚ

section

variable (L : AuthLib)

/-- Serve a request. -/
def BrowserSystem.step (s : BrowserSystem) (q : BrowserRequest) : BrowserSystem :=
  let handle := (q.serve L ⟨s.db, s.work q.thread⟩).2
  { db := handle.committed
    work := Function.update s.work q.thread handle.work
    latest := match q.session L s.db with
      | none => s.latest
      | some id => Function.update s.latest id (some q.now) }

/-- Requests, one after the other, from any database. -/
def browserRequests : Machine BrowserSystem BrowserRequest where
  init s := s.db.sessionIds.Nodup ∧ (∀ i, s.work i = none) ∧ ∀ id, s.latest id = none
  step s q := some (s.step L q)

/-- A request whose session was last seen a minute ago leaves it seen now. -/
def Slides (s : BrowserSystem) (q : BrowserRequest) (t : BrowserSystem) : Prop :=
  ∀ id seen, q.session L s.db = some id → s.db.lastSeen id = some seen → 60 ≤ q.now - seen →
    t.db.lastSeen id = some q.now

/-- No session was last seen a minute before its latest request. -/
def BrowserSystem.UpToDate (s : BrowserSystem) : Prop :=
  ∀ id t seen, s.latest id = some t → s.db.lastSeen id = some seen → t - seen < 60

/-- The session of the request was last seen less than a minute ago. -/
def BrowserRequest.Prompt (q : BrowserRequest) (db : Db) : Prop :=
  ∀ id seen, q.session L db = some id → db.lastSeen id = some seen → q.now - seen < 60

end

section

variable {L : AuthLib} {s t : BrowserSystem}

/-- Between requests, the sessions have their keys and no transaction is open. -/
structure BrowserSystem.Settled (s : BrowserSystem) : Prop where
  /-- the primary key -/
  keys : s.db.sessionIds.Nodup
  /-- every connection was closed -/
  closed : ∀ i, s.work i = none

/-- What a request commits is what its program does. -/
theorem BrowserSystem.Settled.db_step (h : s.Settled) (q : BrowserRequest) :
    (s.step L q).db = (q.program L s.db).2 ∧ (s.step L q).work = s.work := by
  have hrun : q.serve L ⟨s.db, s.work q.thread⟩ =
      ((q.program L s.db).1, Handle.clean (q.program L s.db).2) := by
    rw [h.closed]
    exact q.serve_run s.db
  unfold step
  dsimp only
  rw [hrun]
  have hsame := Function.update_eq_self q.thread s.work
  rw [h.closed] at hsame
  exact ⟨rfl, hsame⟩

/-- A request leaves every `last_seen` alone, and closes what it opens. -/
theorem BrowserSystem.Settled.step (h : s.Settled) (q : BrowserRequest) :
    s.db.SeenKept (s.step L q).db ∧ (s.step L q).Settled := by
  obtain ⟨hdb, hwork⟩ := h.db_step (L := L) q
  have hkept : s.db.SeenKept (s.step L q).db := by
    rw [hdb]
    exact q.program_respects s.db
  exact ⟨hkept, hkept.nodup h.keys, fun i => by rw [hwork]; exact h.closed i⟩

/-- **A step slides nothing**, so that it is right only where nothing is to slide. -/
theorem slides_iff (h : s.Settled) (q : BrowserRequest) :
    Slides L s q (s.step L q) ↔ q.Prompt L s.db := by
  constructor
  · intro hslides id seen hsession hseen
    refine lt_of_not_ge fun hdue => ?_
    have hnow := hslides id seen hsession hseen hdue
    have hsame := (h.step q).1.lastSeen h.keys hnow
    obtain rfl := Option.some.inj (hseen.symm.trans hsame)
    rw [sub_self] at hdue
    exact absurd hdue (by norm_num)
  · intro hprompt id seen hsession hseen hdue
    exact absurd hdue (hprompt id seen hsession hseen).not_ge

/-- A prompt request leaves the sessions up to date. -/
theorem BrowserSystem.UpToDate.step (h : s.UpToDate) (hs : s.Settled) {q : BrowserRequest}
    (hq : q.Prompt L s.db) : (s.step L q).UpToDate := by
  intro id t seen hlatest hseen
  have hseen := (hs.step (L := L) q).1.lastSeen hs.keys hseen
  unfold BrowserSystem.step at hlatest
  dsimp only at hlatest
  rcases hsession : q.session L s.db with _ | id'
  · rw [hsession] at hlatest
    exact h id t seen hlatest hseen
  · rw [hsession] at hlatest
    dsimp only at hlatest
    by_cases hid : id = id'
    · subst hid
      rw [Function.update_self] at hlatest
      obtain rfl := Option.some.inj hlatest
      exact hq id seen hsession hseen
    · rw [Function.update_of_ne hid] at hlatest
      exact h id t seen hlatest hseen

/-- **`last_seen` slides exactly where it need not**: in a run of requests, every request
whose session was last seen a minute before leaves it seen now, and no session ever lags
its latest request by a minute, if and only if each request comes less than a minute
after the `last_seen` that is stored for its session. -/
theorem last_seen_slides (hs : (browserRequests L).init s)
    {es : List (Machine.Event BrowserSystem BrowserRequest)}
    (hrun : (browserRequests L).Run s es t) :
    ((∀ e ∈ es, Slides L e.pre e.act e.post) ∧ ∀ e ∈ es, e.post.UpToDate) ↔
      ∀ e ∈ es, e.act.Prompt L e.pre.db := by
  obtain ⟨hkeys, hclosed, hlatest⟩ := hs
  have hsettled : s.Settled := ⟨hkeys, hclosed⟩
  constructor
  · rintro ⟨hslides, -⟩ e he
    -- from a settled state a step slides exactly if it is prompt
    have hpre := (hrun.invariant (I := BrowserSystem.Settled) (G := fun _ _ => True) ?_ hsettled
      fun _ _ => trivial).2 e he
    swap
    · intro u q v hu _ hstep
      obtain rfl := Option.some.inj hstep
      exact (hu.step q).2
    have hstep := hslides e he
    rw [← Option.some.inj (hrun.step_of_mem e he)] at hstep
    exact (slides_iff hpre.1 e.act).mp hstep
  · intro hprompt
    -- prompt steps keep what was seen up to date
    have hinv := (hrun.invariant (I := fun u => u.Settled ∧ u.UpToDate)
      (G := fun u q => q.Prompt L u.db) ?_ ⟨hsettled, ?_⟩ hprompt).2
    · refine ⟨fun e he => ?_, fun e he => (hinv e he).2.2⟩
      rw [← Option.some.inj (hrun.step_of_mem e he)]
      exact (slides_iff (hinv e he).1.1 e.act).mpr (hprompt e he)
    · rintro u q v ⟨hu, hupToDate⟩ hq hstep
      obtain rfl := Option.some.inj hstep
      exact ⟨(hu.step q).2, hupToDate.step hu hq⟩
    · intro id t seen hsome
      rw [hlatest] at hsome
      cases hsome

end

/-! ## Tests -/

/-- `me`, of `GET /api/v1/auth/me`. -/
def me : Caller → Handler Fields
  | .session user _ => pure (mePayload user)
  | .apiKey _ => Prog.raise (credentialError "session cookie required")

theorem me_leavesSeen : (Endpoint.gated (.ok me)).LeavesSeen := by
  intro body hbody who
  obtain rfl := Except.ok.inj hbody
  cases who with
  | session user sessionId => exact .pure _
  | apiKey keyId => exact .raise _

/-- The admin asks who is signed in. -/
def askMe (now : ℚ) : BrowserRequest where
  thread := 0
  request := adminRequest []
  now := now
  endpoint := .gated (.ok me)
  leavesSeen := me_leavesSeen

/-- A session that starts at 0. -/
def signedIn : BrowserSystem where
  db := adminSession.db
  work := fun _ => none
  latest := fun _ => none

theorem init_signedIn : (browserRequests textAuth).init signedIn :=
  ⟨by decide, fun _ => rfl, fun _ => rfl⟩

/-- Half a minute after the session has started, it need not slide. -/
theorem last_seen_slides_prompt :
    Slides textAuth signedIn (askMe 30) (signedIn.step textAuth (askMe 30)) ∧
      (signedIn.step textAuth (askMe 30)).UpToDate := by
  have hrun : (browserRequests textAuth).Run signedIn
      ([] ++ [⟨signedIn, askMe 30, signedIn.step textAuth (askMe 30)⟩])
      (signedIn.step textAuth (askMe 30)) := .snoc .refl rfl
  have hlaw := (last_seen_slides init_signedIn hrun).mpr ?_
  · exact ⟨hlaw.1 _ (List.mem_singleton_self _), hlaw.2 _ (List.mem_singleton_self _)⟩
  · intro e he id seen hsession hseen
    obtain rfl := List.mem_singleton.mp he
    have hid : (askMe 30).session textAuth signedIn.db = some (py "T") := by decide
    obtain rfl := Option.some.inj (hid.symm.trans hsession)
    have hzero : signedIn.db.lastSeen (py "T") = some 0 := by decide
    obtain rfl := Option.some.inj (hzero.symm.trans hseen)
    change (30 : ℚ) - 0 < 60
    norm_num

/-- A minute after it has started, the `UPDATE` of the request is rolled back. -/
theorem last_seen_stands : ¬∀ (L : AuthLib) (s t : BrowserSystem)
    (es : List (Machine.Event BrowserSystem BrowserRequest)), (browserRequests L).init s →
      (browserRequests L).Run s es t →
        (∀ e ∈ es, Slides L e.pre e.act e.post) ∧ ∀ e ∈ es, e.post.UpToDate := by
  intro h
  have hrun : (browserRequests textAuth).Run signedIn
      ([] ++ [⟨signedIn, askMe 60, signedIn.step textAuth (askMe 60)⟩])
      (signedIn.step textAuth (askMe 60)) := .snoc .refl rfl
  have hslides := (h textAuth _ _ _ init_signedIn hrun).1 _ (List.mem_singleton_self _)
  have hsession : (askMe 60).session textAuth signedIn.db = some (py "T") := by decide
  have hseen : signedIn.db.lastSeen (py "T") = some 0 := by decide
  have hnow := hslides _ _ hsession hseen (by change (60 : ℚ) ≤ 60 - 0; norm_num)
  have hstands : (signedIn.step textAuth (askMe 60)).db.lastSeen (py "T") = some 0 := by
    decide +kernel
  have hbad := Option.some.inj (hstands.symm.trans hnow)
  change (0 : ℚ) = 60 at hbad
  norm_num at hbad

end Auth

end LayaWatch
