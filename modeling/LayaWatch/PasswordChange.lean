import LayaWatch.SessionLifecycle
import LayaWatch.Lib.Machine

/-!
# Password changes and logins in flight

Any number of logins and password changes at once. A login reads the row of its
user, verifies the password against it and inserts its session, in three steps
with anything between them; a password change verifies and then commits, in two.

A session should die with the password it was opened with (`Secured`). It does,
as long as no login inserts its session after a change of its user's password
that it has not seen (`InTime`): what a change revokes are the sessions that are
there when it commits (`password_change`).
-/

namespace LayaWatch

namespace Auth

variable (L : AuthLib)

/-- `change_password`, up to its transaction: the user, the session and the new
password. -/
def checkChange (r : SessionRequest) (now : ℚ) : Handler (UserRow × PyStr × PyStr) := do
  let cached ← enforceBrowserSession L r true now
  let (current, new) ← Prog.lift (passwordFields r)
  match ← gate r cached with
  | .apiKey _ => Prog.raise (credentialError "session cookie required")
  | .session user sessionId => do
    Prog.raiseIf (passwordError L user current new)
    pure (user, sessionId, new)

/-- A password change is its check and then its transaction. -/
theorem changePassword_eq (r : SessionRequest) (salt : PyStr) (now : ℚ) (db : Db) :
    (∃ e, checkChange L r now db = (.error e, db) ∧
        changePassword L r salt now db = (.error e, db)) ∨
      ∃ token user new, r.cookie = some token ∧ resolveToken L db token now = some user ∧
        checkChange L r now db = (.ok (user, L.digest token, new), db) ∧
        changePassword L r salt now db = (.ok [(py "ok", .bool true)],
          replacePassword L user (L.digest token) new salt now db) := by
  unfold checkChange changePassword
  rcases gates_cases (L := L) r true now db with ⟨e, he⟩ | ⟨cached, hc, hgate⟩
  · exact Or.inl ⟨e, Prog.run_bind_error he, Prog.run_bind_error he⟩
  rw [Prog.run_bind_ok hc, Prog.run_bind_ok hc]
  rcases passwordFields r with e | ⟨current, new⟩
  · exact Or.inl ⟨e, rfl, rfl⟩
  have hlift : (Prog.lift (.ok (current, new)) : Handler (PyStr × PyStr)) db =
      (.ok (current, new), db) := rfl
  rw [Prog.run_bind_ok hlift, Prog.run_bind_ok hlift]
  dsimp only
  rcases hgate with ⟨e, he⟩ | ⟨key, hk⟩ | ⟨token, user, hcookie, hres, hs⟩
  · exact Or.inl ⟨e, Prog.run_bind_error he, Prog.run_bind_error he⟩
  · exact Or.inl ⟨_, Prog.run_bind_ok hk, Prog.run_bind_ok hk⟩
  · rw [Prog.run_bind_ok hs, Prog.run_bind_ok hs]
    dsimp only
    rcases passwordError L user current new with _ | e
    · exact Or.inr ⟨token, user, new, hcookie, hres, rfl, rfl⟩
    · exact Or.inl ⟨e, rfl, rfl⟩

end Auth

/-! ## Logins and changes at once -/

/-- Where a login is. -/
inductive LoginStage where
  /-- before its `SELECT` -/
  | reading (r : Auth.LoginRequest) (email password : PyStr)
  /-- with what it has read; `seen` is how many password changes were committed then -/
  | verifying (r : Auth.LoginRequest) (email password : PyStr) (user : Option UserRow) (seen : ℕ)
  /-- its password was right -/
  | inserting (r : Auth.LoginRequest) (user : UserRow) (seen : ℕ)
  /-- it has ended -/
  | over

/-- A password change that has been verified. -/
structure PendingChange where
  /-- the row of the user, as `resolve_session` has read it -/
  user : UserRow
  /-- the acting session -/
  sessionId : PyStr
  /-- the new password -/
  new : PyStr
  /-- the salt of its hash -/
  salt : PyStr

/-- The login that a session comes from. -/
structure Origin where
  /-- the id of the session -/
  session : PyStr
  /-- the id of its user -/
  user : PyStr
  /-- how many password changes were committed when the login read the row -/
  seen : ℕ
  deriving DecidableEq

/-- The database and the requests about. -/
structure PasswordSystem where
  /-- the committed database -/
  db : Db
  /-- `time.time()` -/
  now : ℚ
  /-- the logins -/
  logins : List LoginStage := []
  /-- the password changes that are not committed yet; `none` is one that is -/
  changes : List (Option PendingChange) := []
  /-- the committed password changes: the user and the acting session -/
  committed : List (PyStr × PyStr) := []
  /-- where the sessions come from -/
  origins : List Origin

/-- What happens next. -/
inductive PasswordAct where
  /-- a login arrives -/
  | login (r : Auth.LoginRequest)
  /-- its `SELECT` of the user -/
  | read (i : ℕ)
  /-- `verify_or_dummy`, and the transaction of a login that fails -/
  | verify (i : ℕ)
  /-- the transaction of a login that succeeds -/
  | insert (i : ℕ)
  /-- a password change arrives, and is verified -/
  | change (r : Auth.SessionRequest) (salt : PyStr)
  /-- the transaction of a password change -/
  | commit (j : ℕ)
  /-- time passes -/
  | wait (seconds : ℚ) (nonneg : 0 ≤ seconds)

namespace Db

/-- The primary keys of `sessions`. -/
def sessionIds (db : Db) : List PyStr := db.sessions.map SessionRow.id

end Db

namespace PasswordSystem

/-- The login goes on. -/
def goOn (s : PasswordSystem) (i : ℕ) (stage : LoginStage) : PasswordSystem :=
  { s with logins := s.logins.set i stage }

/-- A login fails: its audit row is committed. -/
def fail (s : PasswordSystem) (i : ℕ) (r : Auth.LoginRequest) (email : PyStr)
    (actorId : Option PyStr) : PasswordSystem :=
  { s.goOn i .over with
    db := s.db.audit
      (Auth.loginEntry r.toSessionRequest s.now "auth.login_failed" email actorId []) }

section

variable (L : AuthLib) (ttl : ℚ)

/-- A session is inserted, unless its id is taken (`IntegrityError`). -/
def insert (s : PasswordSystem) (i : ℕ) (r : Auth.LoginRequest) (user : UserRow) (seen : ℕ) :
    PasswordSystem :=
  if L.digest r.token ∈ s.db.sessionIds then s.goOn i .over
  else
    { s.goOn i .over with
      db := Auth.signIn L r ttl user s.now s.db
      origins := s.origins ++ [⟨L.digest r.token, user.id, seen⟩] }

/-- A password change is committed. -/
def commit (s : PasswordSystem) (j : ℕ) (c : PendingChange) : PasswordSystem :=
  { s with
    db := Auth.replacePassword L c.user c.sessionId c.new c.salt s.now s.db
    changes := s.changes.set j none
    committed := s.committed ++ [(c.user.id, c.sessionId)] }

/-- One step. -/
def step (s : PasswordSystem) : PasswordAct → Option PasswordSystem
  | .login r =>
    match Auth.loginFields L r.toSessionRequest with
    | .error _ => some s
    | .ok (email, password) =>
      match if r.limited then r.refused else none with
      | some retry => some { s with
          db := s.db.audit (Auth.loginEntry r.toSessionRequest s.now "auth.login_blocked" email
            none [(py "retry_after", .int retry)]) }
      | none => some { s with logins := s.logins ++ [.reading r email password] }
  | .read i =>
    match s.logins[i]? with
    | some (.reading r email password) =>
      some (s.goOn i
        (.verifying r email password (Auth.userByEmail s.db email) s.committed.length))
    | _ => none
  | .verify i =>
    match s.logins[i]? with
    | some (.verifying r email password (some user) seen) =>
      if Auth.verifyOrDummy L password (Auth.storedHash (some user)) then
        some (s.goOn i (.inserting r user seen))
      else some (s.fail i r email (some user.id))
    | some (.verifying r email _ none _) => some (s.fail i r email none)
    | _ => none
  | .insert i =>
    match s.logins[i]? with
    | some (.inserting r user seen) => some (s.insert L ttl i r user seen)
    | _ => none
  | .change r salt =>
    match Auth.checkChange L r s.now s.db with
    | (.ok (user, sessionId, new), db) =>
      some { s with db := db, changes := s.changes ++ [some ⟨user, sessionId, new, salt⟩] }
    | (.error _, db) => some { s with db := db }
  | .commit j =>
    match s.changes[j]? with
    | some (some c) => some (s.commit L j c)
    | _ => none
  | .wait seconds _ => some { s with now := s.now + seconds }

end

/-- Nothing is going on; every session there is comes from a login of its user. -/
structure Start (s : PasswordSystem) : Prop where
  /-- no logins -/
  logins : s.logins = []
  /-- no password changes -/
  changes : s.changes = []
  /-- none before -/
  committed : s.committed = []
  /-- the primary key of `sessions` -/
  keys : s.db.sessionIds.Nodup
  /-- where the sessions come from -/
  origins : s.origins = s.db.sessions.map fun row => ⟨row.id, row.userId, 0⟩

/-- Logins and password changes, in every order of their steps. -/
def machine (L : AuthLib) (ttl : ℚ) : Machine PasswordSystem PasswordAct := ⟨Start, step L ttl⟩

/-- Once a password change has been committed, no session is live whose login
verified a password that it or an earlier change has replaced, but for the acting
session. -/
def Secured (s : PasswordSystem) : Prop :=
  ∀ o ∈ s.origins, ∀ (k : ℕ) (acting : PyStr), s.committed[k]? = some (o.user, acting) →
    o.seen ≤ k → o.session ≠ acting → resolveSession s.db o.session s.now = none

/-- A login that is to insert a session that lives has seen all password changes of
its user. -/
def InTime (L : AuthLib) (ttl : ℚ) (s : PasswordSystem) : PasswordAct → Prop
  | .insert i => ∀ r user seen, s.logins[i]? = some (.inserting r user seen) →
      L.digest r.token ∉ s.db.sessionIds → 0 < ttl →
        ∀ (k : ℕ) (c : PyStr × PyStr), s.committed[k]? = some c → seen ≤ k → c.1 ≠ user.id
  | _ => True

/-! ## What is kept -/

/-- The accounts as a login has found them: the user that it knows is there, and
is enabled when its password was right. -/
def LoginKnows (db : Db) : LoginStage → Prop
  | .verifying _ _ _ (some user) _ =>
    (user.id, user.disabled) ∈ db.users.map fun u => (u.id, u.disabled)
  | .inserting _ user _ => (user.id, false) ∈ db.users.map fun u => (u.id, u.disabled)
  | _ => True

/-- What holds as long as logins are in time. -/
structure Kept (s : PasswordSystem) : Prop where
  /-- the sessions with an origin are in the table -/
  rows : ∀ o ∈ s.origins, o.session ∈ s.db.sessionIds
  /-- and belong to its user -/
  owners : ∀ o ∈ s.origins, ∀ user expires, s.db.LiveSession o.session user expires →
    user = o.user
  /-- sessions of replaced passwords are dead -/
  ended : ∀ o ∈ s.origins, ∀ (k : ℕ) (acting : PyStr), s.committed[k]? = some (o.user, acting) →
    o.seen ≤ k → o.session ≠ acting → ∀ user expires, s.now < expires →
      ¬s.db.LiveSession o.session user expires
  /-- logins know an account that is there -/
  logins : ∀ stage ∈ s.logins, LoginKnows s.db stage
  /-- password changes come from sessions that are in the table -/
  changes : ∀ c, some c ∈ s.changes → c.sessionId ∈ s.db.sessionIds
  /-- so did those that are committed -/
  acting : ∀ c ∈ s.committed, c.2 ∈ s.db.sessionIds

end PasswordSystem

namespace Db

theorem sessionIds_revokeWhere (p : SessionRow → Bool) (db : Db) :
    (db.revokeWhere p).sessionIds = db.sessionIds := by
  unfold sessionIds revokeWhere
  rw [List.map_map]
  refine List.map_congr_left fun s _ => ?_
  dsimp only [Function.comp_apply]
  split <;> rfl

theorem sessionIds_touchSession (id : PyStr) (now : ℚ) (db : Db) :
    (db.touchSession id now).sessionIds = db.sessionIds := by
  unfold sessionIds touchSession
  rw [List.map_map]
  refine List.map_congr_left fun s _ => ?_
  dsimp only [Function.comp_apply]
  split <;> rfl

theorem SameAccounts.sessionIds {db db' : Db} (h : db.SameAccounts db') :
    db'.sessionIds = db.sessionIds := by
  unfold Db.sessionIds
  rw [h.sessions]

theorem sessionIds_rotateSession (L : AuthLib) (r : Auth.SessionRequest) (now : ℚ) (db : Db) :
    (Auth.rotateSession L r now db).sessionIds = db.sessionIds := by
  unfold Auth.rotateSession
  split
  · rfl
  · split
    · rfl
    · exact (sessionIds_revokeWhere _ _).trans (sessionIds_touchSession _ _ _)

theorem sessionIds_signIn (L : AuthLib) (r : Auth.LoginRequest) (ttl : ℚ) (user : UserRow)
    (now : ℚ) (db : Db) :
    (Auth.signIn L r ttl user now db).sessionIds = db.sessionIds ++ [L.digest r.token] := by
  rw [← sessionIds_rotateSession L r.toSessionRequest now db]
  exact List.map_append

/-- The rotation on login brings no session to life. -/
theorem LiveSession.of_rotateSession {L : AuthLib} {r : Auth.SessionRequest} {now : ℚ} {db : Db}
    {id user : PyStr} {expires : ℚ}
    (h : (Auth.rotateSession L r now db).LiveSession id user expires) :
    db.LiveSession id user expires := by
  unfold Auth.rotateSession at h
  split at h
  · exact h
  · split at h
    · exact h
    · exact liveSession_touchSession.mp (liveSession_revokeSession.mp h).1

theorem LiveSession.mem_sessionIds {db : Db} {id user : PyStr} {expires : ℚ}
    (h : db.LiveSession id user expires) : id ∈ db.sessionIds := by
  obtain ⟨row, hrow, rfl, -⟩ := h
  exact List.mem_map_of_mem hrow

end Db

namespace PasswordSystem

theorem LoginKnows.mono {db db' : Db} (h : db.SameUsers db') {stage : LoginStage}
    (hk : LoginKnows db stage) : LoginKnows db' stage := by
  unfold LoginKnows at hk ⊢
  split at hk
  · rwa [h]
  · rwa [h]
  · trivial

namespace Kept

variable {L : AuthLib} {ttl : ℚ} {s s' : PasswordSystem}

/-- A state that is kept is secured. -/
theorem secured (h : Kept s) : s.Secured := by
  intro o ho k acting hk hseen hne
  rcases hres : resolveSession s.db o.session s.now with _ | u
  · rfl
  · obtain ⟨⟨expires, hexp, hlive⟩, -⟩ := resolveSession_some hres
    exact absurd hlive (h.ended o ho k acting hk hseen hne u.id expires hexp)

theorem initial (h : s.Start) : Kept s := by
  refine ⟨fun o ho => ?_, fun o ho user expires hlive => ?_, fun o _ k acting hk => ?_,
    fun stage hst => ?_, fun c hc => ?_, fun c hc => ?_⟩
  · rw [h.origins] at ho
    obtain ⟨row, hrow, rfl⟩ := List.mem_map.mp ho
    exact List.mem_map_of_mem hrow
  · rw [h.origins] at ho
    obtain ⟨row, hrow, rfl⟩ := List.mem_map.mp ho
    obtain ⟨row', hrow', hid, rfl, -⟩ := hlive
    rw [List.inj_on_of_nodup_map h.keys hrow' hrow hid]
  · rw [h.committed] at hk
    cases hk
  · rw [h.logins] at hst
    cases hst
  · rw [h.changes] at hc
    cases hc
  · rw [h.committed] at hc
    cases hc

/-- Steps that change no account and commit no password change. -/
theorem frame (h : Kept s) (hdb : s.db.SameAccounts s'.db) (hnow : s.now ≤ s'.now)
    (horigins : s'.origins = s.origins) (hcommitted : s'.committed = s.committed)
    (hlogins : ∀ stage ∈ s'.logins, stage ∈ s.logins ∨ LoginKnows s.db stage)
    (hchanges : ∀ c, some c ∈ s'.changes → some c ∈ s.changes ∨ c.sessionId ∈ s.db.sessionIds) :
    Kept s' := by
  have husers : s.db.SameUsers s'.db := by
    unfold Db.SameUsers
    rw [hdb.users]
  refine ⟨?_, ?_, ?_, fun stage hst => ?_, fun c hc => ?_, ?_⟩
  · rw [horigins, hdb.sessionIds]
    exact h.rows
  · rw [horigins]
    exact fun o ho user expires hlive => h.owners o ho user expires (hdb.liveSession.mp hlive)
  · rw [horigins, hcommitted]
    exact fun o ho k acting hk hseen hne user expires hexp hlive =>
      h.ended o ho k acting hk hseen hne user expires (hnow.trans_lt hexp)
        (hdb.liveSession.mp hlive)
  · rcases hlogins stage hst with hold | hnew
    · exact LoginKnows.mono husers (h.logins stage hold)
    · exact LoginKnows.mono husers hnew
  · rw [hdb.sessionIds]
    rcases hchanges c hc with hold | hnew
    · exact h.changes c hold
    · exact hnew
  · rw [hcommitted, hdb.sessionIds]
    exact h.acting

/-- A login goes on, or fails. -/
theorem goOn (h : Kept s) {i : ℕ} {stage : LoginStage} (hstage : LoginKnows s.db stage) {db : Db}
    (hdb : s.db.SameAccounts db) : Kept { s.goOn i stage with db := db } := by
  refine h.frame hdb le_rfl rfl rfl (fun st hst => ?_) fun c hc => Or.inl hc
  rcases List.mem_or_eq_of_mem_set hst with hold | rfl
  · exact Or.inl hold
  · exact Or.inr hstage

/-- A login ends. -/
theorem endLogin (h : Kept s) {i : ℕ} {db : Db} (hdb : s.db.SameAccounts db) :
    Kept { s.goOn i .over with db := db } := by
  have hover : LoginKnows s.db .over := trivial
  exact h.goOn hover hdb

/-- A session is inserted in time. -/
theorem insert (h : Kept s) {i : ℕ} {r : Auth.LoginRequest} {user : UserRow} {seen : ℕ}
    (htime : L.digest r.token ∉ s.db.sessionIds → 0 < ttl →
      ∀ (k : ℕ) (c : PyStr × PyStr), s.committed[k]? = some c → seen ≤ k → c.1 ≠ user.id) :
    Kept (s.insert L ttl i r user seen) := by
  unfold PasswordSystem.insert
  by_cases hid : L.digest r.token ∈ s.db.sessionIds
  · rw [if_pos hid]
    exact h.endLogin (Db.SameAccounts.refl _)
  rw [if_neg hid]
  have hids := Db.sessionIds_signIn L r ttl user s.now s.db
  have hgrow : ∀ {id : PyStr}, id ∈ s.db.sessionIds →
      id ∈ (Auth.signIn L r ttl user s.now s.db).sessionIds := by
    intro id hmem
    rw [hids]
    exact List.mem_append_left _ hmem
  -- a session that was there before is live only if it was
  have hold : ∀ {id u : PyStr} {expires : ℚ}, id ∈ s.db.sessionIds →
      (Auth.signIn L r ttl user s.now s.db).LiveSession id u expires →
        s.db.LiveSession id u expires := by
    intro id u expires hmem hlive
    rcases liveSession_signIn.mp hlive with hlive | ⟨rfl, -⟩
    · exact hlive.of_rotateSession
    · exact absurd hmem hid
  have hnew : ∀ {u : PyStr} {expires : ℚ},
      (Auth.signIn L r ttl user s.now s.db).LiveSession (L.digest r.token) u expires →
        u = user.id ∧ expires = s.now + ttl := by
    intro u expires hlive
    rcases liveSession_signIn.mp hlive with hlive | ⟨-, rfl, rfl⟩
    · exact absurd hlive.of_rotateSession.mem_sessionIds hid
    · exact ⟨rfl, rfl⟩
  have husers : s.db.SameUsers (Auth.signIn L r ttl user s.now s.db) := by
    have hmap := Db.SameUsers.mapUser (Auth.issueSession L r ttl user.id s.now
      (Auth.rotateSession L r.toSessionRequest s.now s.db)) user.id
        (f := fun u => { u with lastLoginAt := some s.now }) fun _ => ⟨rfl, rfl⟩
    refine Eq.trans hmap ?_
    exact congrArg (List.map _) (users_rotateSession L r.toSessionRequest s.now s.db)
  refine ⟨fun o ho => ?_, fun o ho u expires hlive => ?_,
    fun o ho k acting hk hseen hne u expires hexp hlive => ?_, fun stage hst => ?_,
    fun c hc => hgrow (h.changes c hc), fun c hc => hgrow (h.acting c hc)⟩
  · rcases List.mem_append.mp ho with ho | ho
    · exact hgrow (h.rows o ho)
    · rw [List.mem_singleton.mp ho]
      change L.digest r.token ∈ (Auth.signIn L r ttl user s.now s.db).sessionIds
      rw [hids]
      exact List.mem_append_right _ (List.mem_singleton_self _)
  · rcases List.mem_append.mp ho with ho | ho
    · exact h.owners o ho u expires (hold (h.rows o ho) hlive)
    · rw [List.mem_singleton.mp ho] at hlive ⊢
      exact (hnew hlive).1
  · rcases List.mem_append.mp ho with ho | ho
    · exact h.ended o ho k acting hk hseen hne u expires hexp (hold (h.rows o ho) hlive)
    · rw [List.mem_singleton.mp ho] at hk hseen hlive
      obtain ⟨-, rfl⟩ := hnew hlive
      have hpos : 0 < ttl := pos_of_lt_add_right hexp
      exact htime hid hpos k _ hk hseen rfl
  · rcases List.mem_or_eq_of_mem_set hst with hst | rfl
    · exact LoginKnows.mono husers (h.logins stage hst)
    · trivial

/-- A password change is committed. -/
theorem commit (h : Kept s) {j : ℕ} {c : PendingChange} (hc : some c ∈ s.changes) :
    Kept (s.commit L j c) := by
  have haccounts := accounts_replacePassword L c.user c.sessionId c.new c.salt s.now s.db
  have hids : (Auth.replacePassword L c.user c.sessionId c.new c.salt s.now s.db).sessionIds =
      s.db.sessionIds := haccounts.sessionIds.trans (Db.sessionIds_revokeWhere _ _)
  have hlive : ∀ {id u : PyStr} {expires : ℚ},
      (Auth.replacePassword L c.user c.sessionId c.new c.salt s.now s.db).LiveSession id u
        expires → s.db.LiveSession id u expires ∧
          (decide (u = c.user.id) && decide (some id ≠ some c.sessionId)) = false :=
    fun hl => Db.liveSession_revokeOtherSessions.mp (haccounts.liveSession.mp hl)
  have husers : s.db.SameUsers
      (Auth.replacePassword L c.user c.sessionId c.new c.salt s.now s.db) := by
    unfold Db.SameUsers
    rw [← haccounts.users]
    exact Db.SameUsers.mapUser s.db c.user.id fun _ => ⟨rfl, rfl⟩
  refine ⟨fun o ho => ?_, fun o ho u expires hl => h.owners o ho u expires (hlive hl).1,
    fun o ho k acting hk hseen hne u expires hexp hl => ?_,
    fun stage hst => LoginKnows.mono husers (h.logins stage hst), fun d hd => ?_, fun d hd => ?_⟩
  · refine (congrArg (o.session ∈ ·) hids).mpr ?_
    exact h.rows o ho
  · obtain ⟨hl, hkept⟩ := hlive hl
    rcases Nat.lt_or_ge k s.committed.length with hlt | hge
    · have hk' : s.committed[k]? = some (o.user, acting) := by
        rw [← hk]
        exact (List.getElem?_append_left hlt).symm
      exact h.ended o ho k acting hk' hseen hne u expires hexp hl
    · -- the change that is committed now
      have hlast : (s.committed ++ [(c.user.id, c.sessionId)])[k]? = some (o.user, acting) := hk
      rw [List.getElem?_append_right hge, List.getElem?_singleton] at hlast
      obtain ⟨-, hsome⟩ := Option.ite_none_right_eq_some.mp hlast
      obtain ⟨huser, rfl⟩ := Prod.mk.inj (Option.some.inj hsome)
      have hu : u = c.user.id := (h.owners o ho u expires hl).trans huser.symm
      simp [hu, hne] at hkept
  · refine (congrArg (d.sessionId ∈ ·) hids).mpr ?_
    rcases List.mem_or_eq_of_mem_set hd with hd | hd
    · exact h.changes d hd
    · cases hd
  · refine (congrArg (d.2 ∈ ·) hids).mpr ?_
    rcases List.mem_append.mp hd with hd | hd
    · exact h.acting d hd
    · rw [List.mem_singleton.mp hd]
      exact h.changes c hc

/-- A password was right only if the account is enabled. -/
theorem enabled_of_verified {user : UserRow} {password : PyStr}
    (h : Auth.verifyOrDummy L password (Auth.storedHash (some user)) = true) :
    user.disabled = false := by
  rw [Bool.eq_false_iff]
  intro hdis
  have hnone : Auth.storedHash (some user) = none := if_pos hdis
  rw [hnone] at h
  cases h

/-- Every step in time keeps it. -/
theorem step {a : PasswordAct} (h : Kept s) (htime : s.InTime L ttl a)
    (hs : s.step L ttl a = some s') : Kept s' := by
  cases a with
  | login r =>
    unfold PasswordSystem.step at hs
    dsimp only at hs
    split at hs
    · exact Option.some.inj hs ▸ h
    · split at hs
      · rw [← Option.some.inj hs]
        exact h.frame ((Db.SameAccounts.refl _).audit _) le_rfl rfl rfl (fun _ hst => Or.inl hst)
          fun _ hc => Or.inl hc
      · rw [← Option.some.inj hs]
        refine h.frame (Db.SameAccounts.refl _) le_rfl rfl rfl (fun stage hst => ?_)
          fun _ hc => Or.inl hc
        rcases List.mem_append.mp hst with hst | hst
        · exact Or.inl hst
        · rw [List.mem_singleton.mp hst]
          exact Or.inr trivial
  | read i =>
    unfold PasswordSystem.step at hs
    dsimp only at hs
    split at hs
    · next r email password _ =>
      rw [← Option.some.inj hs]
      refine h.goOn ?_ (Db.SameAccounts.refl _)
      unfold LoginKnows
      rcases huser : Auth.userByEmail s.db email with _ | user
      · trivial
      · exact List.mem_map.mpr ⟨user, List.mem_of_find?_eq_some huser, rfl⟩
    · cases hs
  | verify i =>
    unfold PasswordSystem.step at hs
    dsimp only at hs
    split at hs
    · next r email password user seen hi =>
      split at hs
      · next hverified =>
        rw [← Option.some.inj hs]
        refine h.goOn ?_ (Db.SameAccounts.refl _)
        have hknows : (user.id, user.disabled) ∈ s.db.users.map fun u => (u.id, u.disabled) :=
          h.logins _ (List.mem_of_getElem? hi)
        rwa [enabled_of_verified hverified] at hknows
      · rw [← Option.some.inj hs]
        exact h.endLogin ((Db.SameAccounts.refl _).audit _)
    · rw [← Option.some.inj hs]
      exact h.endLogin ((Db.SameAccounts.refl _).audit _)
    · cases hs
  | insert i =>
    unfold PasswordSystem.step at hs
    dsimp only at hs
    split at hs
    · next r user seen hi =>
      rw [← Option.some.inj hs]
      exact h.insert (htime r user seen hi)
    · cases hs
  | change r salt =>
    unfold PasswordSystem.step at hs
    dsimp only at hs
    rcases Auth.changePassword_eq L r salt s.now s.db with ⟨e, he, -⟩ |
      ⟨token, user, new, -, hres, hok, -⟩
    · rw [he] at hs
      rw [← Option.some.inj hs]
      exact h
    · rw [hok] at hs
      rw [← Option.some.inj hs]
      refine h.frame (Db.SameAccounts.refl _) le_rfl rfl rfl (fun _ hst => Or.inl hst)
        fun c hc => ?_
      rcases List.mem_append.mp hc with hc | hc
      · exact Or.inl hc
      · obtain rfl := Option.some.inj (List.mem_singleton.mp hc)
        refine Or.inr ?_
        unfold Auth.resolveToken at hres
        split at hres
        · cases hres
        · obtain ⟨⟨expires, -, hlive⟩, -⟩ := resolveSession_some hres
          exact hlive.mem_sessionIds
  | commit j =>
    unfold PasswordSystem.step at hs
    dsimp only at hs
    split at hs
    · next c hj =>
      rw [← Option.some.inj hs]
      exact h.commit (List.mem_of_getElem? hj)
    · cases hs
  | wait seconds nonneg =>
    rw [← Option.some.inj hs]
    exact h.frame (Db.SameAccounts.refl _) (le_add_of_nonneg_right nonneg) rfl rfl
      (fun _ hst => Or.inl hst) fun _ hc => Or.inl hc

/-- A step after which the system is secured was in time: a session that is inserted
late is live. -/
theorem inTime {a : PasswordAct} (h : Kept s) (hs : s.step L ttl a = some s')
    (hafter : s'.Secured) : s.InTime L ttl a := by
  cases a with
  | insert i =>
    intro r user seen hi hid hpos k c hc hseen huser
    unfold PasswordSystem.step at hs
    dsimp only at hs
    rw [hi] at hs
    have hs' : s' = s.insert L ttl i r user seen := (Option.some.inj hs).symm
    unfold PasswordSystem.insert at hs'
    rw [if_neg hid] at hs'
    subst hs'
    have hne : L.digest r.token ≠ c.2 := fun heq =>
      hid (heq ▸ h.acting c (List.mem_of_getElem? hc))
    have hnone : resolveSession (Auth.signIn L r ttl user s.now s.db) (L.digest r.token) s.now =
        none := hafter ⟨L.digest r.token, user.id, seen⟩
      (List.mem_append_right _ (List.mem_singleton_self _)) k c.2
        (hc.trans (by rw [← huser])) hseen hne
    -- the user of the session is there and enabled
    obtain ⟨v, hv, heq⟩ := List.mem_map.mp (h.logins _ (List.mem_of_getElem? hi))
    obtain ⟨hvid, hvdis⟩ := Prod.mk.inj heq
    have hthere : ∃ u ∈ (Auth.signIn L r ttl user s.now s.db).users, u.id = user.id ∧
        u.disabled = false := by
      refine ⟨{ v with lastLoginAt := some s.now }, List.mem_map.mpr ⟨v, ?_, if_pos hvid⟩, hvid,
        hvdis⟩
      rw [← users_rotateSession L r.toSessionRequest s.now s.db] at hv
      exact hv
    obtain ⟨u, hu, -⟩ : ∃ u, resolveSession (Auth.signIn L r ttl user s.now s.db)
        (L.digest r.token) s.now = some u ∧ u.id = user.id := by
      refine resolveSession_of_live (liveSession_signIn.mpr (Or.inr ⟨rfl, rfl, rfl⟩))
        (lt_add_of_pos_right s.now hpos) (fun user' expires' _ hlive => ?_) hthere
      rcases liveSession_signIn.mp hlive with hlive | ⟨-, rfl, -⟩
      · exact absurd hlive.of_rotateSession.mem_sessionIds hid
      · rfl
    rw [hnone] at hu
    cases hu
  | _ => trivial

end Kept

variable {L : AuthLib} {ttl : ℚ}

/-- **A password change ends the old password**, over every interleaving of logins and
password changes, exactly if no login inserts its session after a change of its user's
password that it has not seen. -/
theorem password_change {s t : PasswordSystem}
    {es : List (Machine.Event PasswordSystem PasswordAct)} (hs : s.Start)
    (hrun : (machine L ttl).Run s es t) :
    (∀ e ∈ es, e.post.Secured) ↔ ∀ e ∈ es, e.pre.InTime L ttl e.act := by
  have hstep : ∀ s a t, Kept s → InTime L ttl s a → (machine L ttl).step s a = some t → Kept t :=
    fun s a t hkept htime hstep => hkept.step htime hstep
  have hguard : ∀ s a t, Kept s → (machine L ttl).step s a = some t → t.Secured →
      InTime L ttl s a := fun s a t hkept hstep hlast => hkept.inTime hstep hlast
  exact hrun.forall_iff hstep (fun s hkept => hkept.secured) hguard (Kept.initial hs)

/-- The steps of a login, one right after the other, are `login`. -/
theorem alone_login (s : PasswordSystem) (r : Auth.LoginRequest)
    (hid : L.digest r.token ∉ s.db.sessionIds) :
    ∃ acts, ((machine L ttl).exec s acts).map PasswordSystem.db =
      some (Auth.login L ttl r s.now s.db).2 := by
  rw [Auth.login_eq]
  have hmid : ∀ stage : LoginStage, (s.logins ++ [stage])[s.logins.length]? = some stage :=
    fun stage => List.getElem?_concat_length ..
  have hset : ∀ stage stage' : LoginStage, (s.logins ++ [stage]).set s.logins.length stage' =
      s.logins ++ [stage'] := fun stage stage' => by
    rw [List.set_append_right _ _ le_rfl, Nat.sub_self, List.set_cons_zero]
  rcases hf : Auth.loginFields L r.toSessionRequest with e | ⟨email, password⟩
  · exact ⟨[], rfl⟩
  dsimp only
  rcases hrefused : (if r.limited then r.refused else none) with _ | retry
  · have hverifying : (machine L ttl).exec s [.login r, .read s.logins.length] =
        some { s with logins := s.logins ++ [LoginStage.verifying r email password
          (Auth.userByEmail s.db email) s.committed.length] } := by
      simp only [Machine.exec, machine, step, hf, hrefused, Option.bind_some, hmid, goOn, hset]
    dsimp only
    rcases huser : Auth.userByEmail s.db email with _ | user
    · rw [huser] at hverifying
      refine ⟨[.login r, .read s.logins.length] ++ [.verify s.logins.length], ?_⟩
      rw [Machine.exec_append, hverifying]
      simp only [Machine.exec, machine, Option.bind_some, step, hmid, fail, goOn, Option.map_some]
    · rw [huser] at hverifying
      dsimp only
      by_cases hv : Auth.verifyOrDummy L password (Auth.storedHash (some user)) = true
      · rw [if_pos hv]
        refine ⟨[.login r, .read s.logins.length] ++ [.verify s.logins.length,
          .insert s.logins.length], ?_⟩
        rw [Machine.exec_append, hverifying]
        simp only [Machine.exec, machine, Option.bind_some, step, hmid, if_pos hv, goOn, hset,
          insert, if_neg hid, Option.map_some]
      · rw [if_neg hv]
        refine ⟨[.login r, .read s.logins.length] ++ [.verify s.logins.length], ?_⟩
        rw [Machine.exec_append, hverifying]
        simp only [Machine.exec, machine, Option.bind_some, step, hmid, if_neg hv, fail, goOn,
          Option.map_some]
  · refine ⟨[.login r], ?_⟩
    simp only [Machine.exec, machine, step, hf, hrefused, Option.bind_some, Option.map_some]

/-- The steps of a password change, one right after the other, are `change_password`. -/
theorem alone_change (s : PasswordSystem) (r : Auth.SessionRequest) (salt : PyStr) :
    ∃ acts, ((machine L ttl).exec s acts).map PasswordSystem.db =
      some (Auth.changePassword L r salt s.now s.db).2 := by
  rcases Auth.changePassword_eq L r salt s.now s.db with ⟨e, -, hchange⟩ |
    ⟨token, user, new, -, -, hok, hchange⟩
  · rw [hchange]
    exact ⟨[], rfl⟩
  · rw [hchange]
    refine ⟨[.change r salt, .commit s.changes.length], ?_⟩
    simp only [Machine.exec, machine, step, hok, Option.bind_some, List.getElem?_concat_length,
      commit, Option.map_some]

end PasswordSystem

/-! ## A login that is late -/

/-- An owner and a viewer, with nothing going on. -/
def idleAccounts : PasswordSystem := { db := ownerAndViewer.db, now := 0, origins := [] }

/-- A login of the viewer. -/
def viewerLogin (password token : String) : Auth.LoginRequest where
  body := .ok (.obj [(py "email", .str (py "v@x.y")), (py "password", .str (py password))])
  token := py token

/-- The viewer's password change, from the session of `T1`. -/
def viewerChange : PasswordAct := .change {
  cookie := some (py "T1")
  body := .ok (.obj [(py "current_password", .str (py "viewer password")),
    (py "new_password", .str (py "another password"))]) } []

/-- A session of the viewer, and then a login that ends before the viewer's password
is changed. -/
def earlyLogin : List PasswordAct :=
  [.login (viewerLogin "viewer password" "T1"), .read 0, .verify 0, .insert 0,
    .login (viewerLogin "viewer password" "T2"), .read 1, .verify 1, .insert 1,
    viewerChange, .commit 0]

/-- The same, but the login inserts its session after the change. -/
def lateLogin : List PasswordAct :=
  [.login (viewerLogin "viewer password" "T1"), .read 0, .verify 0, .insert 0,
    .login (viewerLogin "viewer password" "T2"), .read 1, .verify 1,
    viewerChange, .commit 0, .insert 1]

theorem idleAccounts_start : idleAccounts.Start := by
  refine ⟨rfl, rfl, rfl, ?_, rfl⟩
  exact List.nodup_nil

theorem password_change_early : ∃ es t,
    (PasswordSystem.machine plainLib 100).Run idleAccounts es t ∧
    es.map Machine.Event.act = earlyLogin ∧
    ((∀ e ∈ es, e.post.Secured) ↔ ∀ e ∈ es, e.pre.InTime plainLib 100 e.act) := by
  obtain ⟨t, ht⟩ := Option.isSome_iff_exists.mp (show
    ((PasswordSystem.machine plainLib 100).exec idleAccounts earlyLogin).isSome = true by
      decide +kernel)
  obtain ⟨es, hes, hacts⟩ := Machine.Run.of_exec ht
  exact ⟨es, t, hes, hacts, PasswordSystem.password_change idleAccounts_start hes⟩

/-- The session of a login that has verified the old password is live after the
change, and is not the acting one. -/
theorem late_login_lives : idleAccounts.Start ∧
    ∃ es t, (PasswordSystem.machine plainLib 100).Run idleAccounts es t ∧ ¬t.Secured := by
  refine ⟨idleAccounts_start, ?_⟩
  obtain ⟨t, ht, hfacts⟩ := (Option.any_eq_true _ _).mp (show
    Option.any (fun t : PasswordSystem => decide (t.origins[1]? = some ⟨py "T2", py "v", 0⟩ ∧
      t.committed[0]? = some (py "v", py "T1") ∧
      (resolveSession t.db (py "T2") t.now).isSome = true))
      ((PasswordSystem.machine plainLib 100).exec idleAccounts lateLogin) = true by decide +kernel)
  obtain ⟨horigin, hcommitted, hlive⟩ := of_decide_eq_true hfacts
  obtain ⟨es, hes, -⟩ := Machine.Run.of_exec ht
  refine ⟨es, t, hes, fun hall => ?_⟩
  have hnone := hall _ (List.mem_of_getElem? horigin) 0 _ hcommitted (Nat.zero_le _)
    (by decide)
  rw [hnone] at hlive
  cases hlive

end LayaWatch
