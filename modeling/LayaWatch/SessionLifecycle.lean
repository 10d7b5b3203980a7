import LayaWatch.Sessions
import LayaWatch.Owners
import LayaWatch.Lib.Lifetimes

/-!
# The life of a session

Requests one after another, and time between them. A session is granted by a
login and ended by what is done afterwards, by six handlers in three modules;
the history of a run records these events (`SessionEvent`). The rows of
`sessions` that are not revoked are the grants alive after the history
(`Mirrors`), so that a token resolves exactly while its grant lives
(`session_lifecycle`).
-/

namespace LayaWatch

open UserPoint

/-! ## A user request by itself -/

/-- The same users and sessions. -/
structure Db.SameAccounts (db db' : Db) : Prop where
  /-- `users` -/
  users : db.users = db'.users
  /-- `sessions` -/
  sessions : db.sessions = db'.sessions

namespace Db.SameAccounts

variable {a b : Db}

theorem refl (db : Db) : db.SameAccounts db := ⟨rfl, rfl⟩

theorem trans {c : Db} (h : a.SameAccounts b) (h' : b.SameAccounts c) : a.SameAccounts c :=
  ⟨h.users.trans h'.users, h.sessions.trans h'.sessions⟩

theorem audit (h : a.SameAccounts b) (entry : AuditEntry) : a.SameAccounts (b.audit entry) :=
  ⟨h.users, h.sessions⟩

theorem revokeSessions (h : a.SameAccounts b) (id : PyStr) :
    (a.revokeSessions id).SameAccounts (b.revokeSessions id) := by
  refine ⟨h.users, ?_⟩
  unfold Db.revokeSessions
  rw [h.sessions]

/-- Revoking twice is revoking once. -/
theorem revokeSessions_twice (db : Db) (id : PyStr) :
    (db.revokeSessions id).SameAccounts ((db.revokeSessions id).revokeSessions id) := by
  refine ⟨rfl, ?_⟩
  simp only [Db.revokeSessions, List.map_map]
  refine List.map_congr_left fun s _ => ?_
  by_cases h : s.userId = id ∧ s.revoked = false
  · simp [h]
  · simp [h]

end Db.SameAccounts

/-- The patch gives the user another role. -/
def changesRole (target : UserRow) (changed : UserPatch) : Bool :=
  changed.role.any fun role => decide (role ≠ target.role)

/-- The patch disables the user. -/
def disables (changed : UserPatch) : Bool := decide (changed.disabled = some true)

/-- What PATCH and DELETE do to the accounts when they succeed. -/
def userEffect (db : Db) (userId : PyStr) (op : UserOp) : Db :=
  match op with
  | .delete => db.deleteUser userId
  | .patch (.ok (.obj payload)) =>
    match fetchUser db userId, validatedPatch payload with
    | some target, .ok changed =>
      let db := db.updateUser userId changed
      if changesRole target changed || disables changed && !target.disabled then
        db.revokeSessions userId
      else db
    | _, _ => db
  | .patch _ => db

section

variable {r : UserRequest} {d v goal : Db}

/-- By itself, the request ends from `p` within `n` statements: it changes the
accounts into those of `goal`, or fails and leaves them as they are. -/
def Settles (r : UserRequest) (goal : Db) (n : ℕ) (p : UserPoint) (d v : Db) : Prop :=
  ∃ result d', Wal.alone (userCode r) n p d v = some (.done result, d') ∧
    match result with
    | .error _ => d.SameAccounts d'
    | .ok _ => goal.SameAccounts d'

namespace Settles

theorem mono {n m : ℕ} {p : UserPoint} (h : Settles r goal n p d v) (hle : n ≤ m) :
    Settles r goal m p d v := by
  obtain ⟨result, d', hrun, hres⟩ := h
  exact ⟨result, d', Wal.alone_mono hrun hle, hres⟩

theorem select {n : ℕ} {p : UserPoint} {k : Db → UserPoint}
    (hcode : userCode r p = some (.select k)) (h : Settles r goal n (k v) d v) :
    Settles r goal (n + 1) p d v := by
  unfold Settles
  rw [Wal.alone_select hcode]
  exact h

theorem dml {n : ℕ} {p : UserPoint} {change : Db → Db} {k : Db → UserPoint}
    (hcode : userCode r p = some (.dml change k)) (h : Settles r goal n (k v) d (change v)) :
    Settles r goal (n + 1) p d v := by
  unfold Settles
  rw [Wal.alone_dml hcode]
  exact h

/-- What fails before anything was written. -/
theorem failing (e : HttpError) : Settles r goal 2 (fail e) d v :=
  ⟨.error (.http e), d, rfl, Db.SameAccounts.refl d⟩

/-- What is refused with an audit row. -/
theorem denied (entry : AuditEntry) (e : HttpError) (h : d.SameAccounts v) :
    Settles r goal 4 (deny entry e) d v :=
  ⟨.error (.http e), v.audit entry, rfl, h.audit entry⟩

theorem commits (result : Fields) (h : goal.SameAccounts v) :
    Settles r goal 3 (commitAll result) d v :=
  ⟨.ok result, v, rfl, h⟩

theorem refetches (target : UserRow) (h : goal.SameAccounts v) :
    Settles r goal 4 (refetch target) d v := by
  refine select (p := refetch target) rfl ?_
  rcases fetchUser v target.id with _ | user
  · exact ⟨.error .assertion, d, rfl, Db.SameAccounts.refl d⟩
  · exact commits _ h

/-- The part of a change after that of the role. -/
theorem afterRole {p : Patching}
    (h : goal.SameAccounts
      (if disables p.changed && !p.target.disabled then v.revokeSessions p.target.id else v)) :
    Settles r goal 6 (afterRole p) d v := by
  unfold UserPoint.afterRole
  by_cases hchanged : disabledChanged p = true
  · rw [if_pos hchanged]
    refine dml (p := auditDisabled p) rfl ?_
    unfold afterAudit
    by_cases hdis : p.changed.disabled = some true
    · have hcond : (disables p.changed && !p.target.disabled) = true := by
        unfold disabledChanged at hchanged
        rw [hdis] at hchanged
        simpa [disables, hdis] using hchanged
      rw [if_pos hdis]
      rw [if_pos hcond] at h
      exact dml (p := revokeDisabled p) rfl
        (refetches _ (h.trans ((Db.SameAccounts.refl v).audit _ |>.revokeSessions _)))
    · have hcond : ¬(disables p.changed && !p.target.disabled) = true := by
        simp [disables, hdis]
      rw [if_neg hdis]
      rw [if_neg hcond] at h
      exact (refetches _ (h.audit _)).mono (by decide)
  · have hcond : ¬(disables p.changed && !p.target.disabled) = true := by
      intro hboth
      rw [Bool.and_eq_true] at hboth
      have hdis := of_decide_eq_true hboth.1
      refine hchanged ?_
      unfold disabledChanged
      rw [hdis]
      simpa using hboth.2
    rw [if_neg hchanged]
    rw [if_neg hcond] at h
    exact (refetches _ h).mono (by decide)

/-- A change, from its `UPDATE` on. -/
theorem update {p : Patching}
    (h : goal.SameAccounts
      (if changesRole p.target p.changed || disables p.changed && !p.target.disabled then
        (v.updateUser p.target.id p.changed).revokeSessions p.target.id
      else v.updateUser p.target.id p.changed)) :
    Settles r goal 9 (update p) d v := by
  refine dml (p := UserPoint.update p) rfl ?_
  unfold afterUpdate
  have hrole : roleChanged p = changesRole p.target p.changed := by
    unfold roleChanged changesRole
    cases p.changed.role <;> rfl
  rw [hrole]
  by_cases hchanged : changesRole p.target p.changed = true
  · rw [if_pos hchanged]
    rw [hchanged, Bool.true_or, if_pos rfl] at h
    refine dml (p := auditRole p) rfl (dml (p := revokeRole p) rfl (afterRole ?_))
    have hrevoked : goal.SameAccounts (((v.updateUser p.target.id p.changed).audit
        (roleEntry r p)).revokeSessions p.target.id) :=
      h.trans ((Db.SameAccounts.refl _).audit _ |>.revokeSessions _)
    split
    · exact hrevoked.trans (Db.SameAccounts.revokeSessions_twice ..)
    · exact hrevoked
  · rw [if_neg hchanged]
    rw [Bool.eq_false_iff.mpr hchanged, Bool.false_or] at h
    exact (afterRole h).mono (by decide)

theorem refuses (who : Principal) (action : String) (target : PyStr) (reason : String) :
    Settles r goal 4 (refuse r who action target reason) d d :=
  denied _ _ (Db.SameAccounts.refl d)

/-- The guard of a disable. -/
theorem afterRoleGuard {p : Patching}
    (h : goal.SameAccounts
      (if changesRole p.target p.changed || disables p.changed && !p.target.disabled then
        (d.updateUser p.target.id p.changed).revokeSessions p.target.id
      else d.updateUser p.target.id p.changed)) :
    Settles r goal 10 (afterRoleGuard p) d d := by
  have hupdate : Settles r goal 10 (UserPoint.update p) d d := (update h).mono (by decide)
  unfold UserPoint.afterRoleGuard
  split
  · split
    · refine select (p := guardDisable p) rfl ?_
      split
      · exact (refuses ..).mono (by decide)
      · exact update h
    · exact hupdate
  · exact hupdate

/-- `apply_user_update`. -/
theorem applyUserUpdate {p : Patching}
    (h : goal.SameAccounts
      (if changesRole p.target p.changed || disables p.changed && !p.target.disabled then
        (d.updateUser p.target.id p.changed).revokeSessions p.target.id
      else d.updateUser p.target.id p.changed)) :
    Settles r goal 11 (applyUserUpdate r p) d d := by
  have hguard : Settles r goal 11 (UserPoint.afterRoleGuard p) d d :=
    (afterRoleGuard h).mono (by decide)
  unfold UserPoint.applyUserUpdate
  split
  · split
    · exact (refuses ..).mono (by decide)
    · split
      · refine select (p := guardRole p) rfl ?_
        split
        · exact (refuses ..).mono (by decide)
        · exact afterRoleGuard h
      · exact hguard
  · exact hguard

/-- `delete_user`. -/
theorem deleteUser {who : Principal} {target : UserRow}
    (h : goal.SameAccounts (d.deleteUser target.id)) :
    Settles r goal 6 (deleteUser r who target) d d := by
  have hdelete : Settles r goal 5 (UserPoint.delete who target) d d :=
    dml (p := UserPoint.delete who target) rfl
      (dml (p := auditDelete who target) rfl (commits _ (h.audit _)))
  unfold UserPoint.deleteUser
  split
  · exact (refuses ..).mono (by decide)
  · split
    · refine select (p := guardDelete who target) rfl ?_
      split
      · exact (refuses ..).mono (by decide)
      · exact hdelete
    · exact hdelete.mono (by decide)

/-- From `fetch_user` on. -/
theorem fetch {who : Principal} {plan : UserPlan}
    (hpatch : ∀ payload target changed, plan = .patch payload →
      fetchUser d r.userId = some target → validatedPatch payload = .ok changed →
      goal.SameAccounts
        (if changesRole target changed || disables changed && !target.disabled then
          (d.updateUser target.id changed).revokeSessions target.id
        else d.updateUser target.id changed))
    (hdelete : ∀ target, plan = .delete → fetchUser d r.userId = some target →
      goal.SameAccounts (d.deleteUser target.id)) :
    Settles r goal 12 (fetch who plan) d d := by
  refine select (p := UserPoint.fetch who plan) rfl ?_
  rcases hfetch : fetchUser d r.userId with _ | target
  · dsimp only
    exact (failing _).mono (by decide)
  · cases plan with
    | delete =>
      dsimp only
      exact (deleteUser (hdelete target rfl hfetch)).mono (by decide)
    | patch payload =>
      rcases hvalid : validatedPatch payload with e | changed
      · simp only [hvalid]
        exact (failing _).mono (by decide)
      · simp only [hvalid]
        exact applyUserUpdate (hpatch payload target changed rfl hfetch hvalid)

end Settles

/-- **What PATCH and DELETE do by themselves**: they end, and what succeeds has
`userEffect`; what fails leaves the accounts as they are. -/
theorem user_settles (r : UserRequest) (d : Db) :
    Settles r (userEffect d r.userId r.op) 16 .authenticate d d := by
  refine (Settles.select (p := .authenticate) (n := 13) rfl ?_).mono (by decide)
  rcases resolveSession d r.session (r.clock 0) with _ | user
  · exact (Settles.failing _).mono (by decide)
  · have hgate : ∀ who action plan, (∀ payload, plan = .patch payload →
        r.op = .patch (.ok (.obj payload))) → (plan = .delete → r.op = .delete) →
        Settles r (userEffect d r.userId r.op) 13 (gate r who action plan) d d := by
      intro who action plan hpatch hdelete
      unfold UserPoint.gate
      split
      · refine (Settles.fetch ?_ ?_).mono (by decide)
        · rintro payload target changed rfl hfetch hvalid
          rw [hpatch payload rfl, userEffect, hfetch, hvalid, id_of_fetchUser hfetch]
          exact Db.SameAccounts.refl _
        · rintro target rfl hfetch
          rw [hdelete rfl, userEffect, id_of_fetchUser hfetch]
          exact Db.SameAccounts.refl _
      · exact (Settles.denied _ _ (Db.SameAccounts.refl d)).mono (by decide)
    change Settles r _ 13 (enter r user) d d
    unfold UserPoint.enter
    split
    · exact (Settles.failing _).mono (by decide)
    · split
      · exact (Settles.failing _).mono (by decide)
      · split
        · exact (Settles.failing _).mono (by decide)
        · next hop =>
          exact hgate _ _ _ (fun payload h => by rw [hop, UserPlan.patch.inj h]) fun h => by cases h
        · exact (Settles.failing _).mono (by decide)
        · next hop => exact hgate _ _ _ (fun payload h => by cases h) fun _ => hop

end

/-! ## Grants and what ends them -/

/-- What a login grants. -/
structure Grant where
  /-- the token -/
  token : PyStr
  /-- the user's id -/
  user : PyStr
  /-- the expiry -/
  expires : ℚ
  deriving DecidableEq

/-- What happened to sessions. -/
inductive SessionEvent where
  /-- a login -/
  | issued (g : Grant)
  /-- a login that presented this token -/
  | presented (token : PyStr)
  /-- a logout with this token -/
  | loggedOut (token : PyStr)
  /-- the user was given another role -/
  | roleChanged (user : PyStr)
  /-- the user was disabled -/
  | disabled (user : PyStr)
  /-- a password change of the user, from the session of this token -/
  | passwordChanged (user acting : PyStr)
  /-- a revoke-all, from the session of this token -/
  | revokedAll (acting : PyStr)
  deriving DecidableEq

namespace SessionEvent

/-- What an event grants. -/
def grants : SessionEvent → Option Grant
  | issued g => some g
  | _ => none

/-- What an event ends. -/
def ends : SessionEvent → Grant → Bool
  | issued _, _ => false
  | presented token, g => decide (g.token = token)
  | loggedOut token, g => decide (g.token = token)
  | roleChanged user, g => decide (g.user = user)
  | disabled user, g => decide (g.user = user)
  | passwordChanged user acting, g => decide (g.user = user) && decide (g.token ≠ acting)
  | revokedAll acting, g => decide (g.token ≠ acting)

/-- The lifetimes of sessions. -/
def lifetimes : Lifetimes SessionEvent Grant := ⟨grants, ends⟩

end SessionEvent

open SessionEvent

/-! ## Runs -/

/-- A PATCH or DELETE of a user, from the session of a cookie. -/
structure UserCall where
  /-- the cookie -/
  cookie : PyStr
  /-- the CSRF header echoes the cookie -/
  csrf : Bool := true
  /-- `{id}` -/
  userId : PyStr
  /-- what it wants -/
  op : UserOp

/-- What is done next. -/
inductive SessionOp where
  /-- a login -/
  | login (r : Auth.LoginRequest)
  /-- a logout -/
  | logout (r : Auth.SessionRequest)
  /-- a password change, with the salt of the new hash -/
  | changePassword (r : Auth.SessionRequest) (salt : PyStr)
  /-- a revoke-all -/
  | revokeAll (r : Auth.SessionRequest)
  /-- a role change, a disable, an enable or a deletion, among others -/
  | user (call : UserCall)
  /-- time passes -/
  | wait (seconds : ℚ) (nonneg : 0 ≤ seconds)

/-- The database, the clock, and what happened. -/
structure SessionSystem where
  /-- the committed database -/
  db : Db
  /-- `time.time()`, which stands still during a request -/
  now : ℚ
  /-- what happened to sessions -/
  history : List SessionEvent := []

section

variable (L : AuthLib) (ttl : ℚ)

/-- The user that a login signs in. -/
def loginUser (r : Auth.LoginRequest) (db : Db) : Option UserRow :=
  match Auth.loginFields L r.toSessionRequest with
  | .ok (email, _) => Auth.userByEmail db email
  | .error _ => none

/-- What a login does to sessions. -/
def loginEvents (r : Auth.LoginRequest) (s : SessionSystem) : Auth.LoginAnswer → List SessionEvent
  | .rateLimited _ => []
  | .signedIn token _ =>
    r.cookie.toList.map presented ++
      (loginUser L r s.db).toList.map fun user => issued ⟨token, user.id, s.now + ttl⟩

/-- What a password change does to sessions. -/
def passwordEvents (r : Auth.SessionRequest) (s : SessionSystem) : List SessionEvent :=
  match r.cookie with
  | none => []
  | some token =>
    (Auth.resolveToken L s.db token s.now).toList.map fun user => passwordChanged user.id token

/-- What a PATCH does to sessions. -/
def userEvents (db : Db) (userId : PyStr) : UserOp → List SessionEvent
  | .patch (.ok (.obj payload)) =>
    match fetchUser db userId, validatedPatch payload with
    | some target, .ok changed =>
      (if changesRole target changed then [roleChanged userId] else []) ++
        if disables changed && !target.disabled then [disabled userId] else []
    | _, _ => []
  | _ => []

/-- The request of a call. -/
def UserCall.request (call : UserCall) (now : ℚ) : UserRequest where
  session := L.digest call.cookie
  csrf := call.csrf
  userId := call.userId
  op := call.op
  clock := fun _ => now

/-- A PATCH or DELETE by itself. -/
def userAlone (r : UserRequest) (db : Db) : Except UserFailure Fields × Db :=
  match Wal.alone (userCode r) 16 .authenticate db db with
  | some (.done result, db') => (result, db')
  | _ => (.error .assertion, db)

/-- The system after a request with this outcome. -/
def SessionSystem.after {ε α : Type} (s : SessionSystem) (outcome : Except ε α × Db)
    (events : α → List SessionEvent) : SessionSystem :=
  match outcome with
  | (.ok a, db) => { s with db := db, history := s.history ++ events a }
  | (.error _, db) => { s with db := db }

/-- One request, or a stretch of time. -/
def SessionSystem.step (s : SessionSystem) : SessionOp → SessionSystem
  | .login r => s.after (Auth.login L ttl r s.now s.db) (loginEvents L ttl r s)
  | .logout r => s.after (Auth.logout L r s.now s.db) fun _ => r.cookie.toList.map loggedOut
  | .changePassword r salt =>
    s.after (Auth.changePassword L r salt s.now s.db) fun _ => passwordEvents L r s
  | .revokeAll r => s.after (Auth.revokeAll L r s.now s.db) fun _ => r.cookie.toList.map revokedAll
  | .user call =>
    s.after (userAlone (call.request L s.now) s.db) fun _ => userEvents s.db call.userId call.op
  | .wait seconds _ => { s with now := s.now + seconds }

/-- A sequential run. -/
def SessionSystem.run (s : SessionSystem) (ops : List SessionOp) : SessionSystem :=
  ops.foldl (SessionSystem.step L ttl) s

end

/-! ## Rows of sessions -/

/-- A session that is not revoked. -/
def Db.LiveSession (db : Db) (id user : PyStr) (expires : ℚ) : Prop :=
  ∃ s ∈ db.sessions, s.id = id ∧ s.userId = user ∧ s.expiresAt = expires ∧ s.revoked = false

/-- The user exists. -/
def Db.HasUser (db : Db) (id : PyStr) : Prop := ∃ u ∈ db.users, u.id = id

namespace Db

variable {db db' : Db} {id user : PyStr} {expires : ℚ}

theorem SameAccounts.liveSession (h : db.SameAccounts db') :
    db'.LiveSession id user expires ↔ db.LiveSession id user expires := by
  unfold LiveSession
  rw [h.sessions]

/-- What a revocation by id and user leaves. -/
theorem liveSession_revokeWhere {p : SessionRow → Bool} {q : PyStr → PyStr → Bool}
    (hp : ∀ s, p s = q s.id s.userId) :
    (db.revokeWhere p).LiveSession id user expires ↔
      db.LiveSession id user expires ∧ q id user = false := by
  constructor
  · rintro ⟨s', hs', rfl, rfl, rfl, hlive⟩
    obtain ⟨s, hs, rfl⟩ := List.mem_map.mp hs'
    by_cases hrev : (p s && !s.revoked) = true
    · rw [if_pos hrev] at hlive
      cases hlive
    · simp only [if_neg hrev] at hlive ⊢
      refine ⟨⟨s, hs, rfl, rfl, rfl, hlive⟩, ?_⟩
      rw [← hp, ← Bool.not_eq_true]
      exact fun h => hrev (by rw [h, hlive]; rfl)
  · rintro ⟨⟨s, hs, rfl, rfl, rfl, hlive⟩, hq⟩
    have hno : ¬(p s && !s.revoked) = true := by
      rw [hp, hq]
      exact Bool.false_ne_true
    exact ⟨s, List.mem_map.mpr ⟨s, hs, if_neg hno⟩, rfl, rfl, rfl, hlive⟩

theorem liveSession_revokeSession {key : PyStr} :
    (db.revokeSession key).LiveSession id user expires ↔
      db.LiveSession id user expires ∧ decide (id = key) = false :=
  liveSession_revokeWhere (q := fun id _ => decide (id = key)) fun _ => rfl

theorem liveSession_revokeOtherSessions {key : PyStr} {keep : Option PyStr} :
    (db.revokeOtherSessions key keep).LiveSession id user expires ↔
      db.LiveSession id user expires ∧ (decide (user = key) && decide (some id ≠ keep)) = false :=
  liveSession_revokeWhere (q := fun id user => decide (user = key) && decide (some id ≠ keep))
    fun _ => rfl

theorem liveSession_revokeAllSessions {keep : Option PyStr} :
    (db.revokeAllSessions keep).LiveSession id user expires ↔
      db.LiveSession id user expires ∧ decide (some id ≠ keep) = false :=
  liveSession_revokeWhere (q := fun id _ => decide (some id ≠ keep)) fun _ => rfl

theorem liveSession_revokeSessions {key : PyStr} :
    (db.revokeSessions key).LiveSession id user expires ↔
      db.LiveSession id user expires ∧ decide (user = key) = false := by
  have heq : db.revokeSessions key = db.revokeWhere fun s => decide (s.userId = key) := by
    unfold revokeSessions revokeWhere
    congr 1
    refine List.map_congr_left fun s _ => ?_
    simp
  rw [heq]
  exact liveSession_revokeWhere (q := fun _ user => decide (user = key)) fun _ => rfl

theorem liveSession_touchSession {key : PyStr} {now : ℚ} :
    (db.touchSession key now).LiveSession id user expires ↔ db.LiveSession id user expires := by
  unfold LiveSession touchSession
  simp only [List.mem_map, exists_exists_and_eq_and]
  refine exists_congr fun s => and_congr_right fun _ => ?_
  split <;> exact Iff.rfl

theorem liveSession_deleteUser {key : PyStr} :
    (db.deleteUser key).LiveSession id user expires ↔
      db.LiveSession id user expires ∧ user ≠ key := by
  unfold LiveSession deleteUser
  simp only [List.mem_filter, decide_eq_true_eq]
  constructor
  · rintro ⟨s, ⟨hs, hne⟩, rfl, rfl, rfl, hlive⟩
    exact ⟨⟨s, hs, rfl, rfl, rfl, hlive⟩, hne⟩
  · rintro ⟨⟨s, hs, rfl, rfl, rfl, hlive⟩, hne⟩
    exact ⟨s, ⟨hs, hne⟩, rfl, rfl, rfl, hlive⟩

end Db

/-- The rotation on login revokes a session at most. -/
theorem users_rotateSession (L : AuthLib) (r : Auth.SessionRequest) (now : ℚ) (db : Db) :
    (Auth.rotateSession L r now db).users = db.users := by
  unfold Auth.rotateSession
  split
  · rfl
  · split <;> rfl

/-- A login adds the row of its session to those that the rotation leaves. -/
theorem liveSession_signIn {L : AuthLib} {r : Auth.LoginRequest} {ttl now : ℚ} {u : UserRow}
    {db : Db} {id user : PyStr} {expires : ℚ} :
    (Auth.signIn L r ttl u now db).LiveSession id user expires ↔
      (Auth.rotateSession L r.toSessionRequest now db).LiveSession id user expires ∨
        (L.digest r.token = id ∧ u.id = user ∧ now + ttl = expires) := by
  constructor
  · rintro ⟨row, hrow, rfl, rfl, rfl, hlive⟩
    rcases List.mem_append.mp hrow with hrow | hrow
    · exact Or.inl ⟨row, hrow, rfl, rfl, rfl, hlive⟩
    · rw [List.mem_singleton.mp hrow]
      exact Or.inr ⟨rfl, rfl, rfl⟩
  · rintro (⟨row, hrow, rfl, rfl, rfl, hlive⟩ | ⟨rfl, rfl, rfl⟩)
    · exact ⟨row, List.mem_append_left _ hrow, rfl, rfl, rfl, hlive⟩
    · exact ⟨_, List.mem_append_right _ (List.mem_singleton.mpr rfl), rfl, rfl, rfl, rfl⟩

/-- What a password change does to the accounts. -/
theorem accounts_replacePassword (L : AuthLib) (user : UserRow) (sessionId new salt : PyStr)
    (now : ℚ) (db : Db) :
    ((db.mapUser user.id fun u => { u with
      passwordHash := L.hashPassword new salt
      mustChange := false }).revokeOtherSessions user.id (some sessionId)).SameAccounts
        (Auth.replacePassword L user sessionId new salt now db) := by
  unfold Auth.replacePassword
  dsimp only
  split <;> exact ⟨rfl, rfl⟩

/-- A session resolves to the user of a live row. -/
theorem resolveSession_some {db : Db} {id : PyStr} {now : ℚ} {u : UserRow}
    (h : resolveSession db id now = some u) :
    (∃ expires, now < expires ∧ db.LiveSession id u.id expires) ∧ u ∈ db.users ∧
      u.disabled = false := by
  obtain ⟨s, hs, hu⟩ := Option.bind_eq_some_iff.mp h
  have hprop := List.find?_some hs
  have huprop := List.find?_some hu
  simp only [decide_eq_true_eq] at hprop huprop
  obtain ⟨hid, hlive, hexp⟩ := hprop
  exact ⟨⟨s.expiresAt, hexp, s, List.mem_of_find?_eq_some hs, hid, huprop.1.symm, rfl, hlive⟩,
    List.mem_of_find?_eq_some hu, huprop.2⟩

/-- A live row of an enabled user resolves, to some live row's user. -/
theorem resolveSession_of_live {db : Db} {id user : PyStr} {expires now : ℚ}
    (hlive : db.LiveSession id user expires) (hexp : now < expires)
    (hall : ∀ user' expires', now < expires' → db.LiveSession id user' expires' → user' = user)
    (huser : ∃ u ∈ db.users, u.id = user ∧ u.disabled = false) :
    ∃ u, resolveSession db id now = some u ∧ u.id = user := by
  obtain ⟨s, hs, rfl, rfl, rfl, hrev⟩ := hlive
  have hfound : (db.sessions.find? fun s' =>
      decide (s'.id = s.id ∧ s'.revoked = false ∧ now < s'.expiresAt)).isSome = true :=
    List.find?_isSome.mpr ⟨s, hs, by simp [hrev, hexp]⟩
  obtain ⟨s', hs'⟩ := Option.isSome_iff_exists.mp hfound
  have hprop := List.find?_some hs'
  simp only [decide_eq_true_eq] at hprop
  have heq : s'.userId = s.userId :=
    hall _ _ hprop.2.2 ⟨s', List.mem_of_find?_eq_some hs', hprop.1, rfl, rfl, hprop.2.1⟩
  obtain ⟨u, hu, hid, hdis⟩ := huser
  have hfound' : (db.users.find? fun u =>
      decide (u.id = s'.userId ∧ u.disabled = false)).isSome = true :=
    List.find?_isSome.mpr ⟨u, hu, by simp [heq, hid, hdis]⟩
  obtain ⟨u', hu'⟩ := Option.isSome_iff_exists.mp hfound'
  have huprop := List.find?_some hu'
  simp only [decide_eq_true_eq] at huprop
  exact ⟨u', Option.bind_eq_some_iff.mpr ⟨s', hs', hu'⟩, huprop.1.trans heq⟩

/-! ## The rows mirror the grants -/

/-- The token that a request would grant. -/
def SessionOp.issues : SessionOp → List PyStr
  | .login r => [r.token]
  | _ => []

/-- The token that a request presents. -/
def SessionOp.presents : SessionOp → List PyStr
  | .login r => r.cookie.toList
  | .logout r => r.cookie.toList
  | .changePassword r _ => r.cookie.toList
  | .revokeAll r => r.cookie.toList
  | .user call => [call.cookie]
  | .wait _ _ => []

/-- The tokens drawn for logins are distinct, none is empty, and no other of the
tokens about has the digest of one. -/
structure CollisionFree (L : AuthLib) (issued others : List PyStr) : Prop where
  /-- the tokens are distinct -/
  distinct : issued.Nodup
  /-- none is empty -/
  nonempty : [] ∉ issued
  /-- their digests are theirs alone -/
  digests : ∀ t ∈ issued, ∀ u ∈ issued ++ others, L.digest t = L.digest u → t = u

/-- Fewer tokens do not collide either. -/
theorem CollisionFree.mono {L : AuthLib} {issued others issued' others' : List PyStr}
    (h : CollisionFree L issued others) (hissued : issued'.Sublist issued)
    (hothers : ∀ t ∈ others', t ∈ issued ++ others) : CollisionFree L issued' others' := by
  refine ⟨h.distinct.sublist hissued, fun hnil => h.nonempty (hissued.subset hnil),
    fun t ht u hu => h.digests t (hissued.subset ht) u ?_⟩
  rcases List.mem_append.mp hu with hu | hu
  · exact List.mem_append_left _ (hissued.subset hu)
  · exact hothers u hu

/-- What is known of a system that has issued at most these tokens: the live rows
are the grants alive, as far as they have not expired. -/
structure Mirrors (L : AuthLib) (issued : List PyStr) (s : SessionSystem) : Prop where
  /-- the rows -/
  rows : ∀ id user expires, s.now < expires → (s.db.LiveSession id user expires ↔
    ∃ g ∈ lifetimes.live s.history, s.db.HasUser g.user ∧ L.digest g.token = id ∧
      g.user = user ∧ g.expires = expires)
  /-- users have one row each -/
  keys : (s.db.users.map UserRow.id).Nodup
  /-- only enabled users have live grants -/
  enabled : ∀ g ∈ lifetimes.live s.history, ∀ u ∈ s.db.users, u.id = g.user → u.disabled = false
  /-- what was granted -/
  tokens : ((lifetimes.granted s.history).map Grant.token).Sublist issued

namespace Mirrors

variable {L : AuthLib} {issued others : List PyStr} {s : SessionSystem}

/-- The token of a live grant was issued. -/
theorem issued_of_live (h : Mirrors L issued s) {g : Grant} (hg : g ∈ lifetimes.live s.history) :
    g.token ∈ issued :=
  h.tokens.subset (List.mem_map_of_mem ((Lifetimes.live_sublist s.history).subset hg))

/-- Two live grants of one token are one. -/
theorem eq_of_token (h : Mirrors L issued s) (hfree : CollisionFree L issued others) {g g' : Grant}
    (hg : g ∈ lifetimes.live s.history) (hg' : g' ∈ lifetimes.live s.history)
    (ht : g.token = g'.token) : g = g' := by
  have hnodup : ((lifetimes.live s.history).map Grant.token).Nodup :=
    (hfree.distinct.sublist h.tokens).sublist ((Lifetimes.live_sublist s.history).map _)
  exact List.inj_on_of_nodup_map hnodup hg hg' ht

/-- **A token resolves exactly while its grant lives**: and its user is there,
enabled, and it is not expired. -/
theorem resolves (h : Mirrors L issued s) (hfree : CollisionFree L issued others) {token : PyStr}
    (htoken : token ∈ issued ++ others) (user : PyStr) :
    (∃ u, Auth.resolveToken L s.db token s.now = some u ∧ u.id = user) ↔
      ∃ g ∈ lifetimes.live s.history, g.token = token ∧ g.user = user ∧ s.now < g.expires ∧
        ∃ u ∈ s.db.users, u.id = user ∧ u.disabled = false := by
  unfold Auth.resolveToken
  constructor
  · rintro ⟨u, hu, rfl⟩
    split at hu
    · cases hu
    · obtain ⟨⟨expires, hexp, hlive⟩, hmem, hdis⟩ := resolveSession_some hu
      obtain ⟨g, hg, -, hdigest, huser, rfl⟩ := (h.rows _ _ _ hexp).mp hlive
      have heq := hfree.digests _ (h.issued_of_live hg) _ htoken hdigest
      exact ⟨g, hg, heq, huser, hexp, u, hmem, rfl, hdis⟩
  · rintro ⟨g, hg, rfl, rfl, hexp, u, hu, hid, hdis⟩
    have hne : g.token.isEmpty = false := by
      rw [Bool.eq_false_iff]
      intro hempty
      exact hfree.nonempty (List.isEmpty_iff.mp hempty ▸ h.issued_of_live hg)
    rw [hne, if_neg Bool.false_ne_true]
    have hlive : s.db.LiveSession (L.digest g.token) g.user g.expires :=
      (h.rows _ _ _ hexp).mpr ⟨g, hg, ⟨u, hu, hid⟩, rfl, rfl, rfl⟩
    refine resolveSession_of_live hlive hexp (fun user' expires' hexp' hlive' => ?_)
      ⟨u, hu, hid, hdis⟩
    obtain ⟨g', hg', -, hdigest, rfl, -⟩ := (h.rows _ _ _ hexp').mp hlive'
    have heq := hfree.digests _ (h.issued_of_live hg') _ htoken hdigest
    rw [h.eq_of_token hfree hg' hg heq]

/-- Requests that change no account and time that passes. -/
theorem same (h : Mirrors L issued s) {db : Db} {now : ℚ} (haccounts : s.db.SameAccounts db)
    (hnow : s.now ≤ now) : Mirrors L issued ⟨db, now, s.history⟩ := by
  have husers : db.users = s.db.users := haccounts.users.symm
  refine ⟨fun id user expires hexp => ?_, ?_, ?_, h.tokens⟩
  · rw [haccounts.liveSession, h.rows id user expires (hnow.trans_lt hexp)]
    unfold Db.HasUser
    rw [husers]
  · rw [husers]
    exact h.keys
  · rw [husers]
    exact h.enabled

/-- More tokens may be issued. -/
theorem issues_more (h : Mirrors L issued s) (more : List PyStr) : Mirrors L (issued ++ more) s :=
  ⟨h.rows, h.keys, h.enabled, h.tokens.trans (List.sublist_append_left _ _)⟩

/-- Events that only end grants: the rows that go are those of the grants that end. -/
theorem ending (h : Mirrors L issued s) {db : Db} {es : List SessionEvent}
    {q : PyStr → PyStr → Bool} (hes : lifetimes.granted es = [])
    (hrows : ∀ id user expires, db.LiveSession id user expires ↔
      s.db.LiveSession id user expires ∧ q id user = false)
    (hq : ∀ g ∈ lifetimes.live s.history, s.db.HasUser g.user → s.now < g.expires →
      (q (L.digest g.token) g.user = false ↔ lifetimes.Outlives es g))
    (husers : ∀ id, db.HasUser id ↔ s.db.HasUser id) (hkeys : (db.users.map UserRow.id).Nodup)
    (henabled : ∀ g ∈ lifetimes.live s.history, lifetimes.Outlives es g →
      ∀ u ∈ db.users, u.id = g.user → u.disabled = false) :
    Mirrors L issued ⟨db, s.now, s.history ++ es⟩ := by
  have hlive : ∀ g, g ∈ lifetimes.live (s.history ++ es) ↔
      g ∈ lifetimes.live s.history ∧ lifetimes.Outlives es g := by
    intro g
    have hnone : g ∉ lifetimes.live es := fun hg => by
      have := (Lifetimes.live_sublist es).subset hg
      rw [hes] at this
      cases this
    rw [Lifetimes.mem_live_append]
    exact or_iff_left hnone
  refine ⟨fun id user expires hexp => ?_, hkeys, fun g hg => ?_, ?_⟩
  · rw [hrows, h.rows id user expires hexp]
    simp only [hlive, husers]
    constructor
    · rintro ⟨⟨g, hg, hu, rfl, rfl, rfl⟩, hno⟩
      exact ⟨g, ⟨hg, (hq g hg hu hexp).mp hno⟩, hu, rfl, rfl, rfl⟩
    · rintro ⟨g, ⟨hg, hout⟩, hu, rfl, rfl, rfl⟩
      exact ⟨⟨g, hg, hu, rfl, rfl, rfl⟩, (hq g hg hu hexp).mpr hout⟩
  · obtain ⟨hg, hout⟩ := (hlive g).mp hg
    exact henabled g hg hout
  · rw [Lifetimes.granted_append, hes, List.append_nil]
    exact h.tokens

/-- A grant to an enabled user, and its row. -/
theorem granting (h : Mirrors L issued s) {db : Db} {g : Grant}
    (hrows : ∀ id user expires, db.LiveSession id user expires ↔
      s.db.LiveSession id user expires ∨
        (L.digest g.token = id ∧ g.user = user ∧ g.expires = expires))
    (husers : ∀ id, db.HasUser id ↔ s.db.HasUser id) (hkeys : (db.users.map UserRow.id).Nodup)
    (henabled : ∀ u ∈ db.users, ∃ v ∈ s.db.users, v.id = u.id ∧ v.disabled = u.disabled)
    (huser : ∃ u ∈ s.db.users, u.id = g.user ∧ u.disabled = false) :
    Mirrors L (issued ++ [g.token]) ⟨db, s.now, s.history ++ [SessionEvent.issued g]⟩ := by
  have hlive : ∀ g', g' ∈ lifetimes.live (s.history ++ [SessionEvent.issued g]) ↔
      g' ∈ lifetimes.live s.history ∨ g' = g := by
    intro g'
    rw [Lifetimes.live_snoc, Lifetimes.mem_next]
    refine or_congr (and_iff_left rfl) ?_
    exact Option.some_inj.trans eq_comm
  obtain ⟨u₀, hu₀, hid₀, hdis₀⟩ := huser
  refine ⟨fun id user expires hexp => ?_, hkeys, fun g' hg' u hu hid => ?_, ?_⟩
  · rw [hrows, h.rows id user expires hexp]
    simp only [hlive, husers]
    constructor
    · rintro (⟨g', hg', hu, heq⟩ | heq)
      · exact ⟨g', Or.inl hg', hu, heq⟩
      · exact ⟨g, Or.inr rfl, ⟨u₀, hu₀, hid₀⟩, heq⟩
    · rintro ⟨g', hg' | rfl, hu, heq⟩
      · exact Or.inl ⟨g', hg', hu, heq⟩
      · exact Or.inr heq
  · obtain ⟨v, hv, hvid, hvdis⟩ := henabled u hu
    rw [← hvdis]
    rcases (hlive g').mp hg' with hg' | rfl
    · exact h.enabled g' hg' v hv (hvid.trans hid)
    · have heq : v = u₀ :=
        List.inj_on_of_nodup_map h.keys hv hu₀ ((hvid.trans hid).trans hid₀.symm)
      rw [heq, hdis₀]
  · rw [Lifetimes.granted_append, List.map_append]
    exact h.tokens.append (List.Sublist.refl _)

end Mirrors

/-- The users are the same, but for columns that sessions do not depend on. -/
def Db.SameUsers (db db' : Db) : Prop :=
  db'.users.map (fun u => (u.id, u.disabled)) = db.users.map fun u => (u.id, u.disabled)

namespace Db.SameUsers

variable {db db' : Db}

theorem mapUser (db : Db) (id : PyStr) {f : UserRow → UserRow}
    (hf : ∀ u, (f u).id = u.id ∧ (f u).disabled = u.disabled) : db.SameUsers (db.mapUser id f) := by
  unfold SameUsers Db.mapUser
  rw [List.map_map]
  refine List.map_congr_left fun u _ => ?_
  by_cases h : u.id = id
  · simp [h, hf]
  · simp [h]

theorem keys (h : db.SameUsers db') : db'.users.map UserRow.id = db.users.map UserRow.id := by
  have := congrArg (List.map Prod.fst) h
  rwa [List.map_map, List.map_map] at this

theorem hasUser (h : db.SameUsers db') (id : PyStr) : db'.HasUser id ↔ db.HasUser id := by
  have hmem : ∀ d : Db, d.HasUser id ↔ id ∈ d.users.map UserRow.id := by
    simp [HasUser]
  rw [hmem, hmem, h.keys]

theorem row (h : db.SameUsers db') {u : UserRow} (hu : u ∈ db'.users) :
    ∃ v ∈ db.users, v.id = u.id ∧ v.disabled = u.disabled := by
  have hmem : (u.id, u.disabled) ∈ db.users.map fun u => (u.id, u.disabled) := by
    rw [← h]
    exact List.mem_map_of_mem hu
  obtain ⟨v, hv, heq⟩ := List.mem_map.mp hmem
  exact ⟨v, hv, (Prod.mk.inj heq).1, (Prod.mk.inj heq).2⟩

end Db.SameUsers

namespace Mirrors

variable {L : AuthLib} {issued others : List PyStr} {s : SessionSystem}

/-- Events that only end grants, where the users stay. -/
theorem ending_same (h : Mirrors L issued s) {db : Db} {es : List SessionEvent}
    {q : PyStr → PyStr → Bool} (hes : lifetimes.granted es = [])
    (hrows : ∀ id user expires, db.LiveSession id user expires ↔
      s.db.LiveSession id user expires ∧ q id user = false)
    (hq : ∀ g ∈ lifetimes.live s.history, s.db.HasUser g.user → s.now < g.expires →
      (q (L.digest g.token) g.user = false ↔ lifetimes.Outlives es g))
    (husers : s.db.SameUsers db) : Mirrors L issued ⟨db, s.now, s.history ++ es⟩ := by
  refine h.ending hes hrows hq husers.hasUser (husers.keys ▸ h.keys) fun g hg _ u hu hid => ?_
  obtain ⟨v, hv, hvid, hvdis⟩ := husers.row hu
  rw [← hvdis]
  exact h.enabled g hg v hv (hvid.trans hid)

/-- The digest of a live token tells it from a token that was presented. -/
theorem digest_iff (h : Mirrors L issued s) (hfree : CollisionFree L issued others) {g : Grant}
    (hg : g ∈ lifetimes.live s.history) {token : PyStr} (ht : token ∈ others) :
    L.digest g.token = L.digest token ↔ g.token = token :=
  ⟨hfree.digests _ (h.issued_of_live hg) _ (List.mem_append_right _ ht), fun heq => by rw [heq]⟩

theorem outlives_singleton {e : SessionEvent} {g : Grant} :
    lifetimes.Outlives [e] g ↔ e.ends g = false := List.forall_mem_singleton

theorem logout (h : Mirrors L issued s) (hfree : CollisionFree L issued others)
    {r : Auth.SessionRequest} (hr : ∀ t ∈ r.cookie, t ∈ others) :
    Mirrors L issued
      (s.after (Auth.logout L r s.now s.db) fun _ => r.cookie.toList.map loggedOut) := by
  rcases Auth.logout_cases (L := L) r s.now s.db with ⟨e, he⟩ | ⟨token, fields, entry, hc, hok⟩
  · rw [he]
    exact h.same (Db.SameAccounts.refl _) le_rfl
  · rw [hok, hc]
    refine h.ending_same (q := fun id _ => decide (id = L.digest token)) rfl
      (fun _ _ _ => ((Db.SameAccounts.refl _).audit entry).liveSession.trans
        Db.liveSession_revokeSession) (fun g hg _ _ => ?_) rfl
    rw [Option.toList_some, List.map_singleton, outlives_singleton]
    simp only [ends, decide_eq_false_iff_not, h.digest_iff hfree hg (hr token hc)]

theorem revokeAll (h : Mirrors L issued s) (hfree : CollisionFree L issued others)
    {r : Auth.SessionRequest} (hr : ∀ t ∈ r.cookie, t ∈ others) :
    Mirrors L issued
      (s.after (Auth.revokeAll L r s.now s.db) fun _ => r.cookie.toList.map revokedAll) := by
  rcases Auth.revokeAll_cases (L := L) r s.now s.db with ⟨e, db, he, husers, hsessions⟩ |
    ⟨token, fields, entry, hc, hok⟩
  · rw [he]
    exact h.same ⟨husers.symm, hsessions.symm⟩ le_rfl
  · rw [hok, hc]
    refine h.ending_same (q := fun id _ => decide (some id ≠ some (L.digest token))) rfl
      (fun _ _ _ => ((Db.SameAccounts.refl _).audit entry).liveSession.trans
        Db.liveSession_revokeAllSessions) (fun g hg _ _ => ?_) rfl
    rw [Option.toList_some, List.map_singleton, outlives_singleton]
    simp only [ends, decide_eq_false_iff_not, ne_eq, not_not, Option.some.injEq,
      h.digest_iff hfree hg (hr token hc)]

theorem changePassword (h : Mirrors L issued s) (hfree : CollisionFree L issued others)
    {r : Auth.SessionRequest} {salt : PyStr} (hr : ∀ t ∈ r.cookie, t ∈ others) :
    Mirrors L issued
      (s.after (Auth.changePassword L r salt s.now s.db) fun _ => passwordEvents L r s) := by
  rcases Auth.changePassword_cases (L := L) r salt s.now s.db with ⟨e, he⟩ |
    ⟨token, user, current, new, fields, hc, hres, -, hok⟩
  · rw [he]
    exact h.same (Db.SameAccounts.refl _) le_rfl
  · have hevents : passwordEvents L r s = [passwordChanged user.id token] := by
      unfold passwordEvents
      rw [hc]
      simp only [hres, Option.toList_some, List.map_singleton]
    rw [hok, hevents]
    have haccounts := accounts_replacePassword L user (L.digest token) new salt s.now s.db
    refine h.ending_same
      (q := fun id u => decide (u = user.id) && decide (some id ≠ some (L.digest token))) rfl
      (fun _ _ _ => haccounts.liveSession.trans Db.liveSession_revokeOtherSessions)
      (fun g hg _ _ => ?_) ?_
    · rw [outlives_singleton]
      simp only [ends, ne_eq, Option.some.injEq, Bool.and_eq_false_iff, decide_eq_false_iff_not,
        not_not, h.digest_iff hfree hg (hr token hc)]
    · unfold Db.SameUsers
      rw [← haccounts.users]
      exact Db.SameUsers.mapUser s.db user.id fun _ => ⟨rfl, rfl⟩

/-- The rotation on login ends the grant of the token that is presented. -/
theorem rotate (h : Mirrors L issued s) (hfree : CollisionFree L issued others)
    {r : Auth.SessionRequest} (hr : ∀ t ∈ r.cookie, t ∈ others) :
    Mirrors L issued ⟨Auth.rotateSession L r s.now s.db, s.now,
      s.history ++ r.cookie.toList.map presented⟩ := by
  unfold Auth.rotateSession
  rcases hc : r.cookie with _ | token
  · rw [Option.toList_none, List.map_nil, List.append_nil]
    exact h.same (Db.SameAccounts.refl _) le_rfl
  · have ht : token ∈ others := hr token hc
    rw [Option.toList_some, List.map_singleton]
    dsimp only
    rcases hres : Auth.resolveToken L s.db token s.now with _ | u
    · -- a token that does not resolve has no unexpired grant to end
      refine h.ending_same (q := fun _ _ => false) rfl (fun _ _ _ => (and_iff_left rfl).symm)
        (fun g hg hu hexp => ?_) rfl
      rw [outlives_singleton]
      simp only [ends, true_iff, decide_eq_false_iff_not]
      rintro rfl
      obtain ⟨u, hu, hid⟩ := hu
      obtain ⟨u', hu', -⟩ := (h.resolves hfree (List.mem_append_right _ ht) g.user).mpr
        ⟨g, hg, rfl, rfl, hexp, u, hu, hid, h.enabled g hg u hu hid⟩
      rw [hres] at hu'
      cases hu'
    · refine h.ending_same (q := fun id _ => decide (id = L.digest token)) rfl
        (fun _ _ _ => Db.liveSession_revokeSession.trans
          (and_congr_left' Db.liveSession_touchSession)) (fun g hg _ _ => ?_) rfl
      rw [outlives_singleton]
      simp only [ends, decide_eq_false_iff_not, h.digest_iff hfree hg ht]

theorem login (h : Mirrors L issued s) {ttl : ℚ} {r : Auth.LoginRequest}
    (hfree : CollisionFree L issued others) (hr : ∀ t ∈ r.cookie, t ∈ others) :
    Mirrors L (issued ++ [r.token])
      (s.after (Auth.login L ttl r s.now s.db) (loginEvents L ttl r s)) := by
  rcases Auth.login_cases (L := L) ttl r s.now s.db with ⟨db, husers, hsessions, hout⟩ |
    ⟨email, password, user, hf, huser, hdis, -, hok⟩
  · have hsame : Mirrors L (issued ++ [r.token]) ⟨db, s.now, s.history⟩ :=
      (h.same ⟨husers.symm, hsessions.symm⟩ le_rfl).issues_more _
    rcases hout with ⟨e, he⟩ | ⟨retry, he⟩
    · rw [he]
      exact hsame
    · rw [he]
      unfold SessionSystem.after
      simp only [loginEvents, List.append_nil]
      exact hsame
  · have hmem : user ∈ s.db.users := List.mem_of_find?_eq_some huser
    have hevents : s.history ++ loginEvents L ttl r s (.signedIn r.token (Auth.mePayload user)) =
        (s.history ++ r.cookie.toList.map presented) ++
          [SessionEvent.issued ⟨r.token, user.id, s.now + ttl⟩] := by
      unfold loginEvents loginUser
      simp only [hf, huser, Option.toList_some, List.map_singleton, List.append_assoc]
    have hsame : (Auth.rotateSession L r.toSessionRequest s.now s.db).SameUsers
        (Auth.signIn L r ttl user s.now s.db) :=
      Db.SameUsers.mapUser (Auth.issueSession L r ttl user.id s.now
        (Auth.rotateSession L r.toSessionRequest s.now s.db)) user.id fun _ => ⟨rfl, rfl⟩
    have hrot := h.rotate hfree hr
    rw [hok]
    unfold SessionSystem.after
    dsimp only
    rw [hevents]
    exact granting (g := ⟨r.token, user.id, s.now + ttl⟩) hrot (fun _ _ _ => liveSession_signIn)
      hsame.hasUser (hsame.keys ▸ hrot.keys) (fun u hu => hsame.row hu)
      ⟨user, by rw [users_rotateSession]; exact hmem, rfl, hdis⟩

/-- A PATCH that was applied. -/
theorem patched (h : Mirrors L issued s) {target : UserRow} {changed : UserPatch}
    (hfetch : fetchUser s.db target.id = some target) :
    Mirrors L issued
      ⟨if changesRole target changed || disables changed && !target.disabled then
          (s.db.updateUser target.id changed).revokeSessions target.id
        else s.db.updateUser target.id changed, s.now,
        s.history ++ ((if changesRole target changed then [roleChanged target.id] else []) ++
          if disables changed && !target.disabled then [disabled target.id] else [])⟩ := by
  have hids : (s.db.updateUser target.id changed).users.map UserRow.id =
      s.db.users.map UserRow.id := by
    unfold Db.updateUser
    rw [List.map_map]
    refine List.map_congr_left fun u _ => ?_
    by_cases hu : u.id = target.id
    · simp [hu, UserPatch.apply]
    · simp [hu]
  have husers : ∀ cond : Bool, (if cond then (s.db.updateUser target.id changed).revokeSessions
      target.id else s.db.updateUser target.id changed).users =
        (s.db.updateUser target.id changed).users := by
    intro cond
    cases cond <;> rfl
  refine h.ending (q := fun _ u => (changesRole target changed || disables changed &&
    !target.disabled) && decide (u = target.id)) ?_ (fun id u expires => ?_) (fun g _ _ _ => ?_)
    (fun id => ?_) ?_ fun g hg hout u hu hid => ?_
  · cases changesRole target changed <;> cases disables changed && !target.disabled <;> rfl
  · cases hcond : changesRole target changed || disables changed && !target.disabled
    · exact (and_iff_left rfl).symm
    · exact Db.liveSession_revokeSessions.trans (by rw [Bool.true_and]; exact Iff.rfl)
  · cases changesRole target changed <;> cases disables changed && !target.disabled <;>
      simp [Lifetimes.Outlives, lifetimes, ends]
  · have hmem : ∀ d : Db, d.HasUser id ↔ id ∈ d.users.map UserRow.id := by
      simp [Db.HasUser]
    rw [hmem, hmem, husers, hids]
  · rw [husers, hids]
    exact h.keys
  · rw [husers] at hu
    obtain ⟨v, hv, rfl⟩ := List.mem_map.mp hu
    by_cases hvid : v.id = target.id
    · simp only [if_pos hvid] at hid ⊢
      have hgid : v.id = g.user := hid
      have heq : v = target := List.inj_on_of_nodup_map h.keys hv
        (List.mem_of_find?_eq_some hfetch) hvid
      have hold : v.disabled = false := h.enabled g hg v hv hgid
      rw [heq] at hold
      -- a PATCH that disables an enabled user has ended the grant
      have hno : disables changed = false := by
        cases hdis : disables changed
        · rfl
        · have hend := hout (disabled target.id) (by simp [hdis, hold])
          simp only [lifetimes, ends, decide_eq_false_iff_not] at hend
          exact absurd (hgid.symm.trans hvid) hend
      unfold UserPatch.apply
      unfold disables at hno
      rw [heq]
      rcases hc : changed.disabled with _ | _ | _
      · exact hold
      · rfl
      · rw [hc] at hno
        cases hno
    · simp only [if_neg hvid] at hid ⊢
      exact h.enabled g hg v hv hid

/-- A user that was deleted takes its sessions along. -/
theorem deleted (h : Mirrors L issued s) (key : PyStr) :
    Mirrors L issued ⟨s.db.deleteUser key, s.now, s.history⟩ := by
  have huser : ∀ id, (s.db.deleteUser key).HasUser id ↔ s.db.HasUser id ∧ id ≠ key := by
    intro id
    unfold Db.HasUser Db.deleteUser
    simp only [List.mem_filter, decide_eq_true_eq]
    constructor
    · rintro ⟨u, ⟨hu, hne⟩, rfl⟩
      exact ⟨⟨u, hu, rfl⟩, hne⟩
    · rintro ⟨⟨u, hu, rfl⟩, hne⟩
      exact ⟨u, ⟨hu, hne⟩, rfl⟩
  refine ⟨fun id u expires hexp => ?_, ?_, fun g hg u hu hid => ?_, h.tokens⟩
  · rw [Db.liveSession_deleteUser, h.rows id u expires hexp]
    simp only [huser]
    constructor
    · rintro ⟨⟨g, hg, hu, rfl, rfl, rfl⟩, hne⟩
      exact ⟨g, hg, ⟨hu, hne⟩, rfl, rfl, rfl⟩
    · rintro ⟨g, hg, ⟨hu, hne⟩, rfl, rfl, rfl⟩
      exact ⟨⟨g, hg, hu, rfl, rfl, rfl⟩, hne⟩
  · exact h.keys.sublist (List.filter_sublist.map _)
  · exact h.enabled g hg u (List.mem_filter.mp hu).1 hid

/-- A PATCH or DELETE. -/
theorem userCall (h : Mirrors L issued s) (call : UserCall) :
    Mirrors L issued (s.after (userAlone (call.request L s.now) s.db)
      fun _ => userEvents s.db call.userId call.op) := by
  obtain ⟨result, db, hrun, hresult⟩ := user_settles (call.request L s.now) s.db
  have halone : userAlone (call.request L s.now) s.db = (result, db) := by
    unfold userAlone
    rw [hrun]
  rw [halone]
  cases result with
  | error e => exact h.same hresult le_rfl
  | ok fields =>
    change (userEffect s.db call.userId call.op).SameAccounts db at hresult
    -- the accounts are those of `userEffect`
    refine same (s := ⟨userEffect s.db call.userId call.op, s.now,
      s.history ++ userEvents s.db call.userId call.op⟩) ?_ hresult le_rfl
    unfold userEffect userEvents
    rcases call.op with body | _
    · have hsame : Mirrors L issued ⟨s.db, s.now, s.history ++ []⟩ := by
        rw [List.append_nil]
        exact h
      rcases body with e | json
      · exact hsame
      · cases json with
        | obj payload =>
          dsimp only
          rcases hfetch : fetchUser s.db call.userId with _ | target
          · exact hsame
          · rcases validatedPatch payload with e | changed
            · exact hsame
            · have hid := id_of_fetchUser hfetch
              dsimp only
              rw [← hid]
              exact h.patched (by rw [hid, hfetch])
        | _ => exact hsame
    · rw [List.append_nil]
      exact h.deleted call.userId

end Mirrors

/-! ## Every run -/

/-- The tokens drawn for the logins of a run. -/
def issuedTokens (ops : List SessionOp) : List PyStr := ops.flatMap SessionOp.issues

/-- The tokens presented in a run. -/
def presentedTokens (ops : List SessionOp) : List PyStr := ops.flatMap SessionOp.presents

/-- Users of one row each, and no sessions. -/
structure SessionSystem.Start (s : SessionSystem) : Prop where
  /-- the primary key of `users` -/
  keys : (s.db.users.map UserRow.id).Nodup
  /-- no sessions yet -/
  sessions : s.db.sessions = []
  /-- nothing has happened -/
  history : s.history = []

section

variable {L : AuthLib} {ttl : ℚ} {s : SessionSystem}

theorem SessionSystem.Start.mirrors (h : s.Start) : Mirrors L [] s := by
  refine ⟨fun id user expires _ => ?_, h.keys, ?_, ?_⟩
  · rw [h.history]
    constructor
    · rintro ⟨row, hrow, -⟩
      rw [h.sessions] at hrow
      cases hrow
    · rintro ⟨g, hg, -⟩
      cases hg
  · rw [h.history]
    exact fun g hg => absurd hg List.not_mem_nil
  · rw [h.history]
    exact List.Sublist.refl _

/-- One step keeps the mirror. -/
theorem Mirrors.step {issued others : List PyStr} (h : Mirrors L issued s) {op : SessionOp}
    (hfree : CollisionFree L issued others) (hop : ∀ t ∈ op.presents, t ∈ others) :
    Mirrors L (issued ++ op.issues) (s.step L ttl op) := by
  cases op with
  | login r => exact h.login hfree fun t ht => hop t (Option.mem_toList.mpr ht)
  | logout r =>
    exact (h.logout hfree fun t ht => hop t (Option.mem_toList.mpr ht)).issues_more []
  | changePassword r salt =>
    exact (h.changePassword hfree fun t ht => hop t (Option.mem_toList.mpr ht)).issues_more []
  | revokeAll r =>
    exact (h.revokeAll hfree fun t ht => hop t (Option.mem_toList.mpr ht)).issues_more []
  | user call => exact (h.userCall call).issues_more []
  | wait seconds nonneg =>
    exact (h.same (Db.SameAccounts.refl _) (le_add_of_nonneg_right nonneg)).issues_more []

theorem SessionSystem.run_append (s : SessionSystem) (ops more : List SessionOp) :
    s.run L ttl (ops ++ more) = (s.run L ttl ops).run L ttl more := List.foldl_append

/-- A run keeps it. -/
theorem Mirrors.run (ttl : ℚ) {others : List PyStr} (more : List SessionOp) :
    ∀ {issued : List PyStr} {s : SessionSystem}, Mirrors L issued s →
      CollisionFree L (issued ++ issuedTokens more) others →
      (∀ t ∈ presentedTokens more, t ∈ others) →
      Mirrors L (issued ++ issuedTokens more) (s.run L ttl more) := by
  induction more with
  | nil =>
    intro issued s h _ _
    rw [issuedTokens, List.flatMap_nil, List.append_nil]
    exact h
  | cons op more ih =>
    intro issued s h hfree hothers
    have hsplit : issued ++ issuedTokens (op :: more) =
        (issued ++ op.issues) ++ issuedTokens more := by
      rw [issuedTokens, List.flatMap_cons, List.append_assoc, issuedTokens]
    rw [hsplit] at hfree ⊢
    have hnow : CollisionFree L issued others :=
      hfree.mono ((List.sublist_append_left _ _).trans (List.sublist_append_left _ _))
        fun t ht => List.mem_append_right _ ht
    refine ih (h.step hnow fun t ht => hothers t ?_) hfree fun t ht => hothers t ?_
    · exact List.mem_flatMap.mpr ⟨op, List.mem_cons_self .., ht⟩
    · obtain ⟨op', hop', ht⟩ := List.mem_flatMap.mp ht
      exact List.mem_flatMap.mpr ⟨op', List.mem_cons_of_mem op hop', ht⟩

/-- What only grows or shrinks in a run. -/
structure SessionSystem.Grows (s t : SessionSystem) : Prop where
  /-- the history grows -/
  history : ∃ es, t.history = s.history ++ es
  /-- time passes -/
  now : s.now ≤ t.now
  /-- no user is created -/
  users : ∀ id, t.db.HasUser id → s.db.HasUser id

theorem SessionSystem.Grows.trans {s t u : SessionSystem} (h : s.Grows t) (h' : t.Grows u) :
    s.Grows u := by
  obtain ⟨es, hes⟩ := h.history
  obtain ⟨es', hes'⟩ := h'.history
  refine ⟨⟨es ++ es', ?_⟩, h.now.trans h'.now, fun id hid => h.users id (h'.users id hid)⟩
  rw [hes', hes, List.append_assoc]

theorem SessionSystem.grows_after {ε α : Type} {outcome : Except ε α × Db}
    {events : α → List SessionEvent} (h : ∀ id, outcome.2.HasUser id → s.db.HasUser id) :
    s.Grows (s.after outcome events) := by
  rcases outcome with ⟨e | a, db⟩
  · exact ⟨⟨[], (List.append_nil _).symm⟩, le_rfl, h⟩
  · exact ⟨⟨events a, rfl⟩, le_rfl, h⟩

theorem Db.SameAccounts.hasUser {db db' : Db} (h : db.SameAccounts db') (id : PyStr) :
    db'.HasUser id ↔ db.HasUser id := by
  unfold Db.HasUser
  rw [h.users]

theorem hasUser_userEffect {db : Db} {userId id : PyStr} {op : UserOp}
    (h : (userEffect db userId op).HasUser id) : db.HasUser id := by
  have hupdate : ∀ changed, (db.updateUser userId changed).HasUser id → db.HasUser id := by
    rintro changed ⟨u, hu, rfl⟩
    obtain ⟨v, hv, rfl⟩ := List.mem_map.mp hu
    refine ⟨v, hv, ?_⟩
    split <;> rfl
  unfold userEffect at h
  split at h
  · obtain ⟨u, hu, hid⟩ := h
    exact ⟨u, (List.mem_filter.mp hu).1, hid⟩
  · split at h
    · split at h
      · exact hupdate _ h
      · exact hupdate _ h
    · exact h
  · exact h

theorem SessionSystem.grows_step (s : SessionSystem) (op : SessionOp) :
    s.Grows (s.step L ttl op) := by
  cases op with
  | login r =>
    refine grows_after fun id h => ?_
    rcases Auth.login_cases (L := L) ttl r s.now s.db with ⟨db, husers, hsessions, hout⟩ |
      ⟨email, password, user, -, -, -, -, hok⟩
    · refine ((Db.SameAccounts.mk husers.symm hsessions.symm).hasUser id).mp ?_
      rcases hout with ⟨e, he⟩ | ⟨retry, he⟩
      · rwa [he] at h
      · rwa [he] at h
    · rw [hok] at h
      have hsame := (Db.SameUsers.mapUser (Auth.issueSession L r ttl user.id s.now
        (Auth.rotateSession L r.toSessionRequest s.now s.db)) user.id
          (f := fun u => { u with lastLoginAt := some s.now }) fun _ => ⟨rfl, rfl⟩).hasUser id
      obtain ⟨u, hu, hid⟩ := hsame.mp h
      exact ⟨u, users_rotateSession L r.toSessionRequest s.now s.db ▸ hu, hid⟩
  | logout r =>
    refine grows_after fun id h => ?_
    rcases Auth.logout_cases (L := L) r s.now s.db with ⟨e, he⟩ | ⟨token, fields, entry, -, hok⟩
    · rwa [he] at h
    · rwa [hok] at h
  | changePassword r salt =>
    refine grows_after fun id h => ?_
    rcases Auth.changePassword_cases (L := L) r salt s.now s.db with ⟨e, he⟩ |
      ⟨token, user, current, new, fields, -, -, -, hok⟩
    · rwa [he] at h
    · rw [hok] at h
      refine ((Db.SameUsers.mapUser s.db user.id (f := fun u => { u with
        passwordHash := L.hashPassword new salt
        mustChange := false }) fun _ => ⟨rfl, rfl⟩).hasUser id).mp ?_
      unfold Auth.replacePassword at h
      dsimp only at h
      split at h <;> exact h
  | revokeAll r =>
    refine grows_after fun id h => ?_
    rcases Auth.revokeAll_cases (L := L) r s.now s.db with ⟨e, db, he, husers, hsessions⟩ |
      ⟨token, fields, entry, -, hok⟩
    · rw [he] at h
      exact ((Db.SameAccounts.mk husers.symm hsessions.symm).hasUser id).mp h
    · rwa [hok] at h
  | user call =>
    refine grows_after fun id h => ?_
    obtain ⟨result, db, hrun, hresult⟩ := user_settles (call.request L s.now) s.db
    unfold userAlone at h
    rw [hrun] at h
    cases result with
    | error e => exact (hresult.hasUser id).mp h
    | ok fields => exact hasUser_userEffect ((hresult.hasUser id).mp h)
  | wait seconds nonneg =>
    exact ⟨⟨[], (List.append_nil _).symm⟩, le_add_of_nonneg_right nonneg, fun _ h => h⟩

theorem SessionSystem.grows_run (more : List SessionOp) : ∀ s : SessionSystem,
    s.Grows (s.run L ttl more) := by
  induction more with
  | nil => exact fun s => ⟨⟨[], (List.append_nil _).symm⟩, le_rfl, fun _ h => h⟩
  | cons op more ih => exact fun s => (s.grows_step op).trans (ih _)

/-- `resolve_session` of this token, now, returns this user. -/
def SessionSystem.Resolves (L : AuthLib) (s : SessionSystem) (token user : PyStr) : Prop :=
  ∃ u, Auth.resolveToken L s.db token s.now = some u ∧ u.id = user

/-- A login of the user issued the token; it has not expired; the user is there and
enabled; and nothing has ended the session since. -/
def SessionSystem.Stands (s : SessionSystem) (token user : PyStr) : Prop :=
  ∃ pre expires post, s.history = pre ++ issued ⟨token, user, expires⟩ :: post ∧
    s.now < expires ∧ (∃ u ∈ s.db.users, u.id = user ∧ u.disabled = false) ∧
    ∀ e ∈ post, e.ends ⟨token, user, expires⟩ = false

theorem SessionSystem.stands_iff {s : SessionSystem} {token user : PyStr} :
    s.Stands token user ↔ ∃ g ∈ lifetimes.live s.history, g.token = token ∧ g.user = user ∧
      s.now < g.expires ∧ ∃ u ∈ s.db.users, u.id = user ∧ u.disabled = false := by
  simp only [Lifetimes.mem_live]
  constructor
  · rintro ⟨pre, expires, post, hh, hexp, huser, hout⟩
    exact ⟨⟨token, user, expires⟩, ⟨pre, _, post, hh, rfl, hout⟩, rfl, rfl, hexp, huser⟩
  · rintro ⟨g, ⟨pre, e, post, hh, hgrant, hout⟩, rfl, rfl, hexp, huser⟩
    cases e with
    | issued g' =>
      obtain rfl := Option.some.inj hgrant
      exact ⟨pre, g'.expires, post, hh, hexp, huser, hout⟩
    | _ => cases hgrant

/-- **The life of a session**, over every sequential run: a token resolves to a user
exactly while its session stands; and once an issued token has stopped resolving,
it never resolves again. -/
theorem session_lifecycle (hs : s.Start) {ops more : List SessionOp} {token : PyStr}
    (hfree : CollisionFree L (issuedTokens (ops ++ more))
      (token :: presentedTokens (ops ++ more))) :
    (∀ user, (s.run L ttl ops).Resolves L token user ↔ (s.run L ttl ops).Stands token user) ∧
      ((∃ g : Grant, g.token = token ∧ issued g ∈ (s.run L ttl ops).history) →
        (∀ user, ¬(s.run L ttl ops).Resolves L token user) →
        ∀ user, ¬(s.run L ttl (ops ++ more)).Resolves L token user) := by
  have hissued : issuedTokens (ops ++ more) = issuedTokens ops ++ issuedTokens more :=
    List.flatMap_append
  have hpresented : presentedTokens (ops ++ more) = presentedTokens ops ++ presentedTokens more :=
    List.flatMap_append
  have hfirst : CollisionFree L (issuedTokens ops) (token :: presentedTokens (ops ++ more)) :=
    hfree.mono (hissued ▸ List.sublist_append_left _ _) fun t ht => List.mem_append_right _ ht
  have htoken : ∀ l : List PyStr, token ∈ l ++ token :: presentedTokens (ops ++ more) :=
    fun l => List.mem_append_right _ (List.mem_cons_self ..)
  -- after either part the sessions mirror the tokens that were issued so far
  have hp : Mirrors L (issuedTokens ops) (s.run L ttl ops) := by
    have h := Mirrors.run ttl ops (hs.mirrors (L := L)) hfirst fun t ht =>
      List.mem_cons_of_mem _ (hpresented ▸ List.mem_append_left _ ht)
    exact h
  have hq : Mirrors L (issuedTokens (ops ++ more)) (s.run L ttl (ops ++ more)) := by
    have h := Mirrors.run ttl (ops ++ more) (hs.mirrors (L := L)) hfree fun t ht =>
      List.mem_cons_of_mem _ ht
    exact h
  have hiff : ∀ user, (s.run L ttl ops).Resolves L token user ↔
      (s.run L ttl ops).Stands token user := fun user =>
    (hp.resolves hfirst (htoken _) user).trans SessionSystem.stands_iff.symm
  refine ⟨hiff, ?_⟩
  rintro ⟨g₀, rfl, hg₀⟩ hdead user hres
  obtain ⟨g, hg, htok, rfl, hexp, u, hu, hid, -⟩ :=
    (hq.resolves hfree (htoken _) user).mp hres
  have hgrows : (s.run L ttl ops).Grows (s.run L ttl (ops ++ more)) := by
    rw [SessionSystem.run_append]
    exact SessionSystem.grows_run more _
  obtain ⟨es, hes⟩ := hgrows.history
  -- the token was issued once, so its grant is of the first part
  have hold : g ∈ lifetimes.live (s.run L ttl ops).history := by
    rw [hes, Lifetimes.mem_live_append] at hg
    rcases hg with ⟨hg, -⟩ | hg
    · exact hg
    · have hnodup := hfree.distinct.sublist hq.tokens
      rw [hes, Lifetimes.granted_append, List.map_append] at hnodup
      refine absurd htok.symm ((List.nodup_append.mp hnodup).2.2 g₀.token ?_ g.token ?_)
      · exact List.mem_map_of_mem (List.mem_filterMap.mpr ⟨_, hg₀, rfl⟩)
      · exact List.mem_map_of_mem ((Lifetimes.live_sublist es).subset hg)
  obtain ⟨v, hv, hvid⟩ := hgrows.users g.user ⟨u, hu, hid⟩
  exact hdead g.user ((hp.resolves hfirst (htoken _) g.user).mpr
    ⟨g, hold, htok, rfl, hgrows.now.trans_lt hexp, v, hv, hvid, hp.enabled g hold v hv hvid⟩)

end

/-- Digests and hashes that are the text itself. -/
def plainLib : AuthLib where
  digest := id
  hashMatches := fun password hash => decide (password = hash)
  hashPassword := fun password _ => password
  lower := id
  denyList := fun _ => false

/-- An owner and a viewer. -/
def ownerAndViewer : SessionSystem where
  db := { users := [
    ⟨py "o", py "o@x.y", [], .owner, py "owner password", 0, none, false, false⟩,
    ⟨py "v", py "v@x.y", [], .viewer, py "viewer password", 0, none, false, false⟩] }
  now := 0

/-- A login with this email and password. -/
def loginAs (email password token : String) : SessionOp := .login {
  body := .ok (.obj [(py "email", .str (py email)), (py "password", .str (py password))])
  token := py token }

/-- The owner disables or enables the viewer. -/
def setDisabled (disabled : Bool) : SessionOp := .user {
  cookie := py "T1"
  userId := py "v"
  op := .patch (.ok (.obj [(py "disabled", .bool disabled)])) }

/-- Both sign in, and the owner disables the viewer. -/
def viewerDisabled : List SessionOp :=
  [loginAs "o@x.y" "owner password" "T1", loginAs "v@x.y" "viewer password" "T2",
    setDisabled true]

/-- A disabled viewer's session stays dead when the viewer is enabled again. -/
theorem session_lifecycle_reenabled : ¬(ownerAndViewer.run plainLib 100
    (viewerDisabled ++ [setDisabled false])).Resolves plainLib (py "T2") (py "v") := by
  refine (session_lifecycle (L := plainLib) ⟨by decide +kernel, rfl, rfl⟩
    ⟨by decide +kernel, by decide +kernel, fun t _ u _ h => h⟩).2
      ⟨⟨py "T2", py "v", 100⟩, rfl, by decide +kernel⟩ ?_ (py "v")
  have hnone : Auth.resolveToken plainLib (ownerAndViewer.run plainLib 100 viewerDisabled).db
      (py "T2") (ownerAndViewer.run plainLib 100 viewerDisabled).now = none := by decide +kernel
  rintro user ⟨u, hu, -⟩
  rw [hnone] at hu
  cases hu

end LayaWatch
