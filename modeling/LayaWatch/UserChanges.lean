import LayaWatch.Mutations
import LayaWatch.Owners
import LayaWatch.SessionLifecycle

/-!
# Accepted and refused user changes

PATCH and DELETE of a user with no other request about. Before its first write a
request has passed all its guards (`Knows`), so what is refused has changed nothing but
the audit log, where it has left its one row, and what is accepted passed them on the
very table it changes (`user_change_sound`).
-/

namespace LayaWatch

open UserPoint

/-- The 403 of the permission table and of the guards. -/
def HttpError.isForbidden (e : HttpError) : Bool :=
  decide (e.status = 403) && decide (e.code = py "forbidden")

/-- What fails does so with another error. -/
def Unforbidden {α : Type} (x : Except HttpError α) : Prop :=
  ∀ e, x = .error e → e.isForbidden = false

section

variable {α β : Type}

theorem unforbidden_ok (a : α) : Unforbidden (.ok a) := nofun

theorem unforbidden_bad (field : PyStr) (message : List Piece) :
    Unforbidden (.error (.bad field message) : Except HttpError α) := by
  intro e he
  obtain rfl := Except.error.inj he
  rfl

theorem Unforbidden.bind {x : Except HttpError α} {f : α → Except HttpError β}
    (hx : Unforbidden x) (hf : ∀ a, Unforbidden (f a)) : Unforbidden (x >>= f) := by
  rcases x with e | a
  · intro e' he
    exact hx e' (congrArg Except.error (Except.error.inj he))
  · exact hf a

theorem Unforbidden.field {read : Json → Except HttpError α} (h : ∀ v, Unforbidden (read v))
    (field : PyStr) (payload : Fields) : Unforbidden (optionalField field read payload) := by
  unfold optionalField
  split
  · exact unforbidden_ok _
  · next value _ =>
    rcases hread : read value with e | a
    · intro e' he
      obtain rfl := Except.error.inj he
      exact h value e hread
    · exact unforbidden_ok _

end

theorem refuses_patch (payload : Fields) : Unforbidden (validatedPatch payload) := by
  have hflag : ∀ field v, Unforbidden (flagField field v) := by
    intro field v
    cases v with
    | bool b => exact unforbidden_ok b
    | null | int _ | float _ | str _ | arr _ | obj _ => exact unforbidden_bad _ _
  have hname : ∀ v, Unforbidden (nameField v) := by
    intro v
    cases v with
    | str s =>
      unfold nameField
      dsimp only
      split
      · exact unforbidden_bad _ _
      · exact unforbidden_ok _
    | null | bool _ | int _ | float _ | arr _ | obj _ => exact unforbidden_bad _ _
  have hrole : ∀ v, Unforbidden (roleField v) := by
    intro v
    unfold roleField
    dsimp only
    split
    · exact unforbidden_ok _
    · exact unforbidden_bad _ _
  unfold validatedPatch
  split
  · exact unforbidden_bad _ _
  · split
    · exact unforbidden_bad _ _
    · refine (Unforbidden.field hname _ _).bind fun name => ?_
      refine (Unforbidden.field hrole _ _).bind fun role => ?_
      refine (Unforbidden.field (hflag _) _ _).bind fun disabled => ?_
      exact (Unforbidden.field (hflag _) _ _).bind fun mustChange => unforbidden_ok _

/-- The user that a request acts for. -/
structure ActsFor (r : UserRequest) (db : Db) (who : Principal) (actor : UserRow) : Prop where
  /-- the session resolves to it -/
  resolved : resolveSession db r.session (r.clock 0) = some actor
  /-- it is the principal -/
  principal : who = ⟨actor.role, actor.email, actor.id⟩

/-- The variables of a PATCH are those of the request. -/
structure PatchOf (r : UserRequest) (db : Db) (p : Patching) : Prop where
  /-- who asks -/
  actor : ∃ actor, ActsFor r db p.who actor
  /-- for what -/
  payload : ∃ payload, r.op = .patch (.ok (.obj payload)) ∧
    validatedPatch payload = .ok p.changed
  /-- of someone who is found -/
  found : fetchUser db r.userId = some p.target

/-- `_guard_role_change` has passed. -/
structure RoleGuarded (db : Db) (p : Patching) : Prop where
  /-- it is not the own role -/
  self : roleChanged p = true → p.who.actorId ≠ p.target.id
  /-- it is not that of the last owner -/
  owner : roleChanged p = true → p.target.enabledOwner = true →
    enabledOwnerCount db (some p.target.id) ≠ 0

/-- The guard of a disable has passed. -/
def DisableGuarded (db : Db) (p : Patching) : Prop :=
  p.changed.disabled = some true → p.target.enabledOwner = true →
    enabledOwnerCount db (some p.target.id) ≠ 0

/-- All guards of a PATCH have passed. -/
structure PatchCleared (r : UserRequest) (db : Db) (p : Patching) : Prop where
  /-- it is the PATCH of the request -/
  patch : PatchOf r db p
  /-- the first guard -/
  role : RoleGuarded db p
  /-- the second -/
  disable : DisableGuarded db p

/-- The variables of a DELETE are those of the request. -/
structure DeleteOf (r : UserRequest) (db : Db) (who : Principal) (target : UserRow) : Prop where
  /-- who asks -/
  actor : ∃ actor, ActsFor r db who actor
  /-- for what -/
  delete : r.op = .delete
  /-- of someone else -/
  self : who.actorId ≠ target.id
  /-- who is found -/
  found : fetchUser db r.userId = some target

/-- All guards of a DELETE have passed. -/
structure DeleteCleared (r : UserRequest) (db : Db) (who : Principal) (target : UserRow) :
    Prop where
  /-- it is the DELETE of the request -/
  delete : DeleteOf r db who target
  /-- the guard -/
  owner : target.enabledOwner = true → enabledOwnerCount db (some target.id) ≠ 0

/-- The request has passed all its guards. -/
def ChangeCleared (r : UserRequest) (db : Db) : Prop :=
  (∃ p, PatchCleared r db p) ∨ ∃ who target, DeleteCleared r db who target

/-- One row was added to the audit log, of a refusal, and nothing else was changed. -/
def OneDenied (db db' : Db) : Prop :=
  ∃ entry : AuditEntry, entry.result = .denied ∧ db' = db.audit entry

/-- A failure, with what is committed by then. -/
def FailsSoundly (db db' : Db) : UserFailure → Prop
  | .http e => if e.isForbidden then OneDenied db db' else db' = db
  | .assertion => db' = db

/-- How a request ends, with what is committed. -/
def EndsSoundly (r : UserRequest) (db db' : Db) : Except UserFailure Fields → Prop
  | .ok _ => ChangeCleared r db
  | .error e => FailsSoundly db db' e

/-- What a request knows at each of its places: `db` is what it started from, `d` what is
committed, `v` what it sees. -/
def Knows (r : UserRequest) (db : Db) : UserPoint → Db → Db → Prop
  | authenticate, d, v => d = db ∧ v = db
  | fetch who plan, d, v => d = db ∧ v = db ∧ (∃ actor, ActsFor r db who actor) ∧
      match plan with
      | .patch payload => r.op = .patch (.ok (.obj payload))
      | .delete => r.op = .delete
  | guardRole p, d, v => d = db ∧ v = db ∧ PatchOf r db p ∧ p.who.actorId ≠ p.target.id
  | guardDisable p, d, v => d = db ∧ v = db ∧ PatchOf r db p ∧ RoleGuarded db p
  | update p, d, _ | auditRole p, d, _ | revokeRole p, d, _ | auditDisabled p, d, _
  | revokeDisabled p, d, _ => d = db ∧ PatchCleared r db p
  | refetch _, d, _ => d = db ∧ ChangeCleared r db
  | guardDelete who target, d, v => d = db ∧ v = db ∧ DeleteOf r db who target
  | delete who target, d, _ | auditDelete who target, d, _ =>
    d = db ∧ DeleteCleared r db who target
  | commitAll _, _, _ => ChangeCleared r db
  | deny entry e, d, v => d = db ∧ v = db ∧ entry.result = .denied ∧ e.isForbidden = true
  | commitDenied e, _, v => OneDenied db v ∧ e.isForbidden = true
  | closing result, d, _ | done result, d, _ => EndsSoundly r db d result

section

variable {r : UserRequest} {db : Db}

theorem knows_fail {e : HttpError} (h : e.isForbidden = false) (v : Db) :
    Knows r db (fail e) db v := by
  have hfails : FailsSoundly db db (.http e) := by
    simp only [FailsSoundly, h, Bool.false_eq_true, if_false]
  exact hfails

theorem knows_refuse {who : Principal} {action target reason : _} :
    Knows r db (refuse r who action target reason) db db := ⟨rfl, rfl, rfl, rfl⟩

theorem knows_gate {who : Principal} {action : Option PyStr} {plan : UserPlan}
    (h : Knows r db (fetch who plan) db db) : Knows r db (gate r who action plan) db db := by
  unfold UserPoint.gate
  split
  · exact h
  · exact ⟨rfl, rfl, rfl, rfl⟩

theorem knows_enter {user : UserRow} (hbody : ∀ e, r.op ≠ .patch (.error e))
    (h : resolveSession db r.session (r.clock 0) = some user) :
    Knows r db (enter r user) db db := by
  unfold UserPoint.enter
  split
  · exact knows_fail rfl _
  · split
    · exact knows_fail rfl _
    · split
      · next e hop => exact absurd hop (hbody e)
      · next hop => exact knows_gate ⟨rfl, rfl, ⟨user, h, rfl⟩, hop⟩
      · exact knows_fail rfl _
      · next hop => exact knows_gate ⟨rfl, rfl, ⟨user, h, rfl⟩, hop⟩

/-- Past the guard of the role. -/
theorem knows_afterRoleGuard {p : Patching} (hp : PatchOf r db p) (hrole : RoleGuarded db p) :
    Knows r db (afterRoleGuard p) db db := by
  unfold UserPoint.afterRoleGuard
  split
  · next hdis =>
    split
    · exact ⟨rfl, rfl, hp, hrole⟩
    · next howner => exact ⟨rfl, hp, hrole, fun _ h => absurd h howner⟩
  · next hdis =>
    refine ⟨rfl, hp, hrole, fun hdisable howner => absurd ⟨hdisable, ?_⟩ hdis⟩
    simpa [UserRow.enabledOwner] using (Bool.and_eq_true_iff.mp howner).2

theorem knows_applyUserUpdate {p : Patching} (hp : PatchOf r db p) :
    Knows r db (applyUserUpdate r p) db db := by
  unfold UserPoint.applyUserUpdate
  split
  · split
    · exact knows_refuse
    · next hself =>
      split
      · exact ⟨rfl, rfl, hp, hself⟩
      · next howner =>
        exact knows_afterRoleGuard hp ⟨fun _ => hself, fun _ h => absurd h howner⟩
  · next hsame =>
    exact knows_afterRoleGuard hp ⟨fun h => absurd h hsame, fun h => absurd h hsame⟩

theorem knows_deleteUser {who : Principal} {target : UserRow}
    (hactor : ∃ actor, ActsFor r db who actor) (hop : r.op = .delete)
    (hfound : fetchUser db r.userId = some target) :
    Knows r db (deleteUser r who target) db db := by
  unfold UserPoint.deleteUser
  split
  · exact knows_refuse
  · next hself =>
    have hdelete : DeleteOf r db who target := ⟨hactor, hop, hself, hfound⟩
    split
    · exact ⟨rfl, rfl, hdelete⟩
    · next howner => exact ⟨rfl, hdelete, fun h => absurd h howner⟩

/-- Every statement keeps what is known. -/
theorem knows_step (hbody : ∀ e, r.op ≠ .patch (.error e)) (p : UserPoint)
    (st : Wal.Stmt Db UserPoint) (d v : Db) (h : Knows r db p d v)
    (hcode : userCode r p = some st) : st.Keeps (Knows r db) d v := by
  cases p with
  | authenticate =>
    obtain ⟨rfl, rfl⟩ := h
    obtain rfl := Option.some.inj hcode
    unfold Wal.Stmt.Keeps
    dsimp only
    split
    · exact knows_fail rfl _
    · next hresolve => exact knows_enter hbody hresolve
  | fetch who plan =>
    obtain ⟨rfl, rfl, hactor, hplan⟩ := h
    obtain rfl := Option.some.inj hcode
    unfold Wal.Stmt.Keeps
    dsimp only
    split
    · exact knows_fail rfl _
    · next target payload hfound =>
      split
      · next e he => exact knows_fail (refuses_patch payload e he) _
      · next changed hchanged =>
        exact knows_applyUserUpdate ⟨hactor, ⟨payload, hplan, hchanged⟩, hfound⟩
    · next target hfound => exact knows_deleteUser hactor hplan hfound
  | guardRole p =>
    obtain ⟨rfl, rfl, hp, hself⟩ := h
    obtain rfl := Option.some.inj hcode
    unfold Wal.Stmt.Keeps
    dsimp only
    split
    · exact knows_refuse
    · next hcount => exact knows_afterRoleGuard hp ⟨fun _ => hself, fun _ _ => hcount⟩
  | guardDisable p =>
    obtain ⟨rfl, rfl, hp, hrole⟩ := h
    obtain rfl := Option.some.inj hcode
    unfold Wal.Stmt.Keeps
    dsimp only
    split
    · exact knows_refuse
    · next hcount => exact ⟨rfl, hp, hrole, fun _ _ => hcount⟩
  | update p =>
    obtain rfl := Option.some.inj hcode
    unfold Wal.Stmt.Keeps afterUpdate afterRole
    dsimp only
    split
    · exact h
    · split
      · exact h
      · exact ⟨h.1, Or.inl ⟨p, h.2⟩⟩
  | auditRole p =>
    obtain rfl := Option.some.inj hcode
    exact h
  | revokeRole p =>
    obtain rfl := Option.some.inj hcode
    unfold Wal.Stmt.Keeps afterRole
    dsimp only
    split
    · exact h
    · exact ⟨h.1, Or.inl ⟨p, h.2⟩⟩
  | auditDisabled p =>
    obtain rfl := Option.some.inj hcode
    unfold Wal.Stmt.Keeps afterAudit
    dsimp only
    split
    · exact h
    · exact ⟨h.1, Or.inl ⟨p, h.2⟩⟩
  | revokeDisabled p =>
    obtain rfl := Option.some.inj hcode
    exact ⟨h.1, Or.inl ⟨p, h.2⟩⟩
  | refetch target =>
    obtain ⟨rfl, hcleared⟩ := h
    obtain rfl := Option.some.inj hcode
    unfold Wal.Stmt.Keeps
    dsimp only
    split
    · exact (rfl : d = d)
    · exact hcleared
  | guardDelete who target =>
    obtain ⟨rfl, rfl, hdelete⟩ := h
    obtain rfl := Option.some.inj hcode
    unfold Wal.Stmt.Keeps
    dsimp only
    split
    · exact knows_refuse
    · next hcount => exact ⟨rfl, hdelete, fun _ => hcount⟩
  | delete who target =>
    obtain rfl := Option.some.inj hcode
    exact h
  | auditDelete who target =>
    obtain rfl := Option.some.inj hcode
    exact Or.inr ⟨who, target, h.2⟩
  | commitAll result =>
    obtain rfl := Option.some.inj hcode
    exact h
  | deny entry e =>
    obtain ⟨rfl, rfl, hdenied, he⟩ := h
    obtain rfl := Option.some.inj hcode
    exact ⟨⟨entry, hdenied, rfl⟩, he⟩
  | commitDenied e =>
    obtain ⟨hone, he⟩ := h
    obtain rfl := Option.some.inj hcode
    have hfails : FailsSoundly db v (.http e) := by
      simp only [FailsSoundly, he, if_true]
      exact hone
    exact hfails
  | closing result =>
    obtain rfl := Option.some.inj hcode
    exact h
  | done result => cases hcode

/-- A request by itself passes all its guards, or leaves one row in the audit log, or
nothing. -/
theorem userAlone_sound {result : Except UserFailure Fields} {d : Db}
    (halone : userAlone r db = (result, d)) (hbody : ∀ e, r.op ≠ .patch (.error e)) :
    EndsSoundly r db d result ∧
      ∀ fields, result = .ok fields → (userEffect db r.userId r.op).SameAccounts d := by
  obtain ⟨result', d', hrun, hresult⟩ := user_settles r db
  unfold userAlone at halone
  rw [hrun] at halone
  obtain ⟨rfl, rfl⟩ := Prod.mk.inj halone
  have hstart : Knows r db .authenticate db db := ⟨rfl, rfl⟩
  obtain ⟨_, hends⟩ := Wal.alone_keeps (knows_step hbody) hstart hrun
  refine ⟨hends, ?_⟩
  rintro fields rfl
  exact hresult

end

/-! ## What was accepted -/

/-- A PATCH that was accepted. -/
structure PatchSound (db db' : Db) (actor target : UserRow) (changed : UserPatch) : Prop where
  /-- the fields are set -/
  users : db'.users = (db.updateUser target.id changed).users
  /-- an enabled owner remains -/
  owner : HasOwner db'
  /-- the actor has the role it had -/
  actorRole : ∀ u ∈ db'.users, u.id = actor.id → u.role = actor.role
  /-- a change of role and a disable end the sessions -/
  revoked : changesRole target changed = true ∨
      disables changed = true ∧ target.disabled = false →
    ∀ s ∈ db'.sessions, s.userId = target.id → s.revoked = true

/-- A DELETE that was accepted. -/
structure DeleteSound (db db' : Db) (actor target : UserRow) : Prop where
  /-- the row is gone -/
  users : db'.users = (db.deleteUser target.id).users
  /-- an enabled owner remains -/
  owner : HasOwner db'
  /-- it is someone else's row -/
  other : target.id ≠ actor.id
  /-- the actor has the role it had -/
  actorRole : ∀ u ∈ db'.users, u.id = actor.id → u.role = actor.role

section

variable {r : UserRequest} {db db' : Db}

theorem hasOwner_congr (h : db'.users = db.users) : HasOwner db' ↔ HasOwner db := by
  unfold HasOwner enabledOwnerCount
  rw [h]

theorem ActsFor.mem {who : Principal} {actor : UserRow} (h : ActsFor r db who actor) :
    actor ∈ db.users := by
  obtain ⟨_, -, hu⟩ := Option.bind_eq_some_iff.mp h.resolved
  exact List.mem_of_find?_eq_some hu

/-- A PATCH that demotes an enabled owner has counted another one. -/
theorem PatchCleared.spared (hkeys : (db.users.map UserRow.id).Nodup) {p : Patching}
    (h : PatchCleared r db p) (hdemotes : p.changed.demotes = true) :
    OwnerSpared db p.target.id := by
  have hid := id_of_fetchUser h.patch.found
  rintro ⟨u, hu, huid, howner⟩
  rw [eq_of_fetchUser hkeys h.patch.found hu (huid.trans hid)] at howner
  unfold UserPatch.demotes at hdemotes
  rcases Bool.or_eq_true_iff.mp hdemotes with hrole | hdis
  · refine h.role.owner ?_ howner
    have hold := of_decide_eq_true (Bool.and_eq_true_iff.mp howner).1
    unfold roleChanged
    rcases hnew : p.changed.role with _ | role
    · rw [hnew] at hrole
      cases hrole
    · rw [hnew] at hrole
      rwa [hold]
  · exact h.disable (of_decide_eq_true hdis) howner

theorem PatchCleared.sound (hkeys : (db.users.map UserRow.id).Nodup) (howner : HasOwner db)
    {p : Patching} (h : PatchCleared r db p)
    (heffect : (userEffect db r.userId r.op).SameAccounts db') :
    ∃ actor, resolveSession db r.session (r.clock 0) = some actor ∧
      PatchSound db db' actor p.target p.changed := by
  obtain ⟨⟨⟨actor, hactor⟩, ⟨payload, hop, hvalid⟩, hfound⟩, hrole, hdisable⟩ := h
  have hid := id_of_fetchUser hfound
  have heq : userEffect db r.userId r.op =
      if changesRole p.target p.changed || disables p.changed && !p.target.disabled then
        (db.updateUser p.target.id p.changed).revokeSessions p.target.id
      else db.updateUser p.target.id p.changed := by
    rw [hop, userEffect, hfound, hvalid, hid]
  have husers : db'.users = (db.updateUser p.target.id p.changed).users := by
    rw [heffect.users.symm, heq]
    split <;> rfl
  refine ⟨actor, hactor.resolved, husers, ?_, ?_, ?_⟩
  · rw [hasOwner_congr husers, hasOwner_update_iff howner]
    exact PatchCleared.spared hkeys ⟨⟨⟨actor, hactor⟩, ⟨payload, hop, hvalid⟩, hfound⟩, hrole,
      hdisable⟩
  · rw [husers]
    intro u hu huid
    obtain ⟨v, hv, rfl⟩ := List.mem_map.mp hu
    have hvid : v.id = actor.id := by
      rw [← huid]
      split <;> rfl
    obtain rfl := List.inj_on_of_nodup_map hkeys hv hactor.mem hvid
    split
    · next htarget =>
      -- the own role is not among the changes
      have hself : p.who.actorId = p.target.id := by
        rw [hactor.principal]
        exact htarget
      have hsame : roleChanged p ≠ true := fun hc => hrole.self hc hself
      have hown : p.target.role = v.role :=
        congrArg UserRow.role (eq_of_fetchUser hkeys hfound hv (htarget.trans hid)).symm
      unfold roleChanged at hsame
      unfold UserPatch.apply
      rcases hnew : p.changed.role with _ | role
      · rfl
      · rw [hnew] at hsame
        have hno := of_decide_eq_false (Bool.eq_false_iff.mpr hsame)
        exact (not_not.mp hno).trans hown
    · rfl
  · intro hends s hs huser
    have hcond : (changesRole p.target p.changed || disables p.changed && !p.target.disabled) =
        true := by
      rcases hends with hc | ⟨hd, ht⟩
      · rw [hc]
        rfl
      · rw [hd, ht, Bool.or_comm]
        rfl
    rw [heffect.sessions.symm, heq, if_pos hcond] at hs
    obtain ⟨s', -, rfl⟩ := List.mem_map.mp hs
    split
    · rfl
    · next hnot =>
      have huser' : s'.userId = p.target.id := by
        rwa [if_neg hnot] at huser
      exact not_not.mp fun hlive => hnot ⟨huser', Bool.eq_false_iff.mpr hlive⟩

theorem DeleteCleared.sound (hkeys : (db.users.map UserRow.id).Nodup) (howner : HasOwner db)
    {who : Principal} {target : UserRow} (h : DeleteCleared r db who target)
    (heffect : (userEffect db r.userId r.op).SameAccounts db') :
    ∃ actor, resolveSession db r.session (r.clock 0) = some actor ∧
      DeleteSound db db' actor target := by
  obtain ⟨⟨⟨actor, hactor⟩, hop, hself, hfound⟩, hguard⟩ := h
  have hid := id_of_fetchUser hfound
  have husers : db'.users = (db.deleteUser target.id).users := by
    rw [heffect.users.symm, hop, hid]
    rfl
  refine ⟨actor, hactor.resolved, husers, ?_, ?_, ?_⟩
  · rw [hasOwner_congr husers, hasOwner_delete_iff howner]
    rintro ⟨u, hu, huid, hou⟩
    rw [eq_of_fetchUser hkeys hfound hu (huid.trans hid)] at hou
    exact hguard hou
  · rw [hactor.principal] at hself
    exact hself.symm
  · rw [husers]
    intro u hu huid
    obtain ⟨hu, -⟩ := List.mem_filter.mp hu
    rw [List.inj_on_of_nodup_map hkeys hu hactor.mem huid]

end

/-! ## The handlers -/

section

variable (A : AuthLib) (r : ApiRequest) (now : ℚ) (db db' : Db)

/-- The request is of the session of this user. -/
def AskedBy (actor : UserRow) : Prop :=
  ∃ token, r.cookie = some token ∧ Auth.resolveToken A db token now = some actor

/-- A PATCH was accepted, and what that did. -/
def PatchAccepted : Prop :=
  ∃ actor target payload changed, AskedBy A r now db actor ∧
    pathParts "/api/v1/users/" r.path = [target.id] ∧ fetchUser db target.id = some target ∧
    Auth.bodyObject r.toSessionRequest = .ok payload ∧ validatedPatch payload = .ok changed ∧
    PatchSound db db' actor target changed

/-- A DELETE was accepted, and what that did. -/
def DeleteAccepted : Prop :=
  ∃ actor target, AskedBy A r now db actor ∧
    pathParts "/api/v1/users/" r.path = [target.id] ∧ fetchUser db target.id = some target ∧
    DeleteSound db db' actor target

end

section

variable {A : AuthLib} {r : ApiRequest} {now : ℚ} {db : Db}

theorem FailsSoundly.same {e : HttpError} (h : e.isForbidden = false) :
    FailsSoundly db db (.http e) := by
  simp only [FailsSoundly, h, Bool.false_eq_true, if_false]

theorem enforce_knows (r : Auth.SessionRequest) (forced : Bool) :
    (Auth.enforceBrowserSession A r forced now).Ends db
      (fun cached t => t = db ∧ ∀ who, cached = some who → ∃ token user, r.cookie = some token ∧
        Auth.resolveToken A db token now = some user ∧ who = .session user (A.digest token))
      (fun e t => FailsSoundly db t (.http e)) := by
  unfold Auth.enforceBrowserSession Prog.Ends
  rcases r.cookie with _ | token
  · exact ⟨rfl, nofun⟩
  · dsimp only
    rcases hres : Auth.resolveToken A db token now with _ | user
    · exact FailsSoundly.same rfl
    · dsimp only
      split
      · next heq =>
        split at heq
        · cases heq
        · split at heq
          · cases heq
          · cases heq
            refine ⟨rfl, fun who hwho => ⟨token, user, rfl, hres, ?_⟩⟩
            exact (Option.some.inj hwho).symm
      · next heq =>
        split at heq
        · cases heq
          exact FailsSoundly.same rfl
        · split at heq
          · cases heq
            exact FailsSoundly.same rfl
          · cases heq

theorem gate_knows (r : Auth.SessionRequest) (cached : Option Auth.Caller) :
    (Auth.gate r cached).Ends db
      (fun who t => t = db ∧ (cached = some who ∨ ∃ key, who = .apiKey key))
      (fun e t => FailsSoundly db t (.http e)) := by
  rcases hcached : cached with _ | who
  · rcases hkey : r.apiKey with _ | key
    · unfold Auth.gate
      rw [hkey]
      exact Prog.Ends.raise (FailsSoundly.same rfl)
    · unfold Auth.gate
      rw [hkey]
      exact Prog.Ends.pure ⟨rfl, Or.inr ⟨key, rfl⟩⟩
  · exact Prog.Ends.pure ⟨rfl, Or.inl rfl⟩

theorem body_knows {r : Auth.SessionRequest} (hbody : Unforbidden r.body) :
    (Prog.lift (Auth.bodyObject r) : Auth.Handler Fields).Ends db
      (fun payload t => t = db ∧ Auth.bodyObject r = .ok payload)
      (fun e t => FailsSoundly db t (.http e)) := by
  refine Prog.Ends.lift (fun payload h => ⟨rfl, h⟩) fun e he => FailsSoundly.same ?_
  unfold Auth.bodyObject at he
  split at he
  · next e' hr =>
    obtain rfl := Except.error.inj he
    exact hbody _ hr
  · cases he
  · obtain rfl := Except.error.inj he
    rfl

/-- The permission table lets a request pass, or leaves the row of its refusal. -/
theorem permission_knows (who : Auth.Caller) (permission action : PyStr) (target : Option PyStr) :
    (Auth.requirePermission who permission action target now).Ends db
      (fun _ t => t = db ∧ roleAllows who.role permission = true)
      (fun e t => FailsSoundly db t (.http e)) := by
  unfold Auth.requirePermission
  split
  · next hallow => exact Prog.Ends.pure ⟨rfl, hallow⟩
  · exact ⟨_, rfl, rfl⟩

/-- A caller that may write users is a session. -/
theorem session_of_write {cached : Option Auth.Caller} {who : Auth.Caller}
    (hcached : ∀ who, cached = some who → ∃ token user, r.cookie = some token ∧
      Auth.resolveToken A db token now = some user ∧ who = .session user (A.digest token))
    (hwho : cached = some who ∨ ∃ key, who = .apiKey key)
    (hallow : roleAllows who.role (py "users.write") = true) :
    ∃ token user, r.cookie = some token ∧ Auth.resolveToken A db token now = some user ∧
      who = .session user (A.digest token) := by
  rcases hwho with h | ⟨key, rfl⟩
  · exact hcached who h
  · have hviewer : roleAllows .viewer (py "users.write") = false := by decide +kernel
    exact absurd hallow (Bool.eq_false_iff.mp hviewer)

theorem resolveSession_of_token {token : PyStr} {user : UserRow}
    (h : Auth.resolveToken A db token now = some user) :
    resolveSession db (A.digest token) now = some user := by
  unfold Auth.resolveToken at h
  split at h
  · cases h
  · exact h

/-- What `userRest` adds to the program of `Users`. -/
theorem userRest_ends {who : Auth.Caller} {userId : PyStr} {op : UserOp} {Q : Fields → Db → Prop}
    (hbody : ∀ e, op ≠ .patch (.error e))
    (hok : ∀ fields d, ChangeCleared ⟨who.sessionId.getD [], r.csrf, userId, op, fun _ => now⟩ db →
      (userEffect db userId op).SameAccounts d → Q fields d) :
    (userRest r.toSessionRequest who userId op now).Ends db Q
      (fun e t => FailsSoundly db t (.http e)) := by
  unfold userRest Prog.Ends
  dsimp only
  rcases hrun : userAlone ⟨who.sessionId.getD [], r.csrf, userId, op, fun _ => now⟩ db with
    ⟨result, d⟩
  obtain ⟨hends, heffect⟩ := userAlone_sound hrun hbody
  rcases result with (e | _) | fields
  · exact hends
  · obtain rfl : d = db := hends
    exact FailsSoundly.same rfl
  · exact hok fields d hends (heffect fields rfl)

end

/-- **What is refused changes nothing but the audit trail, and what is accepted is
sound.** -/
theorem user_change_sound (A : AuthLib) (r : ApiRequest) (now : ℚ) (db : Db)
    (hkeys : (db.users.map UserRow.id).Nodup) (howner : HasOwner db)
    (hbody : Unforbidden r.body) :
    (userWildcard A r now).Ends db (fun _ db' => PatchAccepted A r now db db')
        (fun e db' => FailsSoundly db db' (.http e)) ∧
      (deleteUserRoute A r now).Ends db (fun _ db' => DeleteAccepted A r now db db')
        (fun e db' => FailsSoundly db db' (.http e)) := by
  constructor
  · refine (enforce_knows r.toSessionRequest false).bind ?_
    rintro cached d ⟨rfl, hcached⟩
    split
    · next userId hpath =>
      split
      · exact Prog.Ends.raise (FailsSoundly.same rfl)
      · refine (body_knows hbody).bind ?_
        rintro payload t ⟨rfl, hpayload⟩
        refine (gate_knows r.toSessionRequest cached).bind ?_
        rintro who u ⟨rfl, hwho⟩
        refine (permission_knows who _ _ _).bind ?_
        rintro ⟨⟩ v ⟨rfl, hallow⟩
        -- only a session may write, so the caller is the one of the cookie
        obtain ⟨token, user, hcookie, hres, rfl⟩ := session_of_write hcached hwho hallow
        refine userRest_ends (fun e he => by cases he) ?_
        rintro fields db' (⟨p, hp⟩ | ⟨_, _, hdelete⟩) heffect
        · obtain ⟨actor, hactor, hsound⟩ := hp.sound hkeys howner heffect
          obtain ⟨payload', hop, hvalid⟩ := hp.patch.payload
          obtain rfl : payload = payload' := by cases hop; rfl
          have hid := id_of_fetchUser hp.patch.found
          refine ⟨actor, p.target, payload, p.changed, ⟨token, hcookie, ?_⟩, ?_, ?_, hpayload,
            hvalid, hsound⟩
          · exact hres.trans ((resolveSession_of_token hres).symm.trans hactor)
          · rw [hpath, hid]
          · rw [hid]
            exact hp.patch.found
        · exact absurd hdelete.delete.delete nofun
    · exact Prog.Ends.raise (FailsSoundly.same rfl)
  · refine (enforce_knows r.toSessionRequest false).bind ?_
    rintro cached d ⟨rfl, hcached⟩
    split
    · next userId hpath =>
      split
      · exact Prog.Ends.raise (FailsSoundly.same rfl)
      · unfold gated
        refine Prog.Ends.bind (P := fun who t => t = d ∧ ∃ token user, r.cookie = some token ∧
          Auth.resolveToken A d token now = some user ∧ who = .session user (A.digest token))
          ?_ ?_
        · refine (gate_knows r.toSessionRequest cached).bind ?_
          rintro who u ⟨rfl, hwho⟩
          refine (permission_knows who _ _ _).bind ?_
          rintro ⟨⟩ v ⟨rfl, hallow⟩
          exact Prog.Ends.pure ⟨rfl, session_of_write hcached hwho hallow⟩
        rintro who v ⟨rfl, token, user, hcookie, hres, rfl⟩
        refine userRest_ends nofun ?_
        rintro fields db' (⟨p, hp⟩ | ⟨who, target, hdelete⟩) heffect
        · obtain ⟨payload, hop, -⟩ := hp.patch.payload
          cases hop
        · obtain ⟨actor, hactor, hsound⟩ := hdelete.sound hkeys howner heffect
          have hid := id_of_fetchUser hdelete.delete.found
          refine ⟨actor, target, ⟨token, hcookie, ?_⟩, ?_, ?_, hsound⟩
          · exact hres.trans ((resolveSession_of_token hres).symm.trans hactor)
          · rw [hpath, hid]
          · rw [hid]
            exact hdelete.delete.found
    · exact Prog.Ends.raise (FailsSoundly.same rfl)

/-- One of two owners makes the other one a viewer. -/
def demoteOther : ApiRequest where
  cookie := some (py "sa")
  path := py "/api/v1/users/b"
  body := .ok (.obj [(py "role", .str (py "viewer"))])

theorem demoteOther_sound :
    PatchAccepted plainLib demoteOther 1 twoOwners
      (userWildcard plainLib demoteOther 1 twoOwners).2 := by
  have hok : (userWildcard plainLib demoteOther 1 twoOwners).1.isOk = true := by decide +kernel
  have howner : HasOwner twoOwners := by decide +kernel
  have hsound := (user_change_sound plainLib demoteOther 1 twoOwners (by decide +kernel) howner
    (unforbidden_ok _)).1
  rcases hrun : userWildcard plainLib demoteOther 1 twoOwners with ⟨e | fields, db⟩
  · rw [hrun] at hok
    cases hok
  · exact hsound.ok hrun

end LayaWatch
