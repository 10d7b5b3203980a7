import LayaWatch.Users

/-!
# Does an enabled owner always remain?

A request counts the other enabled owners before its transaction starts and takes
the write lock only with its `UPDATE` or `DELETE`. What is written is safe exactly
when the guard would still pass on the table it is written to
(`hasOwner_update_iff`, `hasOwner_delete_iff`), which it does when nothing was
committed since the request read (`stillGuarded_of_reads`). As long as every write
of a run is so guarded, an enabled owner remains (`owner_remains`); two owners who
demote each other at the same time are both let through
(`owners_demote_each_other`).
-/

namespace LayaWatch

open UserPoint

/-! ## Owners -/

/-- Some enabled owner exists. -/
def HasOwner (db : Db) : Prop := enabledOwnerCount db none ≠ 0

instance (db : Db) : Decidable (HasOwner db) := inferInstanceAs (Decidable (_ ≠ _))

theorem hasOwner_iff {db : Db} : HasOwner db ↔ ∃ u ∈ db.users, u.enabledOwner = true := by
  unfold HasOwner enabledOwnerCount
  rw [← Nat.pos_iff_ne_zero, List.countP_pos_iff]
  simp

theorem otherOwner_iff {db : Db} {id : PyStr} : enabledOwnerCount db (some id) ≠ 0 ↔
    ∃ u ∈ db.users, u.enabledOwner = true ∧ u.id ≠ id := by
  unfold enabledOwnerCount
  rw [← Nat.pos_iff_ne_zero, List.countP_pos_iff]
  simp

/-- The change takes an enabled owner's role or status away. -/
def UserPatch.demotes (changed : UserPatch) : Bool :=
  (match changed.role with
  | some role => decide (role ≠ .owner)
  | none => false) || decide (changed.disabled = some true)

theorem UserPatch.enabledOwner_apply {changed : UserPatch} {user : UserRow}
    (h : user.enabledOwner = true) :
    (changed.apply user).enabledOwner = !changed.demotes := by
  obtain ⟨hrole, hdisabled⟩ := Bool.and_eq_true_iff.mp h
  have hrole := of_decide_eq_true hrole
  rcases changed with ⟨name, _ | role, _ | _ | _, mustChange⟩ <;>
    simp_all [UserPatch.apply, UserRow.enabledOwner, UserPatch.demotes]

theorem UserPatch.not_enabledOwner_apply {changed : UserPatch} {user : UserRow}
    (h : changed.demotes = true) : (changed.apply user).enabledOwner = false := by
  rcases changed with ⟨name, _ | role, _ | _ | _, mustChange⟩ <;>
    simp_all [UserPatch.apply, UserRow.enabledOwner, UserPatch.demotes]

/-- `_guard_last_owner`, asked of the table as it is: if the row is an enabled
owner, there is another one. -/
def OwnerSpared (db : Db) (id : PyStr) : Prop :=
  (∃ u ∈ db.users, u.id = id ∧ u.enabledOwner = true) → enabledOwnerCount db (some id) ≠ 0

instance (db : Db) (id : PyStr) : Decidable (OwnerSpared db id) :=
  inferInstanceAs (Decidable (_ → _))

/-- When the row is spared, an owner with another id remains. -/
theorem OwnerSpared.other {db : Db} {id : PyStr} (h : OwnerSpared db id) (howner : HasOwner db) :
    ∃ u ∈ db.users, u.enabledOwner = true ∧ u.id ≠ id := by
  obtain ⟨u, hu, hou⟩ := hasOwner_iff.mp howner
  by_cases hid : u.id = id
  · exact otherOwner_iff.mp (h ⟨u, hu, hid, hou⟩)
  · exact ⟨u, hu, hou, hid⟩

/-- An `UPDATE` leaves an enabled owner exactly when the guard passes on the table
it changes. -/
theorem hasOwner_update_iff {db : Db} (howner : HasOwner db) (id : PyStr) (changed : UserPatch) :
    HasOwner (db.updateUser id changed) ↔ (changed.demotes = true → OwnerSpared db id) := by
  constructor
  · intro h hdemotes _
    obtain ⟨v, hv, hov⟩ := hasOwner_iff.mp h
    obtain ⟨u, hu, rfl⟩ := List.mem_map.mp hv
    refine otherOwner_iff.mpr ⟨u, hu, ?_⟩
    by_cases hid : u.id = id
    · rw [if_pos hid, UserPatch.not_enabledOwner_apply hdemotes] at hov
      cases hov
    · rw [if_neg hid] at hov
      exact ⟨hov, hid⟩
  · intro h
    by_cases hdemotes : changed.demotes = true
    · obtain ⟨u, hu, hou, hid⟩ := (h hdemotes).other howner
      exact hasOwner_iff.mpr ⟨u, List.mem_map.mpr ⟨u, hu, if_neg hid⟩, hou⟩
    · obtain ⟨u, hu, hou⟩ := hasOwner_iff.mp howner
      refine hasOwner_iff.mpr ⟨_, List.mem_map_of_mem hu, ?_⟩
      by_cases hid : u.id = id
      · rw [if_pos hid, UserPatch.enabledOwner_apply hou, Bool.eq_false_iff.mpr hdemotes]
        rfl
      · rwa [if_neg hid]

/-- So does a `DELETE`. -/
theorem hasOwner_delete_iff {db : Db} (howner : HasOwner db) (id : PyStr) :
    HasOwner (db.deleteUser id) ↔ OwnerSpared db id := by
  constructor
  · intro h _
    obtain ⟨u, hu, hou⟩ := hasOwner_iff.mp h
    obtain ⟨hu, hid⟩ := List.mem_filter.mp hu
    exact otherOwner_iff.mpr ⟨u, hu, hou, of_decide_eq_true hid⟩
  · intro h
    obtain ⟨u, hu, hou, hid⟩ := h.other howner
    exact hasOwner_iff.mpr ⟨u, List.mem_filter.mpr ⟨hu, decide_eq_true hid⟩, hou⟩

/-! ## Guarded writes -/

/-- The guard of a write still passes on the table it is about to change. -/
def StillGuarded (db : Db) (_env : Unit) (p : UserPc) : Prop :=
  match p.point with
  | .update q => q.changed.demotes = true → OwnerSpared db q.target.id
  | .delete _ target => OwnerSpared db target.id
  | _ => True

instance (db : Db) (env : Unit) (p : UserPc) : Decidable (StillGuarded db env p) :=
  match p with
  | ⟨_, .update _⟩ => inferInstanceAs (Decidable (_ → _))
  | ⟨_, .delete _ _⟩ => inferInstanceAs (Decidable (OwnerSpared _ _))
  | ⟨_, .authenticate⟩ | ⟨_, .fetch ..⟩ | ⟨_, .guardRole _⟩ | ⟨_, .guardDisable _⟩
  | ⟨_, .auditRole _⟩ | ⟨_, .revokeRole _⟩ | ⟨_, .auditDisabled _⟩ | ⟨_, .revokeDisabled _⟩
  | ⟨_, .refetch _⟩ | ⟨_, .guardDelete ..⟩ | ⟨_, .auditDelete ..⟩ | ⟨_, .commitAll _⟩
  | ⟨_, .deny ..⟩ | ⟨_, .commitDenied _⟩ | ⟨_, .closing _⟩ | ⟨_, .done _⟩ => isTrue trivial

/-- The queries of a request, all answered by one database. -/
inductive Reads (r : UserRequest) (db : Db) : UserPoint → UserPoint → Prop
  /-- no query -/
  | refl (p : UserPoint) : Reads r db p p
  /-- a query first -/
  | select {p q : UserPoint} {k : Db → UserPoint} :
      userCode r p = some (.select k) → Reads r db (k db) q → Reads r db p q

/-- What a request knows of the database that has answered its queries so far. -/
def Fresh (db : Db) : UserPoint → Prop
  | .guardRole p | .guardDisable p => fetchUser db p.target.id = some p.target
  | .guardDelete _ target => fetchUser db target.id = some target
  | .update p => p.changed.demotes = true → OwnerSpared db p.target.id
  | .delete _ target => OwnerSpared db target.id
  | _ => True

section

variable {db : Db} {r : UserRequest}

theorem id_of_fetchUser {id : PyStr} {target : UserRow} (h : fetchUser db id = some target) :
    target.id = id := by
  have hfound := List.find?_some h
  exact of_decide_eq_true hfound

/-- `fetch_user` finds the only row of its id. -/
theorem eq_of_fetchUser (hkey : (db.users.map UserRow.id).Nodup) {id : PyStr} {target u : UserRow}
    (h : fetchUser db id = some target) (hu : u ∈ db.users) (hid : u.id = id) : u = target :=
  List.inj_on_of_nodup_map hkey hu (List.mem_of_find?_eq_some h)
    (hid.trans (id_of_fetchUser h).symm)

/-- No guard is needed where the row that was fetched is no enabled owner. -/
theorem spared_of_fetchUser (hkey : (db.users.map UserRow.id).Nodup) {target : UserRow}
    (h : fetchUser db target.id = some target) (hno : target.enabledOwner = false) :
    OwnerSpared db target.id := by
  rintro ⟨u, hu, hid, hou⟩
  rw [eq_of_fetchUser hkey h hu hid, hno] at hou
  cases hou

theorem fresh_gate (r : UserRequest) (who : Principal) (action : Option PyStr) (plan : UserPlan) :
    Fresh db (gate r who action plan) := by
  unfold gate
  split
  · trivial
  · trivial

theorem fresh_enter (r : UserRequest) (user : UserRow) : Fresh db (enter r user) := by
  unfold enter
  split
  · trivial
  · split
    · trivial
    · dsimp only
      split
      · trivial
      · exact fresh_gate r _ _ _
      · trivial
      · exact fresh_gate r _ _ _

theorem fresh_afterRoleGuard (hkey : (db.users.map UserRow.id).Nodup) {p : Patching}
    (h : fetchUser db p.target.id = some p.target)
    (hspared : roleChanged p = true → OwnerSpared db p.target.id) :
    Fresh db (afterRoleGuard p) := by
  unfold afterRoleGuard
  by_cases hno : p.target.enabledOwner = true
  · by_cases hdis : p.changed.disabled = some true ∧ p.target.disabled = false
    · rw [if_pos hdis, if_pos hno]
      exact h
    · rw [if_neg hdis]
      -- the target stays enabled, so what demotes it is its role
      intro hdemotes
      obtain ⟨hrole, hen⟩ := Bool.and_eq_true_iff.mp hno
      refine hspared ?_
      unfold UserPatch.demotes at hdemotes
      unfold roleChanged
      rcases Bool.or_eq_true_iff.mp hdemotes with hr | hd
      · rw [of_decide_eq_true hrole]
        exact hr
      · exact absurd ⟨of_decide_eq_true hd, by simpa using hen⟩ hdis
  · have hspared' := spared_of_fetchUser hkey h (Bool.eq_false_iff.mpr hno)
    rw [if_neg hno, ite_self]
    exact fun _ => hspared'

theorem fresh_applyUserUpdate (hkey : (db.users.map UserRow.id).Nodup) {p : Patching}
    (h : fetchUser db p.target.id = some p.target) : Fresh db (applyUserUpdate r p) := by
  unfold applyUserUpdate
  by_cases hrole : roleChanged p = true
  · rw [if_pos hrole]
    split
    · trivial
    · by_cases hno : p.target.enabledOwner = true
      · rw [if_pos hno]
        exact h
      · rw [if_neg hno]
        exact fresh_afterRoleGuard hkey h fun _ =>
          spared_of_fetchUser hkey h (Bool.eq_false_iff.mpr hno)
  · rw [if_neg hrole]
    exact fresh_afterRoleGuard hkey h fun hr => absurd hr hrole

theorem fresh_deleteUser (hkey : (db.users.map UserRow.id).Nodup) {who : Principal}
    {target : UserRow} (h : fetchUser db target.id = some target) :
    Fresh db (UserPoint.deleteUser r who target) := by
  unfold UserPoint.deleteUser
  split
  · trivial
  · by_cases hno : target.enabledOwner = true
    · rw [if_pos hno]
      exact h
    · rw [if_neg hno]
      exact spared_of_fetchUser hkey h (Bool.eq_false_iff.mpr hno)

/-- One more query answered by the same database. -/
theorem fresh_select (hkey : (db.users.map UserRow.id).Nodup) {p : UserPoint} {k : Db → UserPoint}
    (h : Fresh db p) (hcode : userCode r p = some (.select k)) : Fresh db (k db) := by
  cases p with
  | authenticate =>
    obtain rfl := Wal.Stmt.select.inj (Option.some.inj hcode)
    dsimp only
    split
    · trivial
    · exact fresh_enter r _
  | fetch who plan =>
    obtain rfl := Wal.Stmt.select.inj (Option.some.inj hcode)
    have hself : ∀ target, fetchUser db r.userId = some target →
        fetchUser db target.id = some target := fun target ht => by
      rw [id_of_fetchUser ht, ht]
    dsimp only
    split
    · trivial
    · rename_i target payload htarget
      split
      · trivial
      · exact fresh_applyUserUpdate hkey (hself target htarget)
    · rename_i target htarget
      exact fresh_deleteUser hkey (hself target htarget)
  | guardRole p =>
    obtain rfl := Wal.Stmt.select.inj (Option.some.inj hcode)
    dsimp only
    split
    · trivial
    · rename_i hother
      exact fresh_afterRoleGuard hkey h fun _ _ => hother
  | guardDisable p =>
    obtain rfl := Wal.Stmt.select.inj (Option.some.inj hcode)
    dsimp only
    split
    · trivial
    · rename_i hother
      exact fun _ _ => hother
  | guardDelete who target =>
    obtain rfl := Wal.Stmt.select.inj (Option.some.inj hcode)
    dsimp only
    split
    · trivial
    · rename_i hother
      exact fun _ => hother
  | refetch target =>
    obtain rfl := Wal.Stmt.select.inj (Option.some.inj hcode)
    dsimp only
    split
    · trivial
    · trivial
  | _ => cases hcode

/-- A request that nobody has overtaken since it fetched its target is guarded:
what it is about to write was checked on the table it writes to. -/
theorem stillGuarded_of_reads (hkey : (db.users.map UserRow.id).Nodup) {who : Principal}
    {plan : UserPlan} {p : UserPoint} (h : Reads r db (.fetch who plan) p) :
    StillGuarded db () ⟨r, p⟩ := by
  have hall : ∀ {p q : UserPoint}, Reads r db p q → Fresh db p → Fresh db q := by
    intro p q hread
    induction hread with
    | refl p => exact fun hp => hp
    | select hcode _ ih => exact fun hp => ih (fresh_select hkey hp hcode)
  have hfresh := hall h trivial
  cases p with
  | update q => exact hfresh
  | delete who target => exact hfresh
  | _ => trivial

end

/-- A guarded change of a request leaves an enabled owner. -/
theorem hasOwner_dml {db : Db} (howner : HasOwner db) {r : UserRequest} {point : UserPoint}
    {u : Db → Db} {k : Db → UserPoint} (hcode : userCode r point = some (.dml u k))
    (hok : StillGuarded db () ⟨r, point⟩) : HasOwner (u db) := by
  cases point with
  | update p =>
    obtain ⟨rfl, -⟩ := Wal.Stmt.dml.inj (Option.some.inj hcode)
    exact (hasOwner_update_iff howner p.target.id p.changed).mpr hok
  | delete who target =>
    obtain ⟨rfl, -⟩ := Wal.Stmt.dml.inj (Option.some.inj hcode)
    exact (hasOwner_delete_iff howner target.id).mpr hok
  | auditRole _ | revokeRole _ | auditDisabled _ | revokeDisabled _ | auditDelete _ _ | deny _ _ =>
    obtain ⟨rfl, -⟩ := Wal.Stmt.dml.inj (Option.some.inj hcode)
    exact howner
  | _ => cases hcode

/-- The proof outline: an enabled owner exists, also inside every transaction. -/
def ownerDiscipline : Wal.Discipline userRequests StillGuarded where
  I db _ := HasOwner db
  Knows _ _ _ := True
  Grows _ _ := True
  trans _ _ := trivial
  stable _ _ := trivial
  start _ _ := trivial
  select _ _ _ _ := trivial
  dml hI _ hcode hok := by
    obtain ⟨k, hpoint, -⟩ := Wal.Stmt.map_eq_dml hcode
    exact ⟨hasOwner_dml hI hpoint hok, trivial, trivial⟩
  commit _ _ _ := trivial
  rollback _ _ := trivial
  ext {x} _ _ := x.elim

/-- **An enabled owner remains where the guards still hold.** From any table with
an enabled owner, through every interleaving in which each write is still guarded
when it takes the lock, every committed state has an enabled owner. -/
theorem owner_remains {db : Db} (howner : HasOwner db) {t : UserWorld}
    {es : List (Machine.Event UserWorld (Wal.Act UserPc Empty))}
    (hrun : (userRequests.machine (· = UserWorld.idle db)).Run (UserWorld.idle db) es t)
    (hok : ∀ e ∈ es, Wal.Allowed StillGuarded e.pre e.act) :
    HasOwner t.disk ∧ ∀ e ∈ es, HasOwner e.pre.disk ∧ HasOwner e.post.disk := by
  have hstart : ownerDiscipline.outline.Holds (UserWorld.idle db) :=
    ⟨howner, fun i p hp => (by cases hp), fun j w hw => (by cases hw)⟩
  obtain ⟨hend, hall⟩ := ownerDiscipline.outline.sound hrun hstart hok
  exact ⟨hend.inv, fun e he => ⟨(hall e he).1.inv, (hall e he).2.inv⟩⟩

/-! ## Two owners -/

/-- A user row. -/
def userRow (id : String) (role : Role) : UserRow :=
  ⟨py id, py id, py id, role, [], 0, none, false, false⟩

/-- Two enabled owners, each with a session. -/
def twoOwners : Db :=
  { users := [userRow "a" .owner, userRow "b" .owner]
    sessions := [⟨py "sa", py "a", 0, 100, 0, none, none, false⟩,
      ⟨py "sb", py "b", 0, 100, 0, none, none, false⟩] }

/-- One of them makes another user a viewer. -/
def makeViewer (session userId : String) : Wal.Act UserPc Empty :=
  .connect ⟨⟨py session, true, py userId,
    .patch (.ok (.obj [(py "role", .str (py "viewer"))])), fun _ => 1⟩, .authenticate⟩

/-- Both make the other one a viewer; both count before either writes. -/
def demoteEachOther : List (Wal.Act UserPc Empty) :=
  [makeViewer "sa" "b", makeViewer "sb" "a"] ++ List.replicate 3 (.stmt 0) ++
    List.replicate 3 (.stmt 1) ++ List.replicate 6 (.stmt 0) ++ List.replicate 6 (.stmt 1)

/-- Then no enabled owner is left. -/
theorem owners_demote_each_other : HasOwner twoOwners ∧ ∃ es t,
    (userRequests.machine (· = UserWorld.idle twoOwners)).Run (UserWorld.idle twoOwners) es t ∧
    ¬HasOwner t.disk := by
  refine ⟨by decide, ?_⟩
  have hend : ((userRequests.machine (· = UserWorld.idle twoOwners)).exec
      (UserWorld.idle twoOwners) demoteEachOther).any (fun t =>
        decide (t.txn.isNone = true ∧ ¬HasOwner t.disk)) = true := by
    decide +kernel
  obtain ⟨t, hexec, ht⟩ := (Option.any_eq_true _ _).mp hend
  obtain ⟨es, hrun, -⟩ := Machine.Run.of_exec hexec
  exact ⟨es, t, hrun, (of_decide_eq_true ht).2⟩

/-- One after the other: the second request finds its session revoked. -/
def demoteInTurn : List (Wal.Act UserPc Empty) :=
  makeViewer "sa" "b" :: List.replicate 9 (.stmt 0) ++
    makeViewer "sb" "a" :: List.replicate 2 (.stmt 1)

/-- Then one of them stays an owner. -/
theorem owners_demote_in_turn : ∃ t : UserWorld, HasOwner t.disk ∧
    enabledOwnerCount t.disk none = 1 := by
  have hend : ((userRequests.machine (· = UserWorld.idle twoOwners)).execOk
      (Wal.Allowed StillGuarded) (UserWorld.idle twoOwners) demoteInTurn).any (fun t =>
        decide (enabledOwnerCount t.disk none = 1)) = true := by
    decide +kernel
  obtain ⟨t, hexec, ht⟩ := (Option.any_eq_true _ _).mp hend
  obtain ⟨es, hrun, hok⟩ := Machine.Run.of_execOk hexec
  exact ⟨t, (owner_remains (by decide) hrun hok).1, of_decide_eq_true ht⟩

end LayaWatch
