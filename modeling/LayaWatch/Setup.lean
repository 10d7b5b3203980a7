import LayaWatch.Permissions

/-!
# The first run

`setup` and `_bootstrap_owner` of `api/auth.py`, which create the first owner. A setup takes
the write lock before it looks whether there are users, so of any number of setups at most
one succeeds (`first_owner`); beside them run the requests of `Users`, as long as their guards
hold, and the other handlers. Where two owners delete each other, setup is open once more
(`setup_reopens`).

A run starts as a server does, with `_bootstrap_owner`.
-/

namespace LayaWatch

open Auth

/-! ## The first owner -/

/-- What a setup checks before it connects. -/
structure OwnerForm where
  /-- `email` -/
  email : PyStr
  /-- `name` -/
  name : PyStr
  /-- `password` -/
  password : PyStr

/-- An owner to be created, with what the process draws. -/
structure OwnerTask extends OwnerForm where
  /-- `secrets.token_hex(8)` -/
  userId : PyStr
  /-- the salt of the hash -/
  salt : PyStr
  /-- the clock of `insert_user` -/
  createdAt : ℚ
  /-- the clock of `audit` -/
  auditedAt : ℚ

section

variable (A : AuthLib)

/-- `setup`, up to its connection. -/
def setupForm (r : SessionRequest) : Except HttpError OwnerForm := do
  let payload ← bodyObject r
  let email ← match payload.get (py "email") with
    | some (.str email) => normalizeEmail A email
    | _ => .error (.bad (py "email") [.text (py "email is required")])
  let name ← nameField ((payload.get (py "name")).getD .null)
  let password ← textField "password" "'password' is required" payload
  match policyError A email password with
  | some reason => .error (.bad (py "password") [.str reason])
  | none => .ok ⟨email, name, password⟩

namespace OwnerTask

variable (task : OwnerTask)

/-- The row of the owner. -/
def row : UserRow where
  id := task.userId
  email := task.email
  name := task.name
  role := .owner
  passwordHash := A.hashPassword task.password task.salt
  createdAt := task.createdAt

/-- The password can be hashed, and the row bound. -/
def encodable : Bool := task.email.encodable && task.name.encodable && task.password.encodable

/-- The `meta` of its audit row. -/
def metadata (via : String) : Fields :=
  [(py "email", .str task.email), (py "role", .str Role.owner.name), (py "via", .str (py via))]

/-- The audit row of a setup. -/
def setupEntry : AuditEntry where
  ts := task.auditedAt
  actorId := some task.userId
  actor := task.email
  action := py "user.created"
  target := some task.userId
  metadata := some (task.metadata "setup")

/-- The audit row of `_bootstrap_owner`. -/
def bootstrapEntry : AuditEntry where
  ts := task.auditedAt
  actorId := none
  actor := py "system"
  action := py "user.created"
  target := some task.userId
  metadata := some (task.metadata "bootstrap_owner")

/-- `insert_user`; none when the email or the id is taken. -/
def insert (db : Db) : Option Db :=
  if db.users.any fun u => decide (u.email = task.email) || decide (u.id = task.userId) then none
  else some { db with users := db.users ++ [task.row A] }

end OwnerTask

/-- The owner that `LAYWATCH_BOOTSTRAP_OWNER` spells; none when it is rejected. -/
def bootstrapForm (spec : PyStr) : Option OwnerForm :=
  let colon := CodePoint.ofChar ':'
  let emailRaw := spec.takeWhile (· ≠ colon)
  let password := (spec.dropWhile (· ≠ colon)).tail
  if !spec.contains colon || (PyStr.strip emailRaw).isEmpty || password.isEmpty then none
  else
    match normalizeEmail A emailRaw with
    | .error _ => none
    | .ok email =>
      match policyError A email password with
      | some _ => none
      | none => some ⟨email, email.takeWhile (· ≠ CodePoint.ofChar '@'), password⟩

/-- `_bootstrap_owner`, with what the process draws for the form; none when it raises, and
there is no server. -/
def bootstrapOwner (spec : PyStr) (draw : OwnerForm → OwnerTask) (db : Db) : Option Db :=
  if spec.isEmpty || !db.users.isEmpty then some db
  else
    match bootstrapForm A spec with
    | none => some db
    | some form =>
      let task : OwnerTask := { draw form with toOwnerForm := form }
      if task.encodable then (task.insert A db).map (Db.audit task.bootstrapEntry) else none

end

/-! ## Setups as programs -/

/-- The places between two statements of a setup. -/
inductive SetupPoint where
  /-- before `BEGIN IMMEDIATE` -/
  | begin
  /-- before `SELECT 1 FROM users` -/
  | lookup
  /-- before the `INSERT` -/
  | insert
  /-- before the audit row -/
  | auditCreated
  /-- before the commit -/
  | commitAll
  /-- `finally: conn.close()`, which rolls back what is open -/
  | closing (result : Except HttpError Fields)
  /-- the response is on its way -/
  | done (result : Except HttpError Fields)

/-- The refusal of a setup that comes late. -/
def setupClosed : HttpError := .plain 403 "setup_closed" "setup has already been completed"

/-- The refusal of `insert_user`. -/
def emailTaken : HttpError := .plain 409 "email_taken" "a user with that email already exists"

/-- The next statement of a setup. -/
def setupCode (A : AuthLib) (task : OwnerTask) : SetupPoint → Option (Wal.Stmt Db SetupPoint)
  -- the lock is taken, and nothing is changed
  | .begin => some (.dml id fun _ => .lookup)
  | .lookup => some (.select fun db =>
      if !db.users.isEmpty then .closing (.error setupClosed)
      else if task.encodable then .insert
      else .closing (.error .unhandled))
  | .insert => some (.dml (fun db => (task.insert A db).getD db) fun db =>
      if (task.insert A db).isSome then .auditCreated else .closing (.error emailTaken))
  | .auditCreated => some (.dml (Db.audit task.setupEntry) fun _ => .commitAll)
  | .commitAll => some (.commit (.closing (.ok (userPayload (task.row A)))))
  | .closing result => some (.rollback (.done result))
  | .done _ => none

/-- Where a connection is. -/
inductive FirstRunPc where
  /-- a setup -/
  | setup (task : OwnerTask) (point : SetupPoint)
  /-- a PATCH or DELETE of a user -/
  | user (pc : UserPc)

/-- What another handler commits: it takes no last owner away, and creates no first user. -/
structure OtherWrite where
  /-- the change -/
  change : Db → Db
  /-- an enabled owner remains -/
  owned : ∀ {db : Db}, HasOwner db → HasOwner (change db)
  /-- who creates a user is one -/
  barred : ∀ {db : Db}, db.users = [] → (change db).users = []

/-- Setups and requests of user management beside each other, and the other handlers. -/
def firstRun (A : AuthLib) : Wal.Client Db Unit FirstRunPc OtherWrite where
  code
    | .setup task point => (setupCode A task point).map (Wal.Stmt.map (.setup task))
    | .user pc => (userRequests.code pc).map (Wal.Stmt.map .user)
  start
    | .setup _ .begin => true
    | .setup _ _ => false
    | .user pc => userRequests.start pc
  ext write db _ := some (write.change db, ())

/-- A world of them. -/
abbrev FirstRunWorld : Type := Wal.World Db Unit FirstRunPc

/-- No request yet. -/
def FirstRunWorld.idle (db : Db) : FirstRunWorld := ⟨db, (), none, []⟩

/-- What the step commits as a setup: on which connection, and whose. -/
def setupCommits (s : FirstRunWorld) : Wal.Act FirstRunPc OtherWrite → List (ℕ × OwnerTask)
  | .stmt i =>
    match Wal.Client.pcOf s i, s.txn with
    | some (.setup task .commitAll), some (j, _) => if j = i then [(i, task)] else []
    | _, _ => []
  | _ => []

/-- The guard of a change of users still passes on the table it is about to change. -/
def GuardsHold (db : Db) (env : Unit) : FirstRunPc → Prop
  | .setup _ _ => True
  | .user pc => StillGuarded db env pc

instance (db : Db) (env : Unit) (pc : FirstRunPc) : Decidable (GuardsHold db env pc) :=
  match pc with
  | .setup _ _ => .isTrue trivial
  | .user pc => inferInstanceAs (Decidable (StillGuarded db env pc))

/-! ## Other handlers -/

section

variable {S : Services} {db : Db}

theorem rotateSession_users (A : AuthLib) (r : SessionRequest) (now : ℚ) (db : Db) :
    (rotateSession A r now db).users = db.users := by
  unfold rotateSession
  split
  · rfl
  · split <;> rfl

/-- Whatever is edited, with nobody having an account it is no account. -/
theorem Edit.users_empty {r : ApiRequest} {now : ℚ} {who : Caller} {edited : Db}
    (h : Edit who db edited) (hwho : r.AsksAs S now db who) (hempty : db.users = []) :
    edited.users = [] := by
  cases hwho with
  | session _ hres =>
    -- a session is somebody's
    unfold resolveToken at hres
    split at hres
    · cases hres
    · obtain ⟨session, -, huser⟩ := Option.bind_eq_some_iff.mp hres
      rw [hempty] at huser
      cases huser
  | key _ _ _ =>
    cases h with
    | logout hsession => cases hsession
    | password hash hsession => cases hsession
    | settings stored now _ _ _ =>
      rw [storeSettings_eq]
      exact hempty
    | accounts users sessions hallow _ =>
      have hviewer : roleAllows .viewer (py "users.write") = false := by decide +kernel
      cases hviewer.symm.trans hallow
    | _ => exact hempty

/-- **Where nobody has an account, no handler creates one.** -/
theorem users_empty_serve (hempty : db.users = []) (call : ApiCall) :
    (call.serve S db).users = [] := by
  cases call with
  | login r now =>
    rw [serve_login]
    rcases login_ends (S := S) S.config.sessionTtl r now db with hsame | ⟨entry, hentry⟩ |
      ⟨user, ⟨-, huser, -, -⟩, -⟩
    · rw [hsame, hempty]
    · rw [hentry]
      exact hempty
    · rw [userByEmail, hempty] at huser
      cases huser
  | mutate m r now =>
    have hkeys : (db.users.map UserRow.id).Nodup := by
      rw [hempty]
      exact List.nodup_nil
    rw [serve_mutate]
    rcases serve_ends hkeys m r now with
      (⟨who, hwho, edited, entries, hedit, hview, -, -⟩ | ⟨-, hannotated⟩) |
        ⟨e, -, hsame | ⟨-, who, entry, -, -, hdenied⟩⟩
    · rw [hview]
      exact hedit.users_empty hwho hempty
    · generalize (m.serve S r now db).db = d at hannotated
      cases hannotated <;> exact hempty
    · rw [hsame, hempty]
    · rw [hdenied]
      exact hempty

/-- A login, as one of the other handlers. -/
def OtherWrite.login (S : Services) (r : LoginRequest) (now : ℚ) : OtherWrite where
  change := fun db => (ApiCall.login r now).serve S db
  owned {db} howner := by
    rw [serve_login]
    rcases login_ends (S := S) S.config.sessionTtl r now db with hsame | ⟨entry, hentry⟩ |
      ⟨user, -, hsigned⟩
    · rwa [hsame]
    · rw [hentry]
      exact howner
    · obtain ⟨u, hu, hou⟩ := hasOwner_iff.mp howner
      rw [hsigned, hasOwner_iff]
      have hmem : u ∈ (issueSession S.auth r S.config.sessionTtl user.id now
          (rotateSession S.auth r.toSessionRequest now db)).users := by
        rw [issueSession, rotateSession_users]
        exact hu
      refine ⟨_, List.mem_map_of_mem hmem, ?_⟩
      split <;> exact hou
  barred hempty := users_empty_serve hempty _

/-- The users of `w` are those of `d` and new ones. -/
def Enrolls (d w : Db) : Prop := d.users <+: w.users

instance : Std.Refl Enrolls := ⟨fun d => List.prefix_refl d.users⟩

instance : IsTrans Db Enrolls := ⟨fun _ _ _ h h' => h.trans h'⟩

/-- `gated`, for any relation that a row of the audit log respects. -/
theorem gated_enrolls (r : SessionRequest) (cached : Option Caller) (permission action : String)
    (target : Option PyStr) (now : ℚ) :
    (gated r cached permission action target now).Respects Enrolls := by
  have hgate : (gate r cached).Respects Enrolls := by
    unfold gate
    split
    · exact .pure _
    · exact .pure _
    · exact .raise _
  refine hgate.bind fun who => Prog.Respects.bind ?_ fun _ => .pure _
  unfold requirePermission
  split
  · exact .pure _
  · exact Prog.Respects.bind (.modify fun db => List.prefix_refl db.users) fun _ => .raise _

/-- `POST /api/v1/users` adds at most a user. -/
theorem createUser_enrolls (A : AuthLib) (r : SessionRequest) (userId salt : PyStr) (now : ℚ) :
    (createUser A r userId salt now).Respects Enrolls := by
  have henforce : (enforceBrowserSession A r false now).Respects Enrolls :=
    .of_ends fun db => (enforce_ends r false now db).mono
      (fun _ t h => h ▸ List.prefix_refl db.users) fun _ t h => h ▸ List.prefix_refl db.users
  refine henforce.bind fun cached => .bind (gated_enrolls _ _ _ _ _ _) fun who => ?_
  refine .bind (.lift _) fun form => .bind (.raiseIf _) fun _ => ?_
  refine .bind (.get _) fun taken => .bind (.raiseIf _) fun _ => ?_
  exact .bind (.modify fun db => List.prefix_append db.users _) fun _ => .pure _

theorem Enrolls.owned {d w : Db} (h : Enrolls d w) (howner : HasOwner d) : HasOwner w := by
  obtain ⟨u, hu, hou⟩ := hasOwner_iff.mp howner
  exact hasOwner_iff.mpr ⟨u, h.subset hu, hou⟩

/-- `POST /api/v1/users`, as one of the other handlers. -/
def OtherWrite.createUser (S : Services) (userId salt : PyStr) (r : ApiRequest) (now : ℚ) :
    OtherWrite where
  change := fun db => (ApiCall.mutate (.createUser userId salt) r now).serve S db
  owned {db} howner := by
    have hend : Enrolls db ((Mutation.createUser userId salt).serve S r now db).db := by
      unfold Mutation.serve Prog.serve
      have hresp := createUser_enrolls S.auth (r.verified S.keys now db).toSessionRequest userId
        salt now db
      generalize hrun : (Mutation.createUser userId salt).handler S (r.verified S.keys now db) now
        db = ended
      rw [show LayaWatch.createUser S.auth (r.verified S.keys now db).toSessionRequest userId salt
        now db = ended from hrun] at hresp
      rcases ended with ⟨e | fields, t⟩ <;> exact hresp
    exact hend.owned howner
  barred hempty := users_empty_serve hempty _

end

/-! ## The owner that a setup creates -/

/-- What a setup makes of a database without users. -/
def OwnerTask.installed (A : AuthLib) (task : OwnerTask) (db : Db) : Db :=
  ({ db with users := [task.row A] }).audit task.setupEntry

section

variable {A : AuthLib} {task : OwnerTask} {d w : Db}

theorem OwnerTask.insert_empty (h : d.users = []) :
    task.insert A d = some { d with users := [task.row A] } := by
  simp [OwnerTask.insert, h]

theorem hasOwner_installed : HasOwner (task.installed A d) :=
  hasOwner_iff.mpr ⟨task.row A, List.mem_singleton_self _, rfl⟩

theorem not_hasOwner_empty (h : d.users = []) : ¬HasOwner d := by
  rw [hasOwner_iff, h]
  rintro ⟨u, hu, -⟩
  cases hu

/-- A server starts from the database as it was, or from one with an owner that it did
not have. -/
theorem bootstrapOwner_cases {spec : PyStr} {draw : OwnerForm → OwnerTask}
    (h : bootstrapOwner A spec draw d = some w) : w = d ∨ d.users = [] ∧ HasOwner w := by
  unfold bootstrapOwner at h
  by_cases hskip : (spec.isEmpty || !d.users.isEmpty) = true
  · rw [if_pos hskip] at h
    exact Or.inl (Option.some.inj h).symm
  rw [if_neg hskip] at h
  have hempty : d.users = [] := by
    simp only [Bool.or_eq_true, not_or, Bool.not_eq_true, Bool.not_eq_false',
      List.isEmpty_iff] at hskip
    exact hskip.2
  rcases hform : bootstrapForm A spec with _ | form
  · rw [hform] at h
    exact Or.inl (Option.some.inj h).symm
  rw [hform] at h
  dsimp only at h
  split at h
  · rw [OwnerTask.insert_empty hempty] at h
    obtain rfl := Option.some.inj h
    exact Or.inr ⟨hempty, hasOwner_iff.mpr ⟨_, List.mem_singleton_self _, rfl⟩⟩
  · cases h

end

/-! ## The outline -/

/-- Nobody has an account, or there is an enabled owner. -/
def Manned (db : Db) : Prop := db.users = [] ∨ HasOwner db

/-- What guarded changes make of a database. -/
structure Carried (d w : Db) : Prop where
  /-- an enabled owner remains -/
  owned : HasOwner d → HasOwner w
  /-- nobody is created where nobody is -/
  barred : d.users = [] → w.users = []

theorem Carried.trans {a b c : Db} (h : Carried a b) (h' : Carried b c) : Carried a c :=
  ⟨fun ha => h'.owned (h.owned ha), fun ha => h'.barred (h.barred ha)⟩

theorem Carried.manned {d w : Db} (h : Carried d w) (hd : Manned d) : Manned w :=
  hd.imp h.barred h.owned

/-- A guarded change of a request of user management. -/
theorem carried_dml {db : Db} {r : UserRequest} {point : UserPoint} {u : Db → Db}
    {k : Db → UserPoint} (hcode : userCode r point = some (.dml u k))
    (hok : StillGuarded db () ⟨r, point⟩) : Carried db (u db) := by
  refine ⟨fun howner => hasOwner_dml howner hcode hok, fun hempty => ?_⟩
  cases point with
  | update p =>
    obtain ⟨rfl, -⟩ := Wal.Stmt.dml.inj (Option.some.inj hcode)
    simp [Db.updateUser, hempty]
  | delete who target =>
    obtain ⟨rfl, -⟩ := Wal.Stmt.dml.inj (Option.some.inj hcode)
    simp [Db.deleteUser, hempty]
  | auditRole _ | revokeRole _ | auditDisabled _ | revokeDisabled _ | auditDelete _ _ | deny _ _ =>
    obtain ⟨rfl, -⟩ := Wal.Stmt.dml.inj (Option.some.inj hcode)
    exact hempty
  | _ => cases hcode

section

variable (A : AuthLib) (task : OwnerTask)

/-- How a setup ends, `d` being committed. -/
def SetupEnds (d : Db) : Except HttpError Fields → Prop
  | .ok fields => HasOwner d ∧ fields = userPayload (task.row A)
  | .error e => e = setupClosed ∧ HasOwner d ∨ e = .unhandled ∧ task.encodable = false

/-- Outside of its transaction, a setup has not begun or is over. -/
def SetupKnows (d : Db) : SetupPoint → Prop
  | .begin => True
  | .closing result | .done result => SetupEnds A task d result
  | _ => False

/-- Inside, nobody has come before it, and its copy is what it has made of that. -/
def SetupHolds (d w : Db) : SetupPoint → Prop
  | .lookup => w = d
  | .insert => w = d ∧ d.users = []
  | .auditCreated => d.users = [] ∧ w = { d with users := [task.row A] }
  | .commitAll => d.users = [] ∧ w = task.installed A d
  | .closing (.error e) => SetupEnds A task d (.error e)
  | _ => False

end

section

variable {A : AuthLib} {task : OwnerTask} {d w : Db} {p : SetupPoint}

theorem SetupEnds.mono (hmono : HasOwner d → HasOwner w) {result : Except HttpError Fields}
    (h : SetupEnds A task d result) : SetupEnds A task w result := by
  rcases result with e | fields
  · exact h.imp (And.imp_right hmono) id
  · exact h.imp_left hmono

theorem SetupKnows.mono (hmono : HasOwner d → HasOwner w) (h : SetupKnows A task d p) :
    SetupKnows A task w p := by
  cases p with
  | closing result | done result => exact SetupEnds.mono hmono h
  | _ => exact h

/-- The query of a setup is made inside its transaction. -/
theorem setup_select {k : Db → SetupPoint} (hd : Manned d)
    (hcode : setupCode A task p = some (.select k)) (h : SetupHolds A task d w p) :
    SetupHolds A task d w (k w) := by
  cases p with
  | lookup =>
    obtain rfl := Wal.Stmt.select.inj (Option.some.inj hcode)
    obtain rfl : w = d := h
    dsimp only
    by_cases hempty : w.users = []
    · rw [if_neg (by simp [hempty])]
      by_cases hencodable : task.encodable = true
      · rw [if_pos hencodable]
        exact ⟨rfl, hempty⟩
      · rw [if_neg hencodable]
        exact Or.inr ⟨rfl, Bool.eq_false_iff.mpr hencodable⟩
    · rw [if_pos (by simpa using hempty)]
      exact Or.inl ⟨rfl, hd.resolve_left hempty⟩
  | _ => cases hcode

/-- Its first statement takes the lock. -/
theorem setup_begins {u : Db → Db} {k : Db → SetupPoint} (h : SetupKnows A task d p)
    (hcode : setupCode A task p = some (.dml u k)) : SetupHolds A task d (u d) (k d) := by
  cases p with
  | begin =>
    obtain ⟨rfl, rfl⟩ := Wal.Stmt.dml.inj (Option.some.inj hcode)
    exact rfl
  | insert | auditCreated => exact h.elim
  | _ => cases hcode

/-- Its others are the row and its audit row. -/
theorem setup_changes {u : Db → Db} {k : Db → SetupPoint} (h : SetupHolds A task d w p)
    (hcode : setupCode A task p = some (.dml u k)) : SetupHolds A task d (u w) (k w) := by
  cases p with
  | begin => exact h.elim
  | insert =>
    obtain ⟨rfl, rfl⟩ := Wal.Stmt.dml.inj (Option.some.inj hcode)
    obtain ⟨rfl, hempty⟩ : w = d ∧ d.users = [] := h
    dsimp only
    rw [OwnerTask.insert_empty hempty]
    exact ⟨hempty, rfl⟩
  | auditCreated =>
    obtain ⟨rfl, rfl⟩ := Wal.Stmt.dml.inj (Option.some.inj hcode)
    obtain ⟨hempty, rfl⟩ := h
    exact ⟨hempty, rfl⟩
  | _ => cases hcode

theorem setup_commit {k : SetupPoint} (hcode : setupCode A task p = some (.commit k)) :
    p = .commitAll ∧ k = .closing (.ok (userPayload (task.row A))) := by
  cases p with
  | commitAll => exact ⟨rfl, (Wal.Stmt.commit.inj (Option.some.inj hcode)).symm⟩
  | _ => cases hcode

theorem setup_rollback {k : SetupPoint} (hcode : setupCode A task p = some (.rollback k)) :
    ∃ result, p = .closing result ∧ k = .done result := by
  cases p with
  | closing result => exact ⟨result, rfl, (Wal.Stmt.rollback.inj (Option.some.inj hcode)).symm⟩
  | _ => cases hcode

end

/-- The outline: nobody has an account or there is an enabled owner, and a setup past its
lookup has found nobody. -/
def firstRunOutline (A : AuthLib) : Wal.Outline (firstRun A) GuardsHold where
  I d _ := Manned d
  J d _
    | .setup task p => SetupKnows A task d p
    | .user _ => True
  T d _ w
    | .setup task p => SetupHolds A task d w p
    | .user _ => Carried d w
  start {d e p} _ hstart := by
    cases p with
    | setup task p =>
      cases p with
      | begin => trivial
      | _ => cases hstart
    | user pc => trivial
  select {d e p k} _ hJ hcode _ := by
    cases p with
    | setup task p =>
      obtain ⟨k, hpoint, rfl⟩ := Wal.Stmt.map_eq_select hcode
      cases p with
      | lookup => exact hJ.elim
      | _ => cases hpoint
    | user pc =>
      obtain ⟨k, -, rfl⟩ := Wal.Stmt.map_eq_select hcode
      trivial
  selectTxn {d e w p k} hI hT hcode _ := by
    cases p with
    | setup task p =>
      obtain ⟨k, hpoint, rfl⟩ := Wal.Stmt.map_eq_select hcode
      exact setup_select hI hpoint hT
    | user pc =>
      obtain ⟨k, -, rfl⟩ := Wal.Stmt.map_eq_select hcode
      exact hT
  dml {d e p u k} _ hJ hcode hok := by
    cases p with
    | setup task p =>
      obtain ⟨k, hpoint, rfl⟩ := Wal.Stmt.map_eq_dml hcode
      exact setup_begins hJ hpoint
    | user pc =>
      obtain ⟨k, hpc, rfl⟩ := Wal.Stmt.map_eq_dml hcode
      obtain ⟨k, hpoint, rfl⟩ := Wal.Stmt.map_eq_dml hpc
      exact carried_dml hpoint hok
  dmlTxn {d e w p u k} _ hT hcode hok := by
    cases p with
    | setup task p =>
      obtain ⟨k, hpoint, rfl⟩ := Wal.Stmt.map_eq_dml hcode
      exact setup_changes hT hpoint
    | user pc =>
      obtain ⟨k, hpc, rfl⟩ := Wal.Stmt.map_eq_dml hcode
      obtain ⟨k, hpoint, rfl⟩ := Wal.Stmt.map_eq_dml hpc
      exact Carried.trans hT (carried_dml hpoint hok)
  commit {d e p k} _ hJ hcode := by
    cases p with
    | setup task p =>
      obtain ⟨k, hpoint, rfl⟩ := Wal.Stmt.map_eq_commit hcode
      obtain ⟨rfl, rfl⟩ := setup_commit hpoint
      exact hJ.elim
    | user pc =>
      obtain ⟨k, -, rfl⟩ := Wal.Stmt.map_eq_commit hcode
      trivial
  commitTxn {d e w p k} hI hT hcode := by
    have stable : (HasOwner d → HasOwner w) → ∀ q : FirstRunPc,
        (match q with
          | .setup task p => SetupKnows A task d p
          | .user _ => True) →
        match q with
          | .setup task p => SetupKnows A task w p
          | .user _ => True := by
      rintro hmono (⟨task, p⟩ | pc) h
      · exact SetupKnows.mono hmono h
      · trivial
    cases p with
    | setup task p =>
      obtain ⟨k, hpoint, rfl⟩ := Wal.Stmt.map_eq_commit hcode
      obtain ⟨rfl, rfl⟩ := setup_commit hpoint
      obtain ⟨-, rfl⟩ := hT
      exact ⟨Or.inr hasOwner_installed, ⟨hasOwner_installed, rfl⟩,
        stable fun _ => hasOwner_installed⟩
    | user pc =>
      obtain ⟨k, -, rfl⟩ := Wal.Stmt.map_eq_commit hcode
      exact ⟨Carried.manned hT hI, trivial, stable (Carried.owned hT)⟩
  rollback {d e p k} _ hJ hcode := by
    cases p with
    | setup task p =>
      obtain ⟨k, hpoint, rfl⟩ := Wal.Stmt.map_eq_rollback hcode
      obtain ⟨result, rfl, rfl⟩ := setup_rollback hpoint
      exact hJ
    | user pc =>
      obtain ⟨k, -, rfl⟩ := Wal.Stmt.map_eq_rollback hcode
      trivial
  rollbackTxn {d e w p k} _ hT hcode := by
    cases p with
    | setup task p =>
      obtain ⟨k, hpoint, rfl⟩ := Wal.Stmt.map_eq_rollback hcode
      obtain ⟨result, rfl, rfl⟩ := setup_rollback hpoint
      rcases result with e | fields
      · exact hT
      · exact False.elim hT
    | user pc =>
      obtain ⟨k, -, rfl⟩ := Wal.Stmt.map_eq_rollback hcode
      trivial
  ext {x d e d' e'} hI hext := by
    obtain ⟨rfl, rfl⟩ := Prod.mk.inj (Option.some.inj hext)
    refine ⟨hI.imp x.barred x.owned, ?_⟩
    rintro (⟨task, p⟩ | pc) h
    · exact SetupKnows.mono x.owned h
    · trivial

/-! ## Once -/

/-- The setup of a connection that has succeeded. -/
def FirstRunPc.succeeded : FirstRunPc → Option OwnerTask
  | .setup task (.closing (.ok _)) | .setup task (.done (.ok _)) => some task
  | _ => none

theorem FirstRunPc.succeeded_eq_some {q : FirstRunPc} {task : OwnerTask}
    (h : q.succeeded = some task) : ∃ fields, q = .setup task (.closing (.ok fields)) ∨
      q = .setup task (.done (.ok fields)) := by
  unfold FirstRunPc.succeeded at h
  split at h
  · obtain rfl := Option.some.inj h
    exact ⟨_, Or.inl rfl⟩
  · obtain rfl := Option.some.inj h
    exact ⟨_, Or.inr rfl⟩
  · cases h

section

variable {A : AuthLib} {s t : FirstRunWorld} {a : Wal.Act FirstRunPc OtherWrite} {i : ℕ}
  {p q : FirstRunPc} {task : OwnerTask}

/-- Outside of its transaction, a setup has not begun or is over. -/
theorem setup_over (h : (firstRunOutline A).Holds s) {result : Except HttpError Fields}
    (hq : Wal.Client.pcOf s i = some (.setup task (.done result))) :
    SetupEnds A task s.disk result := by
  have hat := h.conn i _ hq
  by_cases hown : ∃ w, s.txn = some (i, w)
  · obtain ⟨w, htxn⟩ := hown
    rw [Wal.Outline.at_own htxn] at hat
    exact False.elim hat
  · rw [Wal.Outline.at_outside (not_exists.mp hown)] at hat
    exact hat

/-- Where a setup has succeeded, there is an owner. -/
theorem hasOwner_of_succeeded (h : (firstRunOutline A).Holds s)
    (hq : Wal.Client.pcOf s i = some q) (hsucc : q.succeeded = some task) : HasOwner s.disk := by
  obtain ⟨fields, rfl | rfl⟩ := FirstRunPc.succeeded_eq_some hsucc
  · have hat := h.conn i _ hq
    by_cases hown : ∃ w, s.txn = some (i, w)
    · -- inside its transaction it has not
      obtain ⟨w, htxn⟩ := hown
      rw [Wal.Outline.at_own htxn] at hat
      exact False.elim hat
    · rw [Wal.Outline.at_outside (not_exists.mp hown)] at hat
      exact And.left hat
  · exact (setup_over h hq).1

/-- A success is that of the commit, or an earlier one. -/
theorem succeeded_next {st : Wal.Stmt Db FirstRunPc} {d : Db}
    (hcode : (firstRun A).code p = some st) (hsucc : (st.next d).succeeded = some task) :
    p = .setup task .commitAll ∨ p.succeeded = some task := by
  rcases p with ⟨task', point⟩ | pc
  · obtain ⟨st, hst, rfl⟩ := Option.map_eq_some_iff.mp hcode
    cases point with
    | commitAll =>
      obtain rfl := Option.some.inj hst
      obtain rfl := Option.some.inj hsucc
      exact Or.inl rfl
    | closing result =>
      obtain rfl := Option.some.inj hst
      rcases result with e | fields
      · cases hsucc
      · exact Or.inr hsucc
    | done result => cases hst
    | lookup =>
      obtain rfl := Option.some.inj hst
      dsimp only [Wal.Stmt.map, Wal.Stmt.next] at hsucc
      split at hsucc
      · cases hsucc
      · split at hsucc <;> cases hsucc
    | insert =>
      obtain rfl := Option.some.inj hst
      dsimp only [Wal.Stmt.map, Wal.Stmt.next] at hsucc
      split at hsucc <;> cases hsucc
    | begin | auditCreated =>
      obtain rfl := Option.some.inj hst
      cases hsucc
  · obtain ⟨st, hst, rfl⟩ := Option.map_eq_some_iff.mp hcode
    cases st <;> cases hsucc

/-- A success stays one. -/
theorem next_succeeded {st : Wal.Stmt Db FirstRunPc} {d : Db}
    (hcode : (firstRun A).code p = some st) (hsucc : p.succeeded = some task) :
    (st.next d).succeeded = some task := by
  obtain ⟨fields, rfl | rfl⟩ := FirstRunPc.succeeded_eq_some hsucc
  · obtain rfl := Option.some.inj hcode
    rfl
  · cases hcode

/-- Connection `i` was a setup that has succeeded; it may be closed since. -/
structure Won (s : FirstRunWorld) (i : ℕ) (task : OwnerTask) : Prop where
  /-- the connection exists -/
  lt : i < s.conns.length
  /-- if it is open, it has succeeded -/
  succeeded : ∀ q, Wal.Client.pcOf s i = some q → q.succeeded = some task

theorem Won.step (h : Won s i task) (hstep : (firstRun A).step s a = some t) : Won t i task := by
  refine ⟨h.lt.trans_le (Wal.Client.length_step hstep), fun q hq => ?_⟩
  rcases Wal.Client.pcOf_step hstep hq with ⟨-, hq⟩ | ⟨-, -, hlen⟩ | ⟨p, st, -, hp, hcode, rfl⟩
  · exact h.succeeded q hq
  · exact absurd hlen h.lt.ne
  · exact next_succeeded hcode (h.succeeded p hp)

/-- What is not committed is not committed as a setup. -/
theorem setupCommits_nil (h : (firstRun A).committed s a = []) : setupCommits s a = [] := by
  cases a with
  | stmt i =>
    rw [setupCommits]
    split
    · next task j w hp htxn =>
      refine if_neg fun hj => ?_
      rw [Wal.Client.committed, hp, htxn] at h
      cases (if_pos hj).symm.trans h
    · rfl
  | _ => rfl

theorem setupCommits_commitAll (h : (firstRunOutline A).Holds s)
    (hp : Wal.Client.pcOf s i = some (.setup task .commitAll)) :
    setupCommits s (.stmt i) = [(i, task)] := by
  have hat := h.conn i _ hp
  by_cases hown : ∃ w, s.txn = some (i, w)
  · obtain ⟨w, htxn⟩ := hown
    rw [setupCommits, hp, htxn]
    exact if_pos rfl
  · rw [Wal.Outline.at_outside (not_exists.mp hown)] at hat
    exact False.elim hat

/-- Who commits a setup has won. -/
theorem won_commitAll (hp : Wal.Client.pcOf s i = some (.setup task .commitAll))
    (hstep : (firstRun A).step s (.stmt i) = some t) : Won t i task := by
  refine ⟨(Wal.Client.lt_of_pcOf hp).trans_le (Wal.Client.length_step hstep), fun q hq => ?_⟩
  rcases Wal.Client.pcOf_step hstep hq with ⟨hne, -⟩ | ⟨ha, -, -⟩ | ⟨p, st, -, hp', hcode, rfl⟩
  · exact absurd rfl hne
  · cases ha
  · obtain rfl := Option.some.inj (hp.symm.trans hp')
    obtain rfl := Option.some.inj hcode
    rfl

/-- A step commits no setup and leaves an enabled owner if there was one, or it commits one
to a database without users. -/
theorem setup_step (h : (firstRunOutline A).Holds s) (hstep : (firstRun A).step s a = some t) :
    (setupCommits s a = [] ∧ (HasOwner s.disk → HasOwner t.disk)) ∨
      ∃ i task, a = .stmt i ∧ Wal.Client.pcOf s i = some (.setup task .commitAll) ∧
        setupCommits s a = [(i, task)] ∧ s.disk.users = [] ∧
          t.disk = task.installed A s.disk := by
  obtain ⟨hnone, hdisk⟩ | ⟨write, d', rfl, -⟩ | ⟨i, p, w, k, rfl, hp, htxn, hcode, -, rfl⟩ :=
    Wal.Client.committed_cases hstep
  · exact Or.inl ⟨setupCommits_nil hnone, fun howner => hdisk ▸ howner⟩
  · rw [Wal.Client.step] at hstep
    rcases htxn : s.txn with _ | _
    · rw [htxn] at hstep
      obtain rfl := Option.some.inj hstep
      exact Or.inl ⟨rfl, write.owned⟩
    · rw [htxn] at hstep
      cases hstep
  · have hat := h.conn i p hp
    rw [Wal.Outline.at_own htxn] at hat
    rcases p with ⟨task, point⟩ | pc
    · obtain ⟨k, hpoint, rfl⟩ := Wal.Stmt.map_eq_commit hcode
      obtain ⟨rfl, rfl⟩ := setup_commit hpoint
      obtain ⟨hempty, hw⟩ := hat
      exact Or.inr ⟨i, task, rfl, hp, setupCommits_commitAll h hp, hempty, hw⟩
    · refine Or.inl ⟨?_, Carried.owned hat⟩
      rw [setupCommits, hp]

end

/-- What a run from the database `d` makes of the setups in it. -/
structure FirstOwner (A : AuthLib) (d : Db) (t : FirstRunWorld)
    (es : List (Machine.Event FirstRunWorld (Wal.Act FirstRunPc OtherWrite))) : Prop where
  /-- at most one succeeds -/
  once : (Machine.outputs setupCommits es).length ≤ 1
  /-- and none where there is an owner -/
  closed : HasOwner d → Machine.outputs setupCommits es = []
  /-- its owner and their audit row are committed together, to a database without users -/
  whole : ∀ e ∈ es, ∀ c ∈ setupCommits e.pre e.act,
    e.pre.disk.users = [] ∧ e.post.disk = c.2.installed A e.pre.disk
  /-- who is told that it succeeded is who succeeded -/
  answered : ∀ i task fields, Wal.Client.pcOf t i = some (.setup task (.done (.ok fields))) →
    Machine.outputs setupCommits es = [(i, task)] ∧ fields = userPayload (task.row A)
  /-- who is refused has left nothing, and comes late or cannot be written -/
  refused : ∀ i task e, Wal.Client.pcOf t i = some (.setup task (.done (.error e))) →
    (∀ c ∈ Machine.outputs setupCommits es, c.1 ≠ i) ∧
      (e = setupClosed ∧ HasOwner t.disk ∨ e = .unhandled ∧ task.encodable = false)
  /-- from then on there is an enabled owner -/
  owned : Machine.outputs setupCommits es ≠ [] → HasOwner t.disk

/-- What holds after each step of such a run. -/
structure SetUp (A : AuthLib) (d : Db) (t : FirstRunWorld)
    (es : List (Machine.Event FirstRunWorld (Wal.Act FirstRunPc OtherWrite))) : Prop where
  /-- the outline -/
  holds : (firstRunOutline A).Holds t
  /-- an owner remains -/
  kept : HasOwner d → HasOwner t.disk
  /-- at most one setup was committed -/
  once : (Machine.outputs setupCommits es).length ≤ 1
  /-- and none where there is an owner -/
  closed : HasOwner d → Machine.outputs setupCommits es = []
  /-- to a database without users -/
  whole : ∀ e ∈ es, ∀ c ∈ setupCommits e.pre e.act,
    e.pre.disk.users = [] ∧ e.post.disk = c.2.installed A e.pre.disk
  /-- it has won -/
  won : ∀ c ∈ Machine.outputs setupCommits es, Won t c.1 c.2 ∧ HasOwner t.disk
  /-- nobody else has -/
  source : ∀ i q task, Wal.Client.pcOf t i = some q → q.succeeded = some task →
    (i, task) ∈ Machine.outputs setupCommits es

theorem SetUp.idle {A : AuthLib} {d : Db} (hd : Manned d) : SetUp A d (.idle d) [] where
  holds := ⟨hd, fun i p hp => (by cases hp), fun j w hw => (by cases hw)⟩
  kept := id
  once := Nat.zero_le 1
  closed _ := rfl
  whole e he := by cases he
  won c hc := by cases hc
  source i q task hq := by cases hq

theorem SetUp.snoc {A : AuthLib} {d : Db} {s t : FirstRunWorld}
    {a : Wal.Act FirstRunPc OtherWrite}
    {es : List (Machine.Event FirstRunWorld (Wal.Act FirstRunPc OtherWrite))}
    (h : SetUp A d s es) (hok : Wal.Allowed GuardsHold s a)
    (hstep : (firstRun A).step s a = some t) : SetUp A d t (es ++ [⟨s, a, t⟩]) := by
  have hsource : ∀ i q task, Wal.Client.pcOf t i = some q → q.succeeded = some task →
      (i, task) ∈ Machine.outputs setupCommits es ∨
        a = .stmt i ∧ Wal.Client.pcOf s i = some (.setup task .commitAll) := by
    intro i q task hq hsucc
    rcases Wal.Client.pcOf_step hstep hq with
      ⟨-, hq⟩ | ⟨-, hstart, -⟩ | ⟨p, st, ha, hp, hcode, rfl⟩
    · exact Or.inl (h.source i q task hq hsucc)
    · obtain ⟨fields, rfl | rfl⟩ := FirstRunPc.succeeded_eq_some hsucc <;> cases hstart
    · rcases succeeded_next hcode hsucc with rfl | hearlier
      · exact Or.inr ⟨ha, hp⟩
      · exact Or.inl (h.source i p task hp hearlier)
  have hout : Machine.outputs setupCommits (es ++ [⟨s, a, t⟩]) =
      Machine.outputs setupCommits es ++ setupCommits s a := Machine.outputs_snoc _ es _
  have hholds := Wal.Outline.step h.holds hok hstep
  rcases setup_step h.holds hstep with ⟨hnone, hkept⟩ | ⟨i, task, rfl, hp, hone, hempty, hdisk⟩
  · rw [hnone, List.append_nil] at hout
    refine ⟨hholds, fun hd => hkept (h.kept hd), hout ▸ h.once, fun hd => hout ▸ h.closed hd,
      fun e he => ?_, fun c hc => ?_, fun j q task hq hsucc => ?_⟩
    · rcases List.mem_append.mp he with he | he
      · exact h.whole e he
      · obtain rfl := List.mem_singleton.mp he
        rw [hnone]
        exact nofun
    · obtain ⟨hwon, howner⟩ := h.won c (hout ▸ hc)
      exact ⟨hwon.step hstep, hkept howner⟩
    · rw [hout]
      rcases hsource j q task hq hsucc with hsource | ⟨rfl, hp⟩
      · exact hsource
      · cases (setupCommits_commitAll h.holds hp).symm.trans hnone
  · -- a setup that was committed before would have left an owner
    have hfirst : Machine.outputs setupCommits es = [] :=
      List.eq_nil_iff_forall_not_mem.mpr fun c hc => not_hasOwner_empty hempty (h.won c hc).2
    rw [hfirst, hone, List.nil_append] at hout
    have howner : HasOwner t.disk := hdisk ▸ hasOwner_installed
    refine ⟨hholds, fun _ => howner, hout ▸ le_rfl,
      fun hd => absurd (h.kept hd) (not_hasOwner_empty hempty), fun e he => ?_, fun c hc => ?_,
      fun j q task' hq hsucc => ?_⟩
    · rcases List.mem_append.mp he with he | he
      · exact h.whole e he
      · obtain rfl := List.mem_singleton.mp he
        rw [hone]
        exact List.forall_mem_singleton.mpr ⟨hempty, hdisk⟩
    · rw [hout] at hc
      obtain rfl := List.mem_singleton.mp hc
      exact ⟨won_commitAll hp hstep, howner⟩
    · rw [hout]
      rcases hsource j q task' hq hsucc with hearlier | ⟨ha, hp'⟩
      · rw [hfirst] at hearlier
        cases hearlier
      · obtain rfl := Wal.Act.stmt.inj ha
        obtain ⟨rfl, -⟩ := FirstRunPc.setup.inj (Option.some.inj (hp.symm.trans hp'))
        exact List.mem_singleton_self _

/-- **There is one first owner.** However many setups run at the same time, beside changes of
users whose guards hold and any other handlers, at most one of them succeeds, and none on a
server that started with an owner. Its row and its audit row are committed together, to a
database without users; the other setups leave nothing, and are told that they came late. -/
theorem first_owner {A : AuthLib} {spec : PyStr} {draw : OwnerForm → OwnerTask} {db d : Db}
    (hdb : Manned db) (hboot : bootstrapOwner A spec draw db = some d) {t : FirstRunWorld}
    {es : List (Machine.Event FirstRunWorld (Wal.Act FirstRunPc OtherWrite))}
    (hrun : ((firstRun A).machine (· = FirstRunWorld.idle d)).Run (FirstRunWorld.idle d) es t)
    (hok : ∀ e ∈ es, Wal.Allowed GuardsHold e.pre e.act) : FirstOwner A d t es := by
  have hd : Manned d := by
    rcases bootstrapOwner_cases hboot with rfl | ⟨-, howner⟩
    · exact hdb
    · exact Or.inr howner
  have h : SetUp A d t es := hrun.history (G := Wal.Allowed GuardsHold)
    (H := fun es t => SetUp A d t es) (fun es s a t h hok hstep => h.snoc hok hstep)
    (.idle hd) hok
  refine ⟨h.once, h.closed, h.whole, fun i task fields hi => ⟨?_, ?_⟩,
    fun i task e hi => ⟨fun c hc => ?_, setup_over h.holds hi⟩, fun hne => ?_⟩
  · have hmem := h.source i _ task hi rfl
    obtain ⟨c, hc⟩ := List.length_eq_one_iff.mp
      (le_antisymm h.once (List.length_pos_of_mem hmem))
    rw [hc] at hmem ⊢
    rw [List.mem_singleton.mp hmem]
  · exact (setup_over h.holds hi).2
  · rintro rfl
    cases (h.won c hc).1.succeeded _ hi
  · obtain ⟨c, hc⟩ := List.exists_mem_of_ne_nil _ hne
    exact (h.won c hc).2

/-- A setup. -/
def ownerTask (id : String) : OwnerTask where
  email := py id
  name := py id
  password := py "a long passphrase"
  userId := py id
  salt := []
  createdAt := 1
  auditedAt := 2

/-- Two setups at the same time: the second waits for the lock. -/
def twoSetups : List (Wal.Act FirstRunPc OtherWrite) :=
  [.connect (.setup (ownerTask "a") .begin), .connect (.setup (ownerTask "b") .begin)] ++
    List.replicate 5 (.stmt 0) ++ [.stmt 1, .stmt 0, .stmt 1, .stmt 1,
      .ext (.login clearServices { token := py "t" } 3)]

/-- Setups and changes of users, from a database. -/
def firstRuns (db : Db) : Machine FirstRunWorld (Wal.Act FirstRunPc OtherWrite) :=
  (firstRun plainLib).machine (· = FirstRunWorld.idle db)

/-- The server has an owner then, and not two. -/
theorem first_owner_twoSetups : FirstOwner plainLib {}
    ((firstRuns {}).final (FirstRunWorld.idle {}) twoSetups)
    ((firstRuns {}).events (FirstRunWorld.idle {}) twoSetups) := by
  have hrun : ((firstRuns {}).exec (FirstRunWorld.idle {}) twoSetups).isSome = true := by
    decide +kernel
  have hboot : bootstrapOwner plainLib [] (fun _ => ownerTask "a") {} = some {} := rfl
  exact first_owner (Or.inl rfl) hboot (Machine.Run.of_final hrun) (by decide +kernel)

/-- A user deletes another one. -/
def deletes (session userId : String) : Wal.Act FirstRunPc OtherWrite :=
  .connect (.user ⟨⟨py session, true, py userId, .delete, fun _ => 1⟩, .authenticate⟩)

/-- Two owners delete each other; both count before either deletes. Then there is a setup. -/
def deleteEachOther : List (Wal.Act FirstRunPc OtherWrite) :=
  [deletes "sa" "b", deletes "sb" "a"] ++ List.replicate 3 (.stmt 0) ++
    List.replicate 3 (.stmt 1) ++ List.replicate 4 (.stmt 0) ++ List.replicate 4 (.stmt 1) ++
      [.connect (.setup (ownerTask "c") .begin)] ++ List.replicate 5 (.stmt 2)

/-- Where the guards do not hold, setup is open once more. -/
theorem setup_reopens : HasOwner twoOwners ∧ ∃ es t,
    (firstRuns twoOwners).Run (FirstRunWorld.idle twoOwners) es t ∧
      (Machine.outputs setupCommits es).map Prod.fst = [2] := by
  have hrun : ((firstRuns twoOwners).exec (FirstRunWorld.idle twoOwners)
      deleteEachOther).isSome = true := by decide +kernel
  exact ⟨by decide +kernel, _, _, Machine.Run.of_final hrun, by decide +kernel⟩

end LayaWatch
