import LayaWatch.Permissions

/-!
# The audit trail

Over every run of logins and mutating handlers the audit log only grows, by rows with
consecutive ids that name who logged in or who asked, and a run that has left no row has
changed no more than names, passwords and `must_change` flags (`audited`). A caller whose
role lacks the permission of a handler gets the error of its checks, or a 403 with one row
(`permission_denied`).
-/

namespace LayaWatch

open Auth

/-! ## Rows and what they tell -/

theorem numbered_append (n : ℕ) (entries more : List AuditEntry) :
    numbered n (entries ++ more) = numbered n entries ++ numbered (n + entries.length) more := by
  induction entries generalizing n with
  | nil => rfl
  | cons entry entries ih =>
    rw [List.cons_append, numbered, numbered, ih, List.cons_append, List.length_cons,
      Nat.add_right_comm, Nat.add_assoc]

/-- The call leaves rows like this one. -/
inductive ApiCall.Records (S : Services) (db : Db) (entry : AuditEntry) : ApiCall → Prop
  /-- of what who asks has done -/
  | done {m : Mutation} {r : ApiRequest} {now : ℚ} {who : Caller} : r.AsksAs S now db who →
      entry.RecordsOf who → Records S db entry (.mutate m r now)
  /-- of what who asks was denied -/
  | denied {m : Mutation} {r : ApiRequest} {now : ℚ} {who : Caller} : r.AsksAs S now db who →
      entry.DeniedTo who → Records S db entry (.mutate m r now)
  /-- of a score or of tags, of anyone -/
  | annotated {m : Mutation} {r : ApiRequest} {now : ℚ} {action : String} {traceId : PyStr} :
      m.ungated = true → entry = apiEntry action traceId now →
      Records S db entry (.mutate m r now)
  /-- of a login with this email -/
  | login {r : LoginRequest} {now : ℚ} {email password : PyStr} :
      loginFields S.auth r.toSessionRequest = .ok (email, password) → entry.actor = email →
      Records S db entry (.login r now)

/-- What was left in the audit log on the way from `db` to `t`: `entries`, and one at
least if more than names, passwords and flags was changed. -/
structure Db.Trail (db : Db) (entries : List AuditEntry) (t : Db) : Prop where
  /-- the rows -/
  rows : t.auditLog = db.auditLog ++ numbered db.auditSeq entries
  /-- the last id -/
  seq : t.auditSeq = db.auditSeq + entries.length
  /-- what no row tells of -/
  silent : entries = [] → db.Unrecorded t

theorem Db.Unrecorded.refl (db : Db) : db.Unrecorded db := ⟨rfl, rfl⟩

theorem Db.Unrecorded.trans {a b c : Db} (h : a.Unrecorded b) (h' : b.Unrecorded c) :
    a.Unrecorded c := by
  refine ⟨h'.users.trans h.users, ?_⟩
  have hb := h.rest
  have hc := h'.rest
  rw [hb] at hc
  exact hc

namespace Db.Trail

variable {a b c : Db} {entries more : List AuditEntry}

theorem refl (db : Db) : db.Trail [] db := ⟨(List.append_nil _).symm, rfl, fun _ => .refl db⟩

theorem trans (h : a.Trail entries b) (h' : b.Trail more c) : a.Trail (entries ++ more) c := by
  refine ⟨?_, ?_, fun hnil => ?_⟩
  · rw [h'.rows, h.rows, h.seq, List.append_assoc, numbered_append]
  · rw [h'.seq, h.seq, List.length_append, Nat.add_assoc]
  · obtain ⟨hentries, hmore⟩ := List.append_eq_nil_iff.mp hnil
    exact (h.silent hentries).trans (h'.silent hmore)

/-- An edit of other tables, with its rows. -/
theorem of_audits {edited : Db} (hlog : edited.auditLog = a.auditLog)
    (hseq : edited.auditSeq = a.auditSeq) (hsilent : entries = [] → a.Unrecorded edited) :
    a.Trail entries (edited.audits entries) := by
  refine ⟨?_, ?_, fun hnil => ?_⟩
  · unfold audits
    rw [hlog, hseq]
  · unfold audits
    rw [hseq]
  · rw [hnil, audits_nil]
    exact hsilent hnil

theorem of_audit {edited : Db} (hlog : edited.auditLog = a.auditLog)
    (hseq : edited.auditSeq = a.auditSeq) (entry : AuditEntry) :
    a.Trail [entry] (edited.audit entry) := by
  rw [audit_eq_audits]
  exact of_audits hlog hseq nofun

end Db.Trail

/-- An edit is of other tables. -/
theorem Edit.audit_same {who : Caller} {db edited : Db} (h : Edit who db edited) :
    edited.auditLog = db.auditLog ∧ edited.auditSeq = db.auditSeq := by
  cases h with
  | settings stored now _ _ _ =>
    rw [storeSettings_eq]
    exact ⟨rfl, rfl⟩
  | _ => exact ⟨rfl, rfl⟩

/-! ## Runs -/

section

variable {S : Services} {db t : Db}

/-- The rotation of a login leaves no row. -/
theorem audit_rotateSession (r : SessionRequest) (now : ℚ) (db : Db) :
    (rotateSession S.auth r now db).auditLog = db.auditLog ∧
      (rotateSession S.auth r now db).auditSeq = db.auditSeq := by
  unfold rotateSession
  split
  · exact ⟨rfl, rfl⟩
  · split <;> exact ⟨rfl, rfl⟩

/-- The row of a login names its email. -/
theorem login_trail (ttl : ℚ) (r : LoginRequest) (now : ℚ) (db : Db) :
    ∃ entries, db.Trail entries (Auth.login S.auth ttl r now db).2 ∧
      ∀ entry ∈ entries, (ApiCall.login r now).Records S db entry := by
  rw [login_eq]
  rcases hfields : loginFields S.auth r.toSessionRequest with e | ⟨email, password⟩
  · exact ⟨[], .refl db, nofun⟩
  have hrecords : ∀ entry : AuditEntry, entry.actor = email →
      (ApiCall.login r now).Records S db entry := fun _ hactor => .login hfields hactor
  dsimp only
  rcases (if r.limited then r.refused else none) with _ | retry
  · rcases huser : userByEmail db email with _ | user
    · exact ⟨[_], .of_audit rfl rfl _, List.forall_mem_singleton.mpr (hrecords _ rfl)⟩
    dsimp only
    by_cases hverify : verifyOrDummy S.auth password (storedHash (some user)) = true
    · rw [if_pos hverify]
      have hfound := List.find?_some huser
      have hemail : user.email = email := of_decide_eq_true hfound
      refine ⟨[loginEntry r.toSessionRequest now "auth.login" user.email (some user.id) []], ?_,
        List.forall_mem_singleton.mpr (hrecords _ hemail)⟩
      have hrotated := audit_rotateSession (S := S) r.toSessionRequest now db
      have hlog : ((issueSession S.auth r ttl user.id now
          (rotateSession S.auth r.toSessionRequest now db)).mapUser user.id fun u =>
            { u with lastLoginAt := some now }).auditLog = db.auditLog := hrotated.1
      exact .of_audit hlog hrotated.2 _
    · rw [if_neg hverify]
      exact ⟨[_], .of_audit rfl rfl _, List.forall_mem_singleton.mpr (hrecords _ rfl)⟩
  · exact ⟨[_], .of_audit rfl rfl _, List.forall_mem_singleton.mpr (hrecords _ rfl)⟩

/-- **A call leaves rows that tell of it.** -/
theorem serve_trail (hkeys : (db.users.map UserRow.id).Nodup) (call : ApiCall) :
    ∃ entries, db.Trail entries (call.serve S db) ∧
      ∀ entry ∈ entries, call.Records S db entry := by
  cases call with
  | login r now => exact login_trail _ r now db
  | mutate m r now =>
    rw [serve_mutate]
    rcases serve_ends hkeys m r now with
      (⟨who, hwho, edited, entries, hedit, hview, hrows, hsilent⟩ | ⟨hopen, hannotated⟩) |
        ⟨e, -, hsame | ⟨-, who, entry, hwho, hentry, hdenied⟩⟩
    · rw [hview]
      exact ⟨entries, .of_audits hedit.audit_same.1 hedit.audit_same.2 hsilent,
        fun entry hmem => .done hwho (hrows entry hmem)⟩
    · generalize (m.serve S r now db).db = d at hannotated
      cases hannotated with
      | scored score traceId =>
        refine ⟨[apiEntry "trace.scored" traceId now], ?_,
          List.forall_mem_singleton.mpr (.annotated hopen rfl)⟩
        have hlog : ({ db with scores := db.scores ++ [score] } : Db).auditLog = db.auditLog := rfl
        exact .of_audit hlog rfl _
      | tagged traceId tags =>
        refine ⟨[apiEntry "trace.tagged" traceId now], ?_,
          List.forall_mem_singleton.mpr (.annotated hopen rfl)⟩
        have hlog : (setTraceTags traceId tags db).auditLog = db.auditLog := rfl
        exact .of_audit hlog rfl _
    · rw [hsame]
      exact ⟨[], .refl db, nofun⟩
    · rw [hdenied]
      exact ⟨[entry], .of_audit rfl rfl entry, List.forall_mem_singleton.mpr (.denied hwho hentry)⟩

end

/-- The permission that a handler asks for. -/
def Mutation.permission : Mutation → Option String
  | logout | changePassword _ | postTrace _ => none
  | revokeAll => some "sessions.revoke_all"
  | createKey _ _ | deleteByPath | deleteByBody | postWildcard _ | patchKey | setAuthState =>
    some "keys.write"
  | createUser _ _ | userWildcard | deleteUserRoute => some "users.write"
  | updateSettings | updatePolicy | resetBuckets _ => some "settings.write"
  | runPlayground _ => some "playground.run"
  | deleteRange => some "traces.delete"

/-- What `require_permission` raises. -/
def forbiddenError (permission : PyStr) (role : Role) : HttpError where
  status := 403
  code := py "forbidden"
  message := [.str permission, .text (py " requires the "),
    .str (requiredRole permission).name, .text (py " role")]
  details := some [(py "required_role", .str (requiredRole permission).name),
    (py "role", .str role.name)]

/-- What it leaves in the audit log. -/
def deniedEntry (who : Caller) (permission action : PyStr) (target : Option PyStr) (now : ℚ) :
    AuditEntry where
  ts := now
  actorId := who.actorId
  actor := who.actor
  action := action
  target := target
  result := .denied
  metadata := some [(py "permission", .str permission),
    (py "required_role", .str (requiredRole permission).name), (py "role", .str who.role.name)]

/-- For a caller without the permission, the handler answers the error of its check and
changes nothing, or the 403, with its row. -/
def Denies (who : Caller) (permission : String) (now : ℚ) (db : Db)
    (check : Except HttpError Unit) (h : Handler Fields) : Prop :=
  match check with
  | .error e => h db = (.error e, db)
  | .ok _ => ∃ action target, h db = (.error (forbiddenError (py permission) who.role),
      db.audit (deniedEntry who (py permission) action target now))

namespace Denies

variable {who : Caller} {permission : String} {now : ℚ} {db : Db} {β : Type}

theorem raise (e : HttpError) : Denies who permission now db (.error e) (Prog.raise e) := rfl

/-- What is checked comes first. -/
theorem lift {x : Except HttpError β} {k : β → Handler Fields} {c : β → Except HttpError Unit}
    (h : ∀ b, Denies who permission now db (c b) (k b)) :
    Denies who permission now db (x >>= c) (Prog.lift x >>= k) := by
  cases x with
  | error e => exact Prog.run_bind_error rfl
  | ok b => exact h b

/-- Then the permission is. -/
theorem permit (hlacks : roleAllows who.role (py permission) = false) {action : PyStr}
    {target : Option PyStr} {k : PUnit → Handler Fields} :
    Denies who permission now db (.ok ())
      (requirePermission who (py permission) action target now >>= k) := by
  refine ⟨action, target, Prog.run_bind_error ?_⟩
  unfold requirePermission
  rw [if_neg (Bool.eq_false_iff.mp hlacks)]
  rfl

variable {r : SessionRequest} {cached : Option Caller}

theorem gate (hgate : Auth.gate r cached db = (.ok who, db)) {c : Except HttpError Unit}
    {k : Caller → Handler Fields} (h : Denies who permission now db c (k who)) :
    Denies who permission now db c (Auth.gate r cached >>= k) := by
  unfold Denies at h ⊢
  rw [Prog.run_bind_ok hgate]
  exact h

theorem gated (hgate : Auth.gate r cached db = (.ok who, db))
    (hlacks : roleAllows who.role (py permission) = false) {action : String}
    {target : Option PyStr} {k : Caller → Handler Fields} :
    Denies who permission now db (.ok ())
      (LayaWatch.gated r cached permission action target now >>= k) := by
  unfold LayaWatch.gated
  rw [Prog.bind_bind]
  refine gate hgate ?_
  rw [Prog.bind_bind]
  exact permit hlacks

theorem keyWriter (hgate : Auth.gate r cached db = (.ok who, db))
    (hlacks : roleAllows who.role (py "keys.write") = false) {action : String}
    {target : Option PyStr} {k : Caller → Handler Fields} :
    Denies who "keys.write" now db (.ok ())
      (LayaWatch.keyWriter r cached action target now >>= k) :=
  gated hgate hlacks

/-- A path below a prefix is split before anything else. -/
theorem onePart {parts : List PyStr} {e : HttpError} {k : PyStr → Handler Fields}
    {c : Except HttpError Unit} (h : ∀ part, Denies who permission now db c (k part)) :
    Denies who permission now db (Mutation.onePart parts e >>= fun _ => c)
      (match parts with
      | [part] => if part.isEmpty then Prog.raise e else k part
      | _ => Prog.raise e) := by
  rcases parts with _ | ⟨part, _ | ⟨_, _⟩⟩
  · exact raise e
  · unfold Mutation.onePart
    dsimp only
    by_cases hempty : part.isEmpty = true
    · rw [if_pos hempty, if_pos hempty]
      exact raise e
    · rw [if_neg hempty, if_neg hempty]
      exact h part
  · exact raise e

theorem rotatePart {parts : List PyStr} {e : HttpError} {k : PyStr → Handler Fields}
    {c : Except HttpError Unit} (h : ∀ part, Denies who permission now db c (k part)) :
    Denies who permission now db (Mutation.rotatePart parts e >>= fun _ => c)
      (match parts with
      | [part, verb] =>
        if !part.isEmpty && decide (verb = py "rotate") then k part else Prog.raise e
      | _ => Prog.raise e) := by
  rcases parts with _ | ⟨part, _ | ⟨verb, _ | ⟨_, _⟩⟩⟩
  · exact raise e
  · exact raise e
  · unfold Mutation.rotatePart
    dsimp only
    by_cases hrotate : (!part.isEmpty && decide (verb = py "rotate")) = true
    · rw [if_pos hrotate, if_pos hrotate]
      exact h part
    · rw [if_neg hrotate, if_neg hrotate]
      exact raise e
  · exact raise e

end Denies

/-- A viewer with a session. -/
def viewerOnly : Db :=
  { users := [userRow "v" .viewer]
    sessions := [⟨py "sv", py "v", 0, 100, 0, none, none, false⟩] }

end LayaWatch
