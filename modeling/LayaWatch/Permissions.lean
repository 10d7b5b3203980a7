import LayaWatch.LastSeen
import LayaWatch.UserChanges

/-!
# Who may change what

The login and the mutating handlers, called one after the other. What an accepted call
does to the tables is said once (`Edit`), with the rows that it leaves in the audit log
(`Accepted`). A part of the database that a permission or a user stands before
(`Part`) is changed only by a call that may change it, over whole runs in which roles,
accounts and sessions come and go (`authorised`).

`verify_key` counts the uses of a key on a connection of its own; the counters are left
out, as in `Gates`.
-/

namespace LayaWatch

open Auth

/-! ## Rows of the audit log -/

/-- The entries with the ids that AUTOINCREMENT gives them. -/
def numbered : ℕ → List AuditEntry → List AuditRow
  | _, [] => []
  | n, entry :: entries => ⟨entry, n + 1⟩ :: numbered (n + 1) entries

namespace Db

/-- Entries, one after the other. -/
def audits (entries : List AuditEntry) (db : Db) : Db :=
  { db with
    auditLog := db.auditLog ++ numbered db.auditSeq entries
    auditSeq := db.auditSeq + entries.length }

variable {db : Db} {entries : List AuditEntry}

@[simp] theorem audits_nil (db : Db) : db.audits [] = db := by
  unfold audits numbered
  rw [List.append_nil]
  rfl

theorem audits_cons (entry : AuditEntry) (entries : List AuditEntry) (db : Db) :
    db.audits (entry :: entries) = (db.audit entry).audits entries := by
  have hseq : db.auditSeq + (entries.length + 1) = db.auditSeq + 1 + entries.length := by omega
  simp only [audits, audit, numbered, List.append_assoc, List.cons_append, List.nil_append,
    List.length_cons, hseq]

/-- One more entry. -/
theorem audit_audits (entry : AuditEntry) (entries : List AuditEntry) (db : Db) :
    (db.audits entries).audit entry = db.audits (entries ++ [entry]) := by
  induction entries generalizing db with
  | nil =>
    rw [List.nil_append, audits_nil, audits_cons, audits_nil]
  | cons first entries ih => rw [audits_cons, ih, List.cons_append, audits_cons]

theorem audit_eq_audits (entry : AuditEntry) (db : Db) : db.audit entry = db.audits [entry] := by
  rw [audits_cons, audits_nil]

end Db

/-- The row of something that this caller has done. -/
structure AuditEntry.RecordsOf (who : Caller) (entry : AuditEntry) : Prop where
  /-- who it was -/
  actor : entry.actor = who.actor
  /-- its id, of a user -/
  actorId : entry.actorId = who.actorId
  /-- it was done -/
  result : entry.result = .ok

/-- The row of something that this caller was denied. -/
structure AuditEntry.DeniedTo (who : Caller) (entry : AuditEntry) : Prop where
  /-- who it was -/
  actor : entry.actor = who.actor
  /-- its id, of a user -/
  actorId : entry.actorId = who.actorId
  /-- it was denied -/
  result : entry.result = .denied

/-! ## Callers -/

/-- Who asks: the user of the session behind the cookie, or a key, on a request
without a cookie. -/
inductive ApiRequest.AsksAs (S : Services) (r : ApiRequest) (now : ℚ) (db : Db) : Caller → Prop
  /-- a session -/
  | session {token : PyStr} {user : UserRow} : r.cookie = some token →
      resolveToken S.auth db token now = some user →
      AsksAs S r now db (.session user (S.auth.digest token))
  /-- a key -/
  | key {presented keyId : PyStr} : r.cookie = none → r.presented = some presented →
      (verifyKey S.keys presented now db).1 = .ok (some keyId) → AsksAs S r now db (.apiKey keyId)

/-- What `enforce_browser_session` lets through: a request without a cookie, or the
user of its session. -/
inductive ApiRequest.Enforced (A : AuthLib) (r : ApiRequest) (now : ℚ) (db : Db) :
    Option Caller → Prop
  /-- no cookie -/
  | bare : r.cookie = none → Enforced A r now db none
  /-- a session -/
  | session {token : PyStr} {user : UserRow} : r.cookie = some token →
      resolveToken A db token now = some user →
      Enforced A r now db (some (.session user (A.digest token)))

/-! ## What an accepted call does -/

/-- The settings that `POST /api/v1/settings` and `POST /api/v1/ratelimits` write. -/
def runtimeSettings : List PyStr := controls ++ policyFields.map fun field => py field.key

/-- The upserts of a list of settings. -/
def storeSettings (stored : List (PyStr × PyStr)) (who : PyStr) (now : ℚ) (db : Db) : Db :=
  stored.foldl (fun db e => upsertSetting e.1 e.2 who now db) db

/-- The name of the setting that turns payload capture on. -/
def captureSetting : PyStr := py "capture_payloads"

/-- What an accepted mutation does to the tables besides the audit log. -/
inductive Edit (who : Caller) (db : Db) : Db → Prop
  /-- nothing -/
  | nothing : Edit who db db
  /-- a logout -/
  | logout {user : UserRow} {sessionId : PyStr} : who = .session user sessionId →
      Edit who db (db.revokeSession sessionId)
  /-- a password change -/
  | password {user : UserRow} {sessionId : PyStr} (hash : PyStr) : who = .session user sessionId →
      Edit who db ((db.mapUser user.id fun u =>
        { u with passwordHash := hash, mustChange := false }).revokeOtherSessions user.id
          (some sessionId))
  /-- a revoke-all -/
  | revokeAll : roleAllows who.role (py "sessions.revoke_all") = true →
      Edit who db (db.revokeAllSessions who.sessionId)
  /-- a change of keys -/
  | keys (rows : List ApiKeyRow) : roleAllows who.role (py "keys.write") = true →
      Edit who db { db with apiKeys := rows }
  /-- key authentication is armed, or disarmed -/
  | arm (value : PyStr) (now : ℚ) : roleAllows who.role (py "keys.write") = true →
      Edit who db (upsertSetting authSettingsKey value who.actor now db)
  /-- a change of settings -/
  | settings (stored : List (PyStr × PyStr)) (now : ℚ) :
      roleAllows who.role (py "settings.write") = true →
      (∀ e ∈ stored, e.1 ∈ runtimeSettings) →
      (captureSetting ∈ stored.map Prod.fst →
        roleAllows who.role (py "settings.capture") = true) →
      Edit who db (storeSettings stored who.actor now db)
  /-- a change of accounts -/
  | accounts (users : List UserRow) (sessions : List SessionRow) :
      roleAllows who.role (py "users.write") = true →
      ((db.users.map UserRow.id).Nodup → (users.map UserRow.id).Nodup) →
      Edit who db { db with users := users, sessions := sessions }
  /-- a deletion of traces -/
  | deleteTraces (window : Window) : roleAllows who.role (py "traces.delete") = true →
      Edit who db (deleteTraces window db)

/-- What of a user an audit row need not follow: the name, the password, and whether
a new one is required. -/
def UserRow.recorded (user : UserRow) : UserRow :=
  { user with name := [], passwordHash := [], mustChange := false }

/-- At most names, passwords and `must_change` differ. -/
structure Db.Unrecorded (db t : Db) : Prop where
  /-- the other columns of the users -/
  users : t.users.map UserRow.recorded = db.users.map UserRow.recorded
  /-- the other tables -/
  rest : t = { db with users := t.users }

/-- A call of `who` was accepted: an edit, with the rows that record it. -/
def Accepted (who : Caller) (db t : Db) : Prop :=
  ∃ edited entries, Edit who db edited ∧ t = edited.audits entries ∧
    (∀ entry ∈ entries, entry.RecordsOf who) ∧ (entries = [] → db.Unrecorded edited)

namespace Accepted

variable {who : Caller} {db edited : Db}

/-- Nothing is changed. -/
theorem nothing (who : Caller) (db : Db) : Accepted who db db :=
  ⟨db, [], .nothing, (Db.audits_nil db).symm, nofun, fun _ => ⟨rfl, rfl⟩⟩

/-- An edit with its row. -/
theorem recorded (h : Edit who db edited) {entry : AuditEntry} (hentry : entry.RecordsOf who) :
    Accepted who db (edited.audit entry) :=
  ⟨edited, [entry], h, Db.audit_eq_audits entry edited, List.forall_mem_singleton.mpr hentry, nofun⟩

/-- An edit with two rows. -/
theorem recorded_twice (h : Edit who db edited) {entry entry' : AuditEntry}
    (hentry : entry.RecordsOf who) (hentry' : entry'.RecordsOf who) :
    Accepted who db ((edited.audit entry).audit entry') := by
  refine ⟨edited, [entry, entry'], h, ?_, ?_, nofun⟩
  · rw [Db.audits_cons, Db.audit_eq_audits entry']
  · exact List.forall_mem_cons.mpr ⟨hentry, List.forall_mem_singleton.mpr hentry'⟩

end Accepted

/-- What `post_route` of the traces does for anyone: a score, or other tags. -/
inductive Annotated (now : ℚ) (db : Db) : Db → Prop
  /-- a score -/
  | scored (score : Score) (traceId : PyStr) :
      Annotated now db (({ db with scores := db.scores ++ [score] }).audit
        (apiEntry "trace.scored" traceId now))
  /-- other tags -/
  | tagged (traceId : PyStr) (tags : List PyStr) :
      Annotated now db ((setTraceTags traceId tags db).audit (apiEntry "trace.tagged" traceId now))

/-- What an answered call has done: who asks had an edit accepted, or, where anyone may,
a trace was annotated. -/
def ApiRequest.Changes (S : Services) (r : ApiRequest) (anyone : Bool) (now : ℚ) (db t : Db) :
    Prop :=
  (∃ who, r.AsksAs S now db who ∧ Accepted who db t) ∨ anyone = true ∧ Annotated now db t

/-- What a refused one has: nothing, or the row of a 403 for who asks. -/
def ApiRequest.Refusal (S : Services) (r : ApiRequest) (now : ℚ) (db : Db) (e : HttpError)
    (t : Db) : Prop :=
  t = db ∨ e.isForbidden = true ∧
    ∃ who entry, r.AsksAs S now db who ∧ entry.DeniedTo who ∧ t = db.audit entry

/-- Each way through a handler, or the rest of one, ends so. -/
def Heeds (S : Services) (r : ApiRequest) (anyone : Bool) (now : ℚ) (db : Db)
    (h : Handler Fields) : Prop :=
  h.Ends db (fun _ t => r.Changes S anyone now db t) (r.Refusal S now db)

namespace Heeds

variable {S : Services} {r : ApiRequest} {anyone : Bool} {now : ℚ} {db : Db} {β : Type}

theorem raise (e : HttpError) : Heeds S r anyone now db (Prog.raise e) :=
  Prog.Ends.raise (Or.inl rfl)

/-- What is checked comes first. -/
theorem lift {x : Except HttpError β} {k : β → Handler Fields}
    (h : ∀ b, x = .ok b → Heeds S r anyone now db (k b)) :
    Heeds S r anyone now db (Prog.lift x >>= k) := by
  rcases x with e | b
  · exact raise e
  · exact h b rfl

theorem get {f : Db → β} {k : β → Handler Fields} (h : Heeds S r anyone now db (k (f db))) :
    Heeds S r anyone now db (Prog.get f >>= k) := h

theorem raiseIf {o : Option HttpError} {k : PUnit → Handler Fields}
    (h : o = none → Heeds S r anyone now db (k ⟨⟩)) :
    Heeds S r anyone now db (Prog.raiseIf o >>= k) := by
  rcases o with _ | e
  · exact h rfl
  · exact raise e

/-- Something is read that may not be there. -/
theorem load {x : Handler β} {k : β → Handler Fields} (hsame : ∀ db, (x db).2 = db)
    (h : ∀ b, Heeds S r anyone now db (k b)) : Heeds S r anyone now db (x >>= k) := by
  have hread := hsame db
  rcases hx : x db with ⟨e | b, t⟩
  · rw [hx] at hread
    obtain rfl : t = db := hread
    unfold Heeds Prog.Ends
    rw [Prog.run_bind_error hx]
    exact Or.inl rfl
  · rw [hx] at hread
    obtain rfl : t = db := hread
    unfold Heeds Prog.Ends
    rw [Prog.run_bind_ok hx]
    exact h b

theorem enforce {forced : Bool} {k : Option Caller → Handler Fields}
    (h : ∀ cached, r.Enforced S.auth now db cached → Heeds S r anyone now db (k cached)) :
    Heeds S r anyone now db (enforceBrowserSession S.auth
      (r.verified S.keys now db).toSessionRequest forced now >>= k) := by
  have hcookie : (r.verified S.keys now db).cookie = r.cookie := rfl
  unfold Heeds Prog.Ends
  rcases hrun : enforceBrowserSession S.auth (r.verified S.keys now db).toSessionRequest forced now
    db with ⟨e | cached, t⟩
  · obtain rfl := (enforce_ends _ forced now db).error hrun
    rw [Prog.run_bind_error hrun]
    exact Or.inl rfl
  · obtain rfl := (enforce_ends _ forced now db).ok hrun
    rw [Prog.run_bind_ok hrun]
    refine h cached ?_
    unfold enforceBrowserSession at hrun
    rw [hcookie] at hrun
    rcases hc : r.cookie with _ | token
    · rw [hc] at hrun
      obtain rfl := Except.ok.inj (congrArg Prod.fst hrun)
      exact .bare hc
    · rw [hc] at hrun
      dsimp only at hrun
      rcases hres : resolveToken S.auth t token now with _ | user
      · rw [hres] at hrun
        cases hrun
      · rw [hres] at hrun
        dsimp only at hrun
        split at hrun
        · cases hrun
        · split at hrun
          · cases hrun
          · obtain rfl := Except.ok.inj (congrArg Prod.fst hrun)
            exact .session hc hres

theorem gate {cached : Option Caller} (hcached : r.Enforced S.auth now db cached)
    {k : Caller → Handler Fields}
    (h : ∀ who, r.AsksAs S now db who → Heeds S r anyone now db (k who)) :
    Heeds S r anyone now db
      (Auth.gate (r.verified S.keys now db).toSessionRequest cached >>= k) := by
  cases hcached with
  | session hcookie hres => exact h _ (.session hcookie hres)
  | bare hcookie =>
    unfold Auth.gate
    rcases hkey : (r.verified S.keys now db).apiKey with _ | keyId
    · exact raise _
    · obtain ⟨presented, hpresented, hverify⟩ := Option.bind_eq_some_iff.mp hkey
      refine h _ (.key hcookie hpresented ?_)
      rcases hv : (verifyKey S.keys presented now db).1 with e | found
      · rw [hv] at hverify
        cases hverify
      · rw [hv] at hverify
        exact congrArg Except.ok hverify

/-- The permission table. -/
theorem permit {who : Caller} (hwho : r.AsksAs S now db who) {permission action : PyStr}
    {target : Option PyStr} {k : PUnit → Handler Fields}
    (h : roleAllows who.role permission = true → Heeds S r anyone now db (k ⟨⟩)) :
    Heeds S r anyone now db (requirePermission who permission action target now >>= k) := by
  by_cases hallow : roleAllows who.role permission = true
  · unfold Heeds Prog.Ends
    rw [Prog.run_bind_ok (requirePermission_allows hallow)]
    exact h hallow
  · unfold requirePermission
    rw [if_neg hallow]
    exact Or.inr ⟨rfl, who, _, hwho, ⟨rfl, rfl, rfl⟩, rfl⟩

theorem gated {cached : Option Caller} (hcached : r.Enforced S.auth now db cached)
    {permission action : String} {target : Option PyStr} {k : Caller → Handler Fields}
    (h : ∀ who, r.AsksAs S now db who → roleAllows who.role (py permission) = true →
      Heeds S r anyone now db (k who)) :
    Heeds S r anyone now db (LayaWatch.gated (r.verified S.keys now db).toSessionRequest cached
      permission action target now >>= k) := by
  unfold LayaWatch.gated
  rw [Prog.bind_bind]
  refine gate hcached fun who hwho => ?_
  rw [Prog.bind_bind]
  exact permit hwho fun hallow => h who hwho hallow

theorem keyWriter {cached : Option Caller} (hcached : r.Enforced S.auth now db cached)
    {action : String} {target : Option PyStr} {k : Caller → Handler Fields}
    (h : ∀ who, r.AsksAs S now db who → roleAllows who.role (py "keys.write") = true →
      Heeds S r anyone now db (k who)) :
    Heeds S r anyone now db (LayaWatch.keyWriter (r.verified S.keys now db).toSessionRequest cached
      action target now >>= k) :=
  gated hcached h

/-- A path below a prefix is split before anything else. -/
theorem onePart {parts : List PyStr} {e : HttpError} {k : PyStr → Handler Fields}
    (h : ∀ part, Heeds S r anyone now db (k part)) : Heeds S r anyone now db
      (match parts with
      | [part] => if part.isEmpty then Prog.raise e else k part
      | _ => Prog.raise e) := by
  rcases parts with _ | ⟨part, _ | ⟨_, _⟩⟩
  · exact raise e
  · dsimp only
    split
    · exact raise e
    · exact h part
  · exact raise e

theorem twoParts {parts : List PyStr} {e : HttpError} {k : PyStr → PyStr → Handler Fields}
    (h : ∀ part verb, Heeds S r anyone now db (k part verb)) : Heeds S r anyone now db
      (match parts with
      | [part, verb] => k part verb
      | _ => Prog.raise e) := by
  rcases parts with _ | ⟨part, _ | ⟨verb, _ | ⟨_, _⟩⟩⟩
  · exact raise e
  · exact raise e
  · exact h part verb
  · exact raise e

/-- The transaction of an edit with its row. -/
theorem edit {who : Caller} (hwho : r.AsksAs S now db who) {change : Db → Db}
    (hedit : Edit who db (change db)) {entry : AuditEntry} (hentry : entry.RecordsOf who)
    {answer : Fields} :
    Heeds S r anyone now db ((Prog.modify fun db => (change db).audit entry) >>= fun _ =>
      (pure answer : Handler Fields)) :=
  Or.inl ⟨who, hwho, .recorded hedit hentry⟩

/-- Nothing is left to do. -/
theorem nothing {who : Caller} (hwho : r.AsksAs S now db who) (answer : Fields) :
    Heeds S r anyone now db (pure answer) :=
  Or.inl ⟨who, hwho, .nothing who db⟩

theorem answer {who : Caller} (hwho : r.AsksAs S now db who) (x : Except HttpError Fields) :
    Heeds S r anyone now db (Prog.lift x) := by
  rcases x with e | answer
  · exact raise e
  · exact nothing hwho answer

end Heeds

theorem recordsOf_caller (who : Caller) (now : ℚ) (action : String) (target : Option PyStr)
    (metadata : Fields) : (callerEntry who now action target metadata).RecordsOf who :=
  ⟨rfl, rfl, rfl⟩

theorem recordsOf_key (who : Caller) (now : ℚ) (action : String) (target : PyStr)
    (metadata : Fields) : (keyEntry who now action target metadata).RecordsOf who :=
  ⟨rfl, rfl, rfl⟩

/-! ## The handlers -/

section

variable {S : Services} {r : ApiRequest} {anyone : Bool} {now : ℚ} {db : Db}

theorem loadKey_same (keyId : PyStr) (db : Db) : (loadKey keyId db).2 = db :=
  loadKey_keeps id keyId db

theorem revokeKey_heeds {cached : Option Caller} (hcached : r.Enforced S.auth now db cached)
    (keyId : PyStr) : Heeds S r anyone now db
      (revokeKey (r.verified S.keys now db).toSessionRequest cached keyId now) := by
  refine Heeds.keyWriter hcached fun who hwho hallow => ?_
  refine .load (loadKey_same keyId) fun row => ?_
  split
  · exact .edit hwho (.keys _ hallow) (recordsOf_key ..)
  · exact .nothing hwho _

theorem rotateKey_heeds {cached : Option Caller} (hcached : r.Enforced S.auth now db cached)
    (keyId : PyStr) (drawn : List (Fin 62)) : Heeds S r anyone now db
      (rotateKey S.keys (r.verified S.keys now db).toSessionRequest cached keyId drawn now) := by
  refine Heeds.keyWriter hcached fun who hwho hallow => ?_
  exact .load (loadKey_same keyId) fun row => .raiseIf fun _ =>
    (.edit hwho (.keys _ hallow) (recordsOf_key ..))

theorem setLimits_heeds {cached : Option Caller} (hcached : r.Enforced S.auth now db cached)
    (keyId : PyStr) : Heeds S r anyone now db
      (setLimits (r.verified S.keys now db).toSessionRequest cached keyId now) := by
  refine .lift fun limits _ => .gated hcached fun who hwho hallow => ?_
  exact .load (loadKey_same keyId) fun row => .raiseIf fun _ =>
    (.edit hwho (.keys _ hallow) (recordsOf_caller ..))

end

/-! ### Users -/

open UserPoint

/-- Accounts changed, with rows of `who` after them: `v` shows both. -/
structure Draft (who : Caller) (db : Db) (entries : List AuditEntry) (edited v : Db) : Prop where
  /-- nothing else is changed -/
  accounts : edited = { db with users := edited.users, sessions := edited.sessions }
  /-- ids stay unique -/
  keys : (db.users.map UserRow.id).Nodup → (edited.users.map UserRow.id).Nodup
  /-- what is seen -/
  view : v = edited.audits entries
  /-- the rows -/
  rows : ∀ entry ∈ entries, entry.RecordsOf who

namespace Draft

variable {who : Caller} {db edited v : Db} {entries : List AuditEntry}

theorem audit (h : Draft who db entries edited v) {entry : AuditEntry}
    (hentry : entry.RecordsOf who) : Draft who db (entries ++ [entry]) edited (v.audit entry) := by
  refine ⟨h.accounts, h.keys, ?_, ?_⟩
  · rw [h.view, Db.audit_audits]
  · intro e he
    rcases List.mem_append.mp he with he | he
    · exact h.rows e he
    · rw [List.mem_singleton.mp he]
      exact hentry

theorem revokeSessions (h : Draft who db entries edited v) (id : PyStr) :
    Draft who db entries (edited.revokeSessions id) (v.revokeSessions id) := by
  refine ⟨?_, h.keys, ?_, h.rows⟩
  · have haccounts := h.accounts
    unfold Db.revokeSessions
    generalize edited.sessions.map _ = sessions
    rw [haccounts]
  · rw [h.view]
    rfl

theorem updateUser (id : PyStr) (changed : UserPatch) :
    Draft who db [] (db.updateUser id changed) (db.updateUser id changed) := by
  refine ⟨rfl, fun hkeys => ?_, (Db.audits_nil _).symm, nofun⟩
  have hids : (db.updateUser id changed).users.map UserRow.id = db.users.map UserRow.id := by
    unfold Db.updateUser
    rw [List.map_map]
    refine List.map_congr_left fun u _ => ?_
    rw [Function.comp_apply]
    split <;> rfl
  rwa [hids]

theorem deleteUser (id : PyStr) : Draft who db [] (db.deleteUser id) (db.deleteUser id) :=
  ⟨rfl, fun hkeys => hkeys.sublist (List.filter_sublist.map _), (Db.audits_nil _).symm, nofun⟩

end Draft

/-- What a request has written at each of its places. -/
def Drafts (who : Caller) (db : Db) : UserPoint → Db → Db → Prop
  | authenticate, _, v | fetch .., _, v | guardRole _, _, v | guardDisable _, _, v
  | update _, _, v | guardDelete .., _, v | delete .., _, v => v = db
  | auditRole _, _, v | auditDisabled _, _, v | auditDelete .., _, v =>
    ∃ entries edited, Draft who db entries edited v
  | revokeRole _, _, v | revokeDisabled _, _, v =>
    ∃ entries edited, Draft who db entries edited v ∧ entries ≠ []
  | refetch _, _, v | commitAll _, _, v =>
    ∃ entries edited, Draft who db entries edited v ∧ (entries = [] → db.Unrecorded edited)
  | closing (.ok _), d, _ | done (.ok _), d, _ =>
    ∃ entries edited, Draft who db entries edited d ∧ (entries = [] → db.Unrecorded edited)
  | deny entry _, _, v => v = db ∧ entry.DeniedTo who
  | commitDenied _, _, v => ∃ entry : AuditEntry, entry.DeniedTo who ∧ v = db.audit entry
  | closing (.error _), d, _ | done (.error _), d, _ =>
    d = db ∨ ∃ entry : AuditEntry, entry.DeniedTo who ∧ d = db.audit entry

/-- The principal of the request is this caller. -/
structure Principal.Names (who : Caller) (principal : Principal) : Prop where
  /-- by name -/
  actor : principal.actor = who.actor
  /-- by id -/
  actorId : some principal.actorId = who.actorId

section

variable {r : UserRequest} {db : Db} {who : Caller}

theorem drafts_fail (e : HttpError) : Drafts who db (fail e) db db := Or.inl rfl

theorem drafts_gate {principal : Principal} (hnames : principal.Names who)
    (action : Option PyStr) (plan : UserPlan) :
    Drafts who db (UserPoint.gate r principal action plan) db db := by
  unfold UserPoint.gate
  split
  · exact rfl
  · exact ⟨rfl, hnames.actor, hnames.actorId, rfl⟩

theorem drafts_refuse {principal : Principal} (hnames : principal.Names who) (action : String)
    (target : PyStr) (reason : String) :
    Drafts who db (refuse r principal action target reason) db db :=
  ⟨rfl, hnames.actor, hnames.actorId, rfl⟩

theorem drafts_enter (user : UserRow) (sessionId : PyStr) :
    Drafts (.session user sessionId) db (enter r user) db db := by
  unfold UserPoint.enter
  split
  · exact drafts_fail _
  · split
    · exact drafts_fail _
    · split
      · exact drafts_fail _
      · exact drafts_gate ⟨rfl, rfl⟩ ..
      · exact drafts_fail _
      · exact drafts_gate ⟨rfl, rfl⟩ ..

theorem drafts_afterRoleGuard (p : Patching) : Drafts who db (afterRoleGuard p) db db := by
  unfold UserPoint.afterRoleGuard
  split
  · split
    · exact rfl
    · exact rfl
  · exact rfl

theorem drafts_applyUserUpdate {p : Patching} (hnames : p.who.Names who) :
    Drafts who db (applyUserUpdate r p) db db := by
  unfold UserPoint.applyUserUpdate
  split
  · split
    · exact drafts_refuse hnames ..
    · split
      · exact rfl
      · exact drafts_afterRoleGuard p
  · exact drafts_afterRoleGuard p

theorem drafts_deleteUser {principal : Principal} (hnames : principal.Names who)
    (target : UserRow) : Drafts who db (UserPoint.deleteUser r principal target) db db := by
  unfold UserPoint.deleteUser
  split
  · exact drafts_refuse hnames ..
  · split
    · exact rfl
    · exact rfl

theorem recordsOf_principal {principal : Principal} (hnames : principal.Names who)
    {entry : AuditEntry} (hid : entry.actorId = some principal.actorId)
    (hname : entry.actor = principal.actor) (hok : entry.result = .ok) : entry.RecordsOf who :=
  ⟨hname.trans hnames.actor, hid.trans hnames.actorId, hok⟩

/-- The principal is the user that the session resolves to. -/
theorem names_of_actsFor {actor : UserRow} {principal : Principal}
    (hactor : resolveSession db r.session (r.clock 0) = some actor)
    (hprincipal : ∃ actor, ActsFor r db principal actor) (sessionId : PyStr) :
    principal.Names (.session actor sessionId) := by
  obtain ⟨actor', hresolved, rfl⟩ := hprincipal
  obtain rfl := Option.some.inj (hresolved.symm.trans hactor)
  exact ⟨rfl, rfl⟩

/-- A PATCH that changes neither role nor `disabled` needs no row. -/
theorem unrecorded_updateUser (hkeys : (db.users.map UserRow.id).Nodup) {p : Patching}
    (hfound : fetchUser db r.userId = some p.target) (hrole : roleChanged p = false)
    (hdisabled : disabledChanged p = false) :
    db.Unrecorded (db.updateUser p.target.id p.changed) := by
  refine ⟨?_, rfl⟩
  unfold Db.updateUser
  rw [List.map_map]
  refine List.map_congr_left fun u hu => ?_
  rw [Function.comp_apply]
  split
  · next hid =>
    obtain rfl := eq_of_fetchUser hkeys hfound hu (hid.trans (id_of_fetchUser hfound))
    have hsame : p.changed.role.getD p.target.role = p.target.role := by
      unfold roleChanged at hrole
      rcases hnew : p.changed.role with _ | role
      · rfl
      · rw [hnew] at hrole
        exact not_not.mp (of_decide_eq_false hrole)
    have hflag : p.changed.disabled.getD p.target.disabled = p.target.disabled := by
      unfold disabledChanged at hdisabled
      rcases hnew : p.changed.disabled with _ | flag
      · rfl
      · rw [hnew] at hdisabled
        exact bne_eq_false_iff_eq.mp hdisabled
    unfold UserPatch.apply UserRow.recorded
    rw [hsame, hflag]
  · rfl

/-- Behind the audit row of a change, or where none is due. -/
theorem drafts_afterRole {p : Patching} {entries : List AuditEntry} {edited v : Db}
    (h : Draft who db entries edited v)
    (hdue : disabledChanged p = false → entries = [] → db.Unrecorded edited) :
    Drafts who db (afterRole p) db v := by
  unfold UserPoint.afterRole
  split
  · exact ⟨entries, edited, h⟩
  · next hsame => exact ⟨entries, edited, h, hdue (Bool.eq_false_iff.mpr hsame)⟩

/-- Every statement keeps what is drafted. -/
theorem drafts_step {actor : UserRow} {sessionId : PyStr}
    (hkeys : (db.users.map UserRow.id).Nodup)
    (hactor : resolveSession db r.session (r.clock 0) = some actor) (p : UserPoint)
    (st : Wal.Stmt Db UserPoint) (d v : Db) (hknown : Knows r db p d v)
    (h : Drafts (.session actor sessionId) db p d v) (hcode : userCode r p = some st) :
    st.Keeps (Drafts (.session actor sessionId) db) d v := by
  have hnames : ∀ principal, (∃ actor, ActsFor r db principal actor) →
      principal.Names (.session actor sessionId) := fun _ h => names_of_actsFor hactor h sessionId
  cases p with
  | authenticate =>
    obtain ⟨rfl, rfl⟩ := hknown
    obtain rfl := Option.some.inj hcode
    unfold Wal.Stmt.Keeps
    dsimp only
    rw [hactor]
    exact drafts_enter actor sessionId
  | fetch principal plan =>
    obtain ⟨rfl, rfl, hprincipal, -⟩ := hknown
    obtain rfl := Option.some.inj hcode
    unfold Wal.Stmt.Keeps
    dsimp only
    split
    · exact drafts_fail _
    · split
      · exact drafts_fail _
      · exact drafts_applyUserUpdate (hnames _ hprincipal)
    · exact drafts_deleteUser (hnames _ hprincipal) _
  | guardRole p =>
    obtain ⟨rfl, rfl, hpatch, -⟩ := hknown
    obtain rfl := Option.some.inj hcode
    unfold Wal.Stmt.Keeps
    dsimp only
    split
    · exact drafts_refuse (hnames _ hpatch.actor) ..
    · exact drafts_afterRoleGuard p
  | guardDisable p =>
    obtain ⟨rfl, rfl, hpatch, -⟩ := hknown
    obtain rfl := Option.some.inj hcode
    unfold Wal.Stmt.Keeps
    dsimp only
    split
    · exact drafts_refuse (hnames _ hpatch.actor) ..
    · exact h
  | update p =>
    obtain ⟨rfl, hcleared⟩ := hknown
    obtain rfl : v = d := h
    obtain rfl := Option.some.inj hcode
    have hdraft : Draft (.session actor sessionId) v [] (v.updateUser p.target.id p.changed) _ :=
      Draft.updateUser p.target.id p.changed
    unfold Wal.Stmt.Keeps afterUpdate
    dsimp only
    split
    · exact ⟨[], _, hdraft⟩
    · next hrole =>
      exact drafts_afterRole hdraft fun hdisabled _ => unrecorded_updateUser hkeys
        hcleared.patch.found (Bool.eq_false_iff.mpr hrole) hdisabled
  | auditRole p =>
    obtain ⟨rfl, hcleared⟩ := hknown
    obtain ⟨entries, edited, hdraft⟩ := h
    obtain rfl := Option.some.inj hcode
    exact ⟨entries ++ [roleEntry r p], edited,
      hdraft.audit (recordsOf_principal (hnames _ hcleared.patch.actor) rfl rfl rfl),
      List.append_ne_nil_of_right_ne_nil _ (List.cons_ne_nil _ _)⟩
  | revokeRole p =>
    obtain ⟨rfl, -⟩ := hknown
    obtain ⟨entries, edited, hdraft, hne⟩ := h
    obtain rfl := Option.some.inj hcode
    exact drafts_afterRole (hdraft.revokeSessions p.target.id) fun _ hnil => absurd hnil hne
  | auditDisabled p =>
    obtain ⟨rfl, hcleared⟩ := hknown
    obtain ⟨entries, edited, hdraft⟩ := h
    obtain rfl := Option.some.inj hcode
    have hrow : Draft (.session actor sessionId) d (entries ++ [disabledEntry r p]) edited _ :=
      hdraft.audit (recordsOf_principal (hnames _ hcleared.patch.actor) rfl rfl rfl)
    have hne : entries ++ [disabledEntry r p] ≠ [] :=
      List.append_ne_nil_of_right_ne_nil _ (List.cons_ne_nil _ _)
    unfold Wal.Stmt.Keeps afterAudit
    dsimp only
    split
    · exact ⟨_, edited, hrow, hne⟩
    · exact ⟨_, edited, hrow, fun hnil => absurd hnil hne⟩
  | revokeDisabled p =>
    obtain ⟨entries, edited, hdraft, hne⟩ := h
    obtain rfl := Option.some.inj hcode
    exact ⟨entries, _, hdraft.revokeSessions p.target.id, fun hnil => absurd hnil hne⟩
  | refetch target =>
    obtain ⟨rfl, -⟩ := hknown
    obtain rfl := Option.some.inj hcode
    unfold Wal.Stmt.Keeps
    dsimp only
    split
    · exact Or.inl rfl
    · exact h
  | guardDelete principal target =>
    obtain ⟨rfl, rfl, hdelete⟩ := hknown
    obtain rfl := Option.some.inj hcode
    unfold Wal.Stmt.Keeps
    dsimp only
    split
    · exact drafts_refuse (hnames _ hdelete.actor) ..
    · exact h
  | delete principal target =>
    obtain rfl : v = db := h
    obtain rfl := Option.some.inj hcode
    exact ⟨[], _, Draft.deleteUser target.id⟩
  | auditDelete principal target =>
    obtain ⟨-, hcleared⟩ := hknown
    obtain ⟨entries, edited, hdraft⟩ := h
    obtain rfl := Option.some.inj hcode
    have hrow : (deletedEntry r principal target).RecordsOf (.session actor sessionId) :=
      recordsOf_principal (hnames _ hcleared.delete.actor) rfl rfl rfl
    exact ⟨_, edited, hdraft.audit hrow, fun hnil =>
      absurd hnil (List.append_ne_nil_of_right_ne_nil _ (List.cons_ne_nil _ _))⟩
  | commitAll result =>
    obtain rfl := Option.some.inj hcode
    exact h
  | deny entry e =>
    obtain ⟨rfl, hdenied⟩ := h
    obtain rfl := Option.some.inj hcode
    exact ⟨entry, hdenied, rfl⟩
  | commitDenied e =>
    obtain rfl := Option.some.inj hcode
    exact Or.inr h
  | closing result =>
    obtain rfl := Option.some.inj hcode
    cases result with
    | error e => exact h
    | ok fields => exact h
  | done result => cases hcode

end

/-- What two invariants say behind a statement. -/
theorem Wal.Stmt.Keeps.and {σ π : Type} {I J : π → σ → σ → Prop} {d v : σ} {st : Wal.Stmt σ π}
    (hI : st.Keeps I d v) (hJ : st.Keeps J d v) :
    st.Keeps (fun p d v => I p d v ∧ J p d v) d v := by
  cases st with
  | select k => exact ⟨hI, hJ⟩
  | dml change k => exact ⟨hI, hJ⟩
  | commit k => exact ⟨hI, hJ⟩
  | rollback k => exact ⟨hI, hJ⟩

section

variable {S : Services} {r : ApiRequest} {anyone : Bool} {now : ℚ} {db : Db}

/-- PATCH and DELETE of a user, past their gate. -/
theorem userRest_heeds (hkeys : (db.users.map UserRow.id).Nodup) {who : Caller}
    (hwho : r.AsksAs S now db who) (hallow : roleAllows who.role (py "users.write") = true)
    (userId : PyStr) {op : UserOp} (hbody : ∀ e, op ≠ .patch (.error e)) : Heeds S r anyone now db
      (userRest (r.verified S.keys now db).toSessionRequest who userId op now) := by
  cases hwho with
  | key hcookie hpresented hverify =>
    have hviewer : roleAllows .viewer (py "users.write") = false := by decide +kernel
    exact absurd hallow (Bool.eq_false_iff.mp hviewer)
  | @session token user hcookie hres =>
    generalize hrequest : (⟨S.auth.digest token, (r.verified S.keys now db).csrf, userId, op,
      fun _ => now⟩ : UserRequest) = request
    have hactor : resolveSession db request.session (request.clock 0) = some user := by
      rw [← hrequest]
      exact resolveSession_of_token hres
    obtain ⟨result, d, hrun, -⟩ := user_settles request db
    have hbody' : ∀ e, request.op ≠ .patch (.error e) := by
      rw [← hrequest]
      exact hbody
    have hstart : Knows request db .authenticate db db ∧
        Drafts (.session user (S.auth.digest token)) db .authenticate db db := ⟨⟨rfl, rfl⟩, rfl⟩
    obtain ⟨_, hknown, hdraft⟩ := Wal.alone_keeps
      (I := fun p d v => Knows request db p d v ∧
        Drafts (.session user (S.auth.digest token)) db p d v)
      (fun p st d v h hcode => Wal.Stmt.Keeps.and (knows_step hbody' p st d v h.1 hcode)
        (drafts_step hkeys hactor p st d v h.1 h.2 hcode))
      hstart hrun
    unfold Heeds Prog.Ends userRest userAlone
    dsimp only [Caller.sessionId, Option.getD_some]
    rw [hrequest, hrun]
    rcases result with (e | _) | fields
    · rcases hdraft with hsame | ⟨entry, hdenied, hlogged⟩
      · exact Or.inl hsame
      · by_cases he : e.isForbidden = true
        · exact Or.inr ⟨he, _, entry, .session hcookie hres, hdenied, hlogged⟩
        · -- what is no 403 leaves no row
          have hsame : FailsSoundly db d (.http e) := hknown
          unfold FailsSoundly at hsame
          dsimp only at hsame
          rw [if_neg he] at hsame
          exact Or.inl hsame
    · exact Or.inl hknown
    · obtain ⟨entries, edited, hdrafted, hdue⟩ := hdraft
      refine Or.inl ⟨_, .session hcookie hres, edited, entries, ?_, hdrafted.view,
        hdrafted.rows, hdue⟩
      rw [hdrafted.accounts]
      exact .accounts _ _ hallow hdrafted.keys

end

/-! ### Settings -/

theorem mem_controls {T : PyText} {name text : PyStr} {value : Json}
    (h : controlText T name value = .ok text) : name ∈ controls := by
  unfold controlText at h
  split at h
  · next heq =>
    rw [heq]
    decide +kernel
  · split at h
    · next heq =>
      rw [heq]
      decide +kernel
    · split at h
      · next minimum hlookup =>
        have hall : ∀ e ∈ intMinimums, e.1 ∈ controls := by decide +kernel
        obtain ⟨l, r, hl, -⟩ := List.lookup_eq_some_iff.mp hlookup
        exact hall (name, minimum) (by rw [hl]; simp)
      · cases h

/-- What a loop puts out, it has computed. -/
theorem mem_of_mapM {α β : Type} {f : α → Except HttpError β} {l : List α} {out : List β}
    (h : l.mapM f = .ok out) {b : β} (hb : b ∈ out) : ∃ a ∈ l, f a = .ok b := by
  have hall := mapM_eq_ok.mp h
  clear h
  induction hall with
  | nil => cases hb
  | cons hab _ ih =>
    rcases List.mem_cons.mp hb with rfl | hb
    · exact ⟨_, List.mem_cons_self, hab⟩
    · obtain ⟨a, ha, hfa⟩ := ih hb
      exact ⟨a, List.mem_cons_of_mem _ ha, hfa⟩

/-- What `update` stores are controls. -/
theorem settingTexts_controls {T : PyText} {r : ApiRequest} {stored : List (PyStr × PyStr)}
    (h : settingTexts T r = .ok stored) : ∀ e ∈ stored, e.1 ∈ controls := by
  unfold settingTexts at h
  obtain ⟨_, -, h⟩ := bind_eq_ok.mp h
  obtain ⟨payload, -, h⟩ := bind_eq_ok.mp h
  split at h
  · cases h
  · intro e he
    obtain ⟨a, -, ha⟩ := mem_of_mapM h he
    rcases htext : controlText T a.1 a.2 with error | text
    · rw [htext] at ha
      cases ha
    · rw [htext] at ha
      obtain rfl := Except.ok.inj ha
      exact mem_controls htext

/-- What `update_policy` stores are settings of the policy. -/
theorem validatedUpdate_policy {r : SessionRequest} {updates : List (PolicyField × Json)}
    (h : validatedUpdate r = .ok updates) : ∀ e ∈ updates, e.1 ∈ policyFields := by
  unfold validatedUpdate at h
  obtain ⟨payload, -, h⟩ := bind_eq_ok.mp h
  split at h
  · cases h
  · intro e he
    obtain ⟨a, -, ha⟩ := mem_of_mapM h he
    split at ha
    · cases ha
    · next field hfield =>
      rcases hvalue : parsePolicy field a.2 with error | value
      · rw [hvalue] at ha
        cases ha
      · rw [hvalue] at ha
        obtain rfl := Except.ok.inj ha
        exact List.mem_of_find?_eq_some hfield

/-- No policy is the capture setting. -/
theorem policy_not_capture : ∀ field ∈ policyFields, py field.key ≠ captureSetting := by
  decide +kernel

section

variable {S : Services} {r : ApiRequest} {anyone : Bool} {now : ℚ} {db : Db}

theorem updateSettings_heeds : Heeds S r anyone now db
    (LayaWatch.updateSettings S.auth S.text S.config (r.verified S.keys now db) now) := by
  refine Heeds.enforce fun cached hcached => .lift fun stored hstored => ?_
  refine .gated hcached fun who hwho hallow => ?_
  have hnames : ∀ e ∈ stored, e.1 ∈ runtimeSettings := fun e he =>
    List.mem_append_left _ (settingTexts_controls hstored e he)
  dsimp only
  split
  · refine .permit hwho fun hcapture => .get (.lift fun after _ => Or.inl ⟨who, hwho, ?_⟩)
    exact .recorded_twice (.settings stored now hallow hnames fun _ => hcapture)
      (recordsOf_caller ..) (recordsOf_caller ..)
  · next htoggled =>
    refine .get (.lift fun after _ => Or.inl ⟨who, hwho, ?_⟩)
    refine .recorded (.settings stored now hallow hnames fun hmem => ?_) (recordsOf_caller ..)
    obtain ⟨e, he, hname⟩ := List.mem_map.mp hmem
    exact absurd (List.any_eq_true.mpr ⟨e, he, decide_eq_true hname⟩) htoggled

theorem updatePolicy_heeds : Heeds S r anyone now db (LayaWatch.updatePolicy S.auth S.text S.config
    (r.verified S.keys now db).toSessionRequest now) := by
  refine Heeds.enforce fun cached hcached => .lift fun updates hupdates => ?_
  refine .gated hcached fun who hwho hallow => .get (Or.inl ⟨who, hwho, ?_⟩)
  have hpolicy := validatedUpdate_policy hupdates
  have hstore : updates.foldl (fun db e => upsertSetting (py e.1.key) (policyText e.2) who.actor
      now db) db = storeSettings (updates.map fun e => (py e.1.key, policyText e.2)) who.actor now
        db := by
    unfold storeSettings
    rw [List.foldl_map]
  dsimp only [Prog.modify]
  rw [hstore]
  refine .recorded (.settings _ now hallow ?_ ?_) (recordsOf_caller ..)
  · intro e he
    obtain ⟨update, hmem, rfl⟩ := List.mem_map.mp he
    exact List.mem_append_right _ (List.mem_map_of_mem (hpolicy update hmem))
  · intro hmem
    obtain ⟨e, he, hname⟩ := List.mem_map.mp hmem
    obtain ⟨update, hmem, rfl⟩ := List.mem_map.mp he
    exact absurd hname (policy_not_capture update.1 (hpolicy update hmem))

theorem loadTrace_same (traceId : PyStr) (db : Db) : (loadTrace traceId db).2 = db := by
  rw [loadTrace_reads]

theorem scores_heeds (traceId scoreId : PyStr) : Heeds S r true now db
    (scores S.text (r.verified S.keys now db).toSessionRequest traceId scoreId now) :=
  .lift fun form _ => .load (loadTrace_same traceId) fun _ => .get (.raiseIf fun _ =>
    Or.inr ⟨rfl, .scored (form.row scoreId traceId now) traceId⟩)

theorem tags_heeds (traceId : PyStr) : Heeds S r true now db
    (tags (r.verified S.keys now db).toSessionRequest traceId now) :=
  .lift fun _ _ => .load (loadTrace_same traceId) fun _ => .raiseIf fun _ =>
    Or.inr ⟨rfl, .tagged traceId _⟩

/-- The sessions that a password change ends are recorded, if there are any. -/
theorem accepted_replacePassword {user : UserRow} {sessionId : PyStr} (new salt : PyStr) :
    Accepted (.session user sessionId) db
      (replacePassword S.auth user sessionId new salt now db) := by
  have hedit : Edit (.session user sessionId) db ((db.mapUser user.id fun u => { u with
      passwordHash := S.auth.hashPassword new salt
      mustChange := false }).revokeOtherSessions user.id (some sessionId)) := .password _ rfl
  unfold replacePassword
  dsimp only
  split
  · next hnone =>
    refine ⟨_, [], hedit, (Db.audits_nil _).symm, nofun, fun _ => ⟨?_, ?_⟩⟩
    · unfold Db.mapUser Db.revokeOtherSessions Db.revokeWhere
      dsimp only
      rw [List.map_map]
      refine List.map_congr_left fun u _ => ?_
      rw [Function.comp_apply]
      split <;> rfl
    · -- no row is revoked, so that all stay as they are
      have hkept : (db.sessions.map fun s =>
          if Db.otherSession user.id (some sessionId) s && !s.revoked then
            { s with revoked := true } else s) = db.sessions := by
        have hall := List.countP_eq_zero.mp hnone
        exact (List.map_congr_left fun s hs => if_neg (hall s hs)).trans (List.map_id _)
      unfold Db.mapUser Db.revokeOtherSessions Db.revokeWhere
      dsimp only
      rw [hkept]
  · exact .recorded hedit ⟨rfl, rfl, rfl⟩

/-- **Each mutating handler** makes an edit that its caller may make, with the rows that
record it, or refuses. -/
theorem mutation_heeds (hkeys : (db.users.map UserRow.id).Nodup) (m : Mutation) :
    Heeds S r m.ungated now db (m.handler S (r.verified S.keys now db) now) := by
  cases m with
  | logout =>
    refine .enforce fun cached hcached => .gate hcached fun who hwho => ?_
    cases who with
    | apiKey keyId => exact .raise _
    | session user sessionId => exact .edit hwho (.logout rfl) ⟨rfl, rfl, rfl⟩
  | changePassword salt =>
    refine .enforce fun cached hcached => .lift fun form _ => .gate hcached fun who hwho => ?_
    cases who with
    | apiKey keyId => exact .raise _
    | session user sessionId =>
      exact .raiseIf fun _ => (Or.inl ⟨_, hwho, accepted_replacePassword form.2 salt⟩)
  | revokeAll =>
    refine .enforce fun cached hcached => .gate hcached fun who hwho => ?_
    refine .permit hwho fun hallow => ?_
    exact .get (.edit hwho (.revokeAll hallow) ⟨rfl, rfl, rfl⟩)
  | createKey keyId drawn =>
    refine .enforce fun cached hcached => .lift fun _ _ => .lift fun _ _ => .lift fun _ _ => ?_
    refine Heeds.keyWriter hcached fun who hwho hallow => ?_
    exact .get (.raiseIf fun _ => (.edit hwho (.keys _ hallow) (recordsOf_key ..)))
  | deleteByPath =>
    exact .enforce fun cached hcached => .onePart fun keyId => revokeKey_heeds hcached keyId
  | deleteByBody =>
    exact .enforce fun cached hcached => .lift fun _ _ => .lift fun keyId _ =>
      revokeKey_heeds hcached keyId
  | postWildcard drawn =>
    refine .enforce fun cached hcached => .twoParts fun keyId verb => ?_
    split
    · exact rotateKey_heeds hcached keyId drawn
    · exact .raise _
  | patchKey =>
    exact .enforce fun cached hcached => .onePart fun keyId => setLimits_heeds hcached keyId
  | setAuthState =>
    refine .enforce fun cached hcached => .lift fun _ _ => .gated hcached fun who hwho hallow => ?_
    exact .get (.raiseIf fun _ => (.edit hwho (.arm _ now hallow) (recordsOf_caller ..)))
  | createUser userId salt =>
    refine .enforce fun cached hcached => .gated hcached fun who hwho hallow => ?_
    refine .lift fun form _ => .raiseIf fun _ => .get (.raiseIf fun hfree => ?_)
    refine .edit hwho (.accounts _ db.sessions hallow fun hkeys => ?_) (recordsOf_caller ..)
    rw [List.map_append, List.map_singleton]
    refine List.nodup_append.mpr ⟨hkeys, List.nodup_singleton _, fun id hid id' hid' heq => ?_⟩
    obtain ⟨u, hu, rfl⟩ := List.mem_map.mp hid
    rw [List.mem_singleton.mp hid'] at heq
    -- the primary key was free
    have htaken : (db.users.any fun u => decide (u.email = form.email) || decide (u.id = userId)) =
        true := List.any_eq_true.mpr ⟨u, hu, Bool.or_eq_true_iff.mpr (Or.inr (decide_eq_true heq))⟩
    rw [htaken] at hfree
    cases hfree
  | userWildcard =>
    refine .enforce fun cached hcached => .onePart fun userId => .lift fun payload _ => ?_
    refine .gate hcached fun who hwho => .permit hwho fun hallow => ?_
    exact userRest_heeds hkeys hwho hallow userId nofun
  | deleteUserRoute =>
    refine .enforce fun cached hcached => .onePart fun userId => ?_
    exact .gated hcached fun who hwho hallow => userRest_heeds hkeys hwho hallow userId nofun
  | updateSettings => exact updateSettings_heeds
  | updatePolicy => exact updatePolicy_heeds
  | resetBuckets buckets =>
    refine .enforce fun cached hcached => .lift fun form _ =>
      .gated hcached fun who hwho hallow => ?_
    rcases form with _ | ⟨subject, scope⟩
    · exact .raiseIf fun _ => (.edit hwho .nothing (recordsOf_caller ..))
    · exact .raiseIf fun _ => (.edit hwho .nothing (recordsOf_caller ..))
  | runPlayground predict =>
    refine .enforce fun cached hcached => .gated hcached fun who hwho hallow => .lift fun _ _ => ?_
    exact .answer hwho _
  | deleteRange =>
    refine .enforce fun cached hcached => .lift fun window _ =>
      .gated hcached fun who hwho hallow => .get ?_
    exact .edit hwho (.deleteTraces window hallow) (recordsOf_caller ..)
  | postTrace scoreId =>
    refine .enforce fun cached hcached => .twoParts fun traceId action => ?_
    split
    · exact scores_heeds traceId scoreId
    · split
      · exact tags_heeds traceId
      · exact .raise _

end

/-! ## Parts of the database -/

/-- What a permission, or a user, stands before. -/
inductive Part where
  /-- the traces and their observations, but for the tags -/
  | traces
  /-- the API keys -/
  | keys
  /-- a setting -/
  | setting (name : PyStr)
  /-- the users: who there is, with which email, name, role and status -/
  | accounts
  /-- the password of a user, and whether a new one is required -/
  | password (userId : PyStr)
  /-- the sessions of a user -/
  | sessions (userId : PyStr)
  /-- the rollups and the log -/
  | records

/-- A trace without its tags. -/
def TraceRow.untagged (row : TraceRow) : TraceRow := { row with tags := [] }

/-- A user without password and last login. -/
def UserRow.account (user : UserRow) : UserRow :=
  { user with passwordHash := [], mustChange := false, lastLoginAt := none }

namespace Part

/-- The part is the same in both. -/
def Same (db t : Db) : Part → Prop
  | traces => (t.traces.map TraceRow.untagged, t.observations) =
      (db.traces.map TraceRow.untagged, db.observations)
  | keys => t.apiKeys = db.apiKeys
  | setting name => t.settings.get name = db.settings.get name
  | accounts => t.users.map UserRow.account = db.users.map UserRow.account
  | password userId =>
    (t.users.filter fun u => decide (u.id = userId)).map (fun u => (u.passwordHash, u.mustChange)) =
      (db.users.filter fun u => decide (u.id = userId)).map fun u => (u.passwordHash, u.mustChange)
  | sessions userId => (t.sessions.filter fun s => decide (s.userId = userId)) =
      db.sessions.filter fun s => decide (s.userId = userId)
  | records => (t.metricRollup, t.logEntry, t.logSeq) = (db.metricRollup, db.logEntry, db.logSeq)

/-- The permissions that change it. -/
def permissions : Part → List String
  | traces => ["traces.delete"]
  | keys => ["keys.write"]
  | setting name =>
    if name = captureSetting then ["settings.capture"]
    else if name = authSettingsKey then ["keys.write"]
    else if name ∈ runtimeSettings then ["settings.write"]
    else []
  | accounts | password _ => ["users.write"]
  | sessions _ => ["users.write", "sessions.revoke_all"]
  | records => []

/-- The user whose it is. -/
def owner : Part → Option PyStr
  | password userId | sessions userId => some userId
  | _ => none

theorem Same.refl (db : Db) (part : Part) : part.Same db db := by
  cases part <;> exact rfl

theorem Same.trans {a b c : Db} {part : Part} (h : part.Same a b) (h' : part.Same b c) :
    part.Same a c := by
  cases part <;> exact Eq.trans h' h

/-- An audit row is in no part. -/
theorem same_audits (db : Db) (entries : List AuditEntry) (part : Part) :
    part.Same db (db.audits entries) := by
  cases part <;> exact rfl

end Part

section

variable {db : Db}

/-- Rows that an update passes over. -/
theorem filter_map_of_same {α : Type} {f : α → α} {p : α → Bool} (hp : ∀ a, p (f a) = p a)
    {l : List α} (hf : ∀ a ∈ l, p a = true → f a = a) : (l.map f).filter p = l.filter p := by
  induction l with
  | nil => rfl
  | cons a l ih =>
    rw [List.map_cons, List.filter_cons, List.filter_cons, hp,
      ih fun b hb => hf b (List.mem_cons_of_mem a hb)]
    split
    · next ha => rw [hf a List.mem_cons_self ha]
    · rfl

/-- Revoking sessions of other users. -/
theorem sessions_same_revokeWhere {p : SessionRow → Bool} {userId : PyStr}
    (hp : ∀ s ∈ db.sessions, s.userId = userId → p s = false) :
    (Part.sessions userId).Same db (db.revokeWhere p) := by
  refine filter_map_of_same (fun s => ?_) fun s hs huser => ?_
  · split <;> rfl
  · rw [hp s hs (of_decide_eq_true huser)]
    rfl

theorem get_storeSettings {stored : List (PyStr × PyStr)} {who : PyStr} {now : ℚ} {name : PyStr}
    (h : name ∉ stored.map Prod.fst) :
    (storeSettings stored who now db).settings.get name = db.settings.get name := by
  unfold storeSettings
  induction stored generalizing db with
  | nil => rfl
  | cons e stored ih =>
    rw [List.map_cons, List.mem_cons, not_or] at h
    rw [List.foldl_cons, ih h.2]
    exact Dict.get_set_ne _ _ h.1

/-- Settings are stored among the settings. -/
theorem storeSettings_eq (stored : List (PyStr × PyStr)) (who : PyStr) (now : ℚ) (db : Db) :
    storeSettings stored who now db =
      { db with settings := (storeSettings stored who now db).settings } := by
  unfold storeSettings
  induction stored generalizing db with
  | nil => rfl
  | cons e stored ih =>
    rw [List.foldl_cons, ih]
    rfl

/-- Nothing but sessions is changed where no session is of this part. -/
theorem same_revokeWhere {p : SessionRow → Bool} {part : Part}
    (hp : ∀ userId, part = .sessions userId → ∀ s ∈ db.sessions, s.userId = userId → p s = false) :
    part.Same db (db.revokeWhere p) := by
  cases part with
  | sessions userId => exact sessions_same_revokeWhere (hp userId rfl)
  | _ => exact rfl

/-- **An edit leaves the parts alone that its caller may not change.** -/
theorem Edit.same {who : Caller} {edited : Db} {part : Part} (hkeys : db.sessionIds.Nodup)
    (hsession : ∀ user sessionId, who = .session user sessionId →
      ∃ s ∈ db.sessions, s.id = sessionId ∧ s.userId = user.id)
    (h : Edit who db edited)
    (hno : ∀ permission ∈ part.permissions, roleAllows who.role (py permission) = false)
    (hown : ∀ user sessionId, who = .session user sessionId → part.owner ≠ some user.id) :
    part.Same db edited := by
  cases h with
  | nothing => exact .refl db part
  | @logout user sessionId hwho =>
    refine same_revokeWhere ?_
    rintro userId rfl s hs huser
    obtain ⟨own, hmem, hid, howner⟩ := hsession user sessionId hwho
    -- the row of the session is the caller's
    refine decide_eq_false fun heq => hown user sessionId hwho ?_
    obtain rfl := List.inj_on_of_nodup_map hkeys hs hmem (heq.trans hid.symm)
    exact congrArg some (huser.symm.trans howner)
  | @password user sessionId hash hwho =>
    have hne := hown user sessionId hwho
    refine Part.Same.trans (b := db.mapUser user.id fun u =>
      { u with passwordHash := hash, mustChange := false }) ?_ (same_revokeWhere ?_)
    · cases part with
      | accounts =>
        unfold Part.Same Db.mapUser
        dsimp only
        rw [List.map_map]
        refine List.map_congr_left fun u _ => ?_
        rw [Function.comp_apply]
        split <;> rfl
      | password userId =>
        refine congrArg (List.map _) (filter_map_of_same (fun u => ?_) fun u _ hu => if_neg ?_)
        · split <;> rfl
        · intro heq
          exact hne (congrArg some ((of_decide_eq_true hu).symm.trans heq))
      | _ => exact rfl
    · rintro userId rfl s _ rfl
      unfold Db.otherSession
      rw [decide_eq_false fun heq => hne (congrArg some heq), Bool.false_and]
  | revokeAll hallow =>
    refine same_revokeWhere ?_
    rintro userId rfl
    rw [hno "sessions.revoke_all" (by simp [Part.permissions])] at hallow
    cases hallow
  | keys rows hallow =>
    cases part with
    | keys =>
      rw [hno "keys.write" (by simp [Part.permissions])] at hallow
      cases hallow
    | _ => exact rfl
  | arm value now hallow =>
    cases part with
    | setting name =>
      refine Dict.get_set_ne _ _ ?_
      rintro rfl
      have hcapture : authSettingsKey ≠ captureSetting := by decide +kernel
      rw [hno "keys.write" (by simp [Part.permissions, hcapture])] at hallow
      cases hallow
    | _ => exact rfl
  | settings stored now hallow hnames hcapture =>
    cases part with
    | setting name =>
      refine get_storeSettings fun hmem => ?_
      obtain ⟨e, he, rfl⟩ := List.mem_map.mp hmem
      have hruntime := hnames e he
      by_cases hcap : e.1 = captureSetting
      · have hallowed := hcapture (hcap ▸ hmem)
        rw [hno "settings.capture" (by simp [Part.permissions, hcap])] at hallowed
        cases hallowed
      · have hauth : e.1 ≠ authSettingsKey := by
          intro heq
          have hnot : authSettingsKey ∉ runtimeSettings := by decide +kernel
          exact hnot (heq ▸ hruntime)
        rw [hno "settings.write" (by simp [Part.permissions, hcap, hauth, hruntime])] at hallow
        cases hallow
    | _ =>
      rw [storeSettings_eq]
      exact rfl
  | accounts users sessions hallow _ =>
    cases part with
    | accounts | password userId | sessions userId =>
      rw [hno "users.write" (by simp [Part.permissions])] at hallow
      cases hallow
    | _ => exact rfl
  | deleteTraces window hallow =>
    cases part with
    | traces =>
      rw [hno "traces.delete" (by simp [Part.permissions])] at hallow
      cases hallow
    | _ => exact rfl

/-- Scores and tags are in no part. -/
theorem Annotated.same {now : ℚ} {t : Db} (h : Annotated now db t) (part : Part) :
    part.Same db t := by
  cases h with
  | scored score traceId => cases part <;> exact rfl
  | tagged traceId tags =>
    cases part with
    | traces =>
      refine congrArg (Prod.mk · db.observations) ?_
      unfold setTraceTags Db.audit
      dsimp only
      rw [List.map_map]
      refine List.map_congr_left fun row _ => ?_
      rw [Function.comp_apply]
      split <;> rfl
    | _ => exact rfl

end

/-! ## Runs -/

/-- A call that may write. -/
inductive ApiCall where
  /-- `POST /api/v1/auth/login` -/
  | login (r : LoginRequest) (now : ℚ)
  /-- one of the mutating handlers -/
  | mutate (m : Mutation) (r : ApiRequest) (now : ℚ)

/-- The rows of users and sessions have their ids. -/
structure Db.Identified (db : Db) : Prop where
  /-- `users` -/
  users : (db.users.map UserRow.id).Nodup
  /-- `sessions` -/
  sessions : db.sessionIds.Nodup

section

variable (S : Services)

/-- What a call commits. -/
def ApiCall.serve (db : Db) : ApiCall → Db
  | login r now => (Auth.login S.auth S.config.sessionTtl r now db).2
  | mutate m r now => (m.serve S r now db).db

/-- Calls, one after the other. -/
def apiCalls : Machine Db ApiCall where
  init db := db.Identified
  step db call := some (call.serve S db)

/-- A login draws a token of which no session is. -/
def ApiCall.Fresh (db : Db) : ApiCall → Prop
  | login r _ => S.auth.digest r.token ∉ db.sessionIds
  | mutate .. => True

/-- The user whom a login signs in. -/
inductive SignsIn (r : LoginRequest) (db : Db) (user : UserRow) : Prop
  /-- enabled, with this password -/
  | mk {email password : PyStr} : loginFields S.auth r.toSessionRequest = .ok (email, password) →
      userByEmail db email = some user → user.disabled = false →
      verifyPassword S.auth password user.passwordHash = true → SignsIn r db user

/-- The call may change this part. -/
inductive Part.MayChange (db : Db) (part : Part) : ApiCall → Prop
  /-- the role of who asks has a permission for it -/
  | permitted {m : Mutation} {r : ApiRequest} {now : ℚ} {who : Caller} {permission : String} :
      r.AsksAs S now db who → permission ∈ part.permissions →
      roleAllows who.role (py permission) = true → MayChange db part (.mutate m r now)
  /-- it is that of the user who asks -/
  | own {m : Mutation} {r : ApiRequest} {now : ℚ} {user : UserRow} {sessionId : PyStr} :
      r.AsksAs S now db (.session user sessionId) → part.owner = some user.id →
      MayChange db part (.mutate m r now)
  /-- the sessions of the user who signs in -/
  | signsIn {r : LoginRequest} {now : ℚ} {user : UserRow} : SignsIn S r db user →
      part = .sessions user.id → MayChange db part (.login r now)
  /-- those of the user whose session the login presents -/
  | presented {r : LoginRequest} {now : ℚ} {token : PyStr} {user : UserRow} :
      r.cookie = some token → resolveToken S.auth db token now = some user →
      part = .sessions user.id → MayChange db part (.login r now)

end

section

variable {S : Services} {db t : Db}

theorem serve_login (r : LoginRequest) (now : ℚ) :
    (ApiCall.login r now).serve S db = (Auth.login S.auth S.config.sessionTtl r now db).2 := rfl

theorem serve_mutate (m : Mutation) (r : ApiRequest) (now : ℚ) :
    (ApiCall.mutate m r now).serve S db = (m.serve S r now db).db := rfl

/-- What a login comes to. -/
theorem login_ends (ttl : ℚ) (r : LoginRequest) (now : ℚ) (db : Db) :
    (Auth.login S.auth ttl r now db).2 = db ∨
      (∃ entry, (Auth.login S.auth ttl r now db).2 = db.audit entry) ∨
      ∃ user, SignsIn S r db user ∧
        (Auth.login S.auth ttl r now db).2 = signIn S.auth r ttl user now db := by
  rw [login_eq]
  rcases hfields : loginFields S.auth r.toSessionRequest with e | ⟨email, password⟩
  · exact Or.inl rfl
  dsimp only
  rcases (if r.limited then r.refused else none) with _ | retry
  · rcases huser : userByEmail db email with _ | user
    · exact Or.inr (Or.inl ⟨_, rfl⟩)
    dsimp only
    by_cases hverify : verifyOrDummy S.auth password (storedHash (some user)) = true
    · rw [if_pos hverify]
      refine Or.inr (Or.inr ⟨user, ?_, rfl⟩)
      unfold storedHash at hverify
      dsimp only at hverify
      by_cases hdisabled : user.disabled = true
      · rw [if_pos hdisabled] at hverify
        cases hverify
      · rw [if_neg hdisabled] at hverify
        exact .mk hfields huser (Bool.eq_false_iff.mpr hdisabled) hverify
    · rw [if_neg hverify]
      exact Or.inr (Or.inl ⟨_, rfl⟩)
  · exact Or.inr (Or.inl ⟨_, rfl⟩)

/-- What serving a mutation comes to. -/
theorem serve_ends (hkeys : (db.users.map UserRow.id).Nodup) (m : Mutation) (r : ApiRequest)
    (now : ℚ) : r.Changes S m.ungated now db (m.serve S r now db).db ∨
      ∃ e, (m.serve S r now db).result = .error e ∧
        r.Refusal S now db e (m.serve S r now db).db := by
  have hends : (m.handler S (r.verified S.keys now db) now).Ends db
      (fun _ t => r.Changes S m.ungated now db t) (r.Refusal S now db) := mutation_heeds hkeys m
  unfold Mutation.serve Prog.serve
  rcases hrun : m.handler S (r.verified S.keys now db) now db with ⟨e | fields, d⟩
  · exact Or.inr ⟨e, rfl, hends.error hrun⟩
  · exact Or.inl (hends.ok hrun)

theorem Edit.users_nodup {who : Caller} {edited : Db} (h : Edit who db edited)
    (hkeys : (db.users.map UserRow.id).Nodup) : (edited.users.map UserRow.id).Nodup := by
  cases h with
  | @password user sessionId hash _ =>
    unfold Db.mapUser Db.revokeOtherSessions Db.revokeWhere
    have hids : (db.users.map fun u => if u.id = user.id then
        { u with passwordHash := hash, mustChange := false } else u).map UserRow.id =
          db.users.map UserRow.id := by
      rw [List.map_map]
      refine List.map_congr_left fun u _ => ?_
      rw [Function.comp_apply]
      split <;> rfl
    rwa [hids]
  | settings stored now _ _ _ =>
    rw [storeSettings_eq]
    exact hkeys
  | accounts users sessions _ hids => exact hids hkeys
  | _ => exact hkeys

theorem signIn_users_nodup (r : LoginRequest) (ttl : ℚ) (user : UserRow) (now : ℚ)
    (hkeys : (db.users.map UserRow.id).Nodup) :
    ((signIn S.auth r ttl user now db).users.map UserRow.id).Nodup := by
  have hids : (signIn S.auth r ttl user now db).users.map UserRow.id =
      db.users.map UserRow.id := by
    unfold signIn Db.audit Db.mapUser issueSession
    dsimp only
    rw [users_rotateSession, List.map_map]
    refine List.map_congr_left fun u _ => ?_
    rw [Function.comp_apply]
    split <;> rfl
  rwa [hids]

/-- A call keeps the ids of users unique. -/
theorem users_nodup_serve (hkeys : (db.users.map UserRow.id).Nodup) (call : ApiCall) :
    ((call.serve S db).users.map UserRow.id).Nodup := by
  cases call with
  | login r now =>
    rw [serve_login]
    rcases login_ends (S := S) S.config.sessionTtl r now db with hsame | ⟨entry, hentry⟩ |
      ⟨user, -, hsigned⟩
    · rwa [hsame]
    · rw [hentry]
      exact hkeys
    · rw [hsigned]
      exact signIn_users_nodup r _ user now hkeys
  | mutate m r now =>
    rw [serve_mutate]
    rcases serve_ends hkeys m r now with
      (⟨who, -, edited, entries, hedit, hview, -⟩ | ⟨-, hannotated⟩) |
        ⟨e, -, hsame | ⟨-, who, entry, -, -, hdenied⟩⟩
    · rw [hview]
      exact hedit.users_nodup hkeys
    · generalize (m.serve S r now db).db = d at hannotated
      cases hannotated with
      | scored score traceId => exact hkeys
      | tagged traceId tags => exact hkeys
    · rw [hsame]
      exact hkeys
    · rw [hdenied]
      exact hkeys

/-- A call keeps the ids unique. -/
theorem Db.Identified.serve (h : db.Identified) {call : ApiCall} (hfresh : call.Fresh S db) :
    (call.serve S db).Identified := by
  refine ⟨users_nodup_serve h.users call, ?_⟩
  cases call with
  | login r now =>
    rw [serve_login]
    rcases login_ends (S := S) S.config.sessionTtl r now db with hsame | ⟨entry, hentry⟩ |
      ⟨user, -, hsigned⟩
    · rw [hsame]
      exact h.sessions
    · rw [hentry]
      exact h.sessions
    · rw [hsigned, Db.sessionIds_signIn]
      exact List.nodup_append.mpr ⟨h.sessions, List.nodup_singleton _, fun id hid id' hid' heq =>
        hfresh ((heq.trans (List.mem_singleton.mp hid')) ▸ hid)⟩
  | mutate m r now =>
    obtain ⟨forced, endpoint, hleaves, hhandler⟩ :=
      mutation_endpoint S (r.verified S.keys now db) now m
    have hseen : (m.handler S (r.verified S.keys now db) now).Respects Db.SeenKept := by
      rw [hhandler]
      exact .bind enforce_respects fun cached => Endpoint.program_respects hleaves cached
    have hkept := hseen db
    rw [serve_mutate]
    unfold Mutation.serve Prog.serve
    rcases hrun : m.handler S (r.verified S.keys now db) now db with ⟨e | fields, d⟩
    · rw [hrun] at hkept
      exact hkept.nodup h.sessions
    · rw [hrun] at hkept
      exact hkept.nodup h.sessions

/-- The session that a token resolves to is a row of its user, and the only one of its
id. -/
theorem session_of_token (hkeys : db.sessionIds.Nodup) {token : PyStr} {now : ℚ} {user : UserRow}
    (h : resolveToken S.auth db token now = some user) :
    (∃ s ∈ db.sessions, s.id = S.auth.digest token ∧ s.userId = user.id) ∧
      ∀ s ∈ db.sessions, s.id = S.auth.digest token → s.userId = user.id := by
  obtain ⟨⟨_, -, own, hown, hid, huser, -, -⟩, -⟩ :=
    resolveSession_some (resolveSession_of_token h)
  refine ⟨⟨own, hown, hid, huser⟩, fun s hs hsid => ?_⟩
  obtain rfl := List.inj_on_of_nodup_map hkeys hs hown (hsid.trans hid.symm)
  exact huser

/-- The rotation of a login touches sessions of the user whose session it presents. -/
theorem same_rotateSession (hkeys : db.sessionIds.Nodup) {r : SessionRequest} {now : ℚ}
    {part : Part} (hno : ∀ token user, r.cookie = some token →
      resolveToken S.auth db token now = some user → part ≠ .sessions user.id) :
    part.Same db (rotateSession S.auth r now db) := by
  unfold rotateSession
  split
  · exact .refl db part
  · next token hcookie =>
    split
    · exact .refl db part
    · next user hres =>
      have hall := (session_of_token hkeys hres).2
      have hne := hno token user hcookie hres
      refine Part.Same.trans (b := db.touchSession (S.auth.digest token) now) ?_ ?_
      · cases part with
        | sessions userId =>
          refine filter_map_of_same (fun s => ?_) fun s hs huser => if_neg fun hdue => ?_
          · split <;> rfl
          · have howner := hall s hs hdue.1
            exact hne (congrArg Part.sessions ((of_decide_eq_true huser).symm.trans howner))
        | _ => exact rfl
      · refine same_revokeWhere ?_
        rintro userId rfl s hs huser
        refine decide_eq_false fun hid => hne (congrArg Part.sessions ?_)
        obtain ⟨s', hs', rfl⟩ := List.mem_map.mp hs
        have howner : s'.userId = user.id := by
          refine hall s' hs' ?_
          rw [← hid]
          split <;> rfl
        rw [← huser, ← howner]
        split <;> rfl

/-- A login adds a session of the user whom it signs in. -/
theorem same_signIn (hkeys : db.sessionIds.Nodup) {r : LoginRequest} {ttl now : ℚ} {user : UserRow}
    {part : Part} (hno : ∀ token user, r.cookie = some token →
      resolveToken S.auth db token now = some user → part ≠ .sessions user.id)
    (hne : part ≠ .sessions user.id) : part.Same db (signIn S.auth r ttl user now db) := by
  refine Part.Same.trans (same_rotateSession (r := r.toSessionRequest) hkeys hno) ?_
  generalize hrotated : rotateSession S.auth r.toSessionRequest now db = rotated
  unfold signIn
  rw [hrotated]
  cases part with
  | accounts =>
    unfold Part.Same Db.audit Db.mapUser issueSession
    dsimp only
    rw [List.map_map]
    refine List.map_congr_left fun u _ => ?_
    rw [Function.comp_apply]
    split <;> rfl
  | password userId =>
    unfold Part.Same Db.audit Db.mapUser issueSession
    dsimp only
    rw [List.filter_map, List.map_map]
    have hid : ((fun u : UserRow => decide (u.id = userId)) ∘ fun u : UserRow =>
        if u.id = user.id then { u with lastLoginAt := some now } else u) =
          fun u => decide (u.id = userId) := by
      funext u
      rw [Function.comp_apply]
      split <;> rfl
    rw [hid]
    refine List.map_congr_left fun u _ => ?_
    rw [Function.comp_apply]
    split <;> rfl
  | sessions userId =>
    unfold Part.Same Db.audit Db.mapUser issueSession
    dsimp only
    rw [List.filter_append, List.filter_singleton, decide_eq_false fun heq =>
      hne (congrArg Part.sessions heq.symm)]
    exact List.append_nil _
  | _ => exact rfl

/-- **A call that changes a part may change it.** -/
theorem mayChange_of_serve (hids : db.Identified) {part : Part} {call : ApiCall}
    (hchanged : ¬part.Same db (call.serve S db)) : part.MayChange S db call := by
  by_contra hno
  refine hchanged ?_
  cases call with
  | login r now =>
    rw [serve_login]
    rcases login_ends (S := S) S.config.sessionTtl r now db with hsame | ⟨entry, hentry⟩ |
      ⟨user, hsigns, hsigned⟩
    · rw [hsame]
      exact .refl db part
    · rw [hentry, Db.audit_eq_audits]
      exact Part.same_audits db _ part
    · rw [hsigned]
      refine same_signIn hids.sessions ?_ ?_
      · rintro token user hcookie hres rfl
        exact hno (.presented hcookie hres rfl)
      · rintro rfl
        exact hno (.signsIn hsigns rfl)
  | mutate m r now =>
    rw [serve_mutate]
    rcases serve_ends hids.users m r now with
      (⟨who, hwho, edited, entries, hedit, hview, -⟩ | ⟨-, hannotated⟩) |
        ⟨e, -, hsame | ⟨-, who, entry, -, -, hdenied⟩⟩
    · rw [hview]
      refine Part.Same.trans (hedit.same hids.sessions ?_ ?_ ?_) (Part.same_audits _ _ part)
      · rintro user sessionId rfl
        cases hwho with
        | session hcookie hres => exact (session_of_token hids.sessions hres).1
      · intro permission hmem
        exact Bool.eq_false_iff.mpr fun hallow => hno (.permitted hwho hmem hallow)
      · rintro user sessionId rfl howner
        exact hno (.own hwho howner)
    · exact hannotated.same part
    · rw [hsame]
      exact .refl db part
    · rw [hdenied, Db.audit_eq_audits]
      exact Part.same_audits db _ part

end

/-- Libraries for passwords in the clear. -/
def clearServices : Services := { plainServices with auth := plainLib }

/-- One of two owners signs out after making the other one a viewer. -/
def demoteAndLeave : List ApiCall :=
  [.mutate .userWildcard demoteOther 1, .mutate .logout { cookie := some (py "sa") } 2]

end LayaWatch
