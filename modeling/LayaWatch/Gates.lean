import LayaWatch.Mutations

/-!
# Mutations without a credential

Every handler that `docs/api-reference.md` lists as gated, served to a request
whose session and key are good for nothing. All but one check the request, ask for
a caller, and answer an error before they write. `post_route` of the traces never
asks: it writes scores and tags for anyone (`unauthenticated_iff`).

`Router.dispatch` logs an exception that is not an `HttpError`, and the writer
stores the line, so that a check that raises one leaves a row in `log_entry`.
-/

namespace LayaWatch

open Auth

/-- What the handlers are made with. -/
structure Services where
  /-- sessions and passwords -/
  auth : AuthLib
  /-- API keys -/
  keys : KeyLib
  /-- text and numbers -/
  text : PyText
  /-- the configuration -/
  config : Config

/-- The mutating handlers that are listed as gated, with what they draw. -/
inductive Mutation where
  /-- `POST /api/v1/auth/logout` -/
  | logout
  /-- `POST /api/v1/auth/password` -/
  | changePassword (salt : PyStr)
  /-- `DELETE /api/v1/sessions` -/
  | revokeAll
  /-- `POST /api/v1/keys` -/
  | createKey (keyId : PyStr) (drawn : List (Fin 62))
  /-- `DELETE /api/v1/keys/*` -/
  | deleteByPath
  /-- `DELETE /api/v1/keys` -/
  | deleteByBody
  /-- `POST /api/v1/keys/*` -/
  | postWildcard (drawn : List (Fin 62))
  /-- `PATCH /api/v1/keys/*` -/
  | patchKey
  /-- `POST /api/v1/keys/auth` -/
  | setAuthState
  /-- `POST /api/v1/users` -/
  | createUser (userId salt : PyStr)
  /-- `PATCH /api/v1/users/*` -/
  | userWildcard
  /-- `DELETE /api/v1/users/*` -/
  | deleteUserRoute
  /-- `POST /api/v1/settings` -/
  | updateSettings
  /-- `POST /api/v1/ratelimits` -/
  | updatePolicy
  /-- `POST /api/v1/ratelimits/reset`, with the buckets that there are -/
  | resetBuckets (buckets : List (PyStr × PyStr))
  /-- `POST /api/v1/playground/run`, with what the engine answers -/
  | runPlayground (predict : Fields → Except HttpError Fields)
  /-- `DELETE /api/v1/traces` -/
  | deleteRange
  /-- `POST /api/v1/traces/*` -/
  | postTrace (scoreId : PyStr)

namespace Mutation

variable (S : Services)

/-- The handler. -/
def handler (r : ApiRequest) (now : ℚ) : Mutation → Handler Fields
  | logout => Auth.logout S.auth r.toSessionRequest now
  | changePassword salt => Auth.changePassword S.auth r.toSessionRequest salt now
  | revokeAll => Auth.revokeAll S.auth r.toSessionRequest now
  | createKey keyId drawn =>
    LayaWatch.createKey S.auth S.keys r.toSessionRequest keyId drawn now
  | deleteByPath => LayaWatch.deleteByPath S.auth r.toSessionRequest r.path now
  | deleteByBody => LayaWatch.deleteByBody S.auth r.toSessionRequest now
  | postWildcard drawn =>
    LayaWatch.postWildcard S.auth S.keys r.toSessionRequest r.path drawn now
  | patchKey => LayaWatch.patchKey S.auth r now
  | setAuthState => LayaWatch.setAuthState S.auth r.toSessionRequest now
  | createUser userId salt => LayaWatch.createUser S.auth r.toSessionRequest userId salt now
  | userWildcard => LayaWatch.userWildcard S.auth r now
  | deleteUserRoute => LayaWatch.deleteUserRoute S.auth r now
  | updateSettings => LayaWatch.updateSettings S.auth S.text S.config r now
  | updatePolicy => LayaWatch.updatePolicy S.auth S.text S.config r.toSessionRequest now
  | resetBuckets buckets => LayaWatch.resetBuckets S.auth r.toSessionRequest buckets now
  | runPlayground predict => LayaWatch.runPlayground S.auth predict r.toSessionRequest now
  | deleteRange => LayaWatch.deleteRange S.auth S.text r now
  | postTrace scoreId => LayaWatch.postTrace S.auth S.text r scoreId now

end Mutation

/-! ## Serving a request -/

/-- `verify_key` of the key that the request presents. -/
def ApiRequest.verified (K : KeyLib) (r : ApiRequest) (now : ℚ) (db : Db) : ApiRequest :=
  { r with
    apiKey := r.presented.bind fun key =>
      match (verifyKey K key now db).1 with
      | .ok keyId => keyId
      | .error _ => none }

/-- An exception that is not an `HttpError`, as it is rendered. -/
def HttpError.isUnhandled (e : HttpError) : Bool := decide (e.code = py "internal_error")

/-- What serving a request comes to. -/
structure Served where
  /-- the answer -/
  result : Except HttpError Fields
  /-- the database -/
  db : Db
  /-- an unhandled exception is logged -/
  logged : Bool

/-- `Router.dispatch` of a handler. -/
def Prog.serve (h : Handler Fields) (db : Db) : Served :=
  match h db with
  | (.ok fields, db) => ⟨.ok fields, db, false⟩
  | (.error e, db) => ⟨.error e, db, e.isUnhandled⟩

/-- Serve a request. -/
def Mutation.serve (S : Services) (m : Mutation) (r : ApiRequest) (now : ℚ) (db : Db) : Served :=
  Prog.serve (m.handler S (r.verified S.keys now db) now) db

/-- The answer is an error, and every table stays as it is. -/
def Served.Refused (served : Served) (db : Db) : Prop :=
  (∃ e, served.result = .error e) ∧ served.db = db ∧ served.logged = false

/-- The request carries no valid session and no valid API key. -/
structure NoCredential (S : Services) (r : ApiRequest) (now : ℚ) (db : Db) : Prop where
  /-- its cookie is good for no session -/
  session : ∀ token, r.cookie = some token → resolveToken S.auth db token now = none
  /-- its key is none -/
  key : ∀ key, r.presented = some key → (verifyKey S.keys key now db).1 = .ok none

/-! ## What is checked before the gate -/

namespace Mutation

variable (S : Services) (r : ApiRequest) (now : ℚ)

/-- Nothing is left of a value that was checked. -/
def done {α : Type} (x : Except HttpError α) : Except HttpError Unit := x >>= fun _ => .ok ()

/-- The path names one thing. -/
def onePart (parts : List PyStr) (unmatched : HttpError) : Except HttpError Unit :=
  match parts with
  | [part] => if part.isEmpty then .error unmatched else .ok ()
  | _ => .error unmatched

/-- The path names one thing, to be rotated. -/
def rotatePart (parts : List PyStr) (unmatched : HttpError) : Except HttpError Unit :=
  match parts with
  | [part, verb] =>
    if !part.isEmpty && decide (verb = py "rotate") then .ok () else .error unmatched
  | _ => .error unmatched

/-- SQLite can bind the id of a path. -/
def boundId (id : PyStr) : Except HttpError Unit :=
  if id.encodable then .ok () else .error .unhandled

/-- What the handler checks before it asks for a caller, or writes. -/
def check : Mutation → Except HttpError Unit
  | logout | revokeAll | createUser _ _ | runPlayground _ => .ok ()
  | changePassword _ => done (passwordFields r.toSessionRequest)
  | createKey _ _ => do
    let payload ← bodyObject r.toSessionRequest
    let _ ← keyName payload
    done (KeyLimits.ofPayload payload)
  | deleteByPath => done (onePart (keyPathParts r.path) (unmatched "DELETE" r.path))
  | deleteByBody => do
    let payload ← bodyObject r.toSessionRequest
    done (textField "id" "'id' is required" payload)
  | postWildcard _ => done (rotatePart (keyPathParts r.path) (unmatched "POST" r.path))
  | patchKey => do
    onePart (keyPathParts r.path) (unmatched "PATCH" r.path)
    done (limitUpdate r.toSessionRequest)
  | setAuthState => done (armedFlag r.toSessionRequest)
  | userWildcard => do
    onePart (pathParts "/api/v1/users/" r.path) (unmatched "PATCH" r.path)
    done (bodyObject r.toSessionRequest)
  | deleteUserRoute =>
    done (onePart (pathParts "/api/v1/users/" r.path) (unmatched "DELETE" r.path))
  | updateSettings => done (settingTexts S.text r)
  | updatePolicy => done (validatedUpdate r.toSessionRequest)
  | resetBuckets _ => done (validatedReset r.toSessionRequest)
  | deleteRange => done (rangeWindow S.text r.query now)
  | postTrace _ =>
    match pathParts "/api/v1/traces/" r.path with
    | [traceId, action] =>
      if action = py "scores" then do
        let _ ← validatedScore S.text r.toSessionRequest
        boundId traceId
      else if action = py "tags" then do
        let _ ← validatedTags r.toSessionRequest
        boundId traceId
      else .error (unmatched "POST" r.path)
    | _ => .error (unmatched "POST" r.path)

end Mutation

/-- The request names a stored trace, and leaves it with as many tags as it may have. -/
def ApiRequest.Reaches (r : ApiRequest) (db : Db) : Prop :=
  ∃ traceId action row, pathParts "/api/v1/traces/" r.path = [traceId, action] ∧
    storedTrace db traceId = some row ∧
    (action = py "tags" → ∀ add remove, validatedTags r.toSessionRequest = .ok (add, remove) →
      (mergedTags row.tags add remove).length ≤ maxTags)

namespace Mutation

/-- It never asks for a caller. -/
def ungated : Mutation → Bool
  | postTrace _ => true
  | _ => false

/-- What goes wrong without a caller: the check raises what is no `HttpError`, or there
is no gate behind it. -/
def Slips (S : Services) (m : Mutation) (r : ApiRequest) (now : ℚ) (db : Db) : Prop :=
  (∃ e, m.check S r now = .error e ∧ e.isUnhandled = true) ∨
    m.ungated = true ∧ m.check S r now = .ok () ∧ r.Reaches db

end Mutation

/-! ## Refusals -/

/-- What a handler answers without a caller: the error of its check, or that of its gate. -/
def refusal : Except HttpError Unit → HttpError
  | .error e => e
  | .ok _ => credentialError "missing or invalid credential"

/-- The handler answers so, and changes nothing. -/
def Refuses {α : Type} (h : Handler α) (db : Db) (check : Except HttpError Unit) : Prop :=
  h db = (.error (refusal check), db)

namespace Refuses

variable {α β : Type} {db : Db} {r : SessionRequest} {L : AuthLib} {check : Except HttpError Unit}

theorem raise (e : HttpError) : Refuses (Prog.raise e : Handler α) db (.error e) := rfl

/-- What is checked comes first. -/
theorem lift {x : Except HttpError β} {k : β → Handler α} {c : β → Except HttpError Unit}
    (h : ∀ b, Refuses (k b) db (c b)) : Refuses (Prog.lift x >>= k) db (x >>= c) := by
  cases x with
  | error e => exact Prog.run_bind_error rfl
  | ok b => exact (Prog.run_bind_ok rfl).trans (h b)

/-- Without a key, the gate lets no one through. -/
theorem gate (hkey : r.apiKey = none) {k : Caller → Handler α} :
    Refuses (Auth.gate r none >>= k) db (.ok ()) := by
  refine Prog.run_bind_error ?_
  unfold Auth.gate
  rw [hkey]
  rfl

theorem gated (hkey : r.apiKey = none) {permission action : String} {target : Option PyStr}
    {now : ℚ} {k : Caller → Handler α} :
    Refuses (LayaWatch.gated r none permission action target now >>= k) db (.ok ()) :=
  Prog.run_bind_error (gate hkey)

theorem keyWriter (hkey : r.apiKey = none) {action : String} {target : Option PyStr} {now : ℚ}
    {k : Caller → Handler α} :
    Refuses (LayaWatch.keyWriter r none action target now >>= k) db (.ok ()) :=
  Prog.run_bind_error (gate hkey)

/-- Without a cookie, `enforce_browser_session` lets the request pass. -/
theorem enforce (hcookie : r.cookie = none) {forced : Bool} {now : ℚ}
    {k : Option Caller → Handler α} (h : Refuses (k none) db check) :
    Refuses (enforceBrowserSession L r forced now >>= k) db check := by
  refine (Prog.run_bind_ok ?_).trans h
  unfold enforceBrowserSession
  rw [hcookie]

/-- A path below a prefix is split before anything else. -/
theorem onePart {parts : List PyStr} {e : HttpError} {k : PyStr → Handler α}
    {c : Except HttpError Unit} (h : ∀ part, Refuses (k part) db c) :
    Refuses (match parts with
      | [part] => if part.isEmpty then Prog.raise e else k part
      | _ => Prog.raise e) db (Mutation.onePart parts e >>= fun _ => c) := by
  rcases parts with _ | ⟨part, _ | ⟨_, _⟩⟩
  · exact raise e
  · unfold Mutation.onePart
    dsimp only
    by_cases hempty : part.isEmpty = true
    · rw [if_pos hempty, if_pos hempty]
      exact raise e
    · rw [if_neg hempty, if_neg hempty]
      exact h part
  · exact raise e

theorem rotatePart {parts : List PyStr} {e : HttpError} {k : PyStr → Handler α}
    {c : Except HttpError Unit} (h : ∀ part, Refuses (k part) db c) :
    Refuses (match parts with
      | [part, verb] =>
        if !part.isEmpty && decide (verb = py "rotate") then k part else Prog.raise e
      | _ => Prog.raise e) db (Mutation.rotatePart parts e >>= fun _ => c) := by
  rcases parts with _ | ⟨part, _ | ⟨verb, _ | ⟨_, _⟩⟩⟩
  · exact raise e
  · exact raise e
  · unfold Mutation.rotatePart
    dsimp only
    by_cases hrotate : (!part.isEmpty && decide (verb = py "rotate")) = true
    · rw [if_pos hrotate, if_pos hrotate]
      exact h part
    · rw [if_neg hrotate, if_neg hrotate]
      exact raise e
  · exact raise e

/-- With a cookie that is good for no session, it does not. -/
theorem dead {token : PyStr} (hcookie : r.cookie = some token) {now : ℚ}
    (hdead : resolveToken L db token now = none) {forced : Bool} {k : Option Caller → Handler α} :
    Refuses (enforceBrowserSession L r forced now >>= k) db (.ok ()) := by
  refine Prog.run_bind_error ?_
  unfold enforceBrowserSession
  rw [hcookie]
  dsimp only
  rw [hdead]
  rfl

end Refuses

namespace Mutation

variable {S : Services} {r : ApiRequest} {now : ℚ} {db : Db}

/-- A cookie that is good for no session is refused first. -/
theorem refuses_dead {token : PyStr} (hcookie : r.cookie = some token)
    (hdead : resolveToken S.auth db token now = none) (m : Mutation) :
    Refuses (m.handler S r now) db (.ok ()) := by
  cases m <;> exact Refuses.dead hcookie hdead

/-- Without cookie and key, a gated handler answers an error. -/
theorem refuses (hcookie : r.cookie = none) (hkey : r.apiKey = none) {m : Mutation}
    (hgated : m.ungated = false) : Refuses (m.handler S r now) db (m.check S r now) := by
  cases m with
  | logout => exact .enforce hcookie (.gate hkey)
  | changePassword salt => exact .enforce hcookie (.lift fun _ => .gate hkey)
  | revokeAll => exact .enforce hcookie (.gate hkey)
  | createKey keyId drawn =>
    exact .enforce hcookie (.lift fun _ => .lift fun _ => .lift fun _ => .keyWriter hkey)
  | deleteByPath => exact .enforce hcookie (.onePart fun _ => .keyWriter hkey)
  | deleteByBody => exact .enforce hcookie (.lift fun _ => .lift fun _ => .keyWriter hkey)
  | postWildcard drawn => exact .enforce hcookie (.rotatePart fun _ => .keyWriter hkey)
  | patchKey => exact .enforce hcookie (.onePart fun _ => .lift fun _ => .gated hkey)
  | setAuthState => exact .enforce hcookie (.lift fun _ => .gated hkey)
  | createUser userId salt => exact .enforce hcookie (.gated hkey)
  | userWildcard => exact .enforce hcookie (.onePart fun _ => .lift fun _ => .gate hkey)
  | deleteUserRoute => exact .enforce hcookie (.onePart fun _ => .gated hkey)
  | updateSettings => exact .enforce hcookie (.lift fun _ => .gated hkey)
  | updatePolicy => exact .enforce hcookie (.lift fun _ => .gated hkey)
  | resetBuckets buckets => exact .enforce hcookie (.lift fun _ => .gated hkey)
  | runPlayground predict => exact .enforce hcookie (.gated hkey)
  | deleteRange => exact .enforce hcookie (.lift fun _ => .gated hkey)
  | postTrace scoreId => cases hgated

end Mutation

/-! ## How a request is served -/

section

variable {S : Services} {r : ApiRequest} {now : ℚ} {db : Db} {h : Handler Fields}

theorem refused_of_error {e : HttpError} (he : h db = (.error e, db)) :
    (Prog.serve h db).Refused db ↔ e.isUnhandled = false := by
  unfold Prog.serve
  rw [he]
  exact ⟨fun hr => hr.2.2, fun hlogged => ⟨⟨e, rfl⟩, rfl, hlogged⟩⟩

theorem not_refused_of_ok (hok : ∃ fields db', h db = (.ok fields, db')) :
    ¬(Prog.serve h db).Refused db := by
  obtain ⟨fields, db', hok⟩ := hok
  unfold Prog.serve
  rw [hok]
  rintro ⟨⟨e, he⟩, -⟩
  cases he

/-- A check that fails, or a gate, answers with an error; it is logged if it is not an
`HttpError`. -/
theorem refused_of_refuses {check : Except HttpError Unit} (hr : Refuses h db check) :
    (Prog.serve h db).Refused db ↔ ¬∃ e, check = .error e ∧ e.isUnhandled = true := by
  rw [refused_of_error hr]
  cases check with
  | error e =>
    constructor
    · rintro he ⟨e', heq, he'⟩
      obtain rfl := Except.error.inj heq
      rw [refusal, he'] at he
      cases he
    · exact fun hne => Bool.eq_false_iff.mpr fun he => hne ⟨e, rfl, he⟩
  | ok u => exact iff_of_true (by cases u; decide) fun ⟨_, heq, _⟩ => by cases heq

end

/-! ## The handler without a gate -/

section

variable {β : Type} {traceId : PyStr} {db : Db} {x : Except HttpError β}
  {k : β → TraceRow → Handler Fields}

/-- The row of a trace is loaded; an unknown one is a 404. -/
theorem loadTrace_eq (hid : traceId.encodable = true) (db : Db) (k : TraceRow → Handler Fields) :
    (∃ row, storedTrace db traceId = some row ∧ (loadTrace traceId >>= k) db = k row db) ∨
      storedTrace db traceId = none ∧
        ∃ e, e.isUnhandled = false ∧ (loadTrace traceId >>= k) db = (.error e, db) := by
  have hnot : (!traceId.encodable) = false := by rw [hid]; rfl
  rcases hrow : storedTrace db traceId with _ | row
  · refine Or.inr ⟨rfl, ⟨404, py "not_found",
      [.text (py "trace "), .str traceId, .text (py " not found")], none⟩,
      decide_eq_false (by decide : py "not_found" ≠ py "internal_error"),
      Prog.run_bind_error ?_⟩
    simp only [loadTrace, hnot, hrow, Bool.false_eq_true, if_false]
  · refine Or.inl ⟨row, rfl, Prog.run_bind_ok ?_⟩
    simp only [loadTrace, hnot, hrow, Bool.false_eq_true, if_false]

/-- A handler that validates its body and loads its trace refuses the request when the
body or the path is bad, when the trace is not there, and else if the rest does. -/
theorem refused_behind_load (room : β → TraceRow → Prop)
    (hrest : ∀ b row, x = .ok b → storedTrace db traceId = some row →
      ((Prog.serve (k b row) db).Refused db ↔ ¬room b row)) :
    (Prog.serve (Prog.lift x >>= fun b => loadTrace traceId >>= k b) db).Refused db ↔
      ¬((∃ e, (x >>= fun _ => Mutation.boundId traceId) = .error e ∧ e.isUnhandled = true) ∨
        ∃ b row, x = .ok b ∧ traceId.encodable = true ∧ storedTrace db traceId = some row ∧
          room b row) := by
  rcases x with e | b
  · have hrefuses : Refuses (Prog.lift (.error e) >>= fun b => loadTrace traceId >>= k b) db
        (.error e >>= fun _ : β => Mutation.boundId traceId) := Prog.run_bind_error rfl
    rw [refused_of_refuses hrefuses]
    refine not_congr ⟨Or.inl, fun h => h.resolve_right ?_⟩
    rintro ⟨b, row, hb, -⟩
    cases hb
  have hbound : (Except.ok b >>= fun _ => Mutation.boundId traceId) =
      Mutation.boundId traceId := rfl
  by_cases hid : traceId.encodable = true
  · have hok : Mutation.boundId traceId = .ok () := if_pos hid
    have hsame : ∀ t, (loadTrace traceId >>= k b) db = t →
        (Prog.lift (.ok b) >>= fun b => loadTrace traceId >>= k b : Handler Fields) db = t :=
      fun _ h => h
    rw [hbound, hok]
    obtain ⟨row, hrow, hload⟩ | ⟨hnone, e, he, hload⟩ := loadTrace_eq hid db (k b)
    · have hserve : Prog.serve (Prog.lift (.ok b) >>= fun b => loadTrace traceId >>= k b) db =
          Prog.serve (k b row) db := by
        unfold Prog.serve
        rw [hsame _ hload]
      rw [hserve, hrest b row rfl hrow]
      refine not_congr ⟨fun h => Or.inr ⟨b, row, rfl, hid, hrow, h⟩, ?_⟩
      rintro (⟨e, he, -⟩ | ⟨b', row', hb, -, hrow', h⟩)
      · cases he
      · obtain rfl := Except.ok.inj hb
        obtain rfl := Option.some.inj (hrow.symm.trans hrow')
        exact h
    · rw [refused_of_error (hsame _ hload)]
      refine iff_of_true he ?_
      rintro (⟨e, he, -⟩ | ⟨b', row, -, -, hrow, -⟩)
      · cases he
      · rw [hnone] at hrow
        cases hrow
  · have hcrash : Refuses (Prog.lift (.ok b) >>= fun b => loadTrace traceId >>= k b) db
        (Mutation.boundId traceId) := by
      have hload : loadTrace traceId db = (.error .unhandled, db) := by
        unfold loadTrace
        rw [Bool.eq_false_iff.mpr hid]
        rfl
      unfold Refuses Mutation.boundId
      rw [if_neg hid, Prog.run_lift_bind, Prog.run_bind_error hload]
      rfl
    rw [hbound, refused_of_refuses hcrash]
    refine not_congr ⟨Or.inl, fun h => h.resolve_right ?_⟩
    rintro ⟨b, row, -, hid', -⟩
    exact hid hid'

end

/-- A score of a stored trace is written, or raises what is no `HttpError`. -/
theorem scores_refused (T : PyText) (r : SessionRequest) (traceId scoreId : PyStr) (now : ℚ)
    (db : Db) : (Prog.serve (scores T r traceId scoreId now) db).Refused db ↔
      ¬((∃ e, (validatedScore T r >>= fun _ => Mutation.boundId traceId) = .error e ∧
          e.isUnhandled = true) ∨
        ∃ (form : ScoreForm) (row : TraceRow), validatedScore T r = .ok form ∧
          traceId.encodable = true ∧ storedTrace db traceId = some row ∧ True) := by
  unfold scores
  refine refused_behind_load (fun _ _ => True) fun form row _ _ =>
    iff_of_false ?_ (not_not.mpr trivial)
  by_cases hbad : ((db.scores.any fun row => decide (row.id = scoreId)) || !form.bindable) = true
  · refine fun h => absurd ((refused_of_error (e := .unhandled) ?_).mp h) (by decide)
    rw [Prog.run_get_bind, if_pos hbad]
    rfl
  · refine not_refused_of_ok ?_
    rw [Prog.run_get_bind, if_neg hbad]
    exact ⟨_, _, rfl⟩

/-- The tags of a stored trace are changed, if it has room for them. -/
theorem tags_refused (r : SessionRequest) (traceId : PyStr) (now : ℚ) (db : Db) :
    (Prog.serve (tags r traceId now) db).Refused db ↔
      ¬((∃ e, (validatedTags r >>= fun _ => Mutation.boundId traceId) = .error e ∧
          e.isUnhandled = true) ∨
        ∃ (form : List PyStr × List PyStr) (row : TraceRow), validatedTags r = .ok form ∧
          traceId.encodable = true ∧ storedTrace db traceId = some row ∧
          (mergedTags row.tags form.1 form.2).length ≤ maxTags) := by
  unfold tags
  refine refused_behind_load (fun (form : List PyStr × List PyStr) (row : TraceRow) =>
    (mergedTags row.tags form.1 form.2).length ≤ maxTags) fun form row _ _ => ?_
  by_cases hmany : maxTags < (mergedTags row.tags form.1 form.2).length
  · refine iff_of_true ((refused_of_error (e := .bad (py "tags")
      [.text (py "a trace may carry at most 10 tags")]) ?_).mpr (by decide)) hmany.not_ge
    rw [if_pos hmany]
    rfl
  · refine iff_of_false (not_refused_of_ok ?_) (not_not.mpr (not_lt.mp hmany))
    rw [if_neg hmany]
    exact ⟨_, _, rfl⟩

namespace Mutation

theorem boundId_ok {β : Type} {x : Except HttpError β} {id : PyStr} :
    (x >>= fun _ => boundId id) = .ok () ↔ (∃ b, x = .ok b) ∧ id.encodable = true := by
  have hid : boundId id = .ok () ↔ id.encodable = true := by
    unfold boundId
    split
    · next h => exact iff_of_true rfl h
    · next h => exact iff_of_false (fun heq => by cases heq) h
  rw [bind_eq_ok]
  constructor
  · rintro ⟨b, hb, hok⟩
    exact ⟨⟨b, hb⟩, hid.mp hok⟩
  · rintro ⟨⟨b, hb⟩, hok⟩
    exact ⟨b, hb, hid.mpr hok⟩

variable {S : Services} {r : ApiRequest} {scoreId : PyStr} {now : ℚ} {db : Db}

/-- Behind a path of a trace, the request reaches it if it is there, and has room. -/
theorem reaches_iff {traceId action : PyStr}
    (hparts : pathParts "/api/v1/traces/" r.path = [traceId, action]) :
    r.Reaches db ↔ ∃ row, storedTrace db traceId = some row ∧
      (action = py "tags" → ∀ add remove, validatedTags r.toSessionRequest = .ok (add, remove) →
        (mergedTags row.tags add remove).length ≤ maxTags) := by
  unfold ApiRequest.Reaches
  rw [hparts]
  constructor
  · rintro ⟨traceId', action', row, heq, hrow, hroom⟩
    simp only [List.cons.injEq, and_true] at heq
    obtain ⟨rfl, rfl⟩ := heq
    exact ⟨row, hrow, hroom⟩
  · rintro ⟨row, hrow, hroom⟩
    exact ⟨traceId, action, row, rfl, hrow, hroom⟩

/-- A path that no route of the traces has is a 404. -/
theorem unmatched_refused (hcheck : (postTrace scoreId).check S r now =
      .error (unmatched "POST" r.path)) :
    (Prog.serve (Prog.raise (unmatched "POST" r.path)) db).Refused db ↔
      ¬(postTrace scoreId).Slips S r now db := by
  have hplain : (unmatched "POST" r.path).isUnhandled = false :=
    decide_eq_false (by decide : py "not_found" ≠ py "internal_error")
  refine iff_of_true ((refused_of_error rfl).mpr hplain) ?_
  unfold Slips
  rw [hcheck]
  rintro (⟨e, he, hcrash⟩ | ⟨-, hok, -⟩)
  · obtain rfl := Except.error.inj he
    rw [hplain] at hcrash
    cases hcrash
  · cases hok

/-- Without a cookie, `post_route` refuses a request exactly when its check fails as it
should, or the trace is not there or full. -/
theorem postTrace_refused (hcookie : r.cookie = none) :
    (Prog.serve ((postTrace scoreId).handler S r now) db).Refused db ↔
      ¬(postTrace scoreId).Slips S r now db := by
  have hpass : ∀ h : Handler Fields,
      (enforceBrowserSession S.auth r.toSessionRequest false now >>= fun _ => h) db = h db := by
    intro h
    refine Prog.run_bind_ok (a := none) ?_
    unfold enforceBrowserSession
    rw [hcookie]
  have hserve : ∀ h : Handler Fields,
      Prog.serve (enforceBrowserSession S.auth r.toSessionRequest false now >>= fun _ => h) db =
        Prog.serve h db := by
    intro h
    unfold Prog.serve
    rw [hpass]
  change (Prog.serve (enforceBrowserSession S.auth r.toSessionRequest false now >>= fun _ => _)
    db).Refused db ↔ _
  rw [hserve]
  rcases hparts : pathParts "/api/v1/traces/" r.path with _ | ⟨traceId, _ | ⟨action, _ | ⟨_, _⟩⟩⟩
  case cons.cons.nil =>
    by_cases hscores : action = py "scores"
    · have hcheck : (postTrace scoreId).check S r now =
          (validatedScore S.text r.toSessionRequest >>= fun _ => boundId traceId) := by
        unfold check
        rw [hparts]
        exact if_pos hscores
      dsimp only
      rw [if_pos hscores, scores_refused]
      unfold Slips
      rw [hcheck, boundId_ok, reaches_iff hparts]
      refine not_congr (or_congr Iff.rfl ⟨?_, ?_⟩)
      · rintro ⟨form, row, hform, hid, hrow, -⟩
        refine ⟨rfl, ⟨⟨form, hform⟩, hid⟩, row, hrow, fun htags => ?_⟩
        rw [hscores] at htags
        exact absurd htags (by decide)
      · rintro ⟨-, ⟨⟨form, hform⟩, hid⟩, row, hrow, -⟩
        exact ⟨form, row, hform, hid, hrow, trivial⟩
    by_cases htags : action = py "tags"
    · have hcheck : (postTrace scoreId).check S r now =
          (validatedTags r.toSessionRequest >>= fun _ => boundId traceId) := by
        unfold check
        rw [hparts]
        exact (if_neg hscores).trans (if_pos htags)
      dsimp only
      rw [if_neg hscores, if_pos htags, tags_refused]
      unfold Slips
      rw [hcheck, boundId_ok, reaches_iff hparts]
      refine not_congr (or_congr Iff.rfl ⟨?_, ?_⟩)
      · rintro ⟨form, row, hform, hid, hrow, hroom⟩
        refine ⟨rfl, ⟨⟨form, hform⟩, hid⟩, row, hrow, fun _ add remove hform' => ?_⟩
        obtain rfl := Except.ok.inj (hform.symm.trans hform')
        exact hroom
      · rintro ⟨-, ⟨⟨form, hform⟩, hid⟩, row, hrow, hroom⟩
        exact ⟨form, row, hform, hid, hrow, hroom htags form.1 form.2 hform⟩
    · dsimp only
      rw [if_neg hscores, if_neg htags]
      refine unmatched_refused ?_
      unfold check
      rw [hparts]
      exact (if_neg hscores).trans (if_neg htags)
  all_goals
    refine unmatched_refused ?_
    unfold check
    rw [hparts]

end Mutation

/-- Without a valid credential, a request is refused and changes nothing exactly when it
does not get past a check that has no gate behind it, or that raises what is no
`HttpError`. -/
theorem unauthenticated_iff (S : Services) (m : Mutation) (r : ApiRequest) (now : ℚ) (db : Db)
    (h : NoCredential S r now db) :
    (m.serve S r now db).Refused db ↔ ¬(r.cookie = none ∧ m.Slips S r now db) := by
  have hkey : (r.verified S.keys now db).apiKey = none := by
    rcases hpresented : r.presented with _ | key
    · unfold ApiRequest.verified
      rw [hpresented]
      rfl
    · unfold ApiRequest.verified
      rw [hpresented]
      dsimp only [Option.bind_some]
      rw [h.key key hpresented]
  -- looking up the key changes nothing that a slip depends on
  have hslips : m.Slips S (r.verified S.keys now db) now db ↔ m.Slips S r now db := by
    cases m <;> exact Iff.rfl
  unfold Mutation.serve
  -- without a cookie the gates decide; a cookie names a session that is dead
  rcases hcookie : r.cookie with _ | token
  · have hcookie' : (r.verified S.keys now db).cookie = none := hcookie
    rw [← hslips]
    refine Iff.trans ?_ (not_congr (and_iff_right rfl).symm)
    by_cases hgated : m.ungated = true
    · obtain ⟨scoreId, rfl⟩ : ∃ scoreId, m = .postTrace scoreId := by
        cases m with
        | postTrace scoreId => exact ⟨scoreId, rfl⟩
        | _ => cases hgated
      exact Mutation.postTrace_refused hcookie'
    · have hgated : m.ungated = false := Bool.eq_false_iff.mpr hgated
      rw [refused_of_refuses (Mutation.refuses hcookie' hkey hgated)]
      unfold Mutation.Slips
      rw [hgated]
      exact not_congr (or_iff_left fun hreach => by cases hreach.1).symm
  · have hdead := Mutation.refuses_dead (r := r.verified S.keys now db) hcookie
      (h.session token hcookie) m
    refine iff_of_true ((refused_of_refuses hdead).mpr ?_) fun hnone => by cases hnone.1
    rintro ⟨e, he, -⟩
    cases he

/-- Libraries that know nothing. -/
def plainServices : Services where
  auth := ⟨id, fun _ _ => false, fun password _ => password, id, fun _ => false⟩
  keys := ⟨id, id, fun _ => [], fun _ => none⟩
  text := wholeText
  config := {}

/-- A trace anyone may score. -/
def openTrace : Db := { traces := [{
  id := py "00000001"
  tsStart := 100
  durationMs := 5
  route := py "/predict"
  method := py "POST"
  status := 200
  rowid := 1 }] }

/-- A score without any credential. -/
def openScore : ApiRequest where
  path := py "/api/v1/traces/00000001/scores"
  body := .ok (.obj [(py "name", .str (py "quality")), (py "value", .int 1)])

/-- It carries nothing to check. -/
theorem openScore_noCredential : NoCredential plainServices openScore 200 openTrace where
  session := fun _ htoken => by cases htoken
  key := fun _ hpresented => by cases hpresented

/-- It changes a database that a log-out without a credential leaves alone. -/
theorem openLogout_refused :
    (Mutation.logout.serve plainServices openScore 200 openTrace).Refused openTrace := by
  refine (unauthenticated_iff _ _ _ _ _ openScore_noCredential).mpr ?_
  rintro ⟨-, ⟨e, he, -⟩ | ⟨hungated, -⟩⟩
  · cases he
  · cases hungated

/-- The score is accepted. -/
theorem not_unauthenticated : ¬∀ (S : Services) (m : Mutation) (r : ApiRequest) (now : ℚ) (db : Db),
    NoCredential S r now db → (m.serve S r now db).Refused db := by
  intro h
  obtain ⟨-, hdb, -⟩ := h plainServices (.postTrace (py "0000000000000001")) openScore 200 openTrace
    openScore_noCredential
  have hscores := congrArg (fun db : Db => db.scores.length) hdb
  revert hscores
  decide +kernel

end LayaWatch
