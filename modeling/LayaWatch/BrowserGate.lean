import LayaWatch.KeySoundness
import LayaWatch.JsonText
import LayaWatch.Lib.Dict

/-!
# The browser-session gate

`auth/csrf.py` and `enforce_browser_session` of `auth/sessions.py` on the headers of a
request, and `instrument.handle` outside of the engine paths, which runs the gate
before the router. An `HttpError` of the gate is answered; `hmac.compare_digest` raises
a `TypeError` on strings that are not ASCII, which nothing catches there. The gate
fails closed and never raises exactly on the requests for which no such strings are
compared (`gate_fails_closed`).

Where it raises no `TypeError`, it is the gate of `Sessions` (`enforce_eq`).
-/

namespace LayaWatch

open Auth

/-! ## Requests -/

/-- `s.upper()`, of text that Latin-1 decodes. -/
def upperLatin (s : PyStr) : PyStr :=
  s.flatMap fun c =>
    if 97 ≤ c.val ∧ c.val ≤ 122 then [CodePoint.ofNat (c.val - 32)]
    else if c.val = 0xDF then py "SS"
    else if c.val = 0xB5 then [CodePoint.ofNat 0x39C]
    else if c.val = 0xFF then [CodePoint.ofNat 0x178]
    else if 0xE0 ≤ c.val ∧ c.val ≤ 0xFE ∧ c.val ≠ 0xF7 then [CodePoint.ofNat (c.val - 32)]
    else [c]

/-- The string has no character beyond ASCII. -/
def PyStr.onlyAscii (s : PyStr) : Bool := s.all fun c => decide (c.val < 128)

/-- A request, as far as the gate reads it. -/
structure GateRequest where
  /-- `method` -/
  method : PyStr
  /-- `path` -/
  path : PyStr
  /-- `headers`, by their names in lower case -/
  headers : Dict PyStr PyStr

/-- What is raised on the way to the router. -/
inductive GateExc where
  /-- `HttpError` -/
  | http (e : HttpError)
  /-- `TypeError` -/
  | typeError
  /-- `UnicodeEncodeError` -/
  | unicodeEncodeError

namespace GateRequest

/-- `headers.get(name, "")`. -/
def header (r : GateRequest) (name : String) : PyStr := (r.headers.get (py name)).getD []

/-- What a part of the `Cookie` header says of a cookie. -/
def cookiePart (name : String) (part : PyStr) : Option PyStr :=
  let equals := CodePoint.ofChar '='
  let piece := part.strip
  if piece.isEmpty || !piece.contains equals then none
  else
    let key := piece.takeWhile (· ≠ equals)
    let value := PyStr.strip (piece.dropWhile (· ≠ equals)).tail
    if PyStr.strip key = py name && !value.isEmpty then some value else none

/-- `cookie_value`. -/
def cookieValue (r : GateRequest) (name : String) : Option PyStr :=
  ((r.header "cookie").splitOn (CodePoint.ofChar ';')).findSome? (cookiePart name)

/-- `session_token_from`. -/
def sessionToken (r : GateRequest) : Option PyStr := r.cookieValue "lw_session"

/-- The `X-CSRF-Token` header. -/
def csrfHeader (r : GateRequest) : PyStr := r.header "x-csrf-token"

/-- All header values are text that Latin-1 decodes. -/
def Latin (r : GateRequest) : Prop := ∀ e ∈ r.headers.entries, ∀ c ∈ e.2, c.val < 256

/-! ## The gate -/

/-- `_MUTATING`. -/
def mutating : List PyStr := [py "POST", py "PUT", py "PATCH", py "DELETE"]

/-- `is_mutating`. -/
def isMutating (r : GateRequest) : Bool := mutating.contains (upperLatin r.method)

/-- The refusal of `verify`. -/
def csrfError : HttpError :=
  .plain 403 "csrf_failed"
    "missing or invalid CSRF token: the X-CSRF-Token header must echo the lw_csrf cookie"

/-- `hmac.compare_digest`, of strings. -/
def compareDigest (a b : PyStr) : Except GateExc Bool :=
  if a.onlyAscii && b.onlyAscii then .ok (decide (a = b)) else .error .typeError

/-- `verify`. -/
def verify (r : GateRequest) : Except GateExc Unit :=
  if !r.isMutating then .ok ()
  else
    match r.cookieValue "lw_csrf" with
    | none => .error (.http csrfError)
    | some cookie =>
      if cookie.isEmpty || r.csrfHeader.isEmpty then .error (.http csrfError)
      else
        match compareDigest cookie r.csrfHeader with
        | .error e => .error e
        | .ok true => .ok ()
        | .ok false => .error (.http csrfError)

/-- `_PUBLIC_PATHS`. -/
def publicPaths : List PyStr := [py "/api/v1/auth/login", py "/api/v1/auth/setup"]

/-- `POST` of `MUST_CHANGE_PATH`. -/
def isPasswordChange (r : GateRequest) : Bool :=
  decide (r.method = py "POST") && decide (r.path = py "/api/v1/auth/password")

/-- A `must_change` user is held. -/
def held (r : GateRequest) (user : UserRow) : Bool := user.mustChange && !r.isPasswordChange

/-- The refusal of a `must_change` user. -/
def heldError : HttpError :=
  .plain 403 "password_change_required" "a new password is required before any other action"

section

variable (A : AuthLib)

/-- `enforce_browser_session`: the principal that it leaves on the request. -/
def enforce (r : GateRequest) (now : ℚ) (db : Db) : Except GateExc (Option Caller) :=
  if !(py "/api/v1/").isPrefixOf r.path || publicPaths.contains r.path then .ok none
  else
    match r.sessionToken with
    | none => .ok none
    | some token =>
      if !token.encodable then .error .unicodeEncodeError
      else
        match resolveToken A db token now with
        | none => .error (.http (credentialError "missing or invalid credential"))
        | some user =>
          if r.held user then .error (.http heldError)
          else if r.isMutating then r.verify.map fun _ => some (.session user (A.digest token))
          else .ok (some (.session user (A.digest token)))

end

end GateRequest

/-- What `handle` comes to. -/
inductive Handled (ρ : Type) where
  /-- the lifecycle of an engine path -/
  | engine
  /-- the envelope of an error of the gate -/
  | envelope (e : HttpError)
  /-- what `router.dispatch` returns -/
  | dispatched (response : ρ)

/-- The default of `engine_paths`. -/
def enginePaths : List PyStr := [py "/predict", py "/route"]

/-- `instrument.handle`, but for the lifecycle; `dispatch` is `router.dispatch`, which
never raises, on the request with this principal. -/
def GateRequest.handle {ρ : Type} (A : AuthLib) (dispatch : Option Caller → ρ) (r : GateRequest)
    (now : ℚ) (db : Db) : Except GateExc (Handled ρ) :=
  if enginePaths.contains r.path then .ok .engine
  else
    match r.enforce A now db with
    | .error (.http e) => .ok (.envelope e)
    | .error e => .error e
    | .ok principal => .ok (.dispatched (dispatch principal))

/-! ## What is in a cookie -/

theorem mem_intercalate {sep part : PyStr} {c : CodePoint} (hc : c ∈ part) {parts : List PyStr}
    (h : part ∈ parts) : c ∈ sep.intercalate parts := by
  induction parts with
  | nil => exact absurd h List.not_mem_nil
  | cons first parts ih =>
    by_cases hnil : parts = []
    · subst hnil
      rw [List.intercalate_singleton]
      rwa [← List.mem_singleton.mp h]
    · rw [List.intercalate_cons_of_ne_nil hnil]
      rcases List.mem_cons.mp h with rfl | h
      · exact List.mem_append_left _ (List.mem_append_left _ hc)
      · exact List.mem_append_right _ (ih h)

/-- What is in a part of a split is in the text. -/
theorem mem_of_mem_splitOn {sep c : CodePoint} {part text : PyStr} (hc : c ∈ part)
    (h : part ∈ text.splitOn sep) : c ∈ text := by
  have hmem : c ∈ [sep].intercalate (text.splitOn sep) := mem_intercalate hc h
  rwa [List.intercalate_splitOn] at hmem

theorem mem_of_mem_strip {s : PyStr} {c : CodePoint} (h : c ∈ s.strip) : c ∈ s := by
  unfold PyStr.strip at h
  have hfront := List.mem_reverse.mp ((List.dropWhile_sublist _).subset (List.mem_reverse.mp h))
  exact (List.dropWhile_sublist _).subset hfront

namespace GateRequest

variable {r : GateRequest}

/-- A cookie is made of the characters of the header. -/
theorem mem_header_of_mem_cookie {name : String} {value : PyStr}
    (h : r.cookieValue name = some value) {c : CodePoint} (hc : c ∈ value) :
    c ∈ r.header "cookie" := by
  obtain ⟨part, hpart, hvalue⟩ := List.exists_of_findSome?_eq_some h
  refine mem_of_mem_splitOn ?_ hpart
  unfold cookiePart at hvalue
  dsimp only at hvalue
  split at hvalue
  · cases hvalue
  · split at hvalue
    · obtain rfl := Option.some.inj hvalue
      have htail := List.mem_of_mem_tail (mem_of_mem_strip hc)
      exact mem_of_mem_strip ((List.dropWhile_sublist _).subset htail)
    · cases hvalue

/-- A cookie is not blank. -/
theorem cookieValue_ne_nil {name : String} {value : PyStr}
    (h : r.cookieValue name = some value) : value.isEmpty = false := by
  obtain ⟨part, -, hvalue⟩ := List.exists_of_findSome?_eq_some h
  unfold cookiePart at hvalue
  dsimp only at hvalue
  split at hvalue
  · cases hvalue
  · split at hvalue
    · next hcond =>
      obtain rfl := Option.some.inj hvalue
      rw [Bool.and_eq_true, Bool.not_eq_true'] at hcond
      exact hcond.2
    · cases hvalue

/-- Text that Latin-1 decodes can be encoded. -/
theorem encodable_of_latin (hlatin : r.Latin) {name : String} {value : PyStr}
    (h : r.cookieValue name = some value) : value.encodable = true := by
  refine List.all_eq_true.mpr fun c hc => ?_
  have hin := mem_header_of_mem_cookie h hc
  have hbound : c.val < 256 := by
    unfold header at hin
    rcases hget : r.headers.get (py "cookie") with _ | text
    · rw [hget] at hin
      exact absurd hin List.not_mem_nil
    · rw [hget] at hin
      exact hlatin _ (Dict.lookup_mem hget) c hin
  have hno : c.isSurrogate = false := decide_eq_false (by omega)
  rw [hno]
  rfl

/-! ## What the gate does -/

/-- The header echoes the cookie. -/
def Echoes (r : GateRequest) : Prop :=
  r.csrfHeader ≠ [] ∧ r.cookieValue "lw_csrf" = some r.csrfHeader

instance (r : GateRequest) : Decidable r.Echoes := inferInstanceAs (Decidable (_ ∧ _))

/-- There is a cookie and a header to compare, and not both are ASCII. -/
def ComparesOther (r : GateRequest) : Prop :=
  r.csrfHeader ≠ [] ∧ ∃ cookie, r.cookieValue "lw_csrf" = some cookie ∧
    (cookie.onlyAscii && r.csrfHeader.onlyAscii) = false

/-- `verify`, of a request that changes something. -/
theorem verify_cases (hmutating : r.isMutating = true) :
    r.ComparesOther ∧ r.verify = .error .typeError ∨
      ¬r.ComparesOther ∧ r.Echoes ∧ r.verify = .ok () ∨
      ¬r.ComparesOther ∧ ¬r.Echoes ∧ r.verify = .error (.http csrfError) := by
  unfold ComparesOther Echoes verify
  rw [hmutating, Bool.not_true, if_neg Bool.false_ne_true]
  rcases hcookie : r.cookieValue "lw_csrf" with _ | cookie
  · refine Or.inr (Or.inr ⟨?_, fun h => (by cases h.2), rfl⟩)
    rintro ⟨-, _, h, -⟩
    cases h
  dsimp only
  rw [cookieValue_ne_nil hcookie, Bool.false_or]
  by_cases hempty : r.csrfHeader = []
  · refine Or.inr (Or.inr ⟨fun h => h.1 hempty, fun h => h.1 hempty, ?_⟩)
    rw [hempty]
    rfl
  have hfull : r.csrfHeader.isEmpty = false := List.isEmpty_eq_false_iff.mpr hempty
  rw [hfull, if_neg Bool.false_ne_true]
  unfold compareDigest
  rcases hascii : cookie.onlyAscii && r.csrfHeader.onlyAscii with _ | _
  · exact Or.inl ⟨⟨hempty, cookie, rfl, hascii⟩, rfl⟩
  have hsame : ¬(r.csrfHeader ≠ [] ∧ ∃ c, some cookie = some c ∧
      (c.onlyAscii && r.csrfHeader.onlyAscii) = false) := by
    rintro ⟨-, c, hc, hother⟩
    obtain rfl := Option.some.inj hc
    rw [hascii] at hother
    cases hother
  rw [if_pos rfl]
  by_cases heq : cookie = r.csrfHeader
  · refine Or.inr (Or.inl ⟨hsame, ⟨hempty, congrArg some heq⟩, ?_⟩)
    rw [decide_eq_true heq]
  · refine Or.inr (Or.inr ⟨hsame, fun h => heq (Option.some.inj h.2), ?_⟩)
    rw [decide_eq_false heq]

section

variable (A : AuthLib)

/-- The request may go on to the router: its session resolves, its user is not held,
and its header echoes the cookie if it changes something. -/
def Allowed (r : GateRequest) (now : ℚ) (db : Db) : Prop :=
  ∃ token user, r.sessionToken = some token ∧ resolveToken A db token now = some user ∧
    r.held user = false ∧ (r.isMutating = true → r.Echoes)

/-- The gate lets an allowed request through to the router, and answers any other with
401 or 403. -/
def FailsClosed {ρ : Type} (dispatch : Option Caller → ρ) (r : GateRequest) (now : ℚ)
    (db : Db) : Prop :=
  r.Allowed A now db ∧ (∃ response, r.handle A dispatch now db = .ok (.dispatched response)) ∨
    ¬r.Allowed A now db ∧ ∃ e : HttpError, r.handle A dispatch now db = .ok (.envelope e) ∧
      (e.status = 401 ∨ e.status = 403)

/-- The gate comes to compare strings that are not ASCII: the session resolves, its user
is not held, and the request changes something. -/
def ReachesOther (r : GateRequest) (now : ℚ) (db : Db) : Prop :=
  ∃ token user, r.sessionToken = some token ∧ resolveToken A db token now = some user ∧
    r.held user = false ∧ r.isMutating = true ∧ r.ComparesOther

end

/-! ## When it fails closed -/

section

variable {A : AuthLib} {now : ℚ} {db : Db} {token : PyStr} {user : UserRow}

/-- A path of the API. -/
def OnApi (r : GateRequest) : Prop := py "/api/v1/" <+: r.path ∧ r.path ∉ publicPaths

/-- The gate, on a path of the API. -/
theorem enforce_session (hpath : r.OnApi) (hlatin : r.Latin)
    (htoken : r.sessionToken = some token) : r.enforce A now db =
      match resolveToken A db token now with
      | none => .error (.http (credentialError "missing or invalid credential"))
      | some user =>
        if r.held user then .error (.http heldError)
        else if r.isMutating then r.verify.map fun _ => some (.session user (A.digest token))
        else .ok (some (.session user (A.digest token))) := by
  have hfront : (py "/api/v1/").isPrefixOf r.path = true := List.isPrefixOf_iff_prefix.mpr hpath.1
  have hother : publicPaths.contains r.path = false := by
    rw [Bool.eq_false_iff, ne_eq, List.contains_iff_mem]
    exact hpath.2
  unfold enforce
  rw [hfront, hother, htoken, Bool.not_true, Bool.or_false, if_neg Bool.false_ne_true]
  dsimp only
  rw [encodable_of_latin hlatin htoken, Bool.not_true, if_neg Bool.false_ne_true]

theorem not_mem_enginePaths (hpath : r.OnApi) : enginePaths.contains r.path = false := by
  rw [Bool.eq_false_iff, ne_eq, List.contains_iff_mem]
  intro hmem
  have hnone : ∀ path ∈ enginePaths, ¬py "/api/v1/" <+: path := by decide
  exact hnone _ hmem hpath.1

/-- An error of the gate is answered. -/
theorem handle_http {ρ : Type} {dispatch : Option Caller → ρ} (hpath : r.OnApi) {e : HttpError}
    (h : r.enforce A now db = .error (.http e)) :
    r.handle A dispatch now db = .ok (.envelope e) := by
  unfold handle
  rw [not_mem_enginePaths hpath, if_neg Bool.false_ne_true, h]

theorem handle_ok {ρ : Type} {dispatch : Option Caller → ρ} (hpath : r.OnApi)
    {principal : Option Caller} (h : r.enforce A now db = .ok principal) :
    r.handle A dispatch now db = .ok (.dispatched (dispatch principal)) := by
  unfold handle
  rw [not_mem_enginePaths hpath, if_neg Bool.false_ne_true, h]

theorem allowed_iff (htoken : r.sessionToken = some token)
    (huser : resolveToken A db token now = some user) :
    r.Allowed A now db ↔ r.held user = false ∧ (r.isMutating = true → r.Echoes) := by
  constructor
  · rintro ⟨token', user', htoken', huser', hheld, hecho⟩
    obtain rfl := Option.some.inj (htoken.symm.trans htoken')
    obtain rfl := Option.some.inj (huser.symm.trans huser')
    exact ⟨hheld, hecho⟩
  · exact fun h => ⟨token, user, htoken, huser, h⟩

/-- **The browser-session gate**, on every request to a path of the API that carries a
session cookie: it fails closed and raises nothing exactly if it does not come to
compare a token and a header that are not both ASCII. -/
theorem gate_fails_closed {ρ : Type} (dispatch : Option Caller → ρ) (hpath : r.OnApi)
    (hlatin : r.Latin) (hcookie : r.sessionToken.isSome = true) :
    FailsClosed A dispatch r now db ↔ ¬r.ReachesOther A now db := by
  obtain ⟨token, htoken⟩ := Option.isSome_iff_exists.mp hcookie
  have henforce : r.enforce A now db = _ := enforce_session hpath hlatin htoken
  rcases huser : resolveToken A db token now with _ | user
  · -- no such session
    rw [huser] at henforce
    have hnone : ∀ user, ¬(∃ token', r.sessionToken = some token' ∧
        resolveToken A db token' now = some user) := by
      rintro user ⟨token', htoken', huser'⟩
      obtain rfl := Option.some.inj (htoken.symm.trans htoken')
      rw [huser] at huser'
      cases huser'
    refine iff_of_true (Or.inr ⟨?_, _, handle_http hpath henforce, Or.inl rfl⟩) ?_
    · exact fun ⟨token', user, htoken', huser', _⟩ => hnone user ⟨token', htoken', huser'⟩
    · exact fun ⟨token', user, htoken', huser', _⟩ => hnone user ⟨token', htoken', huser'⟩
  rw [huser] at henforce
  dsimp only at henforce
  have hallowed := allowed_iff htoken huser
  have hreaches : r.ReachesOther A now db ↔
      r.held user = false ∧ r.isMutating = true ∧ r.ComparesOther := by
    constructor
    · rintro ⟨token', user', htoken', huser', h⟩
      obtain rfl := Option.some.inj (htoken.symm.trans htoken')
      obtain rfl := Option.some.inj (huser.symm.trans huser')
      exact h
    · exact fun h => ⟨token, user, htoken, huser, h⟩
  unfold FailsClosed
  rw [hreaches, hallowed]
  rcases hheld : r.held user with _ | _
  · rw [hheld, if_neg Bool.false_ne_true] at henforce
    rcases hmutating : r.isMutating with _ | _
    · -- nothing is compared
      rw [hmutating, if_neg Bool.false_ne_true] at henforce
      refine iff_of_true (Or.inl ⟨⟨rfl, fun h => (by cases h)⟩, _, handle_ok hpath henforce⟩) ?_
      exact fun h => by cases h.2.1
    · rw [hmutating, if_pos rfl] at henforce
      rcases verify_cases hmutating with ⟨hother, hverify⟩ | ⟨hsame, hecho, hverify⟩ |
        ⟨hsame, hecho, hverify⟩
      · -- `TypeError`, which nothing catches
        have hraises : r.handle A dispatch now db = .error .typeError := by
          unfold handle
          rw [not_mem_enginePaths hpath, if_neg Bool.false_ne_true, henforce, hverify]
          rfl
        refine iff_of_false ?_ (not_not_intro ⟨rfl, rfl, hother⟩)
        rw [hraises]
        rintro (⟨-, _, h⟩ | ⟨-, _, h, -⟩)
        · cases h
        · cases h
      · rw [hverify] at henforce
        exact iff_of_true (Or.inl ⟨⟨rfl, fun _ => hecho⟩, _, handle_ok hpath henforce⟩)
          fun h => hsame h.2.2
      · rw [hverify] at henforce
        exact iff_of_true (Or.inr ⟨fun h => hecho (h.2 rfl), _, handle_http hpath henforce,
          Or.inr rfl⟩) fun h => hsame h.2.2
  · -- the user is held
    rw [hheld, if_pos rfl] at henforce
    exact iff_of_true (Or.inr ⟨fun h => (by cases h.1), _, handle_http hpath henforce, Or.inr rfl⟩)
      fun h => by cases h.1

/-! ## The gate of the handlers -/

/-- The request, as the handlers of `Sessions` have it. -/
def session (r : GateRequest) : SessionRequest where
  cookie := r.sessionToken
  csrf := decide r.Echoes

/-- On a request that changes something, the gate is that of `Sessions`, unless it
raises a `TypeError`. -/
theorem enforce_eq (hpath : r.OnApi) (hlatin : r.Latin) (hmutating : r.isMutating = true)
    (hsame : ¬r.ComparesOther) (now : ℚ) (db : Db) : r.enforce A now db =
      (enforceBrowserSession A r.session r.isPasswordChange now db).1.mapError GateExc.http := by
  unfold enforceBrowserSession session
  rcases htoken : r.sessionToken with _ | token
  · unfold enforce
    rw [htoken]
    split <;> rfl
  rw [enforce_session hpath hlatin htoken]
  dsimp only
  rcases resolveToken A db token now with _ | user
  · rfl
  dsimp only
  unfold held
  rcases user.mustChange && !r.isPasswordChange with _ | _
  · rw [if_neg Bool.false_ne_true, if_neg Bool.false_ne_true, hmutating, if_pos rfl]
    rcases verify_cases hmutating with ⟨hother, -⟩ | ⟨-, hecho, hverify⟩ | ⟨-, hecho, hverify⟩
    · exact absurd hother hsame
    · rw [hverify, decide_eq_true hecho]
      rfl
    · rw [hverify, decide_eq_false hecho]
      rfl
  · rfl

end

end GateRequest

/-- A POST of the admin, whose CSRF cookie is `c`, with this header. -/
def postWith (csrf : String) : GateRequest where
  method := py "POST"
  path := py "/api/v1/keys"
  headers := (Dict.empty.set (py "cookie") (py "lw_session=T; lw_csrf=c")).set (py "x-csrf-token")
    (py csrf)

/-- The header that echoes the cookie is let through. -/
theorem gate_fails_closed_echo : GateRequest.FailsClosed textAuth (fun _ => ()) (postWith "c") 0
    adminSession.db := by
  have hall : ((postWith "c").headers.entries.all fun e =>
      e.2.all fun c => decide (c.val < 256)) = true := by decide +kernel
  have hlatin : (postWith "c").Latin := fun e he c hc =>
    of_decide_eq_true (List.all_eq_true.mp (List.all_eq_true.mp hall e he) c hc)
  refine (GateRequest.gate_fails_closed (fun _ => ()) ⟨by decide +kernel, by decide +kernel⟩ hlatin
    (by decide +kernel)).mpr ?_
  rintro ⟨token, user, -, -, -, -, -, cookie, hcookie, hother⟩
  have hascii : ((postWith "c").cookieValue "lw_csrf").all (fun cookie =>
      cookie.onlyAscii && (postWith "c").csrfHeader.onlyAscii) = true := by decide +kernel
  rw [hcookie, Option.all_some, hother] at hascii
  cases hascii

/-- A header that is not ASCII raises out of `handle`. -/
theorem handle_raises : (postWith "é").OnApi ∧
    ((postWith "é").headers.entries.all fun e => e.2.all fun c => decide (c.val < 256)) = true ∧
    (postWith "é").sessionToken.isSome = true ∧
    ¬GateRequest.FailsClosed textAuth (fun _ => ()) (postWith "é") 0 adminSession.db := by
  refine ⟨⟨by decide +kernel, by decide +kernel⟩, by decide +kernel, by decide +kernel, ?_⟩
  have hraises : ((postWith "é").handle textAuth (fun _ => ()) 0
      adminSession.db).toOption.isNone = true := by decide +kernel
  rintro (⟨-, _, h⟩ | ⟨-, _, h, -⟩)
  · rw [h] at hraises
    cases hraises
  · rw [h] at hraises
    cases hraises

end LayaWatch
