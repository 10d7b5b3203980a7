import LayaWatch.Http
import LayaWatch.JsonText
import LayaWatch.Schema
import LayaWatch.Lib.Base64
import LayaWatch.Lib.Keyset
import LayaWatch.Lib.Prog

/-!
# Read queries

The part of `store/queries.py` that the paged listings share: the query parameters
and their errors, the clauses of a `WHERE` with the values bound to them, `LIKE`,
and the cursors. A clause is the rows it holds of, so that a statement is a filter,
a sort and a limit.

What Python does between text and numbers (`int`, `float`, `str.isdigit`,
`str.lower`) and between bytes and text is a parameter, `PyText`.
-/

namespace LayaWatch

/-- Text, numbers and bytes in Python. -/
structure PyText extends FloatText where
  /-- `int(s)`, unless it raises `ValueError` -/
  int : PyStr → Option ℤ
  /-- `float(s)`, unless it raises `ValueError`; `none` inside is not finite -/
  float : PyStr → Option (Option ℚ)
  /-- `float(n)`, unless it raises `OverflowError` -/
  floatOfInt : ℤ → Option ℚ
  /-- `s.isdigit()` -/
  isDigit : PyStr → Bool
  /-- `s.lower()` -/
  lower : PyStr → PyStr
  /-- the text that `json.loads` takes bytes for, unless it raises `UnicodeDecodeError` -/
  ofBytes : List ℕ → Option PyStr
  /-- ASCII is itself -/
  ofBytes_ascii : ∀ s : PyStr, (∀ c ∈ s, c.isAscii = true) → ofBytes (s.map Fin.val) = some s

/-- How a read query fails. -/
inductive QueryError where
  /-- `InvalidFilter`, which the handlers answer with `400 invalid_filter` -/
  | invalid (message : List Piece)
  /-- another exception, which they do not catch -/
  | crashed
  deriving DecidableEq

namespace QueryError

/-- `InvalidFilter` with a fixed message. -/
def text (message : String) : QueryError := .invalid [.text (py message)]

/-- What the handlers answer an `InvalidFilter` with. -/
def http (message : List Piece) : HttpError := ⟨400, py "invalid_filter", message, none⟩

end QueryError

/-! ## Parameters -/

/-- The query parameters: the values of each name. (A plain string, which the log
export passes, is read as a list of one.) -/
abbrev Params : Type := Dict PyStr (List PyStr)

namespace Params

/-- `_first`. -/
def first (params : Params) (name : PyStr) : Option PyStr := (params.get name).bind List.head?

/-- `_opt`. -/
def opt (params : Params) (name : PyStr) : Option PyStr :=
  match params.first name with
  | none => none
  | some [] => none
  | some value => some value

/-- `_reject_unknown`. -/
def rejectUnknown (params : Params) (allowlist : List PyStr) : Except QueryError Unit :=
  match params.keys.find? fun key => !allowlist.contains key with
  | some key => .error (.invalid [.text (py "unknown query parameter "), .repr key])
  | none => .ok ()

end Params

/-- `DEFAULT_LIMIT`. -/
def defaultLimit : ℕ := 50

/-- `MAX_LIMIT`. -/
def maxLimit : ℕ := 200

/-- `RANGE_SECONDS`. -/
def rangeSeconds : List (PyStr × ℚ) :=
  [(py "15m", 900), (py "1h", 3600), (py "6h", 21600), (py "24h", 86400), (py "7d", 604800)]

/-- `LOG_LEVELS`. -/
def logLevels : List PyStr := [py "debug", py "info", py "warning", py "error"]

/-- `", ".join(names)`. -/
def joined (names : List PyStr) : PyStr := List.intercalate (py ", ") names

/-- `_parse_float`. -/
def parseFloat (T : PyText) (value : PyStr) (name : String) : Except QueryError ℚ :=
  match T.float value with
  | none => .error (.text (name ++ " must be a number"))
  | some none => .error (.text (name ++ " must be a finite number"))
  | some (some number) => .ok number

/-- `parse_limit`. -/
def parseLimit (T : PyText) (raw : Option PyStr) (default : ℕ) : Except QueryError ℕ :=
  match raw with
  | none => .ok default
  | some [] => .ok default
  | some raw =>
    match T.int raw with
    | none => .error (.text "limit must be an integer")
    | some value =>
      if value < 1 then .error (.text "limit must be at least 1")
      else if (maxLimit : ℤ) < value then .error (.text "limit must be at most 200")
      else .ok value.toNat

/-- `parse_range`. -/
def parseRange (raw : PyStr) : Except QueryError ℚ :=
  match rangeSeconds.find? fun e => e.1 = raw with
  | some e => .ok e.2
  | none => .error (.invalid
      [.text (py "range must be one of "), .text (joined (rangeSeconds.map Prod.fst))])

/-- A time window; a bound may be missing. -/
structure Window where
  /-- `since` -/
  sinceTs : Option ℚ
  /-- `until` -/
  untilTs : Option ℚ
  deriving DecidableEq

/-- A bound that is a number, if there is one. -/
def parseBound (T : PyText) (raw : Option PyStr) (name : String) :
    Except QueryError (Option ℚ) :=
  match raw with
  | none => .ok none
  | some raw => (parseFloat T raw name).map some

/-- `resolve_window`, at the time `now`. -/
def resolveWindow (T : PyText) (params : Params) (now : ℚ) : Except QueryError Window :=
  let rawRange := params.opt (py "range")
  let sinceRaw := params.opt (py "since")
  let untilRaw := params.opt (py "until")
  if rawRange.isSome && (sinceRaw.isSome || untilRaw.isSome) then
    .error (.text "range cannot be combined with since/until")
  else
    match rawRange with
    | some raw => do
      let seconds ← parseRange raw
      return ⟨some (now - seconds), some now⟩
    | none => do
      let sinceTs ← parseBound T sinceRaw "since"
      let untilTs ← parseBound T untilRaw "until"
      match sinceTs, untilTs with
      | some s, some u =>
        if u ≤ s then .error (.text "since must be before until") else return ⟨some s, some u⟩
      | sinceTs, untilTs => return ⟨sinceTs, untilTs⟩

/-- What `status` asks for. -/
inductive StatusFilter where
  /-- one status -/
  | exact (value : ℤ)
  /-- a class such as `4xx` -/
  | decade (raw : PyStr)

/-- `parse_status`. -/
def parseStatus (T : PyText) (raw : PyStr) : Except QueryError StatusFilter :=
  if T.isDigit raw then
    match T.int raw with
    -- a digit that `int` does not take
    | none => .error .crashed
    | some value =>
      if 100 ≤ value ∧ value ≤ 599 then .ok (.exact value)
      else .error (.text "status must be between 100 and 599 or a class like 4xx")
  else if raw.length = 3 ∧ raw.head?.any (fun c => decide (49 ≤ c.val ∧ c.val ≤ 53)) = true ∧
      raw.tail = py "xx" then
    .ok (.decade raw)
  else .error (.text "status must be an integer or a class like 4xx/5xx")

/-- `ORDER_MODES`. -/
inductive Order where
  /-- by start -/
  | newest
  /-- by duration -/
  | slowest
  deriving DecidableEq

namespace Order

/-- Its name. -/
def name : Order → PyStr
  | newest => py "newest"
  | slowest => py "slowest"

/-- The order of a name. -/
def ofName (s : PyStr) : Option Order :=
  if s = newest.name then some newest else if s = slowest.name then some slowest else none

end Order

/-- `parse_order`. -/
def parseOrder (raw : PyStr) : Except QueryError Order :=
  match Order.ofName raw with
  | some order => .ok order
  | none => .error (.text "order must be newest or slowest")

/-- `parse_level`. -/
def parseLevel : Option PyStr → Except QueryError (Option PyStr)
  | none => .ok none
  | some raw =>
    if raw = py "warn" then .ok (some (py "warning"))
    else if logLevels.contains raw then .ok (some raw)
    else .error (.invalid [.text (py "level must be one of "), .text (joined logLevels)])

/-! ## LIKE -/

/-- What stands in a pattern. -/
inductive LikeToken where
  /-- `%` -/
  | any
  /-- `_` -/
  | one
  /-- a character -/
  | char (c : CodePoint)

/-- The tokens of a pattern, with `\\` as the escape character; a pattern that ends
in it matches nothing. -/
def likeTokens : PyStr → Option (List LikeToken)
  | [] => some []
  | c :: rest =>
    if c = CodePoint.ofChar '\\' then
      match rest with
      | [] => none
      | d :: rest => (likeTokens rest).map (.char d :: ·)
    else if c = CodePoint.ofChar '%' then (likeTokens rest).map (.any :: ·)
    else if c = CodePoint.ofChar '_' then (likeTokens rest).map (.one :: ·)
    else (likeTokens rest).map (.char c :: ·)

/-- A letter of ASCII in lower case; anything else as it is. -/
def foldCase (c : CodePoint) : CodePoint :=
  if 65 ≤ c.val ∧ c.val ≤ 90 then CodePoint.ofNat (c.val + 32) else c

/-- The text matches the tokens. -/
def likeMatches : List LikeToken → PyStr → Bool
  | [], s => s.isEmpty
  | .any :: tokens, s => s.tails.any (likeMatches tokens)
  | .one :: _, [] => false
  | .one :: tokens, _ :: s => likeMatches tokens s
  | .char _ :: _, [] => false
  | .char c :: tokens, d :: s => decide (foldCase c = foldCase d) && likeMatches tokens s

/-- `text LIKE pattern ESCAPE '\\'`; a NUL ends either. -/
def sqlLike (pattern text : PyStr) : Bool :=
  match likeTokens (pattern.takeWhile fun c => c ≠ 0) with
  | some tokens => likeMatches tokens (text.takeWhile fun c => c ≠ 0)
  | none => false

/-- Put an escape before each metacharacter. -/
def escapeLike (s : PyStr) : PyStr :=
  s.flatMap fun c =>
    if c = CodePoint.ofChar '\\' ∨ c = CodePoint.ofChar '%' ∨ c = CodePoint.ofChar '_' then
      [CodePoint.ofChar '\\', c]
    else [c]

/-- `_like`. -/
def like (value : PyStr) : PyStr := py "%" ++ escapeLike value ++ py "%"

/-! ## Statements -/

namespace SqlValue

/-- SQLite takes the value. -/
def bindable : SqlValue → Bool
  | integer n => decide (-(2 ^ 63) ≤ n ∧ n < 2 ^ 63)
  | text s => s.encodable
  | _ => true

end SqlValue

/-- A clause of a `WHERE` on rows of `α`. -/
structure Clause (α : Type) where
  /-- the values bound to it -/
  args : List SqlValue
  /-- the rows it is true of -/
  holds : α → Bool

namespace Clause

variable {α : Type}

/-- `column = ?`. -/
def text (column : α → Option PyStr) (value : PyStr) : Clause α :=
  ⟨[.text value], fun row => decide (column row = some value)⟩

/-- `column LIKE ? ESCAPE '\\'`; NULL matches nothing. -/
def like (column : α → Option PyStr) (pattern : PyStr) : Clause α :=
  ⟨[.text pattern], fun row => (column row).any (sqlLike pattern)⟩

/-- `ts >= ?` and `ts < ?`. -/
def window (ts : α → ℚ) (w : Window) : List (Clause α) :=
  (w.sinceTs.map fun x => ⟨[.real x], fun row => decide (x ≤ ts row)⟩).toList ++
    (w.untilTs.map fun x => ⟨[.real x], fun row => decide (ts row < x)⟩).toList

end Clause

section

variable {α β : Type}

/-- The columns of the rows all clauses hold of. -/
def matching (columns : α → β) (clauses : List (Clause α)) (rows : List α) : List β :=
  (rows.filter fun row => clauses.all fun c => c.holds row).map columns

/-- SQLite takes the values of the clauses. -/
def clausesBindable (clauses : List (Clause α)) : Bool :=
  clauses.all fun c => c.args.all SqlValue.bindable

/-- `SELECT .. WHERE .. ORDER BY .. LIMIT ..`. -/
def selectRows (columns : α → β) (clauses : List (Clause α)) (le : β → β → Prop)
    [DecidableRel le] (limit : ℕ) (rows : List α) : Except QueryError (List β) :=
  if clausesBindable clauses then
    .ok (((matching columns clauses rows).insertionSort le).take limit)
  else .error .crashed

/-- `SELECT COUNT(*) .. WHERE ..`. -/
def selectCount (clauses : List (Clause α)) (rows : List α) : Except QueryError ℕ :=
  if clausesBindable clauses then .ok (matching id clauses rows).length else .error .crashed

end

/-! ## Cursors -/

/-- `_encode_cursor`. (The values hold no dictionaries, so that only the payload's
own keys are sorted.) -/
def encodeCursor (T : PyText) (payload : Fields) : PyStr :=
  let raw := JsonText.dumps T.toFloatText (.obj (payload.insertionSort fun a b => a.1 ≤ b.1))
  (Base64.encode (raw.map Fin.val)).map CodePoint.ofNat

/-- The JSON value of a cursor, unless it is not one (`ValueError`). -/
def cursorJson (T : PyText) (raw : PyStr) : Option Json :=
  let padded := raw ++ List.replicate (-(raw.length : ℤ) % 4).toNat (CodePoint.ofChar '=')
  if padded.all fun c => decide (c.val < 128) then do
    let bytes ← Base64.decode (padded.map Fin.val)
    let text ← T.ofBytes bytes
    JsonText.loads T.toFloatText text
  else none

/-- A decoded cursor. -/
structure CursorPayload where
  /-- the payload -/
  fields : Fields
  /-- its `k` -/
  keys : List Json

/-- `_decode_cursor`. -/
def decodeCursor (T : PyText) (raw : PyStr) : Except QueryError CursorPayload :=
  match cursorJson T raw with
  | some (.obj fields) =>
    match Fields.get (py "k") fields with
    | some (.arr keys) => .ok ⟨fields, keys⟩
    | _ => .error (.text "cursor is not a valid pagination cursor")
  | _ => .error (.text "cursor is not a valid pagination cursor")

/-- The cursor of a request, decoded, if there is one. -/
def cursorPayload (T : PyText) (params : Params) : Except QueryError (Option CursorPayload) :=
  match params.opt (py "cursor") with
  | some raw => (decodeCursor T raw).map some
  | none => .ok none

/-- The value of a number and how it is bound, if `_is_number`. -/
def number : Json → Option (SqlValue × ℚ)
  | .int n => some (.integer n, n)
  | .float x => some (.real x, x)
  | _ => none

/-- The cursor of the next page: the last row of the page, if a row more was found. -/
def nextCursor {β : Type} (limit : ℕ) (rows : List β) (cursor : β → PyStr) : Option PyStr :=
  if limit < rows.length then (rows.take limit).getLast?.map cursor else none

/-! ## What is accepted -/

theorem parseLimit_pos {T : PyText} {raw : Option PyStr} {default limit : ℕ} (hpos : 1 ≤ default)
    (h : parseLimit T raw default = .ok limit) : 1 ≤ limit := by
  unfold parseLimit at h
  split at h
  · exact Except.ok.inj h ▸ hpos
  · exact Except.ok.inj h ▸ hpos
  · split at h
    · cases h
    · split at h
      · cases h
      · split at h
        · cases h
        · have := Except.ok.inj h
          omega

/-- Whether a window is accepted does not depend on the time. -/
theorem resolveWindow_ok {T : PyText} {params : Params} {now : ℚ} {w : Window}
    (h : resolveWindow T params now = .ok w) (now' : ℚ) :
    ∃ w', resolveWindow T params now' = .ok w' := by
  unfold resolveWindow at h ⊢
  dsimp only at h ⊢
  split at h
  · cases h
  · rename_i hcombined
    rw [if_neg hcombined]
    split at h
    · rename_i raw hraw
      rcases hrange : parseRange raw with e | seconds
      · rw [hrange] at h
        cases h
      · exact ⟨_, rfl⟩
    · exact ⟨w, h⟩

/-! ## A statement finds a page -/

section

variable {α β : Type}

theorem matching_append (columns : α → β) (filter cursor : List (Clause α)) (rows : List α)
    (p : β → Bool) (hp : ∀ row, (cursor.all fun c => c.holds row) = p (columns row)) :
    matching columns (filter ++ cursor) rows = (matching columns filter rows).filter p := by
  unfold matching
  rw [List.filter_map, List.filter_filter]
  refine congrArg (List.map columns) (List.filter_congr fun row _ => ?_)
  rw [List.all_append, hp, Function.comp_apply, Bool.and_comm]

theorem clauses_bindable_append (filter cursor : List (Clause α)) :
    clausesBindable (filter ++ cursor) = (clausesBindable filter && clausesBindable cursor) :=
  List.all_append

/-- A window can always be bound. -/
theorem bindable_window (ts : α → ℚ) (w : Window) :
    clausesBindable (Clause.window ts w) = true := by
  obtain ⟨sinceTs, untilTs⟩ := w
  cases sinceTs <;> cases untilTs <;> rfl

variable {κ : Type} [LinearOrder κ] {key : β → κ}

/-- `ORDER BY` sorts by the key. -/
theorem insertionSort_eq {le : β → β → Prop} [DecidableRel le]
    (hle : ∀ a b, le a b ↔ key a ≤ key b) (rows : List β) :
    rows.insertionSort le = Keyset.sorted key rows := by
  have hrel : le = fun a b => key a ≤ key b := funext fun a => funext fun b => propext (hle a b)
  subst hrel
  unfold Keyset.sorted
  congr

/-- The rows a page is made of, when the clauses of the cursor hold of what is past
it. -/
theorem selectRows_rest (columns : α → β) {filter cursor : List (Clause α)}
    {le : β → β → Prop} [DecidableRel le] (hle : ∀ a b, le a b ↔ key a ≤ key b)
    (hbind : clausesBindable (filter ++ cursor) = true) {c : Option κ}
    (hpast : ∀ row, (cursor.all fun c => c.holds row) = Keyset.past c (key (columns row)))
    (limit : ℕ) (rows : List α) : selectRows columns (filter ++ cursor) le limit rows =
      .ok ((Keyset.rest key c (matching columns filter rows)).take limit) := by
  unfold selectRows
  rw [if_pos hbind, insertionSort_eq hle,
    matching_append columns filter cursor rows (fun b => Keyset.past c (key b)) hpast]
  rfl

/-- A page, of the rows that were found. -/
theorem page_of_found (limit : ℕ) (rows : List β) (c : Option κ) (encode : κ → PyStr) :
    (Keyset.page key limit rows c).encode encode =
      ⟨((Keyset.rest key c rows).take (limit + 1)).take limit,
        nextCursor limit ((Keyset.rest key c rows).take (limit + 1)) (encode ∘ key)⟩ := by
  unfold Keyset.page Keyset.Page.encode nextCursor
  dsimp only
  refine congrArg (Keyset.Page.mk _) ?_
  split
  · exact Option.map_map encode key _
  · rfl

end

/-! ## A cursor reads back -/

theorem ofNat_val_map (s : PyStr) : s.map (fun c => CodePoint.ofNat c.val) = s :=
  (List.map_congr_left fun c _ => JsonText.ofNat_val c).trans (List.map_id s)

/-- The bytes of what `json.dumps` writes. -/
theorem dumps_bytes (T : PyText) (v : Json) :
    ∀ b ∈ (JsonText.dumps T.toFloatText v).map Fin.val, b < 256 := by
  intro b hb
  obtain ⟨c, hc, rfl⟩ := List.mem_map.mp hb
  have hascii := of_decide_eq_true (JsonText.dumps_ascii T.toFloatText v c hc)
  omega

theorem encodeCursor_val (T : PyText) (payload : Fields) :
    (encodeCursor T payload).map Fin.val = Base64.encode ((JsonText.dumps T.toFloatText
      (.obj (payload.insertionSort fun a b => a.1 ≤ b.1))).map Fin.val) := by
  unfold encodeCursor
  rw [List.map_map]
  refine (List.map_congr_left fun b hb => ?_).trans (List.map_id _)
  have hlt := Base64.encode_lt (dumps_bytes T _) b hb
  exact Nat.mod_eq_of_lt (by omega)

/-- **A cursor reads back.** -/
theorem cursorJson_encode (T : PyText) {payload sorted : Fields}
    (hsort : payload.insertionSort (fun a b => a.1 ≤ b.1) = sorted) (hne : sorted ≠ [])
    (hkeys : (sorted.map Prod.fst).Nodup)
    (hflat : ∀ e ∈ sorted, e.1.encodable = true ∧ JsonText.Flat e.2) :
    cursorJson T (encodeCursor T payload) = some (.obj sorted) := by
  have hval := encodeCursor_val T payload
  rw [hsort] at hval
  have hlen : (encodeCursor T payload).length % 4 = 0 := by
    have hlen := Base64.length_encode
      ((JsonText.dumps T.toFloatText (.obj sorted)).map Fin.val)
    rwa [← hval, List.length_map] at hlen
  -- a full group needs no padding
  have hpad : (-((encodeCursor T payload).length : ℤ) % 4).toNat = 0 := by omega
  have hall : ((encodeCursor T payload).all fun c => decide (c.val < 128)) = true := by
    refine List.all_eq_true.mpr fun c hc => decide_eq_true ?_
    refine Base64.encode_lt (dumps_bytes T (.obj sorted)) c.val ?_
    rw [← hval]
    exact List.mem_map_of_mem hc
  have hascii := JsonText.dumps_ascii T.toFloatText (.obj sorted)
  simp only [cursorJson, hpad, List.replicate_zero, List.append_nil, hall, if_true, hval,
    Base64.decode_encode (dumps_bytes T (.obj sorted)), T.ofBytes_ascii _ hascii,
    JsonText.loads_dumps T.toFloatText hne hkeys hflat, Option.bind_eq_bind, Option.bind_some]

theorem encodeCursor_ne_nil (T : PyText) (payload : Fields) : encodeCursor T payload ≠ [] := by
  intro hnil
  have hval := encodeCursor_val T payload
  rw [hnil, JsonText.dumps] at hval
  exact Base64.encode_ne_nil (List.cons_ne_nil _ _) hval.symm

/-! ## A request with a cursor -/

namespace Params

/-- The same request with the cursor of a page. -/
def withCursor (params : Params) (cursor : PyStr) : Params :=
  Dict.set params (py "cursor") [cursor]

variable {params : Params} {name : PyStr}

theorem first_withCursor (h : name ≠ py "cursor") (cursor : PyStr) :
    (params.withCursor cursor).first name = params.first name := by
  unfold first withCursor
  rw [Dict.get_set_ne params [cursor] h]

theorem opt_withCursor (h : name ≠ py "cursor") (cursor : PyStr) :
    (params.withCursor cursor).opt name = params.opt name := by
  unfold opt
  rw [first_withCursor h]

theorem opt_withCursor_self {cursor : PyStr} (h : cursor ≠ []) :
    (params.withCursor cursor).opt (py "cursor") = some cursor := by
  unfold opt first withCursor
  rw [Dict.get_set_self]
  rcases cursor with _ | ⟨c, cursor⟩
  · exact absurd rfl h
  · rfl

theorem rejectUnknown_eq_ok {allowlist : List PyStr} :
    params.rejectUnknown allowlist = .ok () ↔ ∀ key ∈ params.keys, key ∈ allowlist := by
  unfold rejectUnknown
  rcases hfind : params.keys.find? fun key => !allowlist.contains key with _ | key
  · refine iff_of_true rfl fun key hkey => ?_
    have hno := List.find?_eq_none.mp hfind key hkey
    rw [Bool.not_eq_true', Bool.not_eq_false] at hno
    exact List.contains_iff_mem.mp hno
  · refine iff_of_false (fun h => by cases h) fun hall => ?_
    have hkey := hall key (List.mem_of_find?_eq_some hfind)
    have hno := List.find?_some hfind
    rw [List.contains_iff_mem.mpr hkey] at hno
    cases hno

theorem rejectUnknown_withCursor {allowlist : List PyStr} (hkey : py "cursor" ∈ allowlist)
    (cursor : PyStr) (h : params.rejectUnknown allowlist = .ok ()) :
    (params.withCursor cursor).rejectUnknown allowlist = .ok () := by
  refine rejectUnknown_eq_ok.mpr fun key' hkey' => ?_
  rcases Dict.mem_keys_set.mp hkey' with rfl | hmem
  · exact hkey
  · exact rejectUnknown_eq_ok.mp h key' hmem

end Params

/-! ## Whole numbers -/

/-- A float's text: the digits of a whole number and `.0`. (Of another number, its
numerator and its denominator.) -/
def wholeRepr (x : ℚ) : PyStr :=
  JsonText.dumpsInt x.num ++
    CodePoint.ofChar '.' :: JsonText.dumpsNat (if x.den = 1 then 0 else x.den)

/-- The float of such a text. -/
def wholeRead (s : PyStr) : Option ℚ := do
  let n ← JsonText.readInt (s.takeWhile fun c => c != CodePoint.ofChar '.')
  let d ← JsonText.readNat (s.dropWhile fun c => c != CodePoint.ofChar '.').tail
  return if d = 0 then (n : ℚ) else (n : ℚ) / (d : ℚ)

theorem wholeRead_wholeRepr (x : ℚ) : wholeRead (wholeRepr x) = some x := by
  have hchars : ∀ c ∈ JsonText.dumpsInt x.num, (c != CodePoint.ofChar '.') = true := by
    intro c hc
    rcases JsonText.dumpsInt_chars x.num c hc with rfl | hd
    · decide
    · rw [bne_iff_ne]
      rintro rfl
      exact absurd hd (by decide)
  have htake : (wholeRepr x).takeWhile (fun c => c != CodePoint.ofChar '.') =
      JsonText.dumpsInt x.num := by
    unfold wholeRepr
    rw [List.takeWhile_append_of_pos hchars]
    exact List.append_nil _
  have hdrop : ((wholeRepr x).dropWhile fun c => c != CodePoint.ofChar '.').tail =
      JsonText.dumpsNat (if x.den = 1 then 0 else x.den) := by
    unfold wholeRepr
    rw [List.dropWhile_append_of_pos hchars]
    rfl
  unfold wholeRead
  rw [htake, hdrop, JsonText.readInt_dumpsInt, JsonText.readNat_dumpsNat]
  refine congrArg some ?_
  by_cases hden : x.den = 1
  · rw [if_pos hden, if_pos rfl]
    exact Rat.den_eq_one_iff x |>.mp hden
  · rw [if_neg hden, if_neg x.den_ne_zero]
    exact Rat.num_div_den x

/-- Python on whole numbers and ASCII. -/
def wholeText : PyText where
  repr := wholeRepr
  read := wholeRead
  repr_numeric := by
    intro x c hc
    rcases List.mem_append.mp hc with hc | hc
    · exact JsonText.dumpsInt_numeric x.num c hc
    · rcases List.mem_cons.mp hc with rfl | hc
      · decide
      · exact JsonText.isNumeric_of_isDigit (JsonText.dumpsNat_isDigit _ c hc)
  repr_float := by
    intro x
    refine List.any_eq_true.mpr ⟨CodePoint.ofChar '.', ?_, by decide⟩
    exact List.mem_append_right _ (List.mem_cons_self ..)
  read_repr := wholeRead_wholeRepr
  int := JsonText.readInt
  float := fun s => (JsonText.readInt s).map fun n => some (n : ℚ)
  floatOfInt := fun n => some (n : ℚ)
  isDigit := fun s => !s.isEmpty && s.all CodePoint.isDigit
  lower := fun s => s.map foldCase
  ofBytes := fun bytes =>
    if bytes.all fun b => decide (b < 128) then some (bytes.map CodePoint.ofNat) else none
  ofBytes_ascii := by
    intro s hs
    have hall : ((s.map Fin.val).all fun b => decide (b < 128)) = true := by
      refine List.all_eq_true.mpr fun b hb => ?_
      obtain ⟨c, hc, rfl⟩ := List.mem_map.mp hb
      exact decide_eq_true (of_decide_eq_true (hs c hc)).2
    rw [if_pos hall, List.map_map]
    exact congrArg some (ofNat_val_map s)

end LayaWatch
