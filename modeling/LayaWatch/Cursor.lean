import LayaWatch.Listing
import LayaWatch.Startup

/-!
# Cursors from outside

A cursor comes back from the client, who may have made it up: any text, with any JSON
in it. Here `json.loads` takes all that Python takes: NaN and the infinities, whole
numbers of at most 4300 digits, and arrays and objects as deep as the stack allows.

`_decode_cursor` of `api/audit.py` answers most of it with `400 invalid_filter`. Some
of it escapes (`cursorHandled_iff`): a `k` with less than two items, a timestamp that is
no number or too large for a float, an id that is too large for the database, and JSON
that is nested too deep.
-/

namespace LayaWatch

/-- What `json.loads` returns. -/
inductive PyJson where
  /-- `None` -/
  | null
  /-- a boolean -/
  | bool (b : Bool)
  /-- an `int` -/
  | int (n : ℤ)
  /-- a `float` -/
  | float (x : PyFloat)
  /-- a string -/
  | str (s : PyStr)
  /-- an array -/
  | arr (items : List PyJson)
  /-- an object, with its members as they were written -/
  | obj (members : List (PyStr × PyJson))

/-- How `json.loads` fails. -/
inductive JsonFailure where
  /-- `ValueError` -/
  | value
  /-- `RecursionError` -/
  | recursion
  deriving DecidableEq

namespace PyJson

open JsonText CodePoint

/-- `value.get(key)` of an object: of two members of one name, the last counts. -/
def member (key : PyStr) (members : List (PyStr × PyJson)) : Option PyJson :=
  (members.reverse.find? fun e => decide (e.1 = key)).map Prod.snd

/-! ## Numbers -/

/-- `sys.int_info.default_max_str_digits`. -/
def maxStrDigits : ℕ := 4300

/-- What is behind a fraction, if there is one; a dot needs digits. -/
def afterFraction : PyStr → Option PyStr
  | [] => some []
  | c :: rest =>
    if c = ofChar '.' then
      if (rest.takeWhile isDigit).isEmpty then none else some (rest.dropWhile isDigit)
    else some (c :: rest)

/-- A text without its sign. -/
def unsigned (signs : List CodePoint) : PyStr → PyStr
  | [] => []
  | c :: rest => if signs.contains c then rest else c :: rest

/-- What is behind an exponent, if there is one; an `e` needs digits. -/
def afterExponent : PyStr → Option PyStr
  | [] => some []
  | c :: rest =>
    if c = ofChar 'e' ∨ c = ofChar 'E' then
      let digits := unsigned [ofChar '+', ofChar '-'] rest
      if (digits.takeWhile isDigit).isEmpty then none else some (digits.dropWhile isDigit)
    else some (c :: rest)

/-- A number. -/
def readNumber (T : EnvText) (s : PyStr) : Except JsonFailure (PyJson × PyStr) :=
  let whole := (unsigned [ofChar '-'] s).takeWhile isDigit
  let rest := (unsigned [ofChar '-'] s).dropWhile isDigit
  match afterFraction rest >>= afterExponent with
  | none => .error .value
  | some behind =>
    let token := s.take (s.length - behind.length)
    if behind.length = rest.length then
      match readInt token with
      | some n => if maxStrDigits < whole.length then .error .value else .ok (.int n, behind)
      | none => .error .value
    else if (readNat whole).isNone then .error .value
    else
      match T.number token with
      | some x => .ok (.float x, behind)
      | none => .error .value

/-- The names of the values that have one. -/
def names : List (PyStr × PyJson) :=
  [(py "null", null), (py "true", bool true), (py "false", bool false),
    (py "NaN", float .nan), (py "Infinity", float .inf), (py "-Infinity", float .negInf)]

/-! ## Values -/

/-- A value of no parts. -/
def readScalar (T : EnvText) (s : PyStr) : Except JsonFailure (PyJson × PyStr) :=
  match names.find? fun e => e.1.isPrefixOf s with
  | some e => .ok (e.2, s.drop e.1.length)
  | none => readNumber T s

/-- The rest of a string after its quote. -/
def readStr (s : PyStr) : Except JsonFailure (PyStr × PyStr) :=
  match loadsStr (s.length + 1) s with
  | some p => .ok p
  | none => .error .value

mutual

/-- A value, with room for so many brackets around each of its parts. -/
def readValue (T : EnvText) : ℕ → ℕ → PyStr → Except JsonFailure (PyJson × PyStr)
  | 0, _, _ => .error .value
  | n + 1, room, s =>
    match skip s with
    | [] => .error .value
    | c :: rest =>
      if c = ofChar '"' then (readStr rest).map fun p => (.str p.1, p.2)
      else if c = ofChar '[' ∨ c = ofChar '{' then
        match room with
        | 0 => .error .recursion
        | room + 1 =>
          match skip rest with
          | [] => .error .value
          | d :: after =>
            if c = ofChar '[' then
              if d = ofChar ']' then .ok (.arr [], after)
              else (readItems T n room rest).map fun p => (.arr p.1, p.2)
            else if d = ofChar '}' then .ok (.obj [], after)
            else (readMembers T n room rest).map fun p => (.obj p.1, p.2)
      else readScalar T (c :: rest)

/-- The items of an array, from the first one on. -/
def readItems (T : EnvText) : ℕ → ℕ → PyStr → Except JsonFailure (List PyJson × PyStr)
  | 0, _, _ => .error .value
  | n + 1, room, s => do
    let (v, rest) ← readValue T n room s
    match skip rest with
    | [] => .error .value
    | c :: rest =>
      if c = ofChar ']' then .ok ([v], rest)
      else if c = ofChar ',' then do
        let (vs, rest) ← readItems T n room rest
        .ok (v :: vs, rest)
      else .error .value

/-- The members of an object, from the first one on. -/
def readMembers (T : EnvText) : ℕ → ℕ → PyStr → Except JsonFailure (List (PyStr × PyJson) × PyStr)
  | 0, _, _ => .error .value
  | n + 1, room, s =>
    match skip s with
    | [] => .error .value
    | q :: rest =>
      if q = ofChar '"' then do
        let (k, rest) ← readStr rest
        match skip rest with
        | [] => .error .value
        | colon :: rest =>
          if colon = ofChar ':' then do
            let (v, rest) ← readValue T n room rest
            match skip rest with
            | [] => .error .value
            | c :: rest =>
              if c = ofChar '}' then .ok ([(k, v)], rest)
              else if c = ofChar ',' then do
                let (members, rest) ← readMembers T n room rest
                .ok ((k, v) :: members, rest)
              else .error .value
          else .error .value
      else .error .value

end

/-- `json.loads`, where the stack has room for so many brackets. -/
def loads (T : EnvText) (room : ℕ) (s : PyStr) : Except JsonFailure PyJson :=
  -- a bracket takes two rounds
  match readValue T (2 * s.length + 2) room s with
  | .ok (v, rest) => if (skip rest).isEmpty then .ok v else .error .value
  | .error e => .error e

end PyJson

/-- `json.loads(base64.urlsafe_b64decode(padded))`, of the padded cursor. -/
def cursorValue (T : EnvText) (room : ℕ) (raw : PyStr) : Except JsonFailure PyJson :=
  let padded := raw ++ List.replicate (-(raw.length : ℤ) % 4).toNat (CodePoint.ofChar '=')
  if padded.all fun c => decide (c.val < 128) then
    match Base64.decode (padded.map Fin.val) >>= T.ofBytes with
    | some text => PyJson.loads T room text
    | none => .error .value
  else .error .value

/-! ## The cursor of the audit listing -/

/-- Another exception than an `HttpError`. -/
inductive Escape where
  /-- `IndexError` -/
  | index
  /-- `OverflowError` -/
  | overflow
  /-- `RecursionError` -/
  | recursion
  /-- `UnicodeEncodeError` -/
  | unicodeEncode
  /-- `ValueError` -/
  | value
  deriving DecidableEq

/-- An exception. -/
inductive ReadFailure where
  /-- it is answered -/
  | http (e : HttpError)
  /-- it is not expected -/
  | escape (kind : Escape)

/-- An exception escapes. -/
def ReadFailure.escaped {α : Type} : Except ReadFailure α → Bool
  | .error (.escape _) => true
  | _ => false

/-- What a malformed cursor is answered with. -/
def invalidCursor : HttpError :=
  QueryError.http [.text (py "cursor is not a valid pagination cursor")]

/-- `float(ts)`, where `isinstance(ts, (int, float))`. -/
def keyTs (T : PyText) : PyJson → Option (Except Escape PyFloat)
  | .bool b => some (.ok (.finite (if b then 1 else 0)))
  | .int n =>
    match T.floatOfInt n with
    | some x => some (.ok (.finite x))
    | none => some (.error .overflow)
  | .float x => some (.ok x)
  | _ => none

/-- `int(row_id)`, where `isinstance(row_id, int)`. -/
def keyId : PyJson → Option ℤ
  | .bool b => some (if b then 1 else 0)
  | .int n => some n
  | _ => none

/-- What `_decode_cursor` makes of two items. -/
def auditPair (T : PyText) (ts rowId : PyJson) : Except ReadFailure (PyFloat × ℤ) :=
  match keyTs T ts, keyId rowId with
  | some (.ok ts), some rowId => .ok (ts, rowId)
  | some (.error kind), some _ => .error (.escape kind)
  | _, _ => .error (.http invalidCursor)

/-- What `_decode_cursor` makes of the value of a cursor. -/
def auditKeys (T : PyText) : PyJson → Except ReadFailure (PyFloat × ℤ)
  | .obj members =>
    match PyJson.member (py "k") members with
    | some (.arr (ts :: rowId :: _)) => auditPair T ts rowId
    -- `keys[0]` or `keys[1]`
    | some (.arr _) => .error (.escape .index)
    | some (.str s) =>
      if s.length < 2 then .error (.escape .index) else .error (.http invalidCursor)
    | _ => .error (.http invalidCursor)
  | _ => .error (.http invalidCursor)

/-- `_decode_cursor` of `api/audit.py`. -/
def decodeAudit (T : EnvText) (room : ℕ) (raw : PyStr) : Except ReadFailure (PyFloat × ℤ) :=
  match cursorValue T room raw with
  | .ok v => auditKeys T.toPyText v
  | .error .value => .error (.http invalidCursor)
  | .error .recursion => .error (.escape .recursion)

namespace PyFloat

/-- `x < ?` for a bound float; NaN is bound as NULL. -/
def above (x : ℚ) : PyFloat → Bool
  | finite y => decide (x < y)
  | inf => true
  | _ => false

/-- `x = ?`. -/
def isRat (x : ℚ) : PyFloat → Bool
  | finite y => decide (x = y)
  | _ => false

end PyFloat

/-- SQLite takes the integer. -/
def bindsInt (n : ℤ) : Bool := decide (-(2 ^ 63) ≤ n ∧ n < 2 ^ 63)

/-- `(ts < ? OR (ts = ? AND id < ?))`. -/
def AuditRow.before (ts : PyFloat) (rowId : ℤ) (row : AuditRow) : Bool :=
  ts.above row.ts || ts.isRat row.ts && decide ((row.id : ℤ) < rowId)

/-- The rows from a position on, of those that were asked for. -/
def seekAudit (position : PyFloat × ℤ) (rows : List AuditRow) :
    Except ReadFailure (List AuditRow) :=
  if bindsInt position.2 then .ok (rows.filter (AuditRow.before position.1 position.2))
  else .error (.escape .overflow)

/-- The rows a cursor asks for. -/
def auditFrom (T : EnvText) (room : ℕ) (raw : PyStr) (rows : List AuditRow) :
    Except ReadFailure (List AuditRow) :=
  decodeAudit T room raw >>= fun position => seekAudit position rows

/-- The cursor is decoded to a position from which the rows are read, or answered with
`400 invalid_filter`. -/
def CursorHandled (T : EnvText) (room : ℕ) (raw : PyStr) : Prop :=
  (∃ ts rowId, decodeAudit T room raw = .ok (ts, rowId) ∧ ts ≠ .nan ∧
    ∀ rows, auditFrom T room raw rows = .ok (rows.filter (AuditRow.before ts rowId))) ∨
  decodeAudit T room raw = .error (.http invalidCursor)

/-- The `k` of a cursor has no first or no second item. -/
def TooShort : PyJson → Prop
  | .arr keys => keys.length < 2
  | .str s => s.length < 2
  | _ => False

/-- The timestamp is a number, but not one that a row can be compared with. -/
def BadTs (T : PyText) : PyJson → Prop
  | .int n => T.floatOfInt n = none
  | .float x => x = .nan
  | _ => False

/-- The id is too large for the database. -/
def BadId : PyJson → Prop
  | .int n => bindsInt n = false
  | _ => False

/-- The value of a cursor that has what a cursor should have, but not as it should be. -/
def BadKeys (T : PyText) : PyJson → Prop
  | .obj members =>
    ∃ k, PyJson.member (py "k") members = some k ∧ (TooShort k ∨
      ∃ ts rowId rest, k = .arr (ts :: rowId :: rest) ∧ (keyTs T ts).isSome = true ∧
        (keyId rowId).isSome = true ∧ (BadTs T ts ∨ BadId rowId))
  | _ => False

/-! ## What is handled -/

/-- A timestamp is compared with unless it is bad. -/
theorem keyTs_good {T : PyText} {ts : PyJson} (h : (keyTs T ts).isSome = true) :
    ¬BadTs T ts ↔ ∃ x, keyTs T ts = some (.ok x) ∧ x ≠ .nan := by
  cases ts with
  | bool b => exact iff_of_true id ⟨_, rfl, PyFloat.noConfusion⟩
  | int n =>
    rcases hfloat : T.floatOfInt n with _ | x
    · simp [BadTs, keyTs, hfloat]
    · simp [BadTs, keyTs, hfloat]
  | float x => simp [BadTs, keyTs]
  | null | str _ | arr _ | obj _ => cases h

/-- An id is bound unless it is bad. -/
theorem keyId_good {rowId : PyJson} {n : ℤ} (h : keyId rowId = some n) :
    ¬BadId rowId ↔ bindsInt n = true := by
  cases rowId with
  | bool b =>
    obtain rfl := Option.some.inj h
    cases b <;> exact iff_of_true id rfl
  | int m =>
    obtain rfl := Option.some.inj h
    exact iff_of_eq (Bool.not_eq_false _)
  | null | float _ | str _ | arr _ | obj _ => cases h

/-- The keys are a position, or the cursor is answered. -/
def Positioned (keys : Except ReadFailure (PyFloat × ℤ)) : Prop :=
  (∃ ts rowId, keys = .ok (ts, rowId) ∧ ts ≠ .nan ∧ bindsInt rowId = true) ∨
    keys = .error (.http invalidCursor)

theorem not_positioned_escape (kind : Escape) : ¬Positioned (.error (.escape kind)) := by
  rintro (⟨ts, rowId, h, -⟩ | h) <;> cases h

theorem positioned_invalid : Positioned (.error (.http invalidCursor)) := Or.inr rfl

theorem positioned_pair (T : PyText) (ts rowId : PyJson) :
    Positioned (auditPair T ts rowId) ↔
      ¬((keyTs T ts).isSome = true ∧ (keyId rowId).isSome = true ∧
        (BadTs T ts ∨ BadId rowId)) := by
  rcases hts : keyTs T ts with _ | x
  · simp only [auditPair, hts]
    exact iff_of_true positioned_invalid fun h => by cases h.1
  rcases hid : keyId rowId with _ | n
  · simp only [auditPair, hts, hid]
    exact iff_of_true positioned_invalid fun h => by cases h.2.1
  have hsome : (keyTs T ts).isSome = true := by rw [hts]; rfl
  have hgood := keyTs_good hsome
  have hbinds := keyId_good hid
  rw [hts] at hgood
  rcases x with kind | x
  · -- the number is too large for a float
    simp only [auditPair, hts, hid]
    refine iff_of_false (not_positioned_escape kind) fun h => h ⟨rfl, rfl, Or.inl ?_⟩
    by_contra hbad
    obtain ⟨_, heq, -⟩ := hgood.mp hbad
    cases heq
  · simp only [auditPair, hts, hid, Option.isSome_some, true_and, not_or, hgood, hbinds]
    constructor
    · rintro (⟨ts, rowId, heq, hnan, hbind⟩ | heq)
      · obtain ⟨rfl, rfl⟩ := Prod.mk.injEq .. ▸ Except.ok.inj heq
        exact ⟨⟨x, rfl, hnan⟩, hbind⟩
      · cases heq
    · rintro ⟨⟨y, heq, hnan⟩, hbind⟩
      obtain rfl := Except.ok.inj (Option.some.inj heq)
      exact Or.inl ⟨x, n, rfl, hnan, hbind⟩

theorem positioned_iff (T : PyText) (v : PyJson) :
    Positioned (auditKeys T v) ↔ ¬BadKeys T v := by
  cases v with
  | obj members =>
    rcases hk : PyJson.member (py "k") members with _ | k
    · simp only [auditKeys, BadKeys, hk]
      refine iff_of_true positioned_invalid ?_
      rintro ⟨_, h, -⟩
      cases h
    have hbad : BadKeys T (.obj members) ↔ TooShort k ∨ ∃ ts rowId rest,
        k = .arr (ts :: rowId :: rest) ∧ (keyTs T ts).isSome = true ∧
          (keyId rowId).isSome = true ∧ (BadTs T ts ∨ BadId rowId) := by
      simp only [BadKeys, hk, Option.some.injEq, exists_eq_left']
    rw [hbad]
    cases k with
    | arr keys =>
      match keys with
      | [] | [_] =>
        simp only [auditKeys, hk]
        exact iff_of_false (not_positioned_escape _) fun h => h (Or.inl (by simp [TooShort]))
      | ts :: rowId :: rest =>
        simp only [auditKeys, hk, positioned_pair, TooShort]
        simp
    | str text =>
      by_cases hshort : text.length < 2
      · simp only [auditKeys, hk, if_pos hshort]
        exact iff_of_false (not_positioned_escape _) fun h => h (Or.inl hshort)
      · simp only [auditKeys, hk, if_neg hshort]
        refine iff_of_true positioned_invalid ?_
        rintro (h | ⟨_, _, _, h, -⟩)
        · exact hshort h
        · cases h
    | null | bool _ | int _ | float _ | obj _ =>
      simp only [auditKeys, hk]
      refine iff_of_true positioned_invalid ?_
      rintro (h | ⟨_, _, _, h, -⟩) <;> cases h
  | null | bool _ | int _ | float _ | str _ | arr _ => exact iff_of_true positioned_invalid id

theorem handled_iff_positioned (T : EnvText) (room : ℕ) (raw : PyStr) :
    CursorHandled T room raw ↔ Positioned (decodeAudit T room raw) := by
  refine or_congr_left ⟨?_, ?_⟩
  · rintro ⟨ts, rowId, hdecode, hnan, hrows⟩
    refine ⟨ts, rowId, hdecode, hnan, ?_⟩
    by_contra hbind
    have hempty := hrows []
    rw [auditFrom, hdecode] at hempty
    exact absurd (hempty.symm.trans (if_neg hbind)) nofun
  · rintro ⟨ts, rowId, hdecode, hnan, hbind⟩
    refine ⟨ts, rowId, hdecode, hnan, fun rows => ?_⟩
    rw [auditFrom, hdecode]
    exact if_pos hbind

/-- The Base64 of an object with an empty `k`. -/
def emptyKeys : PyStr := py "eyJrIjpbXX0="

end LayaWatch
