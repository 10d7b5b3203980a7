import LayaWatch.JsonText
import LayaWatch.Lib.Pattern

/-!
# Redaction of captured payloads

`obs/redact.py`, from the patterns to `capture_value`. What Python knows of the
characters beyond ASCII is a parameter, `UnicodeText`; case is ignored as `re` does
it, where four letters beyond ASCII count as the ASCII letters they fold to. (`lower`
takes a character at a time: the final form of the capital sigma depends on its
neighbours, but no key pattern has a sigma.)

The scrubbing works on texts of anything that has a character, so that the texts of a
payload may carry marks.
-/

namespace LayaWatch

/-! ## Characters -/

namespace CodePoint

/-- An ASCII letter. -/
def isLetter (c : CodePoint) : Bool :=
  decide (65 ≤ c.val ∧ c.val ≤ 90 ∨ 97 ≤ c.val ∧ c.val ≤ 122)

/-- One of `[A-Za-z0-9]`. -/
def isLetterOrDigit (c : CodePoint) : Bool := c.isLetter || c.isDigit

/-- `unicodedata.category(c) == "Cc"`. -/
def isControl (c : CodePoint) : Bool := decide (c.val < 32 ∨ 127 ≤ c.val ∧ c.val < 160)

/-- The ASCII letter that `c` counts as when case is ignored, or `c`. -/
def fold (c : CodePoint) : CodePoint :=
  if 65 ≤ c.val ∧ c.val ≤ 90 then ofNat (c.val + 32)
  else if c.val = 0x130 ∨ c.val = 0x131 then ofChar 'i'
  else if c.val = 0x17F then ofChar 's'
  else if c.val = 0x212A then ofChar 'k'
  else c

/-- How many bytes `c` has in UTF-8. -/
def utf8Length (c : CodePoint) : ℕ :=
  if c.val < 0x80 then 1 else if c.val < 0x800 then 2 else if c.val < 0x10000 then 3 else 4

end CodePoint

/-- What Python knows of the characters beyond ASCII. -/
structure UnicodeText extends FloatText where
  /-- `\w` -/
  word : CodePoint → Bool
  /-- `\d` -/
  decimal : CodePoint → Bool
  /-- `c.isdigit()` -/
  digit : CodePoint → Bool
  /-- `c.lower()` -/
  lower : CodePoint → PyStr
  /-- the words of ASCII -/
  word_ascii : ∀ c : CodePoint, c.val < 128 →
    word c = (c.isLetterOrDigit || decide (c = .ofChar '_'))
  /-- `ſ` is a letter -/
  word_longS : word 0x17F = true
  /-- a control character is not alphanumeric -/
  word_control : ∀ c : CodePoint, c.isControl = true → word c = false
  /-- ASCII lowercases as it folds -/
  lower_ascii : ∀ c : CodePoint, c.val < 128 → lower c = [c.fold]

namespace Redact

open CodePoint Pattern

/-! ## The patterns -/

section

variable (U : UnicodeText)

/-- A character of a text. -/
abbrev TextPattern : Type := Pattern CodePoint

/-- A text, whatever the case. -/
def ignoringCase (text : String) : TextPattern :=
  (py text).foldr (fun c p => .seq (.one fun d => d.fold = c) p) .empty

/-- One of some texts. -/
def oneOf (texts : List TextPattern) : TextPattern :=
  match texts with
  | [] => .look fun _ _ => false
  | [p] => p
  | p :: rest => .alt p (oneOf rest)

/-- Whether there is a word character. -/
def inWord (c : Option CodePoint) : Bool := c.any U.word

/-- `\b`. -/
def boundary : TextPattern := .look fun prev next => inWord U prev != inWord U next

/-- `[A-Za-z0-9_-]`, whatever the case. -/
def isTokenChar (c : CodePoint) : Bool :=
  c.fold.isLetterOrDigit || c.fold = ofChar '_' || c.fold = ofChar '-'

/-- `[A-Za-z0-9._~+/=-]`, whatever the case. -/
def isBearerChar (c : CodePoint) : Bool :=
  c.fold.isLetterOrDigit || (py "._~+/=-").contains c.fold

/-- The prefixes of keys. -/
def keyPrefix : TextPattern :=
  oneOf [ignoringCase "lay", ignoringCase "orb_live", ignoringCase "tth_live", ignoringCase "sk",
    ignoringCase "pk", ignoringCase "rk", ignoringCase "ghp", ignoringCase "gho",
    ignoringCase "github_pat",
    .seq (ignoringCase "xox") (.one fun c => (py "abpr").contains c.fold)]

/-- A key with a prefix. -/
def prefixedKey : TextPattern :=
  .seq keyPrefix (.seq (.one fun c => c = ofChar '_' || c = ofChar '-') (.many 8 isTokenChar))

/-- A bearer token. -/
def bearer : TextPattern :=
  .seq (ignoringCase "bearer") (.seq (.many 1 isSpace) (.many 8 isBearerChar))

/-- A JSON web token. -/
def webToken : TextPattern :=
  .seq (ignoringCase "eyj") (.seq (.many 6 isTokenChar) (.seq (.one (· = ofChar '.'))
    (.seq (.many 6 isTokenChar) (.seq (.one (· = ofChar '.')) (.many 6 isTokenChar)))))

/-- `_CREDENTIAL`. -/
def credential : TextPattern :=
  .alt (.seq (boundary U) prefixedKey) (.alt (.seq (boundary U) bearer)
    (.seq (boundary U) webToken))

/-- `[A-Za-z0-9._%+-]`. -/
def isLocalChar (c : CodePoint) : Bool := c.isLetterOrDigit || (py "._%+-").contains c

/-- `[A-Za-z0-9-]`. -/
def isLabelChar (c : CodePoint) : Bool := c.isLetterOrDigit || c = ofChar '-'

/-- `_EMAIL`. -/
def email : TextPattern :=
  .seq (.many 1 isLocalChar) (.seq (.one (· = ofChar '@')) (.seq (.many 1 isLabelChar)
    (.seq (.star (.seq (.one (· = ofChar '.')) (.many 1 isLabelChar)))
      (.seq (.one (· = ofChar '.')) (.many 2 isLetter)))))

/-- `[\d ().-]`. -/
def isRunChar (c : CodePoint) : Bool := U.decimal c || (py " ().-").contains c

/-- `_NUMBER_RUN`. -/
def numberRun : TextPattern :=
  .seq (.look fun prev _ => !inWord U prev && !prev.any (· = ofChar '.'))
    (.seq (.alt (.one (· = ofChar '+')) .empty) (.seq (.one U.decimal)
      (.seq (.many 8 (isRunChar U)) (.seq (.one U.decimal)
        (.look fun _ next => !inWord U next)))))

/-! ## Scrubbing a text -/

/-- What stands for a credential. -/
def redactedCredential : PyStr := py "[redacted:credential]"

/-- What stands for an email address. -/
def redactedEmail : PyStr := py "[redacted:email]"

/-- What stands for a number. -/
def redactedNumber : PyStr := py "[redacted:number]"

section Marked

variable {α : Type} (code : α → CodePoint) (fresh : CodePoint → α)

/-- `_scrub_number`. -/
def scrubNumber (found : List α) : List α :=
  if 10 ≤ (found.filter fun a => U.digit (code a)).length then redactedNumber.map fresh else found

/-- `scrub_pii`, of a text with marks. -/
def scrubMarked (text : List α) : List α :=
  (numberRun U).sub code (scrubNumber U code fresh)
    (email.sub code (fun _ => redactedEmail.map fresh)
      ((credential U).sub code (fun _ => redactedCredential.map fresh) text))

end Marked

/-- `scrub_pii`. -/
def scrubPii (text : PyStr) : PyStr := scrubMarked U id id text

/-! ## Redacting a structure -/

/-- `REDACTED`. -/
def redacted : PyStr := py "[redacted]"

/-- `_NORMALIZED_KEYS`. -/
def normalizedKeys : List PyStr :=
  [py "password", py "token", py "secret", py "apikey", py "authorization", py "email", py "phone",
    py "ssn", py "card"]

/-- What is left of a character of a key. -/
def normalized (c : CodePoint) : PyStr :=
  (U.lower c).filter fun d => !(d = ofChar '_' || d = ofChar '-')

/-- `is_redacted_key`. -/
def isRedactedKey (key : PyStr) : Bool :=
  normalizedKeys.any fun pattern => decide (pattern <:+: key.flatMap (normalized U))

/-- `None`, a boolean or a number. -/
def isScalar : Json → Bool
  | .null | .bool _ | .int _ | .float _ => true
  | _ => false

mutual

/-- `redact_for_capture`. -/
def redactForCapture : Json → Json
  | .obj fields => .obj (redactMembers fields [])
  | .arr items => .arr (redactItems items)
  | .str s => .str (scrubPii U s)
  | value => value

/-- The items of an array. -/
def redactItems : List Json → List Json
  | [] => []
  | item :: rest => redactForCapture item :: redactItems rest

/-- The members of an object, into `out`. -/
def redactMembers : List (PyStr × Json) → Fields → Fields
  | [], out => out
  | (key, item) :: rest, out =>
    redactMembers rest (out.set (scrubPii U key)
      (if isRedactedKey U key && !isScalar item then .str redacted else redactForCapture item))

end

mutual

/-- `redact_structure`. -/
def redactStructure : Json → Json
  | .obj fields => .obj (redactStructureMembers fields [])
  | .arr items => .arr (redactStructureItems items)
  | value => value

/-- The items of an array, for `redact_structure`. -/
def redactStructureItems : List Json → List Json
  | [] => []
  | item :: rest => redactStructure item :: redactStructureItems rest

/-- The members of an object, for `redact_structure`. -/
def redactStructureMembers : List (PyStr × Json) → Fields → Fields
  | [], out => out
  | (key, item) :: rest, out =>
    redactStructureMembers rest
      (out.set key (if isRedactedKey U key then .str redacted else redactStructure item))

end

end

/-! ## Serializing -/

/-- A character inside a string, with `ensure_ascii=False`. -/
def escapeRaw (c : CodePoint) : PyStr :=
  match JsonText.letters.find? fun e => e.2 = c with
  | some e => [ofChar '\\', e.1]
  | none => if c.val < 32 then JsonText.escapeUnit c.val else [c]

/-- A string. -/
def dumpsRawStr (s : PyStr) : PyStr := ofChar '"' :: (s.flatMap escapeRaw ++ [ofChar '"'])

mutual

/-- `json.dumps(value, ensure_ascii=False)`. -/
def dumpsRaw (T : FloatText) : Json → PyStr
  | .null => py "null"
  | .bool true => py "true"
  | .bool false => py "false"
  | .int n => JsonText.dumpsInt n
  | .float x => T.repr x
  | .str s => dumpsRawStr s
  | .arr items => ofChar '[' :: (dumpsRawItems T items ++ [ofChar ']'])
  | .obj fields => ofChar '{' :: (dumpsRawMembers T fields ++ [ofChar '}'])

/-- The items of an array. -/
def dumpsRawItems (T : FloatText) : List Json → PyStr
  | [] => []
  | [v] => dumpsRaw T v
  | v :: rest => dumpsRaw T v ++ (py ", " ++ dumpsRawItems T rest)

/-- The members of an object. -/
def dumpsRawMembers (T : FloatText) : List (PyStr × Json) → PyStr
  | [] => []
  | [(k, v)] => dumpsRawStr k ++ (py ": " ++ dumpsRaw T v)
  | (k, v) :: rest =>
    dumpsRawStr k ++ (py ": " ++ (dumpsRaw T v ++ (py ", " ++ dumpsRawMembers T rest)))

end

/-! ## Storing -/

/-- How `capture_value` fails. -/
inductive CaptureError where
  /-- `ValueError` -/
  | value
  /-- `UnicodeEncodeError` -/
  | unicodeEncode
  deriving DecidableEq, Repr

/-- A character that `scrub_text` keeps. -/
def isKept (c : CodePoint) : Bool := c = ofChar '\n' || c = ofChar '\t' || !c.isControl

/-- The characters whose bytes are whole in the first `room` bytes. -/
def wholeChars {α : Type} (code : α → CodePoint) : ℕ → List α → List α
  | _, [] => []
  | room, a :: text =>
    if (code a).utf8Length ≤ room then a :: wholeChars code (room - (code a).utf8Length) text
    else []

/-- `scrub_text`. -/
def scrubText (s : PyStr) (maxBytes : ℤ) : Except CaptureError PyStr :=
  if maxBytes < 0 then .error .value
  else
    let cleaned := s.filter isKept
    if PyStr.encodable cleaned then .ok (wholeChars id maxBytes.toNat cleaned)
    else .error .unicodeEncode

/-- `capture_value`. -/
def captureValue (U : UnicodeText) (value : Json) (enabled : Bool) (maxBytes : ℤ) :
    Except CaptureError (Option PyStr) :=
  if enabled then
    (scrubText (dumpsRaw U.toFloatText (redactForCapture U value)) maxBytes).map some
  else .ok none

end Redact

end LayaWatch
