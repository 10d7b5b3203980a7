import LayaWatch.Redact
import LayaWatch.Query

/-!
# Do captured payloads leak?

The text that `capture_value` stores, with marks: a character is `raw` when it is a
character of an input string as it was, and `hidden` when it belongs to a string or a
container under a key that reads as a redacted one in the stored text (`captured`).
Without its marks it is what the code stores (`captured_code`).

The stages do not fit together. Characters that are stripped at the end are there while
the patterns are matched, so that stripping joins an address or a key name; a key with an
address is stored as `[redacted:email]`, which is the name of a redacted key, beside its
value; and the replacement of an address makes a word boundary. Where none of these
occurs (`Careful`), nothing leaks.
-/

namespace LayaWatch

namespace Redact

open CodePoint Pattern

/-! ## Marks -/

/-- A character, and whether it is one of an input string. -/
abbrev MarkedChar : Type := CodePoint × Bool

/-- A redacted structure whose texts are marked. -/
inductive MarkedJson where
  /-- `None`, a boolean or a number, as it is written -/
  | scalar (text : PyStr)
  /-- a string -/
  | str (s : List MarkedChar)
  /-- an array -/
  | arr (items : List MarkedJson)
  /-- an object -/
  | obj (members : List (List MarkedChar × MarkedJson))

/-- A scalar. -/
def MarkedJson.isScalar : MarkedJson → Bool
  | .scalar _ => true
  | _ => false

/-- A character of the stored text. -/
structure StoredChar where
  /-- the character -/
  code : CodePoint
  /-- a character of an input string, as it was -/
  raw : Bool
  /-- part of what a redacted key is for -/
  hidden : Bool
  deriving DecidableEq

section

variable (U : UnicodeText)

/-- The text of a string, scrubbed. -/
def scrubbed (s : PyStr) : List MarkedChar := scrubMarked U Prod.fst (·, false) (s.map (·, true))

/-- `out[key] = value`. -/
def setMember (key : List MarkedChar) (value : MarkedJson) :
    List (List MarkedChar × MarkedJson) → List (List MarkedChar × MarkedJson)
  | [] => [(key, value)]
  | (k, v) :: rest =>
    if k.map Prod.fst = key.map Prod.fst then (k, value) :: rest
    else (k, v) :: setMember key value rest

mutual

/-- `redact_for_capture`, with marks. -/
def redactMarked : Json → MarkedJson
  | .obj fields => .obj (redactMarkedMembers fields [])
  | .arr items => .arr (redactMarkedItems items)
  | .str s => .str (scrubbed U s)
  | value => .scalar (dumpsRaw U.toFloatText value)

/-- The items of an array. -/
def redactMarkedItems : List Json → List MarkedJson
  | [] => []
  | item :: rest => redactMarked item :: redactMarkedItems rest

/-- The members of an object, into `out`. -/
def redactMarkedMembers : List (PyStr × Json) → List (List MarkedChar × MarkedJson) →
    List (List MarkedChar × MarkedJson)
  | [], out => out
  | (key, item) :: rest, out =>
    redactMarkedMembers rest (setMember (scrubbed U key)
      (if isRedactedKey U key && !isScalar item then .str (redacted.map (·, false))
        else redactMarked item) out)

end

/-- A character that stays in a stored text: as it is, or escaped. -/
def isStored (c : CodePoint) : Bool := !decide (127 ≤ c.val ∧ c.val < 160)

/-- A text as it is read from what is stored. -/
def readBack (s : PyStr) : PyStr := s.filter isStored

/-- The text of a character inside a string. -/
def storedChar (hidden : Bool) (a : MarkedChar) : List StoredChar :=
  (escapeRaw a.1).map fun c => ⟨c, a.2 && decide (escapeRaw a.1 = [a.1]), hidden && a.2⟩

/-- Text that is no string of the input. -/
def syntaxText (hidden : Bool) (text : PyStr) : List StoredChar := text.map (⟨·, false, hidden⟩)

/-- The text of a string. -/
def storedStr (hidden : Bool) (s : List MarkedChar) : List StoredChar :=
  syntaxText false (py "\"") ++ (s.flatMap (storedChar hidden) ++ syntaxText false (py "\""))

mutual

/-- The text of a structure. -/
def stored (hidden : Bool) : MarkedJson → List StoredChar
  | .scalar text => syntaxText hidden text
  | .str s => storedStr hidden s
  | .arr items => syntaxText hidden (py "[") ++ (storedItems hidden items ++
      syntaxText hidden (py "]"))
  | .obj members => syntaxText hidden (py "\x7b") ++ (storedMembers hidden members ++
      syntaxText hidden (py "\x7d"))

/-- The items of an array. -/
def storedItems (hidden : Bool) : List MarkedJson → List StoredChar
  | [] => []
  | [v] => stored hidden v
  | v :: rest => stored hidden v ++ (syntaxText hidden (py ", ") ++ storedItems hidden rest)

/-- The members of an object: what is under a redacted key is hidden, scalars aside. -/
def storedMembers (hidden : Bool) : List (List MarkedChar × MarkedJson) → List StoredChar
  | [] => []
  | [(k, v)] => storedStr hidden k ++ (syntaxText hidden (py ": ") ++
      stored (hidden || isRedactedKey U (readBack (k.map Prod.fst)) && !v.isScalar) v)
  | (k, v) :: rest => storedStr hidden k ++ (syntaxText hidden (py ": ") ++
      (stored (hidden || isRedactedKey U (readBack (k.map Prod.fst)) && !v.isScalar) v ++
        (syntaxText hidden (py ", ") ++ storedMembers hidden rest)))

end

/-- What `capture_value` stores, with marks. -/
def captured (value : Json) (maxBytes : ℤ) : List StoredChar :=
  wholeChars StoredChar.code maxBytes.toNat
    ((stored U false (redactMarked U value)).filter fun a => isKept a.code)

end

/-! ## Without the marks -/

section

variable {U : UnicodeText}

theorem map_scrubMarked {α : Type} {code : α → CodePoint} {fresh : CodePoint → α}
    (hfresh : ∀ c, code (fresh c) = c) (text : List α) :
    (scrubMarked U code fresh text).map code = scrubPii U (text.map code) := by
  have hconst : ∀ (s : PyStr), (s.map fresh).map code = s.map id := by
    intro s
    rw [List.map_map]
    exact List.map_congr_left fun c _ => hfresh c
  have hnumber : ∀ found : List α, (scrubNumber U code fresh found).map code =
      scrubNumber U id id (found.map code) := by
    intro found
    unfold scrubNumber
    rw [List.filter_map, List.length_map]
    split
    · rw [if_pos (by assumption)]
      exact hconst redactedNumber
    · rw [if_neg (by assumption)]
  unfold scrubPii scrubMarked
  rw [code_sub _ hnumber, code_sub (fun _ => redactedEmail.map id) fun _ => hconst redactedEmail,
    code_sub (fun _ => redactedCredential.map id) fun _ => hconst redactedCredential]

theorem code_scrubbed (s : PyStr) : (scrubbed U s).map Prod.fst = scrubPii U s := by
  unfold scrubbed
  rw [map_scrubMarked fun _ => rfl, List.map_map]
  exact congrArg (scrubPii U) (List.map_id s)

theorem code_syntaxText (hidden : Bool) (text : PyStr) :
    (syntaxText hidden text).map StoredChar.code = text := by
  unfold syntaxText
  rw [List.map_map]
  exact List.map_id text

theorem code_storedChar (hidden : Bool) (a : MarkedChar) :
    (storedChar hidden a).map StoredChar.code = escapeRaw a.1 := by
  unfold storedChar
  rw [List.map_map]
  exact List.map_id _

theorem code_storedStr (hidden : Bool) (s : List MarkedChar) :
    (storedStr hidden s).map StoredChar.code = dumpsRawStr (s.map Prod.fst) := by
  have hbody : (s.flatMap (storedChar hidden)).map StoredChar.code =
      (s.map Prod.fst).flatMap escapeRaw := by
    rw [List.map_flatMap, List.flatMap_map]
    exact List.flatMap_congr fun a _ => code_storedChar hidden a
  unfold storedStr dumpsRawStr
  rw [List.map_append, List.map_append, code_syntaxText, hbody]
  rfl

/-- A marked structure is written as the value. -/
def Writes (U : UnicodeText) (d : MarkedJson) (v : Json) : Prop :=
  ∀ hidden, (stored U hidden d).map StoredChar.code = dumpsRaw U.toFloatText v

/-- A marked member is written as the field. -/
def WritesMember (U : UnicodeText) (a : List MarkedChar × MarkedJson) (b : PyStr × Json) : Prop :=
  a.1.map Prod.fst = b.1 ∧ Writes U a.2 b.2

theorem code_storedItems {items : List MarkedJson} {values : List Json}
    (h : List.Forall₂ (Writes U) items values) (hidden : Bool) :
    (storedItems U hidden items).map StoredChar.code = dumpsRawItems U.toFloatText values := by
  induction h with
  | nil => rfl
  | cons hv hrest ih =>
    cases hrest with
    | nil => exact hv hidden
    | cons hv' hrest' =>
      rw [storedItems, dumpsRawItems, List.map_append, List.map_append, hv, code_syntaxText, ih]
      · exact fun h => by cases h
      · exact fun h => by cases h

theorem code_storedMembers {members : List (List MarkedChar × MarkedJson)} {fields : Fields}
    (h : List.Forall₂ (WritesMember U) members fields) (hidden : Bool) :
    (storedMembers U hidden members).map StoredChar.code =
      dumpsRawMembers U.toFloatText fields := by
  induction h with
  | nil => rfl
  | @cons a b _ _ hab hrest ih =>
    obtain ⟨k, d⟩ := a
    obtain ⟨key, v⟩ := b
    obtain ⟨rfl, hv⟩ := hab
    cases hrest with
    | nil =>
      rw [storedMembers, dumpsRawMembers, List.map_append, List.map_append, code_storedStr,
        code_syntaxText, hv]
    | cons hab' hrest' =>
      rw [storedMembers, dumpsRawMembers, List.map_append, List.map_append, List.map_append,
        List.map_append, code_storedStr, code_syntaxText, code_syntaxText, hv, ih]
      · exact fun h => by cases h
      · exact fun h => by cases h

theorem writes_set {members : List (List MarkedChar × MarkedJson)} {fields : Fields}
    (h : List.Forall₂ (WritesMember U) members fields) {k : List MarkedChar} {d : MarkedJson}
    {key : PyStr} {v : Json} (hnew : WritesMember U (k, d) (key, v)) :
    List.Forall₂ (WritesMember U) (setMember k d members) (fields.set key v) := by
  induction h with
  | nil => exact .cons hnew .nil
  | @cons a b _ _ hab hrest ih =>
    obtain ⟨k', d'⟩ := a
    obtain ⟨key', v'⟩ := b
    obtain ⟨hkey, hvalue⟩ := hnew
    obtain ⟨hkey', hvalue'⟩ := hab
    obtain rfl : k.map Prod.fst = key := hkey
    obtain rfl : k'.map Prod.fst = key' := hkey'
    unfold setMember Fields.set
    split
    next heq => exact .cons ⟨heq, hvalue⟩ hrest
    next => exact .cons ⟨rfl, hvalue'⟩ ih

mutual

theorem writes_redactMarked : ∀ value : Json,
    Writes U (redactMarked U value) (redactForCapture U value)
  | .null => fun hidden => code_syntaxText hidden _
  | .bool _ => fun hidden => code_syntaxText hidden _
  | .int _ => fun hidden => code_syntaxText hidden _
  | .float _ => fun hidden => code_syntaxText hidden _
  | .str s => fun hidden => by
    rw [redactMarked, redactForCapture, stored, code_storedStr, code_scrubbed]
    rfl
  | .arr items => fun hidden => by
    rw [redactMarked, redactForCapture, stored, List.map_append, List.map_append,
      code_syntaxText, code_syntaxText, code_storedItems (writes_items items)]
    rfl
  | .obj fields => fun hidden => by
    rw [redactMarked, redactForCapture, stored, List.map_append, List.map_append,
      code_syntaxText, code_syntaxText, code_storedMembers (writes_members fields .nil)]
    rfl

theorem writes_items : ∀ items : List Json,
    List.Forall₂ (Writes U) (redactMarkedItems U items) (redactItems U items)
  | [] => .nil
  | item :: rest => .cons (writes_redactMarked item) (writes_items rest)

theorem writes_members : ∀ (members : List (PyStr × Json))
    {out : List (List MarkedChar × MarkedJson)} {fields : Fields},
    List.Forall₂ (WritesMember U) out fields →
      List.Forall₂ (WritesMember U) (redactMarkedMembers U members out)
        (redactMembers U members fields)
  | [], _, _, h => h
  | (key, item) :: rest, _, _, h => by
    refine writes_members rest (writes_set h ⟨code_scrubbed key, ?_⟩)
    dsimp only
    split
    · intro hidden
      rw [stored, code_storedStr, List.map_map]
      exact congrArg dumpsRawStr (List.map_id redacted)
    · exact writes_redactMarked item

end

theorem code_wholeChars {α : Type} (code : α → CodePoint) (text : List α) : ∀ room : ℕ,
    (wholeChars code room text).map code = wholeChars id room (text.map code) := by
  induction text with
  | nil => exact fun _ => rfl
  | cons a text ih =>
    intro room
    rw [List.map_cons, wholeChars, wholeChars]
    by_cases hroom : (code a).utf8Length ≤ room
    · rw [if_pos hroom, if_pos (show (id (code a)).utf8Length ≤ room from hroom), List.map_cons, ih]
      rfl
    · rw [if_neg hroom, if_neg (show ¬(id (code a)).utf8Length ≤ room from hroom), List.map_nil]

/-- Without its marks, the captured text is what is stored. -/
theorem captured_code {value : Json} {maxBytes : ℤ} {out : PyStr}
    (h : captureValue U value true maxBytes = .ok (some out)) :
    (captured U value maxBytes).map StoredChar.code = out := by
  unfold captureValue scrubText at h
  have hfilter : ∀ text : List StoredChar, (text.filter fun a => isKept a.code).map
      StoredChar.code = (text.map StoredChar.code).filter isKept := by
    intro text
    rw [List.filter_map]
    rfl
  unfold captured
  rw [code_wholeChars, hfilter, writes_redactMarked]
  rw [if_pos rfl] at h
  split at h
  · cases h
  · dsimp only at h
    split at h
    · exact Option.some.inj (Except.ok.inj h)
    · cases h

/-! ## What the patterns match -/

/-- A character that a credential may start with. -/
def StartsCredential (c : CodePoint) : Prop := c.fold ∈ py "lotspgrxbe"

instance (c : CodePoint) : Decidable (StartsCredential c) := inferInstanceAs (Decidable (_ ∈ _))

theorem credential_anchored : (credential U).Anchored = true := rfl

theorem credential_startsIn : (credential U).StartsIn StartsCredential := by
  have hfirst : ∀ c ∈ py "lotspgrxbe", ∀ d : CodePoint, decide (d.fold = c) = true →
      StartsCredential d := by
    intro c hc d hd
    rw [StartsCredential, of_decide_eq_true hd]
    exact hc
  have hl := hfirst (ofChar 'l') (by decide)
  have ho := hfirst (ofChar 'o') (by decide)
  have ht := hfirst (ofChar 't') (by decide)
  have hs := hfirst (ofChar 's') (by decide)
  have hp := hfirst (ofChar 'p') (by decide)
  have hr := hfirst (ofChar 'r') (by decide)
  have hg := hfirst (ofChar 'g') (by decide)
  have hx := hfirst (ofChar 'x') (by decide)
  have hb := hfirst (ofChar 'b') (by decide)
  have he := hfirst (ofChar 'e') (by decide)
  exact ⟨⟨hl, ho, ht, hs, hp, hr, hg, hg, hg, hx⟩, hb, he⟩

/-- What starts a credential is a letter of it. -/
theorem StartsCredential.letter {c : CodePoint} (h : StartsCredential c) :
    c.fold.isLetterOrDigit = true := by
  have hall : ∀ d ∈ py "lotspgrxbe", d.isLetterOrDigit = true := List.all_eq_true.mp rfl
  exact hall c.fold h

theorem credential_stopsAt : (credential U).StopsAt StartsCredential := by
  have htoken : ∀ c, StartsCredential c → isTokenChar c = true := by
    intro c hc
    unfold isTokenChar
    rw [hc.letter]
    rfl
  have hbearer : ∀ c, StartsCredential c → isBearerChar c = true := by
    intro c hc
    unfold isBearerChar
    rw [hc.letter]
    rfl
  exact ⟨htoken, hbearer, htoken⟩

/-- Beyond ASCII, only `ſ` starts a credential. -/
theorem StartsCredential.beyond {c : CodePoint} (h : StartsCredential c)
    (hletter : c.isLetter = false) : c = 0x17F := by
  have hrange := of_decide_eq_false hletter
  unfold StartsCredential fold at h
  split at h
  · omega
  split at h
  · exact absurd h (by decide +kernel)
  split at h
  next hlong => exact Fin.ext hlong
  split at h
  · exact absurd h (by decide +kernel)
  · have hall : ∀ d ∈ py "lotspgrxbe", d.isLetter = true := List.all_eq_true.mp rfl
    rw [hall c h] at hletter
    cases hletter

/-- What starts a credential is a word character. -/
theorem StartsCredential.word {c : CodePoint} (h : StartsCredential c) : U.word c = true := by
  cases hletter : c.isLetter with
  | true =>
    have hascii : c.val < 128 := by
      have hrange := of_decide_eq_true hletter
      omega
    rw [U.word_ascii c hascii, isLetterOrDigit, hletter]
    rfl
  | false =>
    rw [h.beyond hletter]
    exact U.word_longS

theorem email_startsIn : email.StartsIn fun _ => True := ⟨Nat.one_pos, fun _ _ => trivial⟩

theorem email_stopsAt : email.StopsAt fun c => c.isLetter = true := fun _ h => h

theorem numberRun_stopsAt : (numberRun U).StopsAt fun c => U.word c = true := by
  intro prev c hnext hword
  have hin : inWord U (some c) = true := hword
  dsimp only at hnext
  rw [hin] at hnext
  cases hnext

/-- A credential after some character is one after any character that is in no word. -/
theorem credential_open {prev prev' : Option CodePoint} {m : PyStr}
    (h : (credential U).Matches prev m) (hopen : inWord U prev' = false) :
    (credential U).Matches prev' m := by
  have hpart : ∀ {q : TextPattern}, q.Free = true → q.StartsIn StartsCredential →
      (seq (boundary U) q).Matches prev m → (seq (boundary U) q).Matches prev' m := by
    intro q hfree hstarts hq
    obtain ⟨-, hq⟩ := matches_look.mp hq
    obtain ⟨c, rest, rfl, hc⟩ := hq.starts hstarts
    refine matches_look.mpr ⟨?_, hq.after hfree prev'⟩
    have hword : inWord U (c :: rest).head? = true := hc.word
    rw [hopen, hword]
    rfl
  have hstarts := credential_startsIn (U := U)
  refine matches_alt.mpr ((matches_alt.mp h).imp (hpart rfl hstarts.1) fun h => ?_)
  exact matches_alt.mpr ((matches_alt.mp h).imp (hpart rfl hstarts.2.1) (hpart rfl hstarts.2.2))

/-! ## What a replacement makes possible -/

/-- No credential starts right after what stops before its first character. -/
theorem harmless_credential {p : TextPattern} (hstops : p.StopsAt StartsCredential)
    (last : CodePoint) (text : PyStr) : Harmless p (credential U).Matches last text := by
  intro prev s stop _ hfind m _ hm hbad
  obtain ⟨c, rest, rfl, hc⟩ := hbad.starts credential_startsIn
  obtain ⟨post, hpost⟩ := hm
  exact absurd hc (stops hstops hfind c (by rw [← hpost]; rfl))

/-- An email address does not depend on what is before. -/
theorem harmless_email (p : TextPattern) (last : CodePoint) (text : PyStr) :
    Harmless p email.Matches last text :=
  fun _ _ stop _ _ _ _ _ hbad => hbad.after rfl stop.prev

/-- An address with a credential right behind it, which starts with `ſ`. -/
def OpensWord (U : UnicodeText) (text : PyStr) : Prop :=
  ∃ m c, email.Matches none m ∧ (credential U).Matches (some (ofChar ']')) (0x17F :: c) ∧
    (m ++ 0x17F :: c) <:+: text

/-- Beyond that, no credential starts right after an address. -/
theorem email_harmless {text : PyStr} (h : ¬OpensWord U text) :
    Harmless email (credential U).Matches (ofChar ']') text := by
  intro prev s stop hs hfind m _ hm hbad
  obtain ⟨c, rest, rfl, hc⟩ := hbad.starts credential_startsIn
  obtain ⟨post, hpost⟩ := hm
  have hletter := stops email_stopsAt hfind c (by rw [← hpost]; rfl)
  obtain ⟨address, hsplit, hmatches⟩ := matches_of_find rfl hfind
  obtain rfl := hc.beyond (Bool.eq_false_iff.mpr hletter)
  refine absurd ⟨address, rest, hmatches none, hbad, ?_⟩ h
  have hstart : (address ++ 0x17F :: rest) <+: s :=
    ⟨post, by rw [hsplit, ← hpost, List.append_assoc]⟩
  exact hstart.isInfix.trans hs.isInfix

/-- The text after the first stage. -/
def withoutCredentials (U : UnicodeText) (s : PyStr) : List MarkedChar :=
  (credential U).sub Prod.fst (fun _ => redactedCredential.map (·, false)) (s.map (·, true))

/-- The text with its credentials replaced. -/
def firstPass (U : UnicodeText) (s : PyStr) : PyStr :=
  (credential U).sub id (fun _ => redactedCredential) s

theorem code_withoutCredentials (s : PyStr) :
    (withoutCredentials U s).map Prod.fst = firstPass U s := by
  unfold withoutCredentials firstPass
  rw [code_sub fun _ => redactedCredential]
  · rw [List.map_map]
    exact congrArg _ (List.map_id s)
  · intro found
    rw [List.map_map]
    exact List.map_id _

/-! ## What scrubbing leaves of a text -/

/-- What a run of input characters must not be. -/
def Leak (U : UnicodeText) (prev : Option CodePoint) (m : PyStr) : Prop :=
  email.Matches prev m ∨ (credential U).Matches prev m

/-- Stripping makes an address or a credential of a part of the text. -/
def Joins (U : UnicodeText) (s : PyStr) : Prop :=
  ∃ m, m <:+: s ∧ m.head?.any isStored = true ∧ m.getLast?.any isStored = true ∧
    readBack m ≠ m ∧ Leak U none (readBack m)

/-- A text of which no later stage makes an address or a credential. -/
structure PlainText (U : UnicodeText) (s : PyStr) : Prop where
  /-- not by stripping characters -/
  joins : ¬Joins U s
  /-- not by replacing an address -/
  opens : ¬OpensWord U (firstPass U s)

/-- A text without `ſ` of which nothing is stripped. -/
theorem plainText_of_stored {s : PyStr} (hs : s.all isStored = true)
    (hlong : 0x17F ∉ firstPass U s) : PlainText U s := by
  constructor
  · rintro ⟨m, hin, -, -, hne, -⟩
    exact hne (List.filter_eq_self.mpr fun c hc => List.all_eq_true.mp hs c (hin.subset hc))
  · rintro ⟨m, c, -, -, hin⟩
    exact hlong (hin.subset (List.mem_append_right m (List.mem_cons_self ..)))

/-- The characters that stay. -/
def staying (s : List MarkedChar) : List MarkedChar := s.filter fun a => isStored a.1

/-- A marked text that leaks nothing when it is stored. -/
def SafeText (U : UnicodeText) (s : List MarkedChar) : Prop :=
  Clean Prod.fst Prod.snd (Leak U) none (staying s)

/-- A replacement leaves nothing of what it replaces. -/
theorem blank_fresh (w : PyStr) (c : CodePoint) :
    Blank Prod.fst Prod.snd c ((w ++ [c]).map fun c => (c, false)) := by
  refine ⟨w.map fun c => (c, false), (c, false), ?_, rfl, ?_⟩
  · rw [List.map_append]
    rfl
  · intro a ha
    rw [← List.map_singleton (f := fun c : CodePoint => (c, false)), ← List.map_append] at ha
    obtain ⟨d, -, rfl⟩ := List.mem_map.mp ha
    rfl

/-- Replacements have no characters that are stripped. -/
theorem fresh_stored {w : PyStr} (hw : w.all isStored = true) :
    ∀ a ∈ w.map fun c => (c, false), isStored a.1 = false → a.2 = true := by
  intro a ha hdrop
  obtain ⟨c, hc, rfl⟩ := List.mem_map.mp ha
  rw [List.all_eq_true.mp hw c hc] at hdrop
  cases hdrop

/-- What is stripped of a scrubbed text are characters of the text. -/
theorem marked_scrubbed (s : PyStr) :
    ∀ a ∈ scrubbed U s, isStored a.1 = false → a.2 = true := by
  refine sub_forall (fun found hfound => ?_) (sub_forall (fun _ _ => fresh_stored rfl)
    (sub_forall (fun _ _ => fresh_stored rfl) fun a ha _ => ?_))
  · unfold scrubNumber
    split
    · exact fresh_stored rfl
    · exact hfound
  · obtain ⟨c, -, rfl⟩ := List.mem_map.mp ha
    rfl

theorem blank_credential (found : List MarkedChar) : Blank Prod.fst Prod.snd (ofChar ']')
    ((fun _ => redactedCredential.map (·, false)) found) :=
  blank_fresh (py "[redacted:credential") (ofChar ']')

theorem blank_email (found : List MarkedChar) : Blank Prod.fst Prod.snd (ofChar ']')
    ((fun _ => redactedEmail.map (·, false)) found) :=
  blank_fresh (py "[redacted:email") (ofChar ']')

theorem blanks_number : Blanks Prod.fst Prod.snd (ofChar ']')
    (scrubNumber U Prod.fst fun c => (c, false)) := by
  intro found
  unfold scrubNumber
  split
  · exact Or.inr (blank_fresh (py "[redacted:number") (ofChar ']'))
  · exact Or.inl rfl

/-- A run of input characters in a scrubbed text is a part of the input. -/
theorem scrubbed_part (s : PyStr) :
    Clean Prod.fst Prod.snd (fun _ m => ¬m <:+: s) none (scrubbed U s) := by
  have hstart : Clean Prod.fst Prod.snd (fun _ m => ¬m <:+: s) none (s.map (·, true)) := by
    refine clean_iff.mpr fun pre m post hsplit _ _ hnot => hnot ?_
    have hs := congrArg (List.map Prod.fst) hsplit
    rw [List.map_map, List.map_append, List.map_append] at hs
    exact ⟨pre.map Prod.fst, post.map Prod.fst,
      (List.append_assoc _ _ _).trans (hs.symm.trans (List.map_id s))⟩
  unfold scrubbed scrubMarked
  refine sub_keeps blanks_number (fun _ _ _ _ _ _ _ _ h => h) ?_
  refine sub_keeps (fun found => Or.inr (blank_email found)) (fun _ _ _ _ _ _ _ _ h => h) ?_
  exact sub_keeps (fun found => Or.inr (blank_credential found)) (fun _ _ _ _ _ _ _ _ h => h)
    hstart

/-- No run of input characters in a scrubbed text is a leak. -/
theorem clean_scrubbed {s : PyStr} (hopens : ¬OpensWord U (firstPass U s)) :
    Clean Prod.fst Prod.snd (Leak U) none (scrubbed U s) := by
  -- the text after each stage
  have hfirst : Clean Prod.fst Prod.snd (credential U).Matches none (withoutCredentials U s) := by
    refine sub_cleans credential_startsIn blank_credential (fun prev m t hne hm => ?_)
      (harmless_credential credential_stopsAt _ _)
    obtain ⟨c, rest, rfl⟩ := List.exists_cons_of_ne_nil hne
    exact find_of_matches credential_anchored hm t
  obtain ⟨second, hsecond⟩ : ∃ second, second = email.sub Prod.fst
    (fun _ => redactedEmail.map (·, false)) (withoutCredentials U s) := ⟨_, rfl⟩
  have hcredentials : Clean Prod.fst Prod.snd (credential U).Matches none second := by
    rw [hsecond]
    refine sub_keeps (fun found => Or.inr (blank_email found)) (email_harmless ?_) hfirst
    rw [code_withoutCredentials]
    exact hopens
  have hemails : Clean Prod.fst Prod.snd email.Matches none second := by
    rw [hsecond]
    refine sub_cleans email_startsIn blank_email (fun prev m t hne hm => ?_) (harmless_email _ _ _)
    obtain ⟨c, rest, rfl⟩ := List.exists_cons_of_ne_nil hne
    exact find_of_matches rfl hm t
  have hnext : (numberRun U).StopsAt StartsCredential :=
    fun prev c hnext hc => numberRun_stopsAt prev c hnext hc.word
  have hthird : scrubbed U s =
      (numberRun U).sub Prod.fst (scrubNumber U Prod.fst fun c => (c, false)) second := by
    rw [hsecond]
    rfl
  rw [hthird]
  exact (sub_keeps blanks_number (harmless_email _ _ _) hemails).or
    (sub_keeps blanks_number (harmless_credential hnext _ _) hcredentials)

/-- A leak after some character is one after any character that is in no word. -/
theorem Leak.open {prev prev' : Option CodePoint} {m : PyStr} (h : Leak U prev m)
    (hopen : inWord U prev' = false) : Leak U prev' m :=
  h.imp (fun hm => hm.after rfl _) fun hm => credential_open hm hopen

/-- What is stripped is in no word. -/
theorem word_of_stripped {c : CodePoint} (h : isStored c = false) : U.word c = false := by
  refine U.word_control c (decide_eq_true ?_)
  unfold isStored at h
  rw [Bool.not_eq_false'] at h
  exact Or.inr (of_decide_eq_true h)

theorem safe_scrubbed {s : PyStr} (hs : PlainText U s) : SafeText U (scrubbed U s) := by
  refine Clean.filter (fun c hc _ _ hm => hm.open (word_of_stripped hc)) (marked_scrubbed s)
    (((clean_scrubbed hs.opens).or (scrubbed_part s)).imp ?_) fun _ hm => hm
  rintro prev m ⟨hhead, hlast, hleak⟩
  by_cases hin : m <:+: s
  · by_cases hsame : m.filter isStored = m
    · rw [hsame] at hleak
      exact Or.inl hleak
    · exact absurd ⟨m, hin, hhead, hlast, hsame, hleak.open rfl⟩ hs.joins
  · exact Or.inr hin

/-! ## What scrubbing leaves of a key -/

/-- The normal form of text that is ASCII and has no separators or capitals. -/
theorem normalized_self {w : PyStr} (hascii : w.all (fun c => decide (c.val < 128)) = true)
    (hself : w.all (fun c =>
      decide (c.fold.val = c.val ∧ c ≠ ofChar '_' ∧ c ≠ ofChar '-')) = true) :
    w.flatMap (normalized U) = w := by
  have hone : ∀ c ∈ w, normalized U c = [c] := by
    intro c hc
    obtain ⟨hfold, hunder, hdash⟩ := of_decide_eq_true (List.all_eq_true.mp hself c hc)
    have hlower := U.lower_ascii c (of_decide_eq_true (List.all_eq_true.mp hascii c hc))
    rw [Fin.ext hfold] at hlower
    unfold normalized
    rw [hlower, List.filter_singleton, decide_eq_false hunder, decide_eq_false hdash]
    rfl
  rw [List.flatMap_congr hone, List.flatMap_singleton']

/-- The replacements of credentials and numbers are no redacted keys. -/
theorem fenced_pattern (body : PyStr) (hascii : body.all (fun c => decide (c.val < 128)) = true)
    (hself : body.all (fun c =>
      decide (c.fold.val = c.val ∧ c ≠ ofChar '_' ∧ c ≠ ofChar '-')) = true)
    (hno : normalizedKeys.all (fun pattern => !decide (pattern <:+: body)) = true)
    {pattern : PyStr} (hp : pattern ∈ normalizedKeys) :
    Fenced (normalized U) pattern (ofChar '[' :: (body ++ [ofChar ']'])) := by
  have hbrackets : normalizedKeys.all (fun pattern =>
      !decide (ofChar '[' ∈ pattern) && !decide (ofChar ']' ∈ pattern)) = true := by decide +kernel
  obtain ⟨hopen, hclose⟩ := Bool.and_eq_true_iff.mp (List.all_eq_true.mp hbrackets pattern hp)
  have hnot := List.all_eq_true.mp hno pattern hp
  rw [Bool.not_eq_true', decide_eq_false_iff_not] at hopen hclose hnot
  refine ⟨ofChar '[', body, ofChar ']', ?_, hopen, hclose, hnot⟩
  have hedge : ∀ {c : CodePoint}, [c].flatMap (normalized U) = [c] →
      normalized U c = [c] := fun h => by rwa [List.flatMap_singleton] at h
  have hbody := normalized_self (U := U) hascii hself
  rw [List.flatMap_cons, List.flatMap_append, hbody, normalized_self (w := [ofChar ']']) rfl rfl,
    hedge (normalized_self (w := [ofChar '[']) rfl rfl)]
  rfl

theorem isRedactedKey_of_woven {w s t : PyStr}
    (hfence : ∀ pattern ∈ normalizedKeys, Fenced (normalized U) pattern w)
    (h : Woven [w] s t) (ht : isRedactedKey U t = true) : isRedactedKey U s = true := by
  obtain ⟨pattern, hp, hin⟩ := List.any_eq_true.mp ht
  refine List.any_eq_true.mpr ⟨pattern, hp, decide_eq_true ?_⟩
  refine h.infix (fun w' hw' => ?_) (of_decide_eq_true hin)
  rw [List.mem_singleton.mp hw']
  exact hfence pattern hp

/-- An address is in the text. -/
def HasEmail (text : PyStr) : Prop := ∃ m, email.Matches none m ∧ m <:+: text

theorem hasEmail_iff {text : PyStr} :
    HasEmail text ↔ ∃ s ∈ text.tails, ∃ m ∈ s.inits, email.Matches none m := by
  constructor
  · rintro ⟨m, hm, hin⟩
    obtain ⟨s, hms, hs⟩ := List.infix_iff_prefix_suffix.mp hin
    exact ⟨s, (List.mem_tails s text).mpr hs, m, (List.mem_inits m s).mpr hms, hm⟩
  · rintro ⟨s, hs, m, hms, hm⟩
    exact ⟨m, hm, ((List.mem_inits m s).mp hms).isInfix.trans
      ((List.mem_tails s text).mp hs).isInfix⟩

instance (text : PyStr) : Decidable (HasEmail text) := decidable_of_iff _ hasEmail_iff.symm

/-- A key without an address reads as a redacted one when it is scrubbed only if it reads
as one before. -/
theorem isRedactedKey_scrubPii {key : PyStr} (hemail : ¬HasEmail (firstPass U key))
    (h : isRedactedKey U (readBack (scrubPii U key)) = true) :
    isRedactedKey U (readBack key) = true := by
  obtain ⟨first, hfirst⟩ : ∃ first, first =
    (credential U).sub id (fun _ => redactedCredential.map id) key := ⟨_, rfl⟩
  have hpass : first = firstPass U key := by
    rw [hfirst, List.map_id]
    rfl
  -- there is no address to replace
  have hsecond : email.sub id (fun _ => redactedEmail.map id) first = first := by
    refine sub_of_none fun prev s hs => ?_
    rcases hfind : email.find ⟨prev, s⟩ with _ | stop
    · rfl
    obtain ⟨m, hsplit, hm⟩ := matches_of_find rfl hfind
    have hin : m <:+: first := by
      rw [List.map_id] at hs
      exact (hsplit ▸ List.prefix_append m stop.rest).isInfix.trans hs.isInfix
    exact absurd ⟨m, hm none, hpass ▸ hin⟩ hemail
  have hscrub : scrubPii U key = (numberRun U).sub id (scrubNumber U id id) first := by
    unfold scrubPii scrubMarked
    rw [← hfirst, hsecond]
  have hnumber : Woven [redactedNumber] first
      ((numberRun U).sub id (scrubNumber U id id) first) := by
    refine sub_woven (fun found => ?_) first
    unfold scrubNumber
    split
    · exact Or.inr (List.mem_singleton.mpr (List.map_id redactedNumber))
    · exact Or.inl rfl
  have hcredential : Woven [redactedCredential] key first :=
    hfirst ▸ sub_woven (fun _ => Or.inr (List.mem_singleton.mpr (List.map_id _))) key
  rw [hscrub] at h
  refine isRedactedKey_of_woven (fun pattern hp => ?_)
    (hcredential.filter (List.forall_mem_singleton.mpr rfl))
    (isRedactedKey_of_woven (fun pattern hp => ?_)
      (hnumber.filter (List.forall_mem_singleton.mpr rfl)) h)
  · exact fenced_pattern (py "redacted:credential") rfl rfl (by decide +kernel) hp
  · exact fenced_pattern (py "redacted:number") rfl rfl (by decide +kernel) hp

/-! ## What is stored of a text -/

/-- A printable ASCII character. -/
def IsPrintable (c : CodePoint) : Prop := 32 ≤ c.val ∧ c.val < 127

instance (c : CodePoint) : Decidable (IsPrintable c) := inferInstanceAs (Decidable (_ ∧ _))

theorem IsPrintable.kept {c : CodePoint} (h : IsPrintable c) : isKept c = true := by
  unfold isKept isControl
  have hno : ¬(c.val < 32 ∨ 127 ≤ c.val ∧ c.val < 160) := by
    unfold IsPrintable at h
    omega
  rw [decide_eq_false hno]
  simp

theorem printable_escapeUnit (n : ℕ) : ∀ c ∈ JsonText.escapeUnit n, IsPrintable c := by
  have hhex : ∀ k < 16, IsPrintable (ofHex k) := by decide +kernel
  intro c hc
  unfold JsonText.escapeUnit at hc
  simp only [List.mem_cons, List.not_mem_nil, or_false] at hc
  rcases hc with rfl | rfl | rfl | rfl | rfl | rfl
  · decide
  · decide
  all_goals exact hhex _ (Nat.mod_lt _ (by decide))

/-- A character that is escaped is ASCII and in no word, and its escape is printable. -/
theorem escapeRaw_cases (c : CodePoint) : escapeRaw c = [c] ∧ ¬c.val < 32 ∨
    2 ≤ (escapeRaw c).length ∧ (∀ d ∈ escapeRaw c, IsPrintable d) ∧ c.val < 127 ∧
      U.word c = false := by
  have hletters : JsonText.letters.all (fun e => decide (IsPrintable e.1 ∧ e.2.val < 127 ∧
      (e.2.isLetterOrDigit || decide (e.2 = ofChar '_')) = false)) = true := by decide +kernel
  have hescape : (∃ e ∈ JsonText.letters, e.2 = c ∧ escapeRaw c = [ofChar '\\', e.1]) ∨
      escapeRaw c = if c.val < 32 then JsonText.escapeUnit c.val else [c] := by
    unfold escapeRaw
    split
    next e hfind =>
      exact Or.inl ⟨e, List.mem_of_find?_eq_some hfind, by simpa using List.find?_some hfind, rfl⟩
    next => exact Or.inr rfl
  rcases hescape with ⟨e, hmem, rfl, heq⟩ | heq
  · obtain ⟨hprint, hascii, hword⟩ := of_decide_eq_true (List.all_eq_true.mp hletters e hmem)
    refine Or.inr ⟨by rw [heq]; exact le_rfl, ?_, hascii, ?_⟩
    · rw [heq]
      intro d hd
      rcases List.mem_cons.mp hd with rfl | hd
      · decide
      · rw [List.mem_singleton.mp hd]
        exact hprint
    · rw [U.word_ascii e.2 (hascii.trans (by decide)), hword]
  · by_cases hlow : c.val < 32
    · rw [if_pos hlow] at heq
      refine Or.inr ⟨by rw [heq]; exact Nat.le_add_left 2 4, ?_, hlow.trans (by decide), ?_⟩
      · rw [heq]
        exact printable_escapeUnit _
      · rw [U.word_ascii c (by omega), isLetterOrDigit, isLetter, isDigit, decide_eq_false,
          decide_eq_false, decide_eq_false]
        · rfl
        · rintro rfl
          exact absurd hlow (by decide)
        · omega
        · omega
    · rw [if_neg hlow] at heq
      exact Or.inl ⟨heq, hlow⟩

theorem syntaxText_sealed (hidden : Bool) (text : PyStr) :
    Sealed StoredChar.code StoredChar.raw (Leak U) (syntaxText hidden text) := by
  refine sealed_of_unmarked fun a ha => ?_
  obtain ⟨c, -, rfl⟩ := List.mem_map.mp ha
  rfl

/-- A character inside a string: as it was, or a blank. -/
theorem storedChar_cases (U : UnicodeText) (hidden : Bool) (a : MarkedChar) :
    storedChar hidden a = [⟨a.1, a.2, hidden && a.2⟩] ∨
    ∃ w b, storedChar hidden a = w ++ [b] ∧ (∀ c ∈ w ++ [b], c.raw = false) ∧
      U.word a.1 = false := by
  unfold storedChar
  rcases escapeRaw_cases (U := U) a.1 with ⟨hself, -⟩ | ⟨hlong, -, -, hword⟩
  · rw [hself, decide_eq_true rfl, Bool.and_true]
    exact Or.inl rfl
  · have hother : escapeRaw a.1 ≠ [a.1] := by
      intro hself
      rw [hself] at hlong
      exact absurd hlong (Nat.not_succ_le_self 1)
    have hne : (escapeRaw a.1).map (fun c => (⟨c, a.2 && decide (escapeRaw a.1 = [a.1]),
        hidden && a.2⟩ : StoredChar)) ≠ [] := by
      rw [ne_eq, List.map_eq_nil_iff]
      intro hnil
      rw [hnil] at hlong
      exact absurd hlong (Nat.not_succ_le_zero 1)
    refine Or.inr ⟨_, _, (List.dropLast_append_getLast hne).symm, ?_, hword⟩
    rw [List.dropLast_append_getLast hne]
    intro c hc
    obtain ⟨d, -, rfl⟩ := List.mem_map.mp hc
    dsimp only
    rw [decide_eq_false hother, Bool.and_false]

/-- A run of raw characters inside a string is a run of input characters. -/
theorem run_of_stored (U : UnicodeText) (hidden : Bool) : ∀ (s : List MarkedChar)
    (m : List StoredChar), m <+: s.flatMap (storedChar hidden) → (∀ b ∈ m, b.raw = true) →
      ∃ m', m' <+: s ∧ (∀ a ∈ m', a.2 = true) ∧ m'.map Prod.fst = m.map StoredChar.code := by
  intro s
  induction s with
  | nil =>
    intro m hm _
    rw [List.prefix_nil.mp hm]
    exact ⟨[], List.nil_prefix, List.forall_mem_nil _, rfl⟩
  | cons a s ih =>
    intro m hm hraw
    rw [List.flatMap_cons] at hm
    rcases storedChar_cases U hidden a with hself | ⟨w, b, hblank, hunmarked, -⟩
    · rw [hself] at hm
      cases m with
      | nil => exact ⟨[], List.nil_prefix, List.forall_mem_nil _, rfl⟩
      | cons c m =>
        obtain ⟨rfl, hrest⟩ := List.cons_prefix_cons.mp hm
        obtain ⟨hc, hm'⟩ := List.forall_mem_cons.mp hraw
        obtain ⟨m', hm', hmarked, hcodes⟩ := ih m hrest hm'
        refine ⟨a :: m', List.cons_prefix_cons.mpr ⟨rfl, hm'⟩,
          List.forall_mem_cons.mpr ⟨hc, hmarked⟩, ?_⟩
        rw [List.map_cons, List.map_cons, hcodes]
    · rw [hblank] at hm
      rw [run_behind hunmarked hm hraw]
      exact ⟨[], List.nil_prefix, List.forall_mem_nil _, rfl⟩

/-- The text of a clean string is clean, after what opens no more words. -/
theorem clean_stored (hidden : Bool) : ∀ (s : List MarkedChar) {prev prev' : Option CodePoint},
    Clean Prod.fst Prod.snd (Leak U) prev s → (∀ m, Leak U prev' m → Leak U prev m) →
      Clean StoredChar.code StoredChar.raw (Leak U) prev' (s.flatMap (storedChar hidden)) := by
  intro s
  induction s with
  | nil => exact fun _ _ => trivial
  | cons a s ih =>
    intro prev prev' h hopen
    have hspared : Spared StoredChar.code StoredChar.raw (Leak U) prev'
        ((a :: s).flatMap (storedChar hidden)) := by
      intro m hne hm hraw hleak
      obtain ⟨m', hm', hmarked, hcodes⟩ := run_of_stored U hidden (a :: s) m hm hraw
      rw [← hcodes] at hleak
      refine h.1 m' ?_ hm' hmarked (hopen _ hleak)
      rintro rfl
      exact hne (List.map_eq_nil_iff.mp hcodes.symm)
    rw [List.flatMap_cons] at hspared ⊢
    rcases storedChar_cases U hidden a with hself | ⟨w, b, hblank, hunmarked, hword⟩
    · rw [hself] at hspared ⊢
      exact ⟨hspared, ih h.2 fun _ hm => hm⟩
    · rw [hblank]
      exact Clean.behind w hunmarked (ih h.2 fun m hm => hm.open hword)

theorem storedStr_sealed {s : List MarkedChar} (hs : Clean Prod.fst Prod.snd (Leak U) none s)
    (hidden : Bool) : Sealed StoredChar.code StoredChar.raw (Leak U) (storedStr hidden s) := by
  have hbody : Clean StoredChar.code StoredChar.raw (Leak U) (some (ofChar '"'))
      (s.flatMap (storedChar hidden)) := clean_stored hidden s hs fun m hm => hm.open rfl
  have hblank : ∀ a ∈ [] ++ [(⟨ofChar '"', false, false⟩ : StoredChar)], a.raw = false := by
    intro a ha
    rw [List.nil_append, List.mem_singleton] at ha
    rw [ha]
  have hquoted : Sealed StoredChar.code StoredChar.raw (Leak U) (syntaxText false (py "\"")) :=
    syntaxText_sealed false _
  constructor
  · intro m hm hraw
    rw [run_behind (w := []) hblank hm hraw]
  · intro prev
    exact Clean.behind [] hblank (hbody.append hquoted)

/-- What stripping leaves of a character inside a string. -/
theorem kept_storedChar (U : UnicodeText) (hidden : Bool) (a : MarkedChar) :
    (storedChar hidden a).filter (fun b => isKept b.code) =
      if isStored a.1 then storedChar hidden a else [] := by
  have hall : (∀ c ∈ escapeRaw a.1, isKept c = true) →
      (storedChar hidden a).filter (fun b => isKept b.code) = storedChar hidden a := by
    intro hkept
    refine List.filter_eq_self.mpr fun b hb => ?_
    obtain ⟨c, hc, rfl⟩ := List.mem_map.mp hb
    exact hkept c hc
  cases hstored : isStored a.1 with
  | true =>
    rw [if_pos rfl]
    refine hall fun c hc => ?_
    rcases escapeRaw_cases (U := U) a.1 with ⟨hself, hlow⟩ | ⟨-, hprint, -⟩
    · rw [hself, List.mem_singleton] at hc
      unfold isStored at hstored
      rw [Bool.not_eq_true', decide_eq_false_iff_not] at hstored
      have hno : ¬(a.1.val < 32 ∨ 127 ≤ a.1.val ∧ a.1.val < 160) := fun h => h.elim hlow hstored
      rw [hc, isKept, isControl, decide_eq_false hno, Bool.not_false, Bool.or_true]
    · exact (hprint c hc).kept
  | false =>
    unfold isStored at hstored
    rw [Bool.not_eq_false'] at hstored
    have hrange := of_decide_eq_true hstored
    have hself : escapeRaw a.1 = [a.1] := by
      rcases escapeRaw_cases (U := U) a.1 with ⟨hself, -⟩ | ⟨-, -, hascii, -⟩
      · exact hself
      · omega
    have hdrop : isKept a.1 = false := by
      have hnewline : a.1 ≠ ofChar '\n' := fun h => absurd (h ▸ hrange) (by decide)
      have htab : a.1 ≠ ofChar '\t' := fun h => absurd (h ▸ hrange) (by decide)
      rw [isKept, isControl, decide_eq_true (Or.inr hrange), decide_eq_false hnewline,
        decide_eq_false htab]
      rfl
    unfold storedChar
    rw [hself, List.map_singleton, List.filter_cons_of_neg (by rw [hdrop]; decide), List.filter_nil,
      if_neg (by decide)]

theorem kept_storedStr (U : UnicodeText) (hidden : Bool) (s : List MarkedChar) :
    (storedStr hidden s).filter (fun b => isKept b.code) = storedStr hidden (staying s) := by
  have hbody : (s.flatMap (storedChar hidden)).filter (fun b => isKept b.code) =
      (staying s).flatMap (storedChar hidden) := by
    unfold staying
    induction s with
    | nil => rfl
    | cons a s ih =>
      rw [List.flatMap_cons, List.filter_append, kept_storedChar U, ih]
      cases hstored : isStored a.1 with
      | true =>
        rw [if_pos rfl, List.filter_cons_of_pos (p := fun b : MarkedChar => isStored b.1) hstored,
          List.flatMap_cons]
      | false =>
        rw [if_neg (by decide), List.filter_cons_of_neg (by rw [hstored]; decide), List.nil_append]
  unfold storedStr
  rw [List.filter_append, List.filter_append, hbody]
  rfl

/-! ## What is stored of a structure -/

/-- A text that leaks nothing when it is stored, if it is not hidden. -/
structure Fine (U : UnicodeText) (hidden : Bool) (text : List StoredChar) : Prop where
  /-- no run of the raw characters that are kept is a leak, wherever it stands -/
  closed : Sealed StoredChar.code StoredChar.raw (Leak U) (text.filter fun a => isKept a.code)
  /-- nothing of it is hidden -/
  bare : hidden = false → ∀ a ∈ text, a.hidden = false

theorem Fine.append {hidden : Bool} {text left : List StoredChar} (h : Fine U hidden text)
    (h' : Fine U hidden left) : Fine U hidden (text ++ left) := by
  refine ⟨?_, fun hshown => List.forall_mem_append.mpr ⟨h.bare hshown, h'.bare hshown⟩⟩
  rw [List.filter_append]
  exact h.closed.append h'.closed

theorem fine_syntaxText (text : PyStr) (hidden : Bool) :
    Fine U hidden (syntaxText hidden text) := by
  refine ⟨sealed_of_unmarked fun a ha => ?_, fun hshown a ha => ?_⟩
  · obtain ⟨c, -, rfl⟩ := List.mem_map.mp (List.mem_filter.mp ha).1
    rfl
  · obtain ⟨c, -, rfl⟩ := List.mem_map.mp ha
    exact hshown

/-- A safe text is fine where it is not hidden, or has no characters of the input. -/
theorem fine_storedStr {s : List MarkedChar} (hs : SafeText U s) {hidden shown : Bool}
    (hbare : shown = false → ∀ a ∈ s, (hidden && a.2) = false) :
    Fine U shown (storedStr hidden s) := by
  have hquote : ∀ a ∈ syntaxText false (py "\""), a.hidden = false := by
    intro a ha
    obtain ⟨c, -, rfl⟩ := List.mem_map.mp ha
    rfl
  refine ⟨?_, fun hshown => ?_⟩
  · rw [kept_storedStr U]
    exact storedStr_sealed hs hidden
  · refine List.forall_mem_append.mpr ⟨hquote, List.forall_mem_append.mpr ⟨fun a ha => ?_, hquote⟩⟩
    obtain ⟨b, hb, ha⟩ := List.mem_flatMap.mp ha
    obtain ⟨c, -, rfl⟩ := List.mem_map.mp ha
    exact hbare hshown b hb

/-- A string without a character of the input. -/
def Replaced (v : MarkedJson) : Prop := ∃ s, v = .str s ∧ ∀ a ∈ s, a.2 = false

section

variable (U : UnicodeText)

mutual

/-- A marked structure that leaks nothing. -/
def Safe : MarkedJson → Prop
  | .scalar _ => True
  | .str s => SafeText U s
  | .arr items => SafeItems items
  | .obj members => SafeMembers members

/-- The items of an array. -/
def SafeItems : List MarkedJson → Prop
  | [] => True
  | v :: rest => Safe v ∧ SafeItems rest

/-- The members of an object: what a redacted key is for is replaced, scalars aside. -/
def SafeMembers : List (List MarkedChar × MarkedJson) → Prop
  | [] => True
  | (k, v) :: rest => SafeText U k ∧ Safe v ∧
      (isRedactedKey U (readBack (k.map Prod.fst)) = true → v.isScalar = true ∨ Replaced v) ∧
        SafeMembers rest

end

end

/-- The value of a member. -/
theorem fine_value {key : PyStr} {v : MarkedJson} {hidden : Bool} (hv : Safe U v)
    (hmember : isRedactedKey U key = true → v.isScalar = true ∨ Replaced v)
    (hfine : ∀ hidden, Fine U hidden (stored U hidden v)) :
    Fine U hidden (stored U (hidden || isRedactedKey U key && !v.isScalar) v) := by
  cases hredacted : isRedactedKey U key && !v.isScalar with
  | false =>
    rw [Bool.or_false]
    exact hfine hidden
  | true =>
    rw [Bool.or_true]
    obtain ⟨hkey, hscalar⟩ := Bool.and_eq_true_iff.mp hredacted
    rw [Bool.not_eq_true'] at hscalar
    obtain ⟨s, rfl, hfresh⟩ := (hmember hkey).resolve_left (by rw [hscalar]; decide)
    rw [stored]
    rw [Safe] at hv
    exact fine_storedStr hv fun _ a ha => by rw [hfresh a ha]; rfl

mutual

theorem fine_stored : ∀ (v : MarkedJson), Safe U v → ∀ hidden, Fine U hidden (stored U hidden v)
  | .scalar text, _, hidden => by
    rw [stored]
    exact fine_syntaxText text hidden
  | .str s, h, hidden => by
    rw [Safe] at h
    rw [stored]
    exact fine_storedStr h fun hshown _ _ => by rw [hshown]; rfl
  | .arr items, h, hidden => by
    rw [Safe] at h
    rw [stored]
    exact (fine_syntaxText _ hidden).append
      ((fine_storedItems items h hidden).append (fine_syntaxText _ hidden))
  | .obj members, h, hidden => by
    rw [Safe] at h
    rw [stored]
    exact (fine_syntaxText _ hidden).append
      ((fine_storedMembers members h hidden).append (fine_syntaxText _ hidden))

theorem fine_storedItems : ∀ (items : List MarkedJson), SafeItems U items →
    ∀ hidden, Fine U hidden (storedItems U hidden items)
  | [], _, hidden => by
    rw [storedItems]
    exact fine_syntaxText [] hidden
  | [v], h, hidden => by
    rw [SafeItems] at h
    rw [storedItems]
    exact fine_stored v h.1 hidden
  | v :: v' :: rest, h, hidden => by
    rw [SafeItems] at h
    rw [storedItems]
    · exact (fine_stored v h.1 hidden).append
        ((fine_syntaxText _ hidden).append (fine_storedItems (v' :: rest) h.2 hidden))
    · exact fun h => by cases h

theorem fine_storedMembers : ∀ (members : List (List MarkedChar × MarkedJson)),
    SafeMembers U members → ∀ hidden, Fine U hidden (storedMembers U hidden members)
  | [], _, hidden => by
    rw [storedMembers]
    exact fine_syntaxText [] hidden
  | [(k, v)], h, hidden => by
    rw [SafeMembers] at h
    obtain ⟨hk, hv, hmember, -⟩ := h
    rw [storedMembers]
    exact (fine_storedStr hk fun hshown _ _ => by rw [hshown]; rfl).append
      ((fine_syntaxText _ hidden).append (fine_value hv hmember (fine_stored v hv)))
  | (k, v) :: e :: rest, h, hidden => by
    rw [SafeMembers] at h
    obtain ⟨hk, hv, hmember, hrest⟩ := h
    rw [storedMembers]
    · exact (fine_storedStr hk fun hshown _ _ => by rw [hshown]; rfl).append
        ((fine_syntaxText _ hidden).append ((fine_value hv hmember (fine_stored v hv)).append
          ((fine_syntaxText _ hidden).append (fine_storedMembers (e :: rest) hrest hidden))))
    · exact fun h => by cases h

end

/-! ## Careful values -/

section

variable (U : UnicodeText)

mutual

/-- A value whose stored texts are plain, and no key of which turns into a redacted one. -/
def Careful : Json → Prop
  | .str s => PlainText U s
  | .arr items => CarefulItems items
  | .obj fields => CarefulMembers fields
  | _ => True

/-- The items of an array. -/
def CarefulItems : List Json → Prop
  | [] => True
  | v :: rest => Careful v ∧ CarefulItems rest

/-- The members of an object. -/
def CarefulMembers : List (PyStr × Json) → Prop
  | [] => True
  | (key, item) :: rest => PlainText U key ∧
      ((isRedactedKey U key && !isScalar item) = true ∨
        Careful item ∧ (isScalar item = true ∨
          ¬HasEmail (firstPass U key) ∧ isRedactedKey U (readBack key) = false)) ∧
      CarefulMembers rest

end

end

theorem isScalar_redactMarked {item : Json} (h : isScalar item = true) :
    (redactMarked U item).isScalar = true := by
  cases item with
  | null => rfl
  | bool b => rfl
  | int n => rfl
  | float x => rfl
  | str s => cases h
  | arr items => cases h
  | obj fields => cases h

/-- `out[key] = value`, in what is safe. -/
theorem safe_setMember {k : List MarkedChar} {v : MarkedJson} (hk : SafeText U k) (hv : Safe U v)
    (hmember : isRedactedKey U (readBack (k.map Prod.fst)) = true →
      v.isScalar = true ∨ Replaced v) :
    ∀ {out : List (List MarkedChar × MarkedJson)}, SafeMembers U out →
      SafeMembers U (setMember k v out)
  | [], _ => by
    rw [setMember, SafeMembers]
    exact ⟨hk, hv, hmember, by rw [SafeMembers]; trivial⟩
  | (k', v') :: rest, h => by
    rw [SafeMembers] at h
    obtain ⟨hk', hv', hmember', hrest⟩ := h
    rw [setMember]
    split
    next hsame =>
      rw [SafeMembers]
      exact ⟨hk', hv, hsame ▸ hmember, hrest⟩
    next =>
      rw [SafeMembers]
      exact ⟨hk', hv', hmember', safe_setMember hk hv hmember hrest⟩

/-- What stands for what a redacted key is for. -/
theorem safe_redacted : Safe U (.str (redacted.map (·, false))) := by
  rw [Safe]
  refine (sealed_of_unmarked fun a ha => ?_).2 none
  obtain ⟨c, -, rfl⟩ := List.mem_map.mp (List.mem_filter.mp ha).1
  rfl

theorem replaced_redacted : Replaced (.str (redacted.map (·, false))) := by
  refine ⟨_, rfl, fun a ha => ?_⟩
  obtain ⟨c, -, rfl⟩ := List.mem_map.mp ha
  rfl

theorem safe_scalar (text : PyStr) : Safe U (.scalar text) := by
  rw [Safe]
  trivial

mutual

theorem safe_redactMarked : ∀ value : Json, Careful U value → Safe U (redactMarked U value)
  | .null, _ => safe_scalar _
  | .bool _, _ => safe_scalar _
  | .int _, _ => safe_scalar _
  | .float _, _ => safe_scalar _
  | .str s, h => by
    rw [Careful] at h
    rw [redactMarked, Safe]
    exact safe_scrubbed h
  | .arr items, h => by
    rw [Careful] at h
    rw [redactMarked, Safe]
    exact safe_items items h
  | .obj fields, h => by
    rw [Careful] at h
    rw [redactMarked, Safe]
    exact safe_members fields h (by rw [SafeMembers]; trivial)

theorem safe_items : ∀ items : List Json, CarefulItems U items →
    SafeItems U (redactMarkedItems U items)
  | [], _ => by
    rw [redactMarkedItems, SafeItems]
    trivial
  | item :: rest, h => by
    rw [CarefulItems] at h
    rw [redactMarkedItems, SafeItems]
    exact ⟨safe_redactMarked item h.1, safe_items rest h.2⟩

theorem safe_members : ∀ (members : List (PyStr × Json))
    {out : List (List MarkedChar × MarkedJson)}, CarefulMembers U members → SafeMembers U out →
      SafeMembers U (redactMarkedMembers U members out)
  | [], _, _, hout => by
    rw [redactMarkedMembers]
    exact hout
  | (key, item) :: rest, out, h, hout => by
    rw [CarefulMembers] at h
    obtain ⟨hkey, hitem, hrest⟩ := h
    rw [redactMarkedMembers]
    refine safe_members rest hrest ?_
    split
    next =>
      exact safe_setMember (safe_scrubbed hkey) safe_redacted (fun _ => Or.inr replaced_redacted)
        hout
    next hplain =>
      obtain ⟨hcareful, hname⟩ := hitem.resolve_left hplain
      refine safe_setMember (safe_scrubbed hkey) (safe_redactMarked item hcareful) ?_ hout
      intro hredacted
      refine Or.inl (isScalar_redactMarked ?_)
      rcases hname with hscalar | ⟨hemail, hreads⟩
      · exact hscalar
      · rw [code_scrubbed] at hredacted
        rw [isRedactedKey_scrubPii hemail hredacted] at hreads
        cases hreads

end

/-! ## What is captured -/

/-- Nothing leaks into a captured text: no run of raw characters is an address or a
credential, and nothing of it is hidden. -/
structure Leakless (U : UnicodeText) (out : List StoredChar) : Prop where
  /-- addresses and credentials -/
  patterns : ∀ before m after, out = before ++ (m ++ after) → m ≠ [] →
    (∀ a ∈ m, a.raw = true) →
      ¬Leak U (lastOr none (before.map StoredChar.code)) (m.map StoredChar.code)
  /-- what redacted keys are for -/
  keys : ∀ a ∈ out, a.hidden = false

theorem wholeChars_prefix {α : Type} (code : α → CodePoint) (text : List α) :
    ∀ room : ℕ, wholeChars code room text <+: text := by
  induction text with
  | nil => exact fun _ => List.nil_prefix
  | cons a text ih =>
    intro room
    rw [wholeChars]
    split
    · exact List.cons_prefix_cons.mpr ⟨rfl, ih _⟩
    · exact List.nil_prefix

/-- **Captured payloads of careful values leak nothing.** -/
theorem captured_leakless {value : Json} {maxBytes : ℤ} {out : PyStr}
    (h : captureValue U value true maxBytes = .ok (some out)) (hcareful : Careful U value) :
    (captured U value maxBytes).map StoredChar.code = out ∧
      Leakless U (captured U value maxBytes) := by
  refine ⟨captured_code h, ?_⟩
  have hfine := fine_stored _ (safe_redactMarked value hcareful) false
  -- what is captured starts the redacted text
  obtain ⟨more, hmore⟩ : captured U value maxBytes <+:
      (stored U false (redactMarked U value)).filter fun a => isKept a.code :=
    wholeChars_prefix _ _ _
  have hclean : Clean StoredChar.code StoredChar.raw (Leak U) none
      (captured U value maxBytes ++ more) := by
    rw [hmore]
    exact hfine.closed.2 none
  refine ⟨clean_iff.mp hclean.init, fun a ha => hfine.bare rfl a ?_⟩
  refine List.mem_of_mem_filter (p := fun b : StoredChar => isKept b.code) ?_
  rw [← hmore]
  exact List.mem_append_left more ha

end

/-! ## What leaks -/

/-- A control character is no letter of ASCII. -/
theorem asciiWord_control (c : CodePoint) (hc : c.isControl = true) :
    (if c.val < 128 then c.isLetterOrDigit || decide (c = ofChar '_')
      else decide (c.val = 0x17F)) = false := by
  have hrange := of_decide_eq_true hc
  by_cases hascii : c.val < 128
  · rw [if_pos hascii, isLetterOrDigit, isLetter, isDigit, decide_eq_false, decide_eq_false,
      decide_eq_false]
    · rfl
    · rintro rfl
      exact absurd hrange (by decide)
    · omega
    · omega
  · rw [if_neg hascii]
    exact decide_eq_false (by omega)

/-- Python on ASCII. -/
def asciiText : UnicodeText where
  toFloatText := wholeText.toFloatText
  word c := if c.val < 128 then c.isLetterOrDigit || decide (c = ofChar '_')
    else decide (c.val = 0x17F)
  decimal := isDigit
  digit := isDigit
  lower c := [c.fold]
  word_ascii _ hc := if_pos hc
  word_longS := rfl
  word_control := asciiWord_control
  lower_ascii _ _ := rfl

/-- A note with an address, and a redacted key. -/
def oneNote : Json :=
  .obj [(py "note", .arr [.str (py "ask jane@acme.com")]), (py "token", .str (py "sk-12345678"))]

theorem captured_leakless_note :
    (captured asciiText oneNote 1000).map StoredChar.code =
        py "\x7b\"note\": [\"ask [redacted:email]\"], \"token\": \"[redacted]\"\x7d" ∧
      Leakless asciiText (captured asciiText oneNote 1000) := by
  refine captured_leakless (by decide +kernel) ?_
  have hnote := plainText_of_stored (U := asciiText) (s := py "note") rfl (by decide +kernel)
  have htoken := plainText_of_stored (U := asciiText) (s := py "token") rfl (by decide +kernel)
  have htext := plainText_of_stored (U := asciiText) (s := py "ask jane@acme.com") rfl
    (by decide +kernel)
  simp only [oneNote, Careful, CarefulMembers, CarefulItems]
  exact ⟨hnote, Or.inr ⟨⟨htext, trivial⟩, Or.inr (by decide +kernel)⟩, htoken,
    Or.inl (by decide +kernel), trivial⟩

/-- **A payload that leaks**: a DEL hides an address from the scrubbing, and is stripped. -/
theorem captured_leaks : ¬∀ (U : UnicodeText) (value : Json) (maxBytes : ℤ) (out : PyStr),
    captureValue U value true maxBytes = .ok (some out) →
      (captured U value maxBytes).map StoredChar.code = out ∧
        Leakless U (captured U value maxBytes) := by
  intro h
  obtain ⟨-, hleakless⟩ := h asciiText (.str (py "jane\x7f@acme.com")) 1000
    (py "\"jane@acme.com\"") (by decide +kernel)
  refine hleakless.patterns ((captured asciiText (.str (py "jane\x7f@acme.com")) 1000).take 1)
    (((captured asciiText (.str (py "jane\x7f@acme.com")) 1000).drop 1).take 13)
    (((captured asciiText (.str (py "jane\x7f@acme.com")) 1000).drop 1).drop 13) ?_ ?_ ?_ ?_
  · rw [List.take_append_drop, List.take_append_drop]
  · decide +kernel
  · decide +kernel
  · exact Or.inl (by decide +kernel)

end Redact

end LayaWatch
