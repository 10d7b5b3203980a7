import LayaWatch.DigitRuns
import LayaWatch.Transparency

/-!
# Payload events

With capture on, `_record_payload` records the request and the result of every `/predict`.
What has a lone surrogate cannot be encoded: `scrub_text` raises, and the event is dropped
without a word. So the trace of a request has its payload event exactly if every text that
redaction leaves, of the request and of the result, can be encoded
(`payload_recorded_iff`).
-/

namespace LayaWatch

namespace Redact

open CodePoint Pattern

/-! ## Surrogates and patterns -/

/-- A character that can be encoded. -/
def Whole (c : CodePoint) : Prop := c.isSurrogate = false

/-- A text that can be encoded. -/
abbrev Encodable (s : PyStr) : Prop := s.encodable = true

theorem encodable_iff {s : PyStr} : Encodable s ↔ ∀ c ∈ s, Whole c := by
  unfold Encodable PyStr.encodable Whole
  simp only [List.all_eq_true, Bool.not_eq_true']

theorem whole_of_ascii {c : CodePoint} (h : c.val < 128) : Whole c :=
  decide_eq_false (by omega)

/-- What folds to ASCII is no surrogate. -/
theorem whole_of_fold {c : CodePoint} (h : c.fold.val < 128) : Whole c := by
  refine decide_eq_false fun hrange => ?_
  have hsame : c.fold = c := by
    unfold fold
    rw [if_neg (by omega), if_neg (by omega), if_neg (by omega), if_neg (by omega)]
  rw [hsame] at h
  omega

theorem ascii_of_letterOrDigit {c : CodePoint} (h : c.isLetterOrDigit = true) : c.val < 128 := by
  rcases (Bool.or_eq_true _ _).mp h with h | h
  · have hrange := of_decide_eq_true h
    omega
  · have hrange := of_decide_eq_true h
    omega

theorem ascii_of_mem {c : CodePoint} {l : PyStr} (h : l.contains c = true)
    (hl : l.all (fun d => decide (d.val < 128)) = true) : c.val < 128 :=
  of_decide_eq_true (List.all_eq_true.mp hl c (List.contains_iff_mem.mp h))

theorem ascii_of_eq {c : CodePoint} {d : Char} (h : decide (c = ofChar d) = true)
    (hd : (ofChar d).val < 128) : c.val < 128 := by
  rw [of_decide_eq_true h]
  exact hd

theorem tokenChar_whole (c : CodePoint) (h : isTokenChar c = true) : Whole c := by
  refine whole_of_fold ?_
  rcases (Bool.or_eq_true _ _).mp h with h | h
  · rcases (Bool.or_eq_true _ _).mp h with h | h
    · exact ascii_of_letterOrDigit h
    · exact ascii_of_eq h (by decide)
  · exact ascii_of_eq h (by decide)

theorem bearerChar_whole (c : CodePoint) (h : isBearerChar c = true) : Whole c := by
  refine whole_of_fold ?_
  rcases (Bool.or_eq_true _ _).mp h with h | h
  · exact ascii_of_letterOrDigit h
  · exact ascii_of_mem h (by decide)

theorem space_whole (c : CodePoint) (h : isSpace c = true) : Whole c := by
  refine decide_eq_false fun hrange => ?_
  rcases (Bool.or_eq_true _ _).mp h with h | h
  · have hspace := of_decide_eq_true h
    omega
  · have hmem := List.contains_iff_mem.mp h
    simp only [List.mem_cons, List.not_mem_nil, or_false] at hmem
    omega

theorem localChar_whole (c : CodePoint) (h : isLocalChar c = true) : Whole c := by
  refine whole_of_ascii ?_
  rcases (Bool.or_eq_true _ _).mp h with h | h
  · exact ascii_of_letterOrDigit h
  · exact ascii_of_mem h (by decide)

theorem labelChar_whole (c : CodePoint) (h : isLabelChar c = true) : Whole c := by
  refine whole_of_ascii ?_
  rcases (Bool.or_eq_true _ _).mp h with h | h
  · exact ascii_of_letterOrDigit h
  · exact ascii_of_eq h (by decide)

theorem letter_whole (c : CodePoint) (h : isLetter c = true) : Whole c := by
  have hrange := of_decide_eq_true h
  exact whole_of_ascii (by omega)

theorem char_whole {d : Char} (hd : (ofChar d).val < 128) (c : CodePoint)
    (h : decide (c = ofChar d) = true) : Whole c :=
  whole_of_ascii (ascii_of_eq h hd)

theorem ignoringCase_within (text : String)
    (h : (py text).all (fun d => decide (d.val < 128)) = true) :
    (ignoringCase text).Within Whole := by
  unfold ignoringCase
  generalize py text = s at h
  induction s with
  | nil => trivial
  | cons d s ih =>
    rw [List.all_cons, Bool.and_eq_true] at h
    rw [List.foldr_cons]
    refine ⟨fun c hc => whole_of_fold ?_, ih h.2⟩
    rw [of_decide_eq_true hc]
    exact of_decide_eq_true h.1

theorem prefixedKey_within : prefixedKey.Within Whole := by
  have hxox : ∀ c : CodePoint, (py "abpr").contains c.fold = true → Whole c :=
    fun c hc => whole_of_fold (ascii_of_mem hc (by decide))
  have hjoin : ∀ c : CodePoint, (decide (c = ofChar '_') || decide (c = ofChar '-')) = true →
      Whole c := by
    intro c hc
    rcases (Bool.or_eq_true _ _).mp hc with hc | hc
    · exact char_whole (by decide) c hc
    · exact char_whole (by decide) c hc
  refine ⟨?_, hjoin, tokenChar_whole⟩
  refine ⟨ignoringCase_within _ (by decide), ignoringCase_within _ (by decide),
    ignoringCase_within _ (by decide), ignoringCase_within _ (by decide),
    ignoringCase_within _ (by decide), ignoringCase_within _ (by decide),
    ignoringCase_within _ (by decide), ignoringCase_within _ (by decide),
    ignoringCase_within _ (by decide), ignoringCase_within _ (by decide), hxox⟩

theorem credential_within (U : UnicodeText) : (credential U).Within Whole := by
  have hperiod : ∀ c : CodePoint, decide (c = ofChar '.') = true → Whole c :=
    char_whole (by decide)
  refine ⟨⟨trivial, prefixedKey_within⟩, ⟨trivial, ?_⟩, trivial, ?_⟩
  · exact ⟨ignoringCase_within _ (by decide), space_whole, bearerChar_whole⟩
  · exact ⟨ignoringCase_within _ (by decide), tokenChar_whole, hperiod, tokenChar_whole, hperiod,
      tokenChar_whole⟩

theorem email_within : email.Within Whole :=
  ⟨localChar_whole, char_whole (by decide), labelChar_whole,
    ⟨char_whole (by decide), labelChar_whole⟩, char_whole (by decide), letter_whole⟩

/-- Surrogates are no digits. -/
def DigitsWhole (U : UnicodeText) : Prop := ∀ c, U.decimal c = true → Whole c

theorem numberRun_within {U : UnicodeText} (hU : DigitsWhole U) : (numberRun U).Within Whole := by
  have hrun : ∀ c, isRunChar U c = true → Whole c := by
    intro c hc
    rcases (Bool.or_eq_true _ _).mp hc with hc | hc
    · exact hU c hc
    · exact whole_of_ascii (ascii_of_mem hc (by decide))
  exact ⟨trivial, ⟨char_whole (by decide), trivial⟩, hU, hrun, hU, trivial⟩

/-- **Scrubbing neither removes a surrogate nor adds one.** -/
theorem scrubPii_encodable {U : UnicodeText} (hU : DigitsWhole U) (s : PyStr) :
    Encodable (scrubPii U s) ↔ Encodable s := by
  have hwhole : ∀ text : PyStr, text.encodable = true → ∀ c ∈ text, Whole c :=
    fun text h => encodable_iff.mp h
  have hnumber : ∀ found : PyStr, (∀ c ∈ found, Whole c) →
      ∀ c ∈ scrubNumber U id id found, Whole c := by
    intro found hfound
    unfold scrubNumber
    split
    · rw [List.map_id]
      exact hwhole redactedNumber (by decide)
    · exact hfound
  rw [encodable_iff, encodable_iff, scrubPii_eq, besidesNumbers,
    sub_forall_iff (numberRun_within hU) hnumber,
    sub_forall_iff email_within fun _ _ => hwhole redactedEmail (by decide),
    sub_forall_iff (credential_within U) fun _ _ => hwhole redactedCredential (by decide)]

/-! ## Serializing -/

theorem encodable_append {s t : PyStr} : Encodable (s ++ t) ↔ Encodable s ∧ Encodable t := by
  rw [Encodable, PyStr.encodable_append, Bool.and_eq_true]

theorem encodable_cons {c : CodePoint} {s : PyStr} :
    Encodable (c :: s) ↔ Whole c ∧ Encodable s := by
  rw [encodable_iff, encodable_iff, List.forall_mem_cons]

theorem encodable_of_ascii {s : PyStr} (h : ∀ c ∈ s, c.isAscii = true) : Encodable s :=
  encodable_iff.mpr fun c hc => by
    have hascii := of_decide_eq_true (h c hc)
    exact whole_of_ascii hascii.2

/-- An escaped character can be encoded if the character can. -/
theorem escapeRaw_encodable (c : CodePoint) : Encodable (escapeRaw c) ↔ Whole c := by
  unfold escapeRaw
  split
  · next e he =>
    have hall : JsonText.letters.all
        (fun e => decide (e.1.val < 128) && decide (e.2.val < 128)) = true := by decide
    have hboth := List.all_eq_true.mp hall e (List.mem_of_find?_eq_some he)
    rw [Bool.and_eq_true] at hboth
    have hsame : e.2 = c := by simpa using List.find?_some he
    refine iff_of_true ?_ (whole_of_ascii (hsame ▸ of_decide_eq_true hboth.2))
    exact encodable_cons.mpr ⟨whole_of_ascii (by decide),
      encodable_cons.mpr ⟨whole_of_ascii (of_decide_eq_true hboth.1), rfl⟩⟩
  · split
    · next hsmall =>
      exact iff_of_true (encodable_of_ascii (JsonText.escapeUnit_ascii _))
        (whole_of_ascii (by omega))
    · rw [encodable_cons]
      exact and_iff_left rfl

theorem dumpsRawStr_encodable (s : PyStr) : Encodable (dumpsRawStr s) ↔ Encodable s := by
  have hquote : Whole (ofChar '"') := whole_of_ascii (by decide)
  have hbody : Encodable (s.flatMap escapeRaw) ↔ Encodable s := by
    induction s with
    | nil => exact Iff.rfl
    | cons c s ih =>
      rw [List.flatMap_cons, encodable_append, escapeRaw_encodable, ih, encodable_cons]
  rw [dumpsRawStr, encodable_cons, encodable_append, hbody, encodable_cons]
  exact ⟨fun h => h.2.1, fun h => ⟨hquote, h, hquote, rfl⟩⟩

mutual

/-- **What is serialized can be encoded** if its texts can. -/
theorem dumpsRaw_encodable (T : FloatText) : ∀ v : Json,
    Encodable (dumpsRaw T v) ↔ Texts Encodable v
  | .null | .bool true | .bool false => by
    rw [dumpsRaw, Texts]
    · exact iff_of_true (by decide) trivial
    all_goals exact fun _ h => by cases h
  | .int n => by
    rw [dumpsRaw, Texts]
    · exact iff_of_true (encodable_of_ascii fun c hc =>
        JsonText.isNumeric_ascii (JsonText.dumpsInt_numeric n c hc)) trivial
    all_goals exact fun _ h => by cases h
  | .float x => by
    rw [dumpsRaw, Texts]
    · exact iff_of_true (encodable_of_ascii fun c hc =>
        JsonText.isNumeric_ascii (T.repr_numeric x c hc)) trivial
    all_goals exact fun _ h => by cases h
  | .str s => by
    rw [dumpsRaw, Texts]
    exact dumpsRawStr_encodable s
  | .arr items => by
    have hopen : Whole (ofChar '[') := whole_of_ascii (by decide)
    have hclose : Encodable [ofChar ']'] := rfl
    rw [dumpsRaw, Texts, encodable_cons, encodable_append, dumpsRawItems_encodable T items]
    exact ⟨fun h => h.2.1, fun h => ⟨hopen, h, hclose⟩⟩
  | .obj members => by
    have hopen : Whole (ofChar '{') := whole_of_ascii (by decide)
    have hclose : Encodable [ofChar '}'] := rfl
    rw [dumpsRaw, Texts, encodable_cons, encodable_append, dumpsRawMembers_encodable T members]
    exact ⟨fun h => h.2.1, fun h => ⟨hopen, h, hclose⟩⟩

theorem dumpsRawItems_encodable (T : FloatText) : ∀ items : List Json,
    Encodable (dumpsRawItems T items) ↔ TextsOfItems Encodable items
  | [] => by
    rw [dumpsRawItems, TextsOfItems]
    exact iff_of_true rfl trivial
  | [v] => by
    rw [dumpsRawItems, TextsOfItems, TextsOfItems, dumpsRaw_encodable T v]
    exact (and_iff_left trivial).symm
  | v :: w :: rest => by
    have hcomma : Encodable (py ", ") := rfl
    rw [dumpsRawItems, TextsOfItems, encodable_append, encodable_append, dumpsRaw_encodable T v,
      dumpsRawItems_encodable T (w :: rest)]
    · exact and_congr_right' (and_iff_right hcomma)
    · exact fun h => by cases h

theorem dumpsRawMembers_encodable (T : FloatText) : ∀ members : List (PyStr × Json),
    Encodable (dumpsRawMembers T members) ↔ TextsOfMembers Encodable members
  | [] => by
    rw [dumpsRawMembers, TextsOfMembers]
    exact iff_of_true rfl trivial
  | [(k, v)] => by
    have hcolon : Encodable (py ": ") := rfl
    rw [dumpsRawMembers, TextsOfMembers, TextsOfMembers, encodable_append, encodable_append,
      dumpsRawStr_encodable, dumpsRaw_encodable T v, and_iff_right hcolon, and_true]
  | (k, v) :: e :: rest => by
    have hcolon : Encodable (py ": ") := rfl
    have hcomma : Encodable (py ", ") := rfl
    rw [dumpsRawMembers, TextsOfMembers, encodable_append, encodable_append, encodable_append,
      encodable_append, dumpsRawStr_encodable, dumpsRaw_encodable T v,
      dumpsRawMembers_encodable T (e :: rest), and_iff_right hcolon, and_iff_right hcomma]
    exact fun h => by cases h

end

/-! ## Storing -/

/-- A surrogate is no control character. -/
theorem filter_encodable (s : PyStr) : Encodable (s.filter isKept) ↔ Encodable s := by
  rw [encodable_iff, encodable_iff]
  refine ⟨fun h c hc => ?_, fun h c hc => h c (List.mem_of_mem_filter hc)⟩
  by_cases hkept : isKept c = true
  · exact h c (List.mem_filter.mpr ⟨hc, hkept⟩)
  · refine decide_eq_false fun hrange => hkept ?_
    have hcontrol : c.isControl = false := decide_eq_false (by omega)
    rw [isKept, hcontrol, Bool.not_false, Bool.or_true]

/-- How many bytes a text has in UTF-8. -/
def utf8Size (s : PyStr) : ℕ := (s.map utf8Length).sum

/-- What `scrub_text` cuts to fits. -/
theorem wholeChars_fits (s : PyStr) : ∀ room : ℕ, utf8Size (wholeChars id room s) ≤ room := by
  induction s with
  | nil => exact fun _ => Nat.zero_le _
  | cons c s ih =>
    intro room
    rw [wholeChars]
    split
    · next hroom =>
      have hrest := ih (room - (id c).utf8Length)
      unfold utf8Size at hrest ⊢
      rw [List.map_cons, List.sum_cons]
      simp only [id] at hroom hrest ⊢
      omega
    · exact Nat.zero_le _

/-- A text that is stored: it can be encoded, in at most so many bytes. -/
def StoredWithin (maxBytes : ℕ) (text : PyStr) : Prop :=
  Encodable text ∧ utf8Size text ≤ maxBytes

section

variable {U : UnicodeText} {v : Json}

/-- What is serialized of a value can be encoded if the texts that redaction leaves can. -/
theorem cleaned_encodable (hU : DigitsWhole U) :
    Encodable ((dumpsRaw U.toFloatText (redactForCapture U v)).filter isKept) ↔
      KeptTexts U Encodable v := by
  rw [filter_encodable, dumpsRaw_encodable]
  exact texts_redactForCapture (Q := Encodable) rfl (scrubPii_encodable hU) v

/-- **What can be encoded is stored**, within the limit. -/
theorem captureValue_stores (maxBytes : ℕ) (hU : DigitsWhole U) (h : KeptTexts U Encodable v) :
    ∃ text, captureValue U v true maxBytes = .ok (some text) ∧ StoredWithin maxBytes text := by
  have hclean := (cleaned_encodable hU).mpr h
  refine ⟨wholeChars id maxBytes ((dumpsRaw U.toFloatText (redactForCapture U v)).filter isKept),
    ?_, ?_, wholeChars_fits _ _⟩
  · unfold captureValue scrubText
    rw [if_pos rfl, if_neg (by omega)]
    simp only [Int.toNat_natCast]
    rw [if_pos hclean]
    rfl
  · refine encodable_iff.mpr fun c hc => encodable_iff.mp hclean c ?_
    have hcut := wholeChars_prefix id
      ((dumpsRaw U.toFloatText (redactForCapture U v)).filter isKept) maxBytes
    exact hcut.subset hc

/-- What cannot is not. -/
theorem captureValue_raises (maxBytes : ℕ) (hU : DigitsWhole U) (h : ¬KeptTexts U Encodable v) :
    captureValue U v true maxBytes = .error .unicodeEncode := by
  have hclean := (cleaned_encodable hU).not.mpr h
  unfold captureValue scrubText
  rw [if_pos rfl, if_neg (by omega)]
  simp only
  rw [if_neg hclean]
  rfl

end

end Redact

namespace Engine

open Redact

/-! ## What is recorded -/

/-- One payload event, with an input of so many bytes. -/
def OnePayload (maxBytes : ℕ) (l : List (Option PyStr)) : Prop :=
  ∃ text, l = [some text] ∧ StoredWithin maxBytes text

/-- No text that redaction leaves, of the request or of the result, has a surrogate. -/
structure Storable (L : Library) (p : Payload) (result : Option Result) : Prop where
  /-- of the request -/
  request : KeptTexts L.text Encodable p.request
  /-- of the result, if there is one -/
  result : ∀ r ∈ result, KeptTexts L.text Encodable (.obj r.fields)

section

variable {L : Library} {O : Observer} {R : Recorder} {p : Payload} {result : Option Result}

theorem captured_stores {v : Json} (hdigits : DigitsWhole L.text)
    (h : KeptTexts L.text Encodable v) : ∃ text, captured L O true (some v) = .ok (some text) ∧
      StoredWithin O.payloadMax text := by
  obtain ⟨text, hstores, hwithin⟩ := captureValue_stores O.payloadMax hdigits h
  refine ⟨text, ?_, hwithin⟩
  unfold captured
  simp only [hstores]

theorem captured_raises {v : Json} (hdigits : DigitsWhole L.text)
    (h : ¬KeptTexts L.text Encodable v) : ∃ e, captured L O true (some v) = .error e := by
  have hraises := captureValue_raises O.payloadMax hdigits h
  unfold captured
  simp only [hraises]
  exact ⟨_, rfl⟩

/-- **With capture on, there is one payload event** exactly if everything can be stored. -/
theorem recordedInputs_iff (hdigits : DigitsWhole L.text) (hcapture : R.capture = true) :
    OnePayload O.payloadMax (recordedInputs L O R p result) ↔ Storable L p result := by
  unfold recordedInputs
  rw [if_pos hcapture]
  have hnone : ∀ {l : List (Option PyStr)}, l = [] → ¬OnePayload O.payloadMax l := by
    rintro l rfl ⟨text, h, -⟩
    cases h
  by_cases hrequest : KeptTexts L.text Encodable p.request
  · obtain ⟨text, hinput, hwithin⟩ := captured_stores (O := O) hdigits hrequest
    rw [hinput]
    cases result with
    | none => exact iff_of_true ⟨text, rfl, hwithin⟩ ⟨hrequest, fun r hr => by cases hr⟩
    | some r =>
      rw [Option.map_some]
      by_cases hresult : KeptTexts L.text Encodable (.obj r.fields)
      · obtain ⟨output, houtput, -⟩ := captured_stores (O := O) hdigits hresult
        rw [houtput]
        exact iff_of_true ⟨text, rfl, hwithin⟩ ⟨hrequest, fun r' hr => by cases hr; exact hresult⟩
      · obtain ⟨e, houtput⟩ := captured_raises (O := O) hdigits hresult
        rw [houtput]
        exact iff_of_false (hnone rfl) fun h => hresult (h.result r rfl)
  · obtain ⟨e, hinput⟩ := captured_raises (O := O) hdigits hrequest
    rw [hinput]
    exact iff_of_false (hnone rfl) fun h => hrequest h.request

end

/-! ## A prediction -/

section

variable {σ : Type} {R : Recorder} {T : Thread} {P Q : List (Option PyStr) → Prop} {L : Library}
  {O : Observer} {adapter : Adapter σ} {req : Request} {p : Payload} {s : Exchange σ}

theorem Serving.mono (h : Serving R T P s) (hPQ : ∀ l, P l → Q l) : Serving R T Q s :=
  ⟨h.live.mono hPQ, h.attached, h.noHook⟩

/-- The payloads are these. -/
abbrev Only (recorded : List (Option PyStr)) (l : List (Option PyStr)) : Prop := l = recorded

/-- What a prediction records, whether the adapter returns or raises. -/
def inputsOf (L : Library) (O : Observer) (R : Recorder) (adapter : Adapter σ) (p : Payload)
    (engine : σ) : List (Option PyStr) :=
  recordedInputs L O R p (p.predicts adapter engine).outcome.toOption

theorem recordPayload_only (result : Option Result) :
    Unseen (σ := σ) (Serving R T (Only [])) (traced (recordPayload L O p result))
      (Serving R T (Only (recordedInputs L O R p result))) :=
  traced_unseen (recordPayload_calls fun l hl => by rw [hl]; exact List.nil_append _)

/-- A call of the adapter that records no payload. -/
theorem guardCall_ends {c : σ → Call σ} (hs : Serving R T P s)
    (hquiet : QuietSteps (c s.engine).steps) :
    (guardCall L O c).Ends s
      (fun r t => (c s.engine).outcome.toOption = some r ∧ Serving R T P t)
      fun _ t => (c s.engine).outcome.toOption = none ∧ Serving R T P t := by
  obtain ⟨t, hrun, -, ht⟩ := guardCall_run (L := L) (O := O) c hs (Or.inl hquiet)
  unfold Prog.Ends
  rw [hrun]
  cases (c s.engine).outcome with
  | error e => exact ⟨rfl, ht⟩
  | ok r => exact ⟨rfl, ht⟩

/-- **The handler records the payload once**, on every way out. -/
theorem predictPayload_ends (req : Request) (hs : Serving R T (Only []) s)
    (hquiet : QuietSteps (p.predicts adapter s.engine).steps) :
    (predictPayload L O adapter req p).Ends s
      (fun _ => Serving R T (Only (inputsOf L O R adapter p s.engine)))
      fun _ => Serving R T (Only (inputsOf L O R adapter p s.engine)) := by
  refine Prog.Ends.bind ((recordRequest_unseen p).ends ⟨hs, rfl⟩) fun _ t ht => ?_
  have hengine : t.engine = s.engine := congrArg Service.engine ht.2
  have hcall := guardCall_ends (L := L) (O := O) (c := p.predicts adapter) ht.1
    (by rw [hengine]; exact hquiet)
  rw [hengine] at hcall
  have hrecorded : (Prog.ensureWith (guardCall L O (p.predicts adapter)) fun result =>
      (traced (recordPayload L O p result) : Exchanging σ PUnit)).Ends t
        (fun _ => Serving R T (Only (inputsOf L O R adapter p s.engine)))
        fun _ => Serving R T (Only (inputsOf L O R adapter p s.engine)) := by
    unfold inputsOf
    refine hcall.ensureWith (fun r u hu => ?_) fun e u hu => ?_
    · rw [hu.1]
      exact ((recordPayload_only (some r)).ends ⟨hu.2, rfl⟩).mono (fun _ _ hv => hv.1)
        fun _ _ h => h
    · rw [hu.1]
      exact ((recordPayload_only none).ends ⟨hu.2, rfl⟩).mono (fun _ _ hv => hv.1)
        fun _ _ h => h
  refine Prog.Ends.bind hrecorded fun r v hv => ?_
  exact Prog.Ends.bind ((recordResult_unseen r).ends ⟨hv, rfl⟩) fun _ _ hw => hw.1

/-- A `POST /predict` with this payload, by somebody who may. -/
structure Asks (L : Library) (req : Request) (db : Db) (p : Payload) : Prop where
  /-- the path -/
  route : req.route = .predict
  /-- the method -/
  method : L.upper req.method = py "POST"
  /-- the credential -/
  admitted : ∃ armed keyId after, credential L req db = (.ok (armed, keyId), after) ∧
    admits armed keyId = true
  /-- the body -/
  valid : ∃ parsed, req.parsed = .ok parsed ∧ validated parsed = .ok p

/-- `Router.dispatch` leads to the handler. -/
theorem dispatch_ends {parsed : Json} (hroute : req.route = .predict)
    (hmethod : L.upper req.method = py "POST") (hvalid : validated parsed = .ok p)
    (hs : Serving R T (Only []) s) (hquiet : QuietSteps (p.predicts adapter s.engine).steps) :
    (dispatch L O adapter req parsed).Ends s
      (fun _ => Serving R T (Only (inputsOf L O R adapter p s.engine)))
      fun _ => Serving R T (Only (inputsOf L O R adapter p s.engine)) := by
  have hhandler : routed L O adapter req parsed = predictPayload L O adapter req p := by
    unfold routed
    rw [hmethod, if_neg (by decide), if_pos rfl]
    unfold post
    rw [hvalid, hroute]
    rfl
  have hends := predictPayload_ends (L := L) (O := O) req hs hquiet
  rw [← hhandler] at hends
  refine Prog.Ends.bind (hends.rescue fun e t ht => ?_) fun _ t ht => ht
  exact Prog.Ends.lift (fun _ _ => ht) fun _ _ => ht

/-- Who may goes on. -/
theorem verify_admits {db : Db} (engine : σ) (h : Asks L req db p) :
    ∃ after, Service.verify L req ⟨db, engine⟩ = (.ok ⟨⟩, ⟨after, engine⟩) := by
  obtain ⟨armed, keyId, after, hcredential, hadmits⟩ := h.admitted
  refine ⟨after, ?_⟩
  have hzoom : (Prog.zoom Service.db (fun db s => { s with db := db }) (credential L req) :
      Prog (Service σ) Exc (Bool × Option PyStr)) ⟨db, engine⟩ =
        (.ok (armed, keyId), ⟨after, engine⟩) := by
    unfold Prog.zoom
    rw [hcredential]
  unfold Service.verify
  rw [Prog.run_bind_ok hzoom, refusal, if_pos hadmits]
  rfl

/-- The `try` of an admitted prediction records what the handler does. -/
theorem tryPhases_ends (hs : Serving R T (Only []) s) (h : Asks L req s.db p)
    (hquiet : QuietSteps (p.predicts adapter s.engine).steps) :
    (tryPhases L O adapter req).Ends s
      (fun _ => Serving R T (Only (inputsOf L O R adapter p s.engine)))
      fun _ => Serving R T (Only (inputsOf L O R adapter p s.engine)) := by
  obtain ⟨parsed, hparsed, hvalid⟩ := h.valid
  obtain ⟨after, hverify⟩ := verify_admits s.engine h
  refine Prog.Ends.bind ((setPhase_unseen _).ends ⟨hs, rfl⟩) fun _ t ht => ?_
  refine Prog.Ends.bind (receive_unseen.ends ht) fun _ t ht => ?_
  refine Prog.Ends.bind ((setPhase_unseen _).ends ht) fun _ t ht => ?_
  refine Prog.Ends.bind (verifyAuth_does.ends ht.1 (by rw [ht.2]; exact hverify)) fun _ t ht => ?_
  refine Prog.Ends.bind ((setPhase_unseen _).ends ht.2) fun _ t ht => ?_
  refine Prog.Ends.bind (parseBody_does.ends ht.1 (by rw [ht.2, hparsed]; rfl)) fun r t ht => ?_
  obtain ⟨rfl, ht⟩ := ht
  refine Prog.Ends.bind ((setPhase_unseen _).ends ht) fun _ t ht => ?_
  have hengine : t.engine = s.engine := congrArg Service.engine ht.2
  rw [← hengine] at hquiet ⊢
  have hdispatch := dispatch_ends (L := L) (O := O) h.route h.method hvalid ht.1 hquiet
  refine Prog.Ends.bind hdispatch fun r t ht => ?_
  exact Prog.Ends.bind ((recordFailure_unseen r).ends ⟨ht, rfl⟩) fun _ t ht => ht.1

end

theorem plainLibrary_digits : DigitsWhole plainLibrary.text := by
  intro c hc
  have hrange := of_decide_eq_true hc
  exact whole_of_ascii (by omega)

/-- `POST /predict` whose state has a lone surrogate. -/
def askSurrogate : Request :=
  { askPredict with
    bytes := 46
    parsed := .ok (.obj [(py "state", .obj [(py "body", .str [0xD800])]),
      (py "questions", .obj [])]) }

end Engine

end LayaWatch
