import LayaWatch.Capture
import LayaWatch.KeptTexts
import LayaWatch.Lib.Scan

/-!
# Long runs of digits

Ten digits in a row are a number to `scrub_pii` where `_NUMBER_RUN` reaches them: in a
stretch of digits, blanks, parentheses, periods and hyphens, from a digit that follows
neither a word character nor a period to a digit that no word character follows. What is
reached is replaced, and nothing else is (`long_runs_iff`), in a string and at any depth
of a captured value.
-/

namespace LayaWatch

namespace Redact

open CodePoint Pattern

/-- What Python reads as digits among the characters of ASCII. -/
structure ReadsDigits (U : UnicodeText) : Prop where
  /-- `\d` -/
  decimal : ∀ c : CodePoint, c.val < 128 → U.decimal c = c.isDigit
  /-- `isdigit` -/
  digit : ∀ c : CodePoint, c.isDigit = true → U.digit c = true

/-! ## Runs -/

/-- Ten ASCII digits in a row. -/
def TenDigits (run : PyStr) : Prop := run.length = 10 ∧ ∀ c ∈ run, c.isDigit = true

/-- A text without ten ASCII digits in a row. -/
def NoLongRun (text : PyStr) : Prop := ∀ run, run <:+: text → ¬TenDigits run

/-- A number may begin after the one character, with the other. -/
def BeginsNumber (U : UnicodeText) (prev first : Option CodePoint) : Prop :=
  inWord U prev = false ∧ prev.any (· = ofChar '.') = false ∧ first.any U.decimal = true

/-- A number may end with the one character, before the other. -/
def EndsNumber (U : UnicodeText) (last next : Option CodePoint) : Prop :=
  last.any U.decimal = true ∧ inWord U next = false

/-- What `_NUMBER_RUN` reaches between `pre` and `post`: a number may begin at or before
it and end at or after it, with nothing but characters of a number between. -/
structure Reached (U : UnicodeText) (prev : Option CodePoint) (pre run post : PyStr) : Prop where
  /-- where the number begins -/
  begins : ∃ before between, pre = before ++ between ∧ (∀ c ∈ between, isRunChar U c = true) ∧
    BeginsNumber U (lastOr prev before) (between ++ run).head?
  /-- where it ends -/
  ends : ∃ between after, post = between ++ after ∧ (∀ c ∈ between, isRunChar U c = true) ∧
    EndsNumber U (run ++ between).getLast? after.head?

/-- Every ten digits in a row are reached. -/
def RunsReached (U : UnicodeText) (prev : Option CodePoint) (text : PyStr) : Prop :=
  ∀ pre run post, text = pre ++ (run ++ post) → TenDigits run → Reached U prev pre run post

/-- A string whose credentials and addresses are replaced. -/
def besidesNumbers (U : UnicodeText) (text : PyStr) : PyStr :=
  email.sub id (fun _ => redactedEmail) ((credential U).sub id (fun _ => redactedCredential) text)

/-! ## The pattern -/

/-- The end of a number. -/
def numberEnd (U : UnicodeText) : TextPattern :=
  .seq (.one U.decimal) (.look fun _ next => !inWord U next)

/-- A number, from its first digit. -/
def number (U : UnicodeText) : TextPattern :=
  .seq (.one U.decimal) (.seq (.many 8 (isRunChar U)) (numberEnd U))

section

variable {U : UnicodeText} {prev : Option CodePoint} {text : PyStr} {stop : Place CodePoint}

/-- A number ends with a digit that no word character follows. -/
theorem mem_numberEnd {start : Place CodePoint} : stop ∈ (numberEnd U).ends start ↔
    ∃ e, U.decimal e = true ∧ Reads start stop [e] ∧ inWord U stop.rest.head? = false := by
  unfold numberEnd
  rw [mem_ends_seq]
  constructor
  · rintro ⟨mid, hmid, hstop⟩
    obtain ⟨rfl, hnext⟩ := mem_ends_look.mp hstop
    obtain ⟨e, he, hreads⟩ := mem_ends_one.mp hmid
    exact ⟨e, he, hreads, by simpa using hnext⟩
  · rintro ⟨e, he, hreads, hnext⟩
    exact ⟨stop, mem_ends_one.mpr ⟨e, he, hreads⟩, mem_ends_look.mpr ⟨rfl, by simpa using hnext⟩⟩

/-- **What `_NUMBER_RUN` matches**: after no word character and no period, an optional
sign, a digit, at least eight characters of a number and a digit, before no word
character. -/
theorem mem_numberRun : stop ∈ (numberRun U).ends ⟨prev, text⟩ ↔
    inWord U prev = false ∧ prev.any (· = ofChar '.') = false ∧
      ∃ sign d mid e, (sign = [] ∨ sign = [ofChar '+']) ∧ U.decimal d = true ∧
        (∀ c ∈ mid, isRunChar U c = true) ∧ 8 ≤ mid.length ∧ U.decimal e = true ∧
        Reads ⟨prev, text⟩ stop (sign ++ d :: (mid ++ [e])) ∧
        inWord U stop.rest.head? = false := by
  change stop ∈ (Pattern.seq _ (.seq _ (.seq _ (.seq _ (numberEnd U))))).ends _ ↔ _
  rw [mem_ends_seq]
  constructor
  · rintro ⟨first, hfirst, hstop⟩
    obtain ⟨rfl, hprev⟩ := mem_ends_look.mp hfirst
    obtain ⟨signed, hsigned, hstop⟩ := mem_ends_seq.mp hstop
    obtain ⟨second, hsecond, hstop⟩ := mem_ends_seq.mp hstop
    obtain ⟨third, hthird, hstop⟩ := mem_ends_seq.mp hstop
    obtain ⟨d, hd, hreads⟩ := mem_ends_one.mp hsecond
    obtain ⟨mid, hreads', hmid, hlong⟩ := (mem_manyEnds _).mp hthird
    obtain ⟨e, he, hreads'', hnext⟩ := mem_numberEnd.mp hstop
    have hrest := (hreads.trans hreads').trans hreads''
    simp only [Bool.and_eq_true, Bool.not_eq_true'] at hprev
    refine ⟨hprev.1, hprev.2, ?_⟩
    rcases mem_ends_alt.mp hsigned with hplus | hnone
    · obtain ⟨c, hc, hreads⟩ := mem_ends_one.mp hplus
      obtain rfl := of_decide_eq_true hc
      exact ⟨[ofChar '+'], d, mid, e, Or.inr rfl, hd, hmid, hlong, he,
        by simpa using hreads.trans hrest, hnext⟩
    · obtain rfl := mem_ends_empty.mp hnone
      exact ⟨[], d, mid, e, Or.inl rfl, hd, hmid, hlong, he, by simpa using hrest, hnext⟩
  · rintro ⟨hword, hperiod, sign, d, mid, e, hsign, hd, hmid, hlong, he, hreads, hnext⟩
    refine ⟨⟨prev, text⟩, mem_ends_look.mpr ⟨rfl, by simp [hword, hperiod]⟩, ?_⟩
    obtain ⟨hrest, hlast⟩ := hreads
    simp only at hrest hlast
    refine mem_ends_seq.mpr ⟨⟨lastOr prev sign, d :: (mid ++ e :: stop.rest)⟩, ?_,
      mem_ends_seq.mpr ⟨⟨some d, mid ++ e :: stop.rest⟩, mem_ends_one.mpr ⟨d, hd, rfl, rfl⟩,
        mem_ends_seq.mpr ⟨⟨lastOr (some d) mid, e :: stop.rest⟩,
          (mem_manyEnds _).mpr ⟨mid, ⟨rfl, rfl⟩, hmid, hlong⟩,
          mem_numberEnd.mpr ⟨e, he, ⟨rfl, ?_⟩, hnext⟩⟩⟩⟩
    · rcases hsign with rfl | rfl
      · refine mem_ends_alt.mpr (Or.inr (mem_ends_empty.mpr ?_))
        rw [hrest]
        simp
      · refine mem_ends_alt.mpr (Or.inl (mem_ends_one.mpr
          ⟨ofChar '+', decide_eq_true rfl, ?_, rfl⟩))
        rw [hrest]
        simp
    · rw [hlast, lastOr_append, lastOr_cons, lastOr_append]

theorem number_ends (prev : Option CodePoint) (text : PyStr) :
    (number U).ends ⟨prev, text⟩ = [] ∨ ∃ before rest, (number U).ends ⟨prev, text⟩ =
      (manyEnds (isRunChar U) 8 before rest).flatMap (numberEnd U).ends := by
  unfold number
  cases text with
  | nil => exact Or.inl rfl
  | cons c rest =>
    by_cases hc : U.decimal c = true
    · refine Or.inr ⟨some c, rest, ?_⟩
      simp only [ends, if_pos hc, List.flatMap_singleton]
    · refine Or.inl ?_
      simp only [ends, if_neg hc, List.flatMap_nil]

/-- The ends of a match are those of one repetition. -/
theorem numberRun_ends (hdigits : ReadsDigits U) (prev : Option CodePoint) (text : PyStr) :
    (numberRun U).ends ⟨prev, text⟩ = [] ∨ ∃ before rest, (numberRun U).ends ⟨prev, text⟩ =
      (manyEnds (isRunChar U) 8 before rest).flatMap (numberEnd U).ends := by
  have hends : (numberRun U).ends ⟨prev, text⟩ =
      (if !inWord U prev && !prev.any (· = ofChar '.') then [⟨prev, text⟩] else []).flatMap
        fun start => ((Pattern.one (· = ofChar '+')).ends start ++ [start]).flatMap
          (number U).ends := rfl
  rw [hends]
  split
  · rw [List.flatMap_singleton, List.flatMap_append, List.flatMap_singleton]
    cases text with
    | nil => exact number_ends prev []
    | cons c rest =>
      by_cases hc : c = ofChar '+'
      · -- the sign is no digit, so that no number starts with it
        subst hc
        have hplus : U.decimal (ofChar '+') = false := hdigits.decimal _ (by decide)
        have hsigned : (number U).ends ⟨prev, ofChar '+' :: rest⟩ = [] := by
          simp only [number, ends, hplus, Bool.false_eq_true, if_false, List.flatMap_nil]
        have hsign : (Pattern.one (· = ofChar '+')).ends ⟨prev, ofChar '+' :: rest⟩ =
            [⟨some (ofChar '+'), rest⟩] := rfl
        rw [hsigned, hsign, List.append_nil, List.flatMap_singleton]
        exact number_ends (some (ofChar '+')) rest
      · have hsign : (Pattern.one (· = ofChar '+')).ends ⟨prev, c :: rest⟩ = [] := by
          simp only [ends, decide_eq_true_eq, if_neg hc]
        rw [hsign, List.flatMap_nil, List.nil_append]
        exact number_ends prev (c :: rest)
  · exact Or.inl rfl

/-- The match that is found is the longest. -/
theorem numberRun_longest (hdigits : ReadsDigits U)
    (hfind : (numberRun U).find ⟨prev, text⟩ = some stop) {stop' : Place CodePoint}
    (hstop' : stop' ∈ (numberRun U).ends ⟨prev, text⟩) : stop.rest.length ≤ stop'.rest.length := by
  unfold find at hfind
  obtain hnil | ⟨before, rest, hends⟩ := numberRun_ends hdigits prev text
  · rw [hnil] at hfind
    cases hfind
  · rw [hends] at hfind hstop'
    have hone : ∀ start, ∀ last ∈ (numberEnd U).ends start,
        start.rest.length = last.rest.length + 1 := by
      intro start last hlast
      obtain ⟨e, -, ⟨hreads, -⟩, -⟩ := mem_numberEnd.mp hlast
      rw [hreads]
      rfl
    exact greedy_latest hone rest hfind stop' hstop'

end

/-! ## What is reached -/

section

variable {U : UnicodeText} {prev : Option CodePoint} {pre run post between after found left text :
  PyStr}

/-- A digit is a word character. -/
theorem inWord_of_digit {c : CodePoint} (h : c.isDigit = true) : inWord U (some c) = true := by
  have hrange := of_decide_eq_true h
  rw [inWord, Option.any_some, U.word_ascii c (by omega), isLetterOrDigit, h]
  simp

theorem TenDigits.ne_nil (h : TenDigits run) : run ≠ [] := by
  rintro rfl
  exact absurd h.1 (by decide)

theorem ReadsDigits.decimal_digit (hdigits : ReadsDigits U) {c : CodePoint}
    (h : c.isDigit = true) : U.decimal c = true := by
  have hrange := of_decide_eq_true h
  rw [hdigits.decimal c (by omega), h]

theorem ReadsDigits.runChar (hdigits : ReadsDigits U) {c : CodePoint} (h : c.isDigit = true) :
    isRunChar U c = true := by
  rw [isRunChar, hdigits.decimal_digit h, Bool.true_or]

theorem isRunChar_of_decimal {c : CodePoint} (h : U.decimal c = true) : isRunChar U c = true := by
  rw [isRunChar, h, Bool.true_or]

/-- A text of ten characters or more, by its ends. -/
theorem exists_ends {text : PyStr} (h : 10 ≤ text.length) :
    ∃ d mid e, text = d :: (mid ++ [e]) ∧ 8 ≤ mid.length := by
  obtain ⟨d, rest, rfl⟩ := List.exists_cons_of_length_pos (Nat.lt_of_lt_of_le (by decide) h)
  rw [List.length_cons] at h
  obtain rfl | ⟨mid, e, rfl⟩ := List.eq_nil_or_concat rest
  · exact absurd h (by decide)
  · refine ⟨d, mid, e, by rw [List.concat_eq_append], ?_⟩
    rw [List.length_concat] at h
    omega

/-- Where a number may begin, and one may end with enough between, it is matched. -/
theorem mem_numberRun_of_reached (hdigits : ReadsDigits U) (hrun : TenDigits run)
    (hpre : ∀ c ∈ pre, isRunChar U c = true) (hbegins : BeginsNumber U prev (pre ++ run).head?)
    (hbetween : ∀ c ∈ between, isRunChar U c = true)
    (hends : EndsNumber U (run ++ between).getLast? after.head?) :
    ∃ stop ∈ (numberRun U).ends ⟨prev, pre ++ (run ++ (between ++ after))⟩, stop.rest = after := by
  obtain ⟨hword, hperiod, hfirst⟩ := hbegins
  obtain ⟨hlast, hnext⟩ := hends
  have hlong : 10 ≤ (pre ++ (run ++ between)).length := by
    rw [List.length_append, List.length_append, hrun.1]
    omega
  obtain ⟨d, mid, e, hwhole, hmid⟩ := exists_ends hlong
  have hall : ∀ c ∈ pre ++ (run ++ between), isRunChar U c = true := by
    intro c hc
    rcases List.mem_append.mp hc with hc | hc
    · exact hpre c hc
    · rcases List.mem_append.mp hc with hc | hc
      · exact hdigits.runChar (hrun.2 c hc)
      · exact hbetween c hc
  have hd : (pre ++ run).head? = some d := by
    have hhead := congrArg List.head? hwhole
    rwa [← List.append_assoc, List.head?_append_of_ne_nil _
      (List.append_ne_nil_of_right_ne_nil _ hrun.ne_nil)] at hhead
  have he : (run ++ between).getLast? = some e := by
    have hend := congrArg List.getLast? hwhole
    rwa [List.getLast?_append_of_ne_nil _ (List.append_ne_nil_of_left_ne_nil hrun.ne_nil _),
      ← List.cons_append, List.getLast?_concat] at hend
  rw [hd] at hfirst
  rw [he] at hlast
  refine ⟨⟨lastOr prev (d :: (mid ++ [e])), after⟩, mem_numberRun.mpr ⟨hword, hperiod, [], d, mid,
    e, Or.inl rfl, by simpa using hfirst, fun c hc => hall c ?_, hmid, by simpa using hlast,
    ⟨?_, rfl⟩, hnext⟩, rfl⟩
  · rw [hwhole]
    exact List.mem_cons_of_mem _ (List.mem_append_left _ hc)
  · change pre ++ (run ++ (between ++ after)) = _
    rw [List.nil_append, ← hwhole]
    simp only [List.append_assoc]

/-- What is found, with what follows it. -/
theorem found_numberRun (h : (numberRun U).find ⟨prev, found ++ left⟩ =
    some ⟨lastOr prev found, left⟩) :
    inWord U prev = false ∧ prev.any (· = ofChar '.') = false ∧ inWord U left.head? = false ∧
      ∃ sign d mid e, (sign = [] ∨ sign = [ofChar '+']) ∧ U.decimal d = true ∧
        (∀ c ∈ mid, isRunChar U c = true) ∧ 8 ≤ mid.length ∧ U.decimal e = true ∧
        found = sign ++ d :: (mid ++ [e]) := by
  have hmem := List.mem_of_mem_head? (Option.mem_def.mpr h)
  obtain ⟨hword, hperiod, sign, d, mid, e, hsign, hd, hmid, hlong, he, ⟨hrest, -⟩, hnext⟩ :=
    mem_numberRun.mp hmem
  exact ⟨hword, hperiod, hnext, sign, d, mid, e, hsign, hd, hmid, hlong, he,
    List.append_cancel_right hrest⟩

/-- What is reached behind a part of a text is reached in the text. -/
theorem Reached.append (h : Reached U (lastOr prev found) pre run post) :
    Reached U prev (found ++ pre) run post := by
  obtain ⟨before, between, rfl, hbetween, hbegins⟩ := h.begins
  refine ⟨⟨found ++ before, between, (List.append_assoc ..).symm, hbetween, ?_⟩, h.ends⟩
  rw [lastOr_append]
  exact hbegins

/-- A match that takes a part of ten digits reaches them. -/
theorem reached_of_found {taken : PyStr} (hrun : TenDigits run)
    (h : (numberRun U).find ⟨prev, found ++ left⟩ = some ⟨lastOr prev found, left⟩)
    (hfound : found = pre ++ taken) (htaken : run ++ post = taken ++ left) (hne : taken ≠ []) :
    Reached U prev pre run post := by
  obtain ⟨hword, hperiod, hnext, sign, d, mid, e, hsign, hd, hmid, -, he, hsame⟩ :=
    found_numberRun h
  -- no match ends within digits
  obtain ⟨between, rfl, rfl⟩ : ∃ between, taken = run ++ between ∧ post = between ++ left := by
    rcases List.append_eq_append_iff.mp htaken with ⟨between, htaken, hpost⟩ | ⟨y, hsplit, hleft⟩
    · exact ⟨between, htaken, hpost⟩
    · cases y with
      | nil =>
        rw [List.append_nil] at hsplit
        exact ⟨[], by rw [hsplit, List.append_nil], hleft.symm⟩
      | cons c y =>
        have hc : c.isDigit = true := hrun.2 c (hsplit ▸ List.mem_append_right _ List.mem_cons_self)
        rw [hleft, List.cons_append, List.head?_cons, inWord_of_digit hc] at hnext
        cases hnext
  have hparts : pre ++ (run ++ between) = sign ++ d :: (mid ++ [e]) := hfound.symm.trans hsame
  have hnumber : ∀ c ∈ d :: (mid ++ [e]), isRunChar U c = true := by
    intro c hc
    rcases List.mem_cons.mp hc with rfl | hc
    · exact isRunChar_of_decimal hd
    · rcases List.mem_append.mp hc with hc | hc
      · exact hmid c hc
      · rw [List.mem_singleton.mp hc]
        exact isRunChar_of_decimal he
  have hlast : (run ++ between).getLast? = some e := by
    have hend := congrArg List.getLast? hparts
    rwa [List.getLast?_append_of_ne_nil _ (List.append_ne_nil_of_left_ne_nil hrun.ne_nil _),
      ← List.cons_append, ← List.append_assoc, List.getLast?_concat] at hend
  have hclose : EndsNumber U (run ++ between).getLast? left.head? :=
    ⟨by rw [hlast]; exact he, hnext⟩
  have hnumberOf : ∀ pre : PyStr, pre ++ (run ++ between) = d :: (mid ++ [e]) →
      (∀ c ∈ pre, isRunChar U c = true) ∧ (∀ c ∈ between, isRunChar U c = true) ∧
        (pre ++ run).head?.any U.decimal = true := by
    intro pre hpre
    have hall : ∀ c ∈ pre ++ (run ++ between), isRunChar U c = true := hpre ▸ hnumber
    refine ⟨fun c hc => hall c (List.mem_append_left _ hc), fun c hc => hall c
      (List.mem_append_right _ (List.mem_append_right _ hc)), ?_⟩
    have hhead := congrArg List.head? hpre
    rw [← List.append_assoc, List.head?_append_of_ne_nil _
      (List.append_ne_nil_of_right_ne_nil _ hrun.ne_nil)] at hhead
    rw [hhead]
    exact hd
  rcases hsign with rfl | rfl
  · -- the number begins the match
    obtain ⟨hpre, hbetween, hfirst⟩ := hnumberOf pre hparts
    exact ⟨⟨[], pre, rfl, hpre, hword, hperiod, hfirst⟩, ⟨between, left, rfl, hbetween, hclose⟩⟩
  · -- a sign begins the match, and is none of the digits
    cases pre with
    | nil =>
      obtain ⟨c, rest, hcons⟩ := List.exists_cons_of_ne_nil hrun.ne_nil
      have hc : c.isDigit = true := hrun.2 c (hcons ▸ List.mem_cons_self)
      rw [hcons] at hparts
      rw [(List.cons.inj hparts).1] at hc
      exact absurd hc (by decide)
    | cons c pre =>
      have hinj : c = ofChar '+' ∧ pre ++ (run ++ between) = d :: (mid ++ [e]) :=
        List.cons.inj hparts
      obtain ⟨rfl, htail⟩ := hinj
      obtain ⟨hpre, hbetween, hfirst⟩ := hnumberOf pre htail
      have hplus : inWord U (some (ofChar '+')) = false := by
        rw [inWord, Option.any_some, U.word_ascii _ (by decide)]
        decide
      have hsign : (some (ofChar '+')).any (· = ofChar '.') = false := by decide
      exact ⟨⟨[ofChar '+'], pre, rfl, hpre, hplus, hsign, hfirst⟩,
        ⟨between, left, rfl, hbetween, hclose⟩⟩

end

/-! ## Scrubbing -/

section

variable {U : UnicodeText} {prev : Option CodePoint} {text out : PyStr}

/-- `_NUMBER_RUN.sub(_scrub_number, ..)`, from a place of the text on. -/
abbrev ScansNumbers (U : UnicodeText) : Option CodePoint → PyStr → PyStr → Prop :=
  Scans (numberRun U) (scrubNumber U id id)

/-- Within digits nothing is found. -/
theorem scans_digits {run : PyStr} : ∀ {prev : Option CodePoint} {post out : PyStr},
    inWord U prev = true → (∀ c ∈ run, c.isDigit = true) →
      ScansNumbers U prev (run ++ post) out → ∃ left, out = run ++ left := by
  induction run with
  | nil => exact fun _ _ _ => ⟨_, rfl⟩
  | cons c run ih =>
    intro prev post out hprev hrun h
    rw [List.cons_append] at h
    generalize htext : c :: (run ++ post) = text at h
    cases h with
    | nil => cases htext
    | @skip _ d rest out hfind h =>
      have hinj : c = d ∧ run ++ post = rest := List.cons.inj htext
      obtain ⟨rfl, rfl⟩ := hinj
      obtain ⟨left, rfl⟩ := ih (inWord_of_digit (hrun c List.mem_cons_self))
        (fun e he => hrun e (List.mem_cons_of_mem _ he)) h
      exact ⟨left, rfl⟩
    | @hit _ found left out hne hfind h =>
      rw [(found_numberRun hfind).1] at hprev
      cases hprev

/-- **What is not reached stays.** -/
theorem stays_of_not_reached (h : ScansNumbers U prev text out) : ∀ {pre run post : PyStr},
    text = pre ++ (run ++ post) → TenDigits run → ¬Reached U prev pre run post →
      run <:+: out := by
  induction h with
  | nil =>
    intro pre run post htext hrun _
    have hnil := List.append_eq_nil_iff.mp (List.append_eq_nil_iff.mp htext.symm).2
    exact absurd hnil.1 hrun.ne_nil
  | @skip prev c rest out hfind h ih =>
    intro pre run post htext hrun hnot
    cases pre with
    | nil =>
      obtain ⟨d, run', rfl⟩ := List.exists_cons_of_ne_nil hrun.ne_nil
      have hinj : c = d ∧ rest = run' ++ post := List.cons.inj htext
      obtain ⟨rfl, rfl⟩ := hinj
      obtain ⟨left, rfl⟩ := scans_digits (inWord_of_digit (hrun.2 c List.mem_cons_self))
        (fun e he => hrun.2 e (List.mem_cons_of_mem _ he)) h
      exact (List.prefix_append (c :: run') left).isInfix
    | cons d pre =>
      have hinj : c = d ∧ rest = pre ++ (run ++ post) := List.cons.inj htext
      obtain ⟨rfl, hrest⟩ := hinj
      refine (ih hrest hrun fun hreached => hnot ?_).trans (List.infix_cons List.infix_rfl)
      exact (show Reached U (lastOr prev [c]) pre run post from hreached).append
  | @hit prev found left out hne hfind h ih =>
    intro pre run post htext hrun hnot
    rcases List.append_eq_append_iff.mp htext with ⟨rest, rfl, hleft⟩ | ⟨taken, hfound, hpost⟩
    · refine (ih hleft hrun fun hreached => hnot hreached.append).trans ?_
      exact (List.suffix_append _ out).isInfix
    · by_cases htaken : taken = []
      · subst htaken
        rw [List.append_nil] at hfound
        subst hfound
        refine (ih (show left = [] ++ (run ++ post) from hpost.symm) hrun fun hreached =>
          hnot ?_).trans (List.suffix_append _ out).isInfix
        have hwhole := hreached.append
        rwa [List.append_nil] at hwhole
      · exact absurd (reached_of_found hrun hfind hfound hpost htaken) hnot

/-- A match that is left as it is has fewer than ten digits. -/
theorem scrubNumber_cases (hdigits : ReadsDigits U) (found : PyStr) :
    scrubNumber U id id found = redactedNumber ∨
      scrubNumber U id id found = found ∧ ∀ run, run <:+: found → ¬TenDigits run := by
  unfold scrubNumber
  by_cases hcount : 10 ≤ (found.filter fun a => U.digit (id a)).length
  · rw [if_pos hcount]
    exact Or.inl (List.map_id _)
  · rw [if_neg hcount]
    refine Or.inr ⟨rfl, fun run hinside hrun => hcount ?_⟩
    have hsub := (hinside.sublist.filter fun a => U.digit (id a)).length_le
    have hself : (run.filter fun a => U.digit (id a)) = run :=
      List.filter_eq_self.mpr fun c hc => hdigits.digit c (hrun.2 c hc)
    rwa [hself, hrun.1] at hsub

theorem not_digit_of_redacted {c : CodePoint} (h : c ∈ redactedNumber) : c.isDigit = false := by
  have hall : redactedNumber.all (fun c => !c.isDigit) = true := by decide
  simpa using List.all_eq_true.mp hall c h

/-- The digits that the result starts with are those that the text starts with. -/
theorem leading_digits (hdigits : ReadsDigits U) (h : ScansNumbers U prev text out) :
    ∀ {lead : PyStr}, lead.length ≤ 10 → lead <+: out → (∀ c ∈ lead, c.isDigit = true) →
      lead <+: text := by
  induction h with
  | nil => exact fun _ hlead _ => hlead
  | @skip prev c rest out hfind h ih =>
    intro lead hlen hlead hall
    rcases List.prefix_cons_iff.mp hlead with rfl | ⟨lead', rfl, hlead'⟩
    · exact List.nil_prefix
    · rw [List.length_cons] at hlen
      exact List.cons_prefix_cons.mpr ⟨rfl, ih (by omega) hlead'
        fun d hd => hall d (List.mem_cons_of_mem _ hd)⟩
  | @hit prev found left out hne hfind h ih =>
    intro lead hlen hlead hall
    rcases scrubNumber_cases hdigits found with hredacted | ⟨hkept, hfew⟩
    · cases lead with
      | nil => exact List.nil_prefix
      | cons c lead =>
        rw [hredacted] at hlead
        have hfirst : c = ofChar '[' := (List.cons_prefix_cons.mp hlead).1
        have hc := hall c List.mem_cons_self
        rw [hfirst] at hc
        exact absurd hc (by decide)
    · rw [hkept] at hlead
      obtain ⟨rest, hrest⟩ := hlead
      rcases List.append_eq_append_iff.mp hrest with ⟨more, rfl, -⟩ | ⟨more, rfl, -⟩
      · rw [List.append_assoc]
        exact List.prefix_append lead _
      · -- the match would be ten digits
        refine absurd ?_ (hfew found List.infix_rfl)
        refine ⟨?_, fun c hc => hall c (List.mem_append_left _ hc)⟩
        obtain ⟨-, -, -, sign, d, mid, e, -, -, -, hmid, -, rfl⟩ := found_numberRun hfind
        simp only [List.length_append, List.length_cons, List.length_nil] at hlen ⊢
        omega

/-- A match is as long as possible: what is reached behind it is not reached from it. -/
theorem reached_behind (hdigits : ReadsDigits U) {found left pre run post : PyStr}
    (hten : TenDigits run)
    (hfind : (numberRun U).find ⟨prev, found ++ left⟩ = some ⟨lastOr prev found, left⟩)
    (hleft : left = pre ++ (run ++ post)) (h : Reached U prev (found ++ pre) run post) :
    Reached U (lastOr prev found) pre run post := by
  obtain ⟨hword, hperiod, hnext, sign, d, mid, e, hsign, hd, hmid, hlong, he, hfound⟩ :=
    found_numberRun hfind
  obtain ⟨before, between, hpre, hbetween, hbegins⟩ := h.begins
  rcases List.append_eq_append_iff.mp hpre with ⟨rest, rfl, rfl⟩ | ⟨rest, rfl, rfl⟩
  · rw [lastOr_append] at hbegins
    exact ⟨⟨rest, between, rfl, hbetween, hbegins⟩, h.ends⟩
  · -- the match would go on to where the number ends
    obtain ⟨last, after, rfl, hlast, hend, hafter⟩ := h.ends
    obtain ⟨init, e', hinit⟩ : ∃ init e', run ++ last = init ++ [e'] := by
      obtain hnil | ⟨init, e', hinit⟩ := List.eq_nil_or_concat (run ++ last)
      · exact absurd (List.append_eq_nil_iff.mp hnil).1 hten.ne_nil
      · exact ⟨init, e', by rw [hinit, List.concat_eq_append]⟩
    have hrunChars : ∀ c ∈ run ++ last, isRunChar U c = true := by
      intro c hc
      rcases List.mem_append.mp hc with hc | hc
      · exact hdigits.runChar (hten.2 c hc)
      · exact hlast c hc
    have hmid' : ∀ c ∈ mid ++ (e :: (pre ++ init)), isRunChar U c = true := by
      intro c hc
      rcases List.mem_append.mp hc with hc | hc
      · exact hmid c hc
      · rcases List.mem_cons.mp hc with rfl | hc
        · exact isRunChar_of_decimal he
        · rcases List.mem_append.mp hc with hc | hc
          · exact hbetween c (List.mem_append_right _ hc)
          · exact hrunChars c (hinit ▸ List.mem_append_left _ hc)
    have he' : U.decimal e' = true := by
      rw [hinit, List.getLast?_concat] at hend
      simpa using hend
    have hlonger : (⟨lastOr prev (sign ++ d :: (mid ++ (e :: (pre ++ init)) ++ [e'])), after⟩ :
        Place CodePoint) ∈ (numberRun U).ends ⟨prev, before ++ rest ++ left⟩ := by
      refine mem_numberRun.mpr ⟨hword, hperiod, sign, d, _, e', hsign, hd, hmid', ?_, he',
        ⟨?_, rfl⟩, hafter⟩
      · rw [List.length_append]
        omega
      · have hwhole : run ++ (last ++ after) = init ++ (e' :: after) := by
          rw [← List.append_assoc, hinit, List.append_assoc]
          rfl
        change before ++ rest ++ left = _
        rw [hfound, hleft, hwhole]
        simp only [List.append_assoc, List.cons_append, List.nil_append]
    have hle := numberRun_longest hdigits hfind hlonger
    rw [hleft] at hle
    simp only [List.length_append, hten.1] at hle
    omega

/-- **Where all is reached, no long run stays.** -/
theorem noLongRun_of_reached (hdigits : ReadsDigits U) (h : ScansNumbers U prev text out) :
    RunsReached U prev text → NoLongRun out := by
  induction h with
  | nil =>
    intro _ run hrun hten
    exact hten.ne_nil (List.infix_nil.mp hrun)
  | @skip prev c rest out hfind h ih =>
    intro hreached
    -- nothing begins here: otherwise a number would be found
    have hlater : ∀ pre run post : PyStr, c :: rest = pre ++ (run ++ post) → TenDigits run →
        (∀ d ∈ pre, isRunChar U d = true) → BeginsNumber U prev (pre ++ run).head? →
          (∃ between after, post = between ++ after ∧ (∀ d ∈ between, isRunChar U d = true) ∧
            EndsNumber U (run ++ between).getLast? after.head?) → False := by
      rintro pre run post htext hten hpre hbegins ⟨between, after, rfl, hbetween, hends⟩
      obtain ⟨stop, hstop, -⟩ := mem_numberRun_of_reached hdigits hten hpre hbegins hbetween hends
      rw [← htext] at hstop
      unfold find at hfind
      rw [List.head?_eq_none_iff.mp hfind] at hstop
      cases hstop
    have hrest : RunsReached U (some c) rest := by
      intro pre run post htext hten
      have hwhole := hreached (c :: pre) run post (by rw [htext]; rfl) hten
      obtain ⟨before, between, hpre, hbetween, hbegins⟩ := hwhole.begins
      cases before with
      | nil =>
        rw [List.nil_append] at hpre
        refine (hlater (c :: pre) run post (by rw [htext]; rfl) hten (hpre ▸ hbetween) ?_
          hwhole.ends).elim
        rw [hpre]
        exact hbegins
      | cons d before =>
        have hinj : c = d ∧ pre = before ++ between := List.cons.inj hpre
        obtain ⟨rfl, rfl⟩ := hinj
        rw [lastOr_cons] at hbegins
        exact ⟨⟨before, between, rfl, hbetween, hbegins⟩, hwhole.ends⟩
    intro run hrun hten
    rcases List.infix_cons_iff.mp hrun with hstart | hinside
    · obtain ⟨post, htext⟩ := leading_digits hdigits (.skip hfind h) (le_of_eq hten.1) hstart
        hten.2
      have hwhole := hreached [] run post htext.symm hten
      obtain ⟨before, between, hpre, hbetween, hbegins⟩ := hwhole.begins
      obtain ⟨rfl, rfl⟩ := List.append_eq_nil_iff.mp hpre.symm
      exact hlater [] run post htext.symm hten hbetween hbegins hwhole.ends
    · exact ih hrest run hinside hten
  | @hit prev found left out hne hfind h ih =>
    intro hreached
    have hleft : RunsReached U (lastOr prev found) left := by
      intro pre run post htext hten
      have hwhole := hreached (found ++ pre) run post
        (by rw [htext]; simp only [List.append_assoc]) hten
      exact reached_behind hdigits hten hfind htext hwhole
    obtain ⟨-, -, hnext, -⟩ := found_numberRun hfind
    intro run hrun hten
    rcases List.infix_append_iff_ne_nil.mp hrun with
      hfound | hout | ⟨x, y, hx, hy, rfl, hsuffix, hy'⟩
    · rcases scrubNumber_cases hdigits found with hredacted | ⟨hkept, hfew⟩
      · obtain ⟨c, hc⟩ := List.exists_mem_of_ne_nil run hten.ne_nil
        have hdigit := hten.2 c hc
        rw [not_digit_of_redacted (hredacted ▸ hfound.subset hc)] at hdigit
        cases hdigit
      · exact hfew run (hkept ▸ hfound) hten
    · exact ih hleft run hout hten
    · have hlen : y.length ≤ 10 := by
        have hten' := hten.1
        rw [List.length_append] at hten'
        omega
      obtain ⟨rest, hrest⟩ := leading_digits hdigits h hlen hy' fun c hc =>
        hten.2 c (List.mem_append_right _ hc)
      obtain ⟨c, y, rfl⟩ := List.exists_cons_of_ne_nil hy
      have hc : c.isDigit = true := hten.2 c (List.mem_append_right _ List.mem_cons_self)
      rw [← hrest, List.cons_append, List.head?_cons, inWord_of_digit hc] at hnext
      cases hnext

end

/-! ## What is stored -/

section

variable {U : UnicodeText}

/-- A match is no empty text. -/
theorem numberRun_shorter {start stop : Place CodePoint} (h : stop ∈ (numberRun U).ends start) :
    stop.rest.length < start.rest.length := by
  obtain ⟨-, -, sign, d, mid, e, -, -, -, -, -, ⟨hrest, -⟩, -⟩ := mem_numberRun.mp h
  rw [hrest]
  simp only [List.length_append, List.length_cons]
  omega

theorem scrubPii_eq (text : PyStr) : scrubPii U text =
    (numberRun U).sub id (scrubNumber U id id) (besidesNumbers U text) := by
  unfold scrubPii scrubMarked besidesNumbers
  simp only [List.map_id]

/-- Of a string, the long runs that are not reached stay, and no others. -/
theorem scrubPii_runs (hdigits : ReadsDigits U) (text : PyStr) :
    NoLongRun (scrubPii U text) ↔ RunsReached U none (besidesNumbers U text) := by
  rw [scrubPii_eq]
  have hshorter : ∀ start, ∀ stop ∈ (numberRun U).ends start,
      stop.rest.length < start.rest.length := fun _ _ h => numberRun_shorter h
  have hscans := scans_sub hshorter (scrubNumber U id id) (besidesNumbers U text)
  constructor
  · intro hnone pre run post htext hten
    by_contra hnot
    exact hnone run (stays_of_not_reached hscans htext hten hnot) hten
  · exact noLongRun_of_reached hdigits hscans

/-- **Long runs of digits are replaced exactly where they are reached**, in a string and
at any depth of a captured value. -/
theorem long_runs_iff (hdigits : ReadsDigits U) :
    (∀ text, NoLongRun (scrubPii U text) ↔ RunsReached U none (besidesNumbers U text)) ∧
      ∀ value, Texts NoLongRun (redactForCapture U value) ↔
        KeptTexts U (fun text => RunsReached U none (besidesNumbers U text)) value := by
  refine ⟨scrubPii_runs hdigits, fun value => ?_⟩
  refine texts_redactForCapture ?_ (scrubPii_runs hdigits) value
  intro run hrun hten
  have hlen := hrun.length_le
  rw [hten.1] at hlen
  have hshort : redacted.length = 10 := rfl
  rw [hrun.eq_of_length (hten.1.trans hshort.symm)] at hten
  exact absurd (hten.2 (ofChar '[') List.mem_cons_self) (by decide)

end

/-! ## A phone number -/

theorem asciiText_digits : ReadsDigits asciiText := ⟨fun _ _ => rfl, fun _ h => h⟩

/-- A string with a phone number. -/
def phoneNote (before : String) : PyStr := py (before ++ "4155550123")

/-- After a blank it is replaced. -/
theorem phone_reached : RunsReached asciiText none (besidesNumbers asciiText (phoneNote "call ")) ∧
    Texts NoLongRun (redactForCapture asciiText (.arr [.str (phoneNote "call ")])) := by
  have hscrubbed : scrubPii asciiText (phoneNote "call ") = py "call [redacted:number]" := by
    decide +kernel
  have hnone : NoLongRun (py "call [redacted:number]") := by
    intro run hrun hten
    obtain ⟨c, hc⟩ := List.exists_mem_of_ne_nil run hten.ne_nil
    have hall : (py "call [redacted:number]").all (fun c => !c.isDigit) = true := by decide
    have hno := List.all_eq_true.mp hall c (hrun.subset hc)
    rw [hten.2 c hc] at hno
    cases hno
  obtain ⟨hstring, hvalue⟩ := long_runs_iff asciiText_digits
  have hreached := (hstring (phoneNote "call ")).mp (hscrubbed ▸ hnone)
  refine ⟨hreached, (hvalue _).mpr ?_⟩
  rw [KeptTexts, KeptOfItems, KeptOfItems, KeptTexts]
  exact ⟨hreached, trivial⟩

/-- After a letter it is stored as it is. -/
theorem phone_stays : ¬∀ U : UnicodeText, ReadsDigits U → ∀ text, NoLongRun (scrubPii U text) := by
  intro h
  have hscrubbed : scrubPii asciiText (phoneNote "x") = phoneNote "x" := by decide +kernel
  have hnone := h asciiText asciiText_digits (phoneNote "x")
  rw [hscrubbed] at hnone
  refine hnone (py "4155550123") ⟨py "x", [], rfl⟩ ⟨rfl, ?_⟩
  have hall : (py "4155550123").all isDigit = true := by decide
  exact List.all_eq_true.mp hall

end Redact

end LayaWatch
