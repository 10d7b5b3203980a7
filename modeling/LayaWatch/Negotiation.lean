import LayaWatch.Startup
import LayaWatch.Lib.Machine

/-!
# Content negotiation

The two places that read `Accept-Encoding`: the bridge of `app.py`, which looks for the
letters `gzip` anywhere in the header and remembers what it found, and `_acceptable` of
`http/static.py`, which reads the elements of the header and their weights. What the
bridge remembers never changes its answer; its answer is that of `_acceptable` exactly on
the headers that spell `gzip` where they admit it and nowhere else
(`negotiators_agree_iff`).
-/

namespace LayaWatch

namespace Negotiation

/-! ## The bridge -/

/-- `"gzip" in accept`. -/
def mentionsGzip (accept : PyStr) : Bool := decide (py "gzip" <:+: accept)

/-- `_GZIP_ACCEPT`. -/
abbrev GzipMemo : Type := Dict PyStr Bool

/-- `_GZIP_ACCEPT_MAX`. -/
def gzipAcceptMax : ℕ := 64

/-- `_GZIP_MIN`. -/
def gzipMin : ℕ := 1024

/-- `_gzip_acceptable`: the decision, and the memo after it. -/
def gzipAcceptable (memo : GzipMemo) (accept : PyStr) : Bool × GzipMemo :=
  match memo.get accept with
  | some decision => (decision, memo)
  | none =>
    let kept := if gzipAcceptMax ≤ memo.entries.length then .empty else memo
    (mentionsGzip accept, kept.set accept (mentionsGzip accept))

/-- What a response carries. -/
structure Payload where
  /-- `status` -/
  status : ℤ
  /-- `headers` -/
  headers : Dict PyStr PyStr
  /-- `body` -/
  body : List ℕ

/-- `_gzipped`, with the memo after it; `compress` is that of `gzip`. -/
def gzipped (compress : List ℕ → List ℕ) (memo : GzipMemo) (resp : Payload) (accept : PyStr) :
    Option Payload × GzipMemo :=
  if resp.status = 204 ∨ resp.status = 304 ∨ resp.body.length ≤ gzipMin then (none, memo)
  else
    let asked := gzipAcceptable memo accept
    if !asked.1 then (none, asked.2)
    else if !(py "application/json").isPrefixOf
        (PyStr.orEmpty (resp.headers.get (py "Content-Type"))) then (none, asked.2)
    else if PyStr.truthy (resp.headers.get (py "Content-Encoding")) then (none, asked.2)
    else
      let compressed := compress resp.body
      let headers := ((resp.headers.set (py "Content-Encoding") (py "gzip")).set (py "Vary")
        (py "Accept-Encoding")).set (py "Content-Length") (JsonText.dumpsInt compressed.length)
      (some { resp with headers := headers, body := compressed }, asked.2)

/-- Headers that the bridge is asked about, one after the other. -/
def machine : Machine GzipMemo PyStr :=
  ⟨fun memo => memo = .empty, fun memo accept => some (gzipAcceptable memo accept).2⟩

/-! ## The static server -/

section

variable (T : EnvText)

/-- The loop over the parameters of an element: the first weight decides. -/
def admitted : List PyStr → Bool
  | [] => true
  | param :: rest =>
    let key := param.takeWhile (· ≠ CodePoint.ofChar '=')
    let value := (param.dropWhile (· ≠ CodePoint.ofChar '=')).tail
    if T.lower (PyStr.strip key) = py "q" then
      match T.number (PyStr.strip value) with
      | some weight => weight.isPositive
      | none => false
    else admitted rest

/-- The loop over the elements: the first that names the token decides. -/
def acceptableIn (token : PyStr) : List PyStr → Bool
  | [] => false
  | part :: rest =>
    let name := part.takeWhile (· ≠ CodePoint.ofChar ';')
    let params := (part.dropWhile (· ≠ CodePoint.ofChar ';')).tail
    if T.lower (PyStr.strip name) ≠ token then acceptableIn token rest
    else admitted T (params.splitOn (CodePoint.ofChar ';'))

/-- `_acceptable`. -/
def acceptable (accept token : PyStr) : Bool :=
  acceptableIn T token (accept.splitOn (CodePoint.ofChar ','))

/-- `_ENCODINGS`, in the order of preference. -/
def encodings : List PyStr := [py "br", py "gzip"]

/-- The `Content-Encoding` of `_serve_file`: that of the first sidecar there is which the
client accepts, if it can be read. -/
def servedEncoding (available readable : List PyStr) (accept : PyStr) : Option PyStr :=
  (encodings.find? fun token => available.contains token && acceptable T accept token).filter
    fun token => readable.contains token

/-! ## What a header says -/

/-- The element names the token. -/
def names (token part : PyStr) : Bool :=
  decide (T.lower (PyStr.strip (part.takeWhile (· ≠ CodePoint.ofChar ';'))) = token)

/-- The value of a parameter, if it is a weight. -/
def weightOf (param : PyStr) : Option PyStr :=
  if T.lower (PyStr.strip (param.takeWhile (· ≠ CodePoint.ofChar '='))) = py "q" then
    some (PyStr.strip (param.dropWhile (· ≠ CodePoint.ofChar '=')).tail)
  else none

/-- The element refuses what it names: its first weight is not a positive number. -/
def Refuses (part : PyStr) : Prop :=
  ∃ value, (((part.dropWhile (· ≠ CodePoint.ofChar ';')).tail).splitOn
      (CodePoint.ofChar ';')).findSome? (weightOf T) = some value ∧
    ∀ weight, T.number value = some weight → weight.isPositive = false

/-- Where the header names `gzip`, in any case, the letters `gzip` occur in it exactly if its
first element of that name does not refuse; elsewhere they do not occur at all. -/
def SpelledAsMeant (accept : PyStr) : Prop :=
  match (accept.splitOn (CodePoint.ofChar ',')).find? (names T (py "gzip")) with
  | none => mentionsGzip accept = false
  | some part => mentionsGzip accept = true ↔ ¬Refuses T part

/-- The two negotiators agree on a header, whatever headers were seen before; and no body
is compressed for a client that does not accept it. -/
structure NegotiatorsAgree (compress : List ℕ → List ℕ) (accept : PyStr) : Prop where
  /-- one decision -/
  decision : ∀ memo, machine.Reachable memo →
    (gzipAcceptable memo accept).1 = acceptable T accept (py "gzip")
  /-- what the bridge compresses is accepted -/
  bridge : ∀ memo, machine.Reachable memo → ∀ resp out,
    (gzipped compress memo resp accept).1 = some out → acceptable T accept (py "gzip") = true
  /-- what the static server serves compressed is accepted -/
  static : ∀ available readable, servedEncoding T available readable accept = some (py "gzip") →
    acceptable T accept (py "gzip") = true

end

/-! ## The memo -/

variable {T : EnvText} {memo : GzipMemo} {accept token part : PyStr}

/-- Every answer that is remembered is the one that was found. -/
def Remembers (memo : GzipMemo) : Prop :=
  ∀ accept decision, memo.get accept = some decision → decision = mentionsGzip accept

theorem Remembers.step (h : Remembers memo) : Remembers (gzipAcceptable memo accept).2 := by
  unfold gzipAcceptable
  rcases hget : memo.get accept with _ | decision
  · intro other decision hother
    dsimp only at hother
    by_cases hsame : other = accept
    · subst hsame
      rw [Dict.get_set_self] at hother
      exact (Option.some.inj hother).symm
    · rw [Dict.get_set_ne _ _ hsame] at hother
      -- what is kept of the memo is all of it or nothing
      split at hother
      · cases hother
      · exact h other decision hother
  · exact h

theorem remembers_of_reachable (h : machine.Reachable memo) : Remembers memo := by
  refine h.invariant ?_ ?_
  · rintro _ rfl accept decision hget
    cases hget
  · rintro memo accept _ hremembers hstep
    obtain rfl : (gzipAcceptable memo accept).2 = _ := Option.some.inj hstep
    exact hremembers.step

/-- What was seen before does not change the answer. -/
theorem gzipAcceptable_eq (h : Remembers memo) :
    (gzipAcceptable memo accept).1 = mentionsGzip accept := by
  unfold gzipAcceptable
  rcases hget : memo.get accept with _ | decision
  · rfl
  · exact h accept decision hget

/-- The memo does not grow beyond its bound. -/
theorem gzipAcceptable_bounded (h : memo.entries.length ≤ gzipAcceptMax) :
    (gzipAcceptable memo accept).2.entries.length ≤ gzipAcceptMax := by
  unfold gzipAcceptable
  rcases hget : memo.get accept with _ | decision
  · dsimp only
    split
    · exact Nat.le_of_ble_eq_true rfl
    · rw [Dict.entries_set_new _ (Dict.get_eq_none.mp hget), List.length_append,
        List.length_singleton]
      omega
  · exact h

/-- The memo is capped, whatever headers come. -/
theorem memo_bounded (h : machine.Reachable memo) : memo.entries.length ≤ gzipAcceptMax := by
  refine h.invariant (I := fun memo => memo.entries.length ≤ gzipAcceptMax) ?_ ?_
  · rintro _ rfl
    exact Nat.zero_le _
  · rintro memo accept _ hbound hstep
    obtain rfl : (gzipAcceptable memo accept).2 = _ := Option.some.inj hstep
    exact gzipAcceptable_bounded hbound

/-! ## The elements -/

/-- An element admits what it names unless it refuses it. -/
theorem admitted_eq (params : List PyStr) : admitted T params =
    ((params.findSome? (weightOf T)).all fun value =>
      (T.number value).any PyFloat.isPositive) := by
  induction params with
  | nil => rfl
  | cons param rest ih =>
    unfold admitted
    rw [List.findSome?_cons]
    unfold weightOf
    dsimp only
    split
    case isTrue =>
      dsimp only [Option.all_some]
      rcases T.number _ with _ | weight <;> rfl
    case isFalse => exact ih

theorem admitted_iff : admitted T (((part.dropWhile (· ≠ CodePoint.ofChar ';')).tail).splitOn
    (CodePoint.ofChar ';')) = true ↔ ¬Refuses T part := by
  rw [admitted_eq]
  unfold Refuses
  rcases ((part.dropWhile (· ≠ CodePoint.ofChar ';')).tail.splitOn
    (CodePoint.ofChar ';')).findSome? (weightOf T) with _ | value
  · refine iff_of_true rfl ?_
    rintro ⟨_, hnone, -⟩
    cases hnone
  · simp only [Option.all_some, Option.some.injEq, exists_eq_left']
    rcases T.number value with _ | weight
    · exact iff_of_false Bool.false_ne_true fun h => h fun _ hnone => by cases hnone
    · simp

/-- What the static server decides. -/
theorem acceptableIn_iff (parts : List PyStr) : acceptableIn T token parts = true ↔
    ∃ part, parts.find? (names T token) = some part ∧ ¬Refuses T part := by
  induction parts with
  | nil =>
    refine iff_of_false Bool.false_ne_true ?_
    rintro ⟨_, hnone, -⟩
    cases hnone
  | cons part rest ih =>
    unfold acceptableIn
    dsimp only
    by_cases hname : names T token part = true
    · rw [if_neg (not_not.mpr (of_decide_eq_true hname)), List.find?_cons_of_pos hname,
        admitted_iff]
      simp only [Option.some.injEq, exists_eq_left']
    · rw [if_pos fun heq => hname (decide_eq_true heq), List.find?_cons_of_neg hname]
      exact ih

/-- Both decisions are one exactly if the header spells what it means. -/
theorem mentionsGzip_eq_iff :
    mentionsGzip accept = acceptable T accept (py "gzip") ↔ SpelledAsMeant T accept := by
  rw [Bool.eq_iff_iff]
  unfold acceptable SpelledAsMeant
  rw [acceptableIn_iff]
  rcases (accept.splitOn (CodePoint.ofChar ',')).find? (names T (py "gzip")) with _ | part
  · simp
  · simp only [Option.some.injEq, exists_eq_left']

/-! ## The two together -/

/-- What the bridge compresses, it has been asked about. -/
theorem gzipped_accepted {compress : List ℕ → List ℕ} {resp out : Payload}
    (h : (gzipped compress memo resp accept).1 = some out) :
    (gzipAcceptable memo accept).1 = true := by
  by_contra hrefused
  unfold gzipped at h
  split at h
  · cases h
  · rw [if_pos (by simpa using hrefused)] at h
    cases h

theorem served_accepted {available readable : List PyStr}
    (h : servedEncoding T available readable accept = some token) :
    acceptable T accept token = true := by
  obtain ⟨hfound, -⟩ := Option.filter_eq_some_iff.mp h
  have hboth := List.find?_some hfound
  exact (Bool.and_eq_true_iff.mp hboth).2

/-- **The two negotiators** agree on a header, whatever headers were seen before, exactly if
the header spells `gzip` where it admits it and nowhere else. -/
theorem negotiators_agree_iff (T : EnvText) (compress : List ℕ → List ℕ) (accept : PyStr) :
    NegotiatorsAgree T compress accept ↔ SpelledAsMeant T accept := by
  constructor
  · intro h
    -- the first request finds the memo empty
    have hempty := h.decision .empty ⟨.empty, [], rfl, .refl⟩
    exact mentionsGzip_eq_iff.mp hempty
  · intro h
    -- the memo never changes a decision
    have hdecision : ∀ memo, machine.Reachable memo →
        (gzipAcceptable memo accept).1 = acceptable T accept (py "gzip") := by
      intro memo hmemo
      rw [gzipAcceptable_eq (remembers_of_reachable hmemo)]
      exact mentionsGzip_eq_iff.mpr h
    refine ⟨hdecision, fun memo hmemo resp out hout => ?_, fun _ _ => served_accepted⟩
    rw [← hdecision memo hmemo]
    exact gzipped_accepted hout

/-- What browsers send. -/
example : SpelledAsMeant wholeEnv (py "gzip, deflate, br") :=
  mentionsGzip_eq_iff.mp (by decide +kernel)

/-- **A refusal overheard**: `gzip;q=0` has the letters, and refuses them. -/
theorem refusal_overheard : ¬∀ (T : EnvText) (compress : List ℕ → List ℕ) (accept : PyStr),
    NegotiatorsAgree T compress accept := by
  intro h
  have hdecision := (h wholeEnv id (py "gzip;q=0")).decision .empty ⟨.empty, [], rfl, .refl⟩
  revert hdecision
  decide +kernel

end Negotiation

end LayaWatch
