import LayaWatch.Http
import LayaWatch.JsonText

/-!
# Reading a body

`_read_body` of `app.py`, with the checks of `handle` that come before it. The server hands
the body over in `http.request` messages, cut as it likes. What the body is to be is told by
its bytes alone (`wantedBody`), and when no later message can change that (`Decided`).

With a declared length, the loop that pulls more messages stops when the declared bytes are
there, and returns all that it pulled: only the way out for a single message cuts at the
declared length. So the body is as it is to be exactly if no message after the first goes past
the declared length (`body_reading_iff`).
-/

namespace LayaWatch

/-- `bytes`. -/
abbrev Bytes : Type := List UInt8

/-- An `http.request` message. -/
structure BodyMessage where
  /-- `body` -/
  body : Bytes
  /-- `more_body` -/
  moreBody : Bool
  deriving DecidableEq

/-- What `_read_body` returns. -/
inductive BodyRead where
  /-- `bytes` -/
  | body (bytes : Bytes)
  /-- `RawResponse` -/
  | refused (e : HttpError)

/-- What `handle` reads of a request before it has the body. -/
structure AsgiRequest where
  /-- `method` -/
  method : PyStr
  /-- `headers.get("content-length")` -/
  contentLength : Option PyStr
  /-- `"transfer-encoding" in headers` -/
  transferEncoding : Bool
  /-- what `receive()` gives, one after the other -/
  messages : List BodyMessage

/-- What the loops of `_read_body` leave. -/
structure Pulled where
  /-- `parts` -/
  parts : List Bytes
  /-- `total` -/
  total : ℤ
  /-- the messages that were not received -/
  left : List BodyMessage

/-- `chunk[:declared]`. -/
def firstBytes (chunk : Bytes) (declared : ℤ) : Bytes :=
  if 0 ≤ declared then chunk.take declared.toNat
  else chunk.take (chunk.length + declared).toNat

/-- The two loops of `_read_body`: pull messages while `owed` of the total holds. -/
def pull (owed : ℤ → Bool) (parts : List Bytes) (total : ℤ) (message : BodyMessage) :
    List BodyMessage → Option Pulled
  | [] =>
    -- with nothing to receive `receive()` waits
    if message.moreBody && owed total then none
    else some ⟨parts, total, []⟩
  | next :: left =>
    if message.moreBody && owed total then
      pull owed (parts ++ [next.body]) (total + next.body.length) next left
    else some ⟨parts, total, next :: left⟩

/-- The 413 of a body that is longer than the cap. -/
def tooLarge (cap : ℤ) : HttpError where
  status := 413
  code := py "payload_too_large"
  message := [.text (py "request body exceeds "), .str (JsonText.dumpsInt cap), .text (py " bytes")]

/-- `_read_body`, with what is left to receive. -/
def readBody (declared : Option ℤ) (cap : ℤ) :
    List BodyMessage → Option (BodyRead × List BodyMessage)
  | [] => none
  | message :: left =>
    let chunk := message.body
    match declared with
    | some declared =>
      if declared ≤ chunk.length then some (.body (firstBytes chunk declared), left)
      else
        (pull (· < declared) [chunk] chunk.length message left).map fun pulled =>
          (.body pulled.parts.flatten, pulled.left)
    | none =>
      (pull (· ≤ cap) [chunk] chunk.length message left).map fun pulled =>
        if cap < pulled.total then (.refused (tooLarge cap), pulled.left)
        else (.body pulled.parts.flatten, pulled.left)

section

variable (int : PyStr → Option ℤ)

/-- The checks of `handle` before the body is read; the declared length. -/
def declaredLength (maxBodyBytes : ℤ) (asgi : AsgiRequest) : Except HttpError (Option ℤ) :=
  match asgi.contentLength with
  | some text =>
    match int text with
    | none => .error (.plain 400 "invalid_content_length" "invalid Content-Length")
    | some declared =>
      if maxBodyBytes < declared then .error (tooLarge maxBodyBytes) else .ok (some declared)
  | none =>
    if asgi.method ∈ [py "POST", py "PUT", py "PATCH"] ∧ asgi.transferEncoding = false then
      .error (.plain 411 "length_required" "Content-Length header is required")
    else .ok none

/-- `handle`, as far as the body. -/
def requestBody (maxBodyBytes : ℤ) (asgi : AsgiRequest) :
    Option (BodyRead × List BodyMessage) :=
  match declaredLength int maxBodyBytes asgi with
  | .error e => some (.refused e, asgi.messages)
  | .ok declared => readBody declared maxBodyBytes asgi.messages

end

/-! ## What the body is to be -/

/-- The concatenated body. -/
def bodyBytes (messages : List BodyMessage) : Bytes := messages.flatMap (·.body)

@[simp] theorem bodyBytes_append (messages messages' : List BodyMessage) :
    bodyBytes (messages ++ messages') = bodyBytes messages ++ bodyBytes messages' :=
  List.flatMap_append

@[simp] theorem bodyBytes_cons (message : BodyMessage) (messages : List BodyMessage) :
    bodyBytes (message :: messages) = message.body ++ bodyBytes messages := rfl

@[simp] theorem bodyBytes_nil : bodyBytes [] = [] := rfl

/-- All messages but the last say that there is more. -/
def WholeBody : List BodyMessage → Prop
  | [] => False
  | [message] => message.moreBody = false
  | message :: next :: left => message.moreBody = true ∧ WholeBody (next :: left)

/-- What a body of these bytes is to be read as. -/
def wantedBody (declared : Option ℤ) (cap : ℤ) (bytes : Bytes) : BodyRead :=
  match declared with
  | some declared => .body (bytes.take declared.toNat)
  | none => if bytes.length ≤ cap then .body bytes else .refused (tooLarge cap)

/-- The messages so far decide what the body is to be, whatever comes after them. -/
def Decided (declared : Option ℤ) (cap : ℤ) (seen : List BodyMessage) : Prop :=
  ∀ left left', WholeBody (seen ++ left) → WholeBody (seen ++ left') →
    wantedBody declared cap (bodyBytes (seen ++ left)) =
      wantedBody declared cap (bodyBytes (seen ++ left'))

/-- The body is read as it is to be, and no message after it is decided. -/
def ReadAsWanted (declared : Option ℤ) (cap : ℤ) (messages : List BodyMessage) : Prop :=
  ∃ seen left, messages = seen ++ left ∧
    readBody declared cap messages =
      some (wantedBody declared cap (bodyBytes messages), left) ∧
    Decided declared cap seen ∧
    ∀ before, before ≠ [] → before <+: seen → before ≠ seen → ¬Decided declared cap before

/-- The declared length falls into the first message, behind the body, or between two
messages. -/
def FallsBetween (declared : Option ℤ) (messages : List BodyMessage) : Prop :=
  ∀ n ∈ declared,
    (∃ first ∈ messages.head?, n ≤ first.body.length) ∨
    ((bodyBytes messages).length : ℤ) ≤ n ∨
    ∃ seen, seen <+: messages ∧ ((bodyBytes seen).length : ℤ) = n

/-! ## The messages that are pulled -/

section

variable {declared : Option ℤ} {cap : ℤ} {messages seen left before : List BodyMessage}
  {message : BodyMessage}

theorem WholeBody.tail (h : WholeBody (message :: left)) (hleft : left ≠ []) :
    message.moreBody = true ∧ WholeBody left := by
  cases left with
  | nil => exact absurd rfl hleft
  | cons next left => exact h

/-- What a loop pulls: until nothing is owed, or the body is there. -/
theorem pull_spec (owed : ℤ → Bool) (h : WholeBody (message :: left)) (parts : List Bytes)
    (total : ℤ) :
    ∃ mid rest, left = mid ++ rest ∧
      pull owed parts total message left =
        some ⟨parts ++ mid.map (·.body), total + (bodyBytes mid).length, rest⟩ ∧
      (rest = [] ∨ owed (total + (bodyBytes mid).length) = false) ∧
      ∀ before, before <+: mid → before ≠ mid →
        owed (total + (bodyBytes before).length) = true := by
  induction left generalizing message parts total with
  | nil =>
    have hmore : message.moreBody = false := h
    refine ⟨[], [], rfl, by simp [pull, hmore], .inl rfl, ?_⟩
    exact fun before hprefix hne => absurd (List.prefix_nil.mp hprefix) hne
  | cons next left ih =>
    obtain ⟨hmore, hnext⟩ := h.tail (List.cons_ne_nil _ _)
    cases howed : owed total with
    | false =>
      refine ⟨[], next :: left, rfl, by simp [pull, howed], .inr (by simpa using howed), ?_⟩
      exact fun before hprefix hne => absurd (List.prefix_nil.mp hprefix) hne
    | true =>
      obtain ⟨mid, rest, hleft, hpull, hend, hbefore⟩ :=
        ih hnext (parts ++ [next.body]) (total + next.body.length)
      have hadd : ∀ ms, total + ((bodyBytes (next :: ms)).length : ℤ) =
          total + next.body.length + (bodyBytes ms).length := by
        intro ms
        rw [bodyBytes_cons, List.length_append]
        omega
      refine ⟨next :: mid, rest, by rw [hleft, List.cons_append], ?_, ?_, ?_⟩
      · rw [pull, hmore, howed, Bool.and_self, if_pos rfl, hpull, hadd]
        simp
      · rw [hadd]
        exact hend
      · intro before hprefix hne
        cases before with
        | nil => simpa using howed
        | cons first before =>
          obtain ⟨rfl, hrest⟩ := List.cons_prefix_cons.mp hprefix
          rw [hadd]
          exact hbefore before hrest fun heq => hne (by rw [heq])

/-- More bytes are owed after a total. -/
def owes (declared : Option ℤ) (cap total : ℤ) : Bool :=
  match declared with
  | some declared => total < declared
  | none => total ≤ cap

/-- What the loops make of the bytes that they pulled. -/
def pulledBody (declared : Option ℤ) (cap : ℤ) (bytes : Bytes) : BodyRead :=
  match declared with
  | some _ => .body bytes
  | none => if cap < bytes.length then .refused (tooLarge cap) else .body bytes

/-- A first message with the declared bytes is cut and nothing else is read. -/
theorem readBody_one {n : ℤ} (hn : 0 ≤ n) (hfirst : n ≤ message.body.length) (cap : ℤ) :
    readBody (some n) cap (message :: left) = some (.body (message.body.take n.toNat), left) := by
  simp [readBody, hfirst, firstBytes, hn]

/-- Otherwise the loops read until nothing is owed, or the body is there. -/
theorem readBody_pull (h : WholeBody (message :: left))
    (hfirst : ∀ n ∈ declared, (message.body.length : ℤ) < n) (cap : ℤ) :
    ∃ mid rest, left = mid ++ rest ∧
      readBody declared cap (message :: left) =
        some (pulledBody declared cap (bodyBytes (message :: mid)), rest) ∧
      (rest = [] ∨ owes declared cap (bodyBytes (message :: mid)).length = false) ∧
      ∀ before, before ≠ [] → before <+: message :: mid → before ≠ message :: mid →
        owes declared cap (bodyBytes before).length = true := by
  obtain ⟨mid, rest, hleft, hpull, hend, hbefore⟩ :=
    pull_spec (owes declared cap) h [message.body] message.body.length
  have hlength : ∀ ms, (message.body.length : ℤ) + (bodyBytes ms).length =
      (bodyBytes (message :: ms)).length := by
    intro ms
    rw [bodyBytes_cons, List.length_append, Nat.cast_add]
  have hflatten : ([message.body] ++ mid.map (·.body)).flatten = bodyBytes (message :: mid) := by
    simp [bodyBytes, List.flatMap]
  refine ⟨mid, rest, hleft, ?_, ?_, ?_⟩
  · cases declared with
    | some n =>
      have hmore : ¬n ≤ message.body.length := Int.not_le.mpr (hfirst n rfl)
      simp only [readBody, if_neg hmore]
      rw [show (fun total : ℤ => decide (total < n)) = owes (some n) cap from rfl, hpull]
      simp only [Option.map_some, hflatten, pulledBody]
    | none =>
      simp only [readBody]
      rw [show (fun total : ℤ => decide (total ≤ cap)) = owes none cap from rfl, hpull]
      simp only [Option.map_some, hflatten, hlength, pulledBody]
      split <;> rfl
  · rw [← hlength]
    exact hend
  · intro before hne hprefix hproper
    cases before with
    | nil => exact absurd rfl hne
    | cons first before =>
      obtain ⟨rfl, hrest⟩ := List.cons_prefix_cons.mp hprefix
      rw [← hlength]
      exact hbefore before hrest fun heq => hproper (by rw [heq])

/-! ## When the outcome is decided -/

/-- A whole body is not followed by anything. -/
theorem WholeBody.ends (h : WholeBody seen) (h' : WholeBody (seen ++ left)) : left = [] := by
  induction seen with
  | nil => exact h.elim
  | cons message seen ih =>
    cases seen with
    | nil =>
      by_contra hleft
      have hmore : message.moreBody = true := (WholeBody.tail h' hleft).1
      rw [show message.moreBody = false from h] at hmore
      cases hmore
    | cons next seen => exact ih h.2 h'.2

/-- What follows the messages so far may be anything that is whole. -/
theorem WholeBody.replace {left' : List BodyMessage} (h : WholeBody (seen ++ left))
    (hleft : left ≠ []) (h' : WholeBody left') : WholeBody (seen ++ left') := by
  induction seen with
  | nil => exact h'
  | cons message seen ih =>
    obtain ⟨hmore, htail⟩ := h.tail (List.append_ne_nil_of_right_ne_nil _ hleft)
    have hnext : WholeBody (seen ++ left') := ih htail
    cases hmessages : seen ++ left' with
    | nil =>
      rw [hmessages] at hnext
      exact hnext.elim
    | cons next rest =>
      rw [hmessages] at hnext
      rw [List.cons_append, hmessages]
      exact ⟨hmore, hnext⟩

/-- When nothing is owed, the bytes that follow do not matter. -/
theorem decided_of_not_owed (h : owes declared cap (bodyBytes seen).length = false) :
    Decided declared cap seen := by
  intro left left' _ _
  cases declared with
  | some n =>
    have hle : n.toNat ≤ (bodyBytes seen).length := by
      have := of_decide_eq_false h
      omega
    simp only [wantedBody, bodyBytes_append, List.take_append_of_le_length hle]
  | none =>
    have hover : ∀ more : List BodyMessage,
        ¬((bodyBytes (seen ++ more)).length : ℤ) ≤ cap := by
      intro more
      have := of_decide_eq_false h
      rw [bodyBytes_append, List.length_append]
      omega
    simp only [wantedBody, if_neg (hover _)]

/-- When bytes are owed and messages are to come, another byte would matter. -/
theorem not_decided (hwhole : WholeBody (seen ++ left)) (hleft : left ≠ [])
    (h : owes declared cap (bodyBytes seen).length = true) : ¬Decided declared cap seen := by
  intro hdecided
  have hsame := hdecided [⟨[], false⟩] [⟨[0], false⟩]
    (hwhole.replace hleft (show WholeBody [⟨[], false⟩] from rfl))
    (hwhole.replace hleft (show WholeBody [⟨[0], false⟩] from rfl))
  cases declared with
  | some n =>
    have howed : ((bodyBytes seen).length : ℤ) < n := of_decide_eq_true h
    simp only [wantedBody, bodyBytes_append, bodyBytes_cons, bodyBytes_nil, List.append_nil,
      BodyRead.body.injEq] at hsame
    have hlength := congrArg List.length hsame
    simp only [List.length_take, List.length_append, List.length_singleton] at hlength
    omega
  | none =>
    have howed : ((bodyBytes seen).length : ℤ) ≤ cap := of_decide_eq_true h
    simp only [wantedBody, bodyBytes_append, bodyBytes_cons, bodyBytes_nil, List.append_nil,
      if_pos howed] at hsame
    split at hsame
    · have hbytes := BodyRead.body.inj hsame
      have hlength := congrArg List.length hbytes
      simp only [List.length_append, List.length_singleton] at hlength
      omega
    · cases hsame

/-! ## The exact condition -/

/-- With what is received until the outcome is decided, only the bytes can be wrong. -/
theorem readAsWanted_iff {result : BodyRead} (hwhole : WholeBody messages)
    (hsplit : messages = seen ++ left)
    (hread : readBody declared cap messages = some (result, left))
    (hend : left = [] ∨ owes declared cap (bodyBytes seen).length = false)
    (hbefore : ∀ before, before ≠ [] → before <+: seen → before ≠ seen →
      owes declared cap (bodyBytes before).length = true) :
    ReadAsWanted declared cap messages ↔
      result = wantedBody declared cap (bodyBytes messages) := by
  constructor
  · rintro ⟨_, _, -, hread', -⟩
    rw [hread] at hread'
    exact (Prod.mk.inj (Option.some.inj hread')).1
  · intro hresult
    refine ⟨seen, left, hsplit, hresult ▸ hread, ?_, ?_⟩
    · rcases hend with rfl | hend
      · rw [hsplit, List.append_nil] at hwhole
        intro more more' hmore hmore'
        rw [hwhole.ends hmore, hwhole.ends hmore']
      · exact decided_of_not_owed hend
    · rintro before hne ⟨rest, rfl⟩ hproper
      have hrest : rest ≠ [] := by
        rintro rfl
        exact hproper (List.append_nil _).symm
      have hwhole' : WholeBody (before ++ (rest ++ left)) := by
        rwa [← List.append_assoc, ← hsplit]
      exact not_decided hwhole' (List.append_ne_nil_of_left_ne_nil hrest _)
        (hbefore before hne (List.prefix_append _ _) hproper)

theorem length_le_of_prefix (h : before <+: messages) :
    (bodyBytes before).length ≤ (bodyBytes messages).length := by
  obtain ⟨rest, rfl⟩ := h
  simp

/-- The loops pull the declared bytes and no more if the declared length falls between two
messages, or behind the body. -/
theorem pulled_iff {n : ℤ} (hn : (message.body.length : ℤ) < n)
    (hsplit : message :: messages = seen ++ left)
    (hend : left = [] ∨ owes (some n) cap (bodyBytes seen).length = false)
    (hbefore : ∀ before, before ≠ [] → before <+: seen → before ≠ seen →
      owes (some n) cap (bodyBytes before).length = true) :
    bodyBytes seen = (bodyBytes (message :: messages)).take n.toNat ↔
      FallsBetween (some n) (message :: messages) := by
  have hseen : seen <+: message :: messages := ⟨left, hsplit.symm⟩
  have hbytes : bodyBytes seen <+: bodyBytes (message :: messages) := by
    rw [hsplit, bodyBytes_append]
    exact List.prefix_append _ _
  constructor
  · intro hcut
    rintro _ ⟨⟩
    rcases hend with rfl | hend
    · rw [List.append_nil] at hsplit
      have hlength := congrArg List.length hcut
      rw [← hsplit, List.length_take] at hlength
      exact .inr (.inl (by omega))
    · refine .inr (.inr ⟨seen, hseen, ?_⟩)
      have hlength := congrArg List.length hcut
      rw [List.length_take] at hlength
      have hnot := of_decide_eq_false hend
      omega
  · intro hfalls
    -- it is enough that as many bytes were pulled
    suffices hlength : (bodyBytes seen).length =
        min n.toNat (bodyBytes (message :: messages)).length by
      rw [List.prefix_iff_eq_take.mp hbytes, hlength]
      rcases Nat.le_total n.toNat (bodyBytes (message :: messages)).length with hle | hle
      · rw [min_eq_left hle]
      · rw [min_eq_right hle, List.take_length, List.take_of_length_le hle]
    have hle := hbytes.length_le
    rcases hfalls n rfl with ⟨first, hfirst, hone⟩ | hshort | ⟨run, hrun, hexact⟩
    · obtain rfl := Option.some.inj hfirst
      omega
    · rcases hend with rfl | hend
      · rw [List.append_nil] at hsplit
        rw [← hsplit]
        omega
      · have hnot := of_decide_eq_false hend
        omega
    · have hrunLe := length_le_of_prefix hrun
      have hrunNe : run ≠ [] := by
        rintro rfl
        rw [bodyBytes_nil, List.length_nil] at hexact
        omega
      rcases List.prefix_or_prefix_of_prefix hrun hseen with hshorter | hlonger
      · by_cases hsame : run = seen
        · subst hsame
          omega
        · have howed := of_decide_eq_true (hbefore run hrunNe hshorter hsame)
          omega
      · have hseenLe := length_le_of_prefix hlonger
        rcases hend with rfl | hend
        · rw [List.append_nil] at hsplit
          rw [hsplit] at hrunLe
          rw [hsplit]
          omega
        · have hnot := of_decide_eq_false hend
          omega

end

/-- **A body is read as it is to be, exactly if the declared length falls into the first message,
behind the body, or between two messages.** -/
theorem body_reading_iff (declared : Option ℤ) (cap : ℤ) (messages : List BodyMessage)
    (hwhole : WholeBody messages) (hdeclared : ∀ n ∈ declared, 0 ≤ n) :
    ReadAsWanted declared cap messages ↔ FallsBetween declared messages := by
  cases messages with
  | nil => exact hwhole.elim
  | cons message left =>
    -- the first message is short of what is declared, or has all of it
    by_cases hfirst : ∀ n ∈ declared, (message.body.length : ℤ) < n
    · obtain ⟨mid, rest, rfl, hread, hend, hbefore⟩ := readBody_pull hwhole hfirst cap
      rw [readAsWanted_iff hwhole (List.cons_append ..).symm hread hend hbefore]
      cases declared with
      | some n =>
        rw [← pulled_iff (hfirst n rfl) (List.cons_append ..).symm hend hbefore]
        exact BodyRead.body.injEq .. ▸ Iff.rfl
      | none =>
        refine iff_of_true ?_ fun n hn => nomatch hn
        unfold pulledBody wantedBody
        have hle : (bodyBytes (message :: mid)).length ≤
            (bodyBytes (message :: (mid ++ rest))).length :=
          length_le_of_prefix ⟨rest, rfl⟩
        rcases hend with rfl | hend
        · rw [List.append_nil]
          split_ifs <;> first | rfl | omega
        · have hover := of_decide_eq_false hend
          rw [if_pos (by omega), if_neg (by omega)]
    · -- the first message has the declared bytes
      simp only [not_forall, Int.not_lt] at hfirst
      obtain ⟨n, rfl, hle⟩ := hfirst
      have hread : readBody (some n) cap (message :: left) =
          some (.body (message.body.take n.toNat), left) := readBody_one (hdeclared n rfl) hle cap
      have hsplit : message :: left = [message] ++ left := rfl
      rw [readAsWanted_iff hwhole hsplit hread (.inr ?_) ?_]
      · refine iff_of_true ?_ fun m hm => ?_
        · have hle' : n.toNat ≤ message.body.length := by omega
          simp only [wantedBody, bodyBytes_cons, List.take_append_of_le_length hle']
        · obtain rfl := Option.some.inj hm
          exact .inl ⟨message, rfl, hle⟩
      · simp only [bodyBytes_cons, bodyBytes_nil, List.append_nil]
        exact decide_eq_false (Int.not_lt.mpr hle)
      · intro before hne hprefix hproper
        rcases List.prefix_cons_iff.mp hprefix with h | ⟨rest, h, hrest⟩
        · exact absurd h hne
        · rw [List.prefix_nil.mp hrest] at h
          exact absurd h hproper

/-- Two bytes that come in a message of their own. -/
theorem body_reading_iff_two : ReadAsWanted (some 2) 8 [⟨[1, 2], true⟩, ⟨[3], false⟩] :=
  (body_reading_iff (some 2) 8 [⟨[1, 2], true⟩, ⟨[3], false⟩] ⟨rfl, rfl⟩
    (by simp)).mpr fun n hn => .inl ⟨_, rfl, by
      obtain rfl := Option.some.inj hn
      decide⟩

/-- A second message that goes past the declared length is kept whole. -/
theorem body_reading_overshoots :
    ¬∀ (declared : Option ℤ) (cap : ℤ) (messages : List BodyMessage), WholeBody messages →
      (∀ n ∈ declared, 0 ≤ n ∧ n ≤ cap) → ReadAsWanted declared cap messages := by
  intro hall
  have hdeclared : ∀ n ∈ some (5 : ℤ), 0 ≤ n ∧ n ≤ 8 := by simp
  obtain ⟨seen, left, -, hread, -⟩ :=
    hall (some 5) 8 [⟨[1, 2, 3], true⟩, ⟨[4, 5, 6, 7, 8], false⟩] ⟨rfl, rfl⟩ hdeclared
  have hall8 : readBody (some 5) 8 [⟨[1, 2, 3], true⟩, ⟨[4, 5, 6, 7, 8], false⟩] =
      some (.body [1, 2, 3, 4, 5, 6, 7, 8], []) := rfl
  rw [hall8] at hread
  have hbytes := BodyRead.body.inj (Prod.mk.inj (Option.some.inj hread)).1
  revert hbytes
  decide

end LayaWatch
