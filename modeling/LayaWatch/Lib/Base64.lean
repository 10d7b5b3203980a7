import Mathlib.Data.List.Basic
import Mathlib.Tactic.IntervalCases

/-!
# Base64, URL-safe

Bytes and characters are numbers. `encode` is `base64.urlsafe_b64encode`: three
bytes make four digits, `-` and `_` are the last two of these, and `=` fills up the
last group. `decode` is `base64.urlsafe_b64decode`, which reads both alphabets and
skips what is in neither; `decode_encode` is the round trip.
-/

namespace Base64

/-- The character of a digit. -/
def digit (v : ℕ) : ℕ :=
  if v < 26 then 65 + v
  else if v < 52 then 97 + (v - 26)
  else if v < 62 then 48 + (v - 52)
  else if v = 62 then 45
  else 95

/-- The digit of a character. -/
def value (c : ℕ) : Option ℕ :=
  if 65 ≤ c ∧ c ≤ 90 then some (c - 65)
  else if 97 ≤ c ∧ c ≤ 122 then some (c - 97 + 26)
  else if 48 ≤ c ∧ c ≤ 57 then some (c - 48 + 52)
  else if c = 43 ∨ c = 45 then some 62
  else if c = 47 ∨ c = 95 then some 63
  else none

/-- `=`. -/
def pad : ℕ := 61

/-- The text of some bytes. -/
def encode : List ℕ → List ℕ
  | [] => []
  | [a] => [digit (a / 4), digit (a % 4 * 16), pad, pad]
  | [a, b] => [digit (a / 4), digit (a % 4 * 16 + b / 16), digit (b % 16 * 4), pad]
  | a :: b :: c :: rest =>
    digit (a / 4) :: digit (a % 4 * 16 + b / 16) :: digit (b % 16 * 4 + c / 64) ::
      digit (c % 64) :: encode rest

/-- The bytes of a text, from the digit with number `pos` of a group on: `left` is
what is left over of the digits before it, `pads` the number of `=` since the last
digit. -/
def decodeFrom : ℕ → ℕ → ℕ → List ℕ → Option (List ℕ)
  | pos, _, _, [] => if pos = 0 then some [] else none
  | pos, left, pads, c :: rest =>
    if c = pad then
      if 2 ≤ pos then
        -- enough of them end the text
        if 4 ≤ pos + (pads + 1) then some [] else decodeFrom pos left (pads + 1) rest
      else decodeFrom pos left pads rest
    else
      match value c with
      | none => decodeFrom pos left pads rest
      | some v =>
        match pos with
        | 0 => decodeFrom 1 v 0 rest
        | 1 => (decodeFrom 2 (v % 16) 0 rest).map ((left * 4 + v / 16) :: ·)
        | 2 => (decodeFrom 3 (v % 4) 0 rest).map ((left * 16 + v / 4) :: ·)
        | _ => (decodeFrom 0 0 0 rest).map ((left * 64 + v) :: ·)

/-- The bytes of a text. -/
def decode (text : List ℕ) : Option (List ℕ) := decodeFrom 0 0 0 text

theorem value_digit {v : ℕ} (h : v < 64) : value (digit v) = some v := by
  interval_cases v <;> rfl

theorem digit_ne_pad {v : ℕ} (h : v < 64) : digit v ≠ pad := by
  interval_cases v <;> decide

theorem digit_lt {v : ℕ} (h : v < 64) : digit v < 128 := by
  interval_cases v <;> decide

section

variable {left pads v : ℕ} {rest : List ℕ}

theorem decodeFrom_zero (h : v < 64) :
    decodeFrom 0 left pads (digit v :: rest) = decodeFrom 1 v 0 rest := by
  rw [decodeFrom, if_neg (digit_ne_pad h), value_digit h]
  rfl

theorem decodeFrom_one (h : v < 64) : decodeFrom 1 left pads (digit v :: rest) =
    (decodeFrom 2 (v % 16) 0 rest).map ((left * 4 + v / 16) :: ·) := by
  rw [decodeFrom, if_neg (digit_ne_pad h), value_digit h]
  rfl

theorem decodeFrom_two (h : v < 64) : decodeFrom 2 left pads (digit v :: rest) =
    (decodeFrom 3 (v % 4) 0 rest).map ((left * 16 + v / 4) :: ·) := by
  rw [decodeFrom, if_neg (digit_ne_pad h), value_digit h]
  rfl

theorem decodeFrom_three (h : v < 64) : decodeFrom 3 left pads (digit v :: rest) =
    (decodeFrom 0 0 0 rest).map ((left * 64 + v) :: ·) := by
  rw [decodeFrom, if_neg (digit_ne_pad h), value_digit h]
  rfl

end

/-- **Round trip.** -/
theorem decode_encode : ∀ {bytes : List ℕ}, (∀ b ∈ bytes, b < 256) →
    decode (encode bytes) = some bytes
  | [], _ => rfl
  | [a], h => by
    have ha : a < 256 := h a (by simp)
    unfold decode encode
    rw [decodeFrom_zero (by omega), decodeFrom_one (by omega)]
    have hbyte : a / 4 * 4 + a % 4 * 16 / 16 = a := by omega
    rw [hbyte]
    rfl
  | [a, b], h => by
    have ha : a < 256 := h a (by simp)
    have hb : b < 256 := h b (by simp)
    unfold decode encode
    rw [decodeFrom_zero (by omega), decodeFrom_one (by omega), decodeFrom_two (by omega)]
    have hfirst : a / 4 * 4 + (a % 4 * 16 + b / 16) / 16 = a := by omega
    have hsecond : (a % 4 * 16 + b / 16) % 16 * 16 + b % 16 * 4 / 4 = b := by omega
    rw [hfirst, hsecond]
    rfl
  | a :: b :: c :: rest, h => by
    have ha : a < 256 := h a (by simp)
    have hb : b < 256 := h b (by simp)
    have hc : c < 256 := h c (by simp)
    have ih : decode (encode rest) = some rest := decode_encode fun d hd => h d (by simp [hd])
    unfold decode at ih ⊢
    unfold encode
    rw [decodeFrom_zero (by omega), decodeFrom_one (by omega), decodeFrom_two (by omega),
      decodeFrom_three (by omega), ih]
    have hfirst : a / 4 * 4 + (a % 4 * 16 + b / 16) / 16 = a := by omega
    have hsecond : (a % 4 * 16 + b / 16) % 16 * 16 + (b % 16 * 4 + c / 64) / 4 = b := by omega
    have hthird : (b % 16 * 4 + c / 64) % 4 * 64 + c % 64 = c := by omega
    rw [hfirst, hsecond, hthird]
    rfl

/-- A text is made of full groups. -/
theorem length_encode : ∀ bytes : List ℕ, (encode bytes).length % 4 = 0
  | [] => rfl
  | [_] => by simp only [encode, List.length_cons, List.length_nil]
  | [_, _] => by simp only [encode, List.length_cons, List.length_nil]
  | _ :: _ :: _ :: rest => by
    have ih := length_encode rest
    simp only [encode, List.length_cons]
    omega

/-- A text is ASCII. -/
theorem encode_lt : ∀ {bytes : List ℕ}, (∀ b ∈ bytes, b < 256) → ∀ c ∈ encode bytes, c < 128
  | [], _ => fun c hc => by cases hc
  | [a], h => by
    have ha : a < 256 := h a (by simp)
    simp only [encode, List.forall_mem_cons]
    exact ⟨digit_lt (by omega), digit_lt (by omega), by decide, by decide, fun c hc => by cases hc⟩
  | [a, b], h => by
    have ha : a < 256 := h a (by simp)
    have hb : b < 256 := h b (by simp)
    simp only [encode, List.forall_mem_cons]
    exact ⟨digit_lt (by omega), digit_lt (by omega), digit_lt (by omega), by decide,
      fun c hc => by cases hc⟩
  | a :: b :: c :: rest, h => by
    have ha : a < 256 := h a (by simp)
    have hb : b < 256 := h b (by simp)
    have hc : c < 256 := h c (by simp)
    simp only [encode, List.forall_mem_cons]
    exact ⟨digit_lt (by omega), digit_lt (by omega), digit_lt (by omega), digit_lt (by omega),
      encode_lt fun d hd => h d (by simp [hd])⟩

/-- Only nothing has an empty text. -/
theorem encode_ne_nil {bytes : List ℕ} (h : bytes ≠ []) : encode bytes ≠ [] := by
  rcases bytes with _ | ⟨a, _ | ⟨b, _ | ⟨c, rest⟩⟩⟩
  · exact absurd rfl h
  all_goals exact List.cons_ne_nil _ _

end Base64
