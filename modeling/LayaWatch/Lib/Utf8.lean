import Mathlib.Data.Nat.Basic
import Mathlib.Data.List.Basic

/-!
# UTF-8

Characters as bytes and back. A byte is a natural number; a character is a code point, and
those between U+D800 and U+DFFF, the surrogates, have no encoding. The decoder is total: a
handler says what stands for a stretch of bytes that no character has (`decode`), one
stretch for the longest start of a character, else for one byte.

What is encoded decodes to itself (`decode_encode`), and bytes that are cut decode to the
characters that are whole, followed by what the handler makes of the rest
(`decode_take_encode`).
-/

namespace Utf8

/-- A code point. -/
abbrev Point : Type := Fin 0x110000

/-- It has an encoding. -/
def IsScalar (c : Point) : Prop := ¬(0xD800 ≤ c.val ∧ c.val ≤ 0xDFFF)

/-! ## Encoding -/

/-- The bytes of a character. -/
def encodeChar (c : Point) : List ℕ :=
  if c.val < 0x80 then [c.val]
  else if c.val < 0x800 then [0xC0 + c.val / 64, 0x80 + c.val % 64]
  else if c.val < 0x10000 then [0xE0 + c.val / 4096, 0x80 + c.val / 64 % 64, 0x80 + c.val % 64]
  else [0xF0 + c.val / 262144, 0x80 + c.val / 4096 % 64, 0x80 + c.val / 64 % 64,
    0x80 + c.val % 64]

/-- The bytes of a text. -/
def encode (s : List Point) : List ℕ := s.flatMap encodeChar

@[simp] theorem encode_nil : encode [] = [] := rfl

@[simp] theorem encode_cons (c : Point) (s : List Point) :
    encode (c :: s) = encodeChar c ++ encode s := rfl

theorem encode_append (s t : List Point) : encode (s ++ t) = encode s ++ encode t :=
  List.flatMap_append

/-! ## Decoding -/

/-- A character that has begun. -/
structure Pending where
  /-- how many bytes follow the next one -/
  left : ℕ
  /-- the least next byte -/
  low : ℕ
  /-- the greatest next byte -/
  high : ℕ
  /-- its bits so far -/
  bits : ℕ
  deriving DecidableEq

/-- What a byte begins. -/
def lead (onError : List Point) (b : ℕ) : List Point × Option Pending :=
  if b < 0x80 then ([Fin.ofNat _ b], none)
  else if b < 0xC2 then (onError, none)
  else if b < 0xE0 then ([], some ⟨0, 0x80, 0xBF, b - 0xC0⟩)
  else if b = 0xE0 then ([], some ⟨1, 0xA0, 0xBF, 0⟩)
  else if b = 0xED then ([], some ⟨1, 0x80, 0x9F, 13⟩)
  else if b < 0xF0 then ([], some ⟨1, 0x80, 0xBF, b - 0xE0⟩)
  else if b = 0xF0 then ([], some ⟨2, 0x90, 0xBF, 0⟩)
  else if b < 0xF4 then ([], some ⟨2, 0x80, 0xBF, b - 0xF0⟩)
  else if b = 0xF4 then ([], some ⟨2, 0x80, 0x8F, 4⟩)
  else (onError, none)

/-- What is read with the next byte, and what has begun after it. -/
def step (onError : List Point) : Option Pending → ℕ → List Point × Option Pending
  | none, b => lead onError b
  | some p, b =>
    if p.low ≤ b ∧ b ≤ p.high then
      match p.left with
      | 0 => ([Fin.ofNat _ (p.bits * 64 + b % 64)], none)
      | n + 1 => ([], some ⟨n, 0x80, 0xBF, p.bits * 64 + b % 64⟩)
    else (onError ++ (lead onError b).1, (lead onError b).2)

theorem step_none (onError : List Point) (b : ℕ) : step onError none b = lead onError b := rfl

/-- What the bytes decode to, behind what has begun. -/
def decodeFrom (onError : List Point) : Option Pending → List ℕ → List Point
  | none, [] => []
  | some _, [] => onError
  | p, b :: bytes => (step onError p b).1 ++ decodeFrom onError (step onError p b).2 bytes

/-- What the bytes decode to. -/
def decode (onError : List Point) (bytes : List ℕ) : List Point := decodeFrom onError none bytes

variable {onError : List Point}

@[simp] theorem decode_nil : decode onError [] = [] := rfl

/-- How the bytes of a character are read: so many begin it, and all of them are it. -/
inductive Spells : Option Pending → Point → List ℕ → Prop where
  /-- the last byte -/
  | last {p : Option Pending} {c : Point} {b : ℕ} (h : ∀ e, step e p b = ([c], none)) :
    Spells p c [b]
  /-- another one -/
  | more {p : Option Pending} {q : Pending} {c : Point} {b : ℕ} {bytes : List ℕ}
    (h : ∀ e, step e p b = ([], some q)) (hrest : Spells (some q) c bytes) :
    Spells p c (b :: bytes)

namespace Spells

variable {p : Option Pending} {c : Point} {bytes : List ℕ}

theorem decodeFrom_append (h : Spells p c bytes) (rest : List ℕ) :
    decodeFrom onError p (bytes ++ rest) = c :: decode onError rest := by
  induction h with
  | last h =>
    rw [List.cons_append, decodeFrom, h onError]
    rfl
  | more h _ ih =>
    rw [List.cons_append, decodeFrom, h onError]
    exact ih

/-- A start of the bytes is something that has begun, and nothing else. -/
theorem decodeFrom_take (h : Spells p c bytes) : ∀ n, 0 < n → n < bytes.length →
    decodeFrom onError p (bytes.take n) = onError := by
  induction h with
  | last h =>
    intro n hpos hn
    rw [List.length_singleton] at hn
    omega
  | @more p q c b bytes h _ ih =>
    intro n hpos hn
    obtain ⟨m, rfl⟩ := Nat.exists_eq_succ_of_ne_zero (Nat.ne_of_gt hpos)
    rw [List.take_succ_cons, decodeFrom, h onError]
    rcases Nat.eq_zero_or_pos m with rfl | hm
    · rfl
    · exact ih m hm (by rw [List.length_cons] at hn; omega)

end Spells

/-! ## Encoded characters -/

theorem ofNat_val (c : Point) : Fin.ofNat 0x110000 c.val = c := Fin.ext (Nat.mod_eq_of_lt c.isLt)

/-- The last byte of a character. -/
theorem step_last {low high bits m : ℕ} (e : List Point) (hm : m < 64) (hlow : low ≤ 0x80 + m)
    (hhigh : 0x80 + m ≤ high) : step e (some ⟨0, low, high, bits⟩) (0x80 + m) =
      ([Fin.ofNat _ (bits * 64 + m)], none) := by
  have hbits : (0x80 + m) % 64 = m := by omega
  simp only [step, hlow, hhigh, and_self, if_true, hbits]

/-- A byte of a character that is not the last. -/
theorem step_more {left low high bits m : ℕ} (e : List Point) (hm : m < 64)
    (hlow : low ≤ 0x80 + m) (hhigh : 0x80 + m ≤ high) :
    step e (some ⟨left + 1, low, high, bits⟩) (0x80 + m) =
      ([], some ⟨left, 0x80, 0xBF, bits * 64 + m⟩) := by
  have hbits : (0x80 + m) % 64 = m := by omega
  simp only [step, hlow, hhigh, and_self, if_true, hbits]

/-- Some bytes that end a character. -/
theorem spells_last {c : Point} {low high bits m : ℕ} (hm : m < 64) (hlow : low ≤ 0x80 + m)
    (hhigh : 0x80 + m ≤ high) (hc : bits * 64 + m = c.val) :
    Spells (some ⟨0, low, high, bits⟩) c [0x80 + m] := by
  refine .last fun e => ?_
  rw [step_last e hm hlow hhigh, hc, ofNat_val]

theorem spells_more {c : Point} {left low high bits m : ℕ} {bytes : List ℕ} (hm : m < 64)
    (hlow : low ≤ 0x80 + m) (hhigh : 0x80 + m ≤ high)
    (hrest : Spells (some ⟨left, 0x80, 0xBF, bits * 64 + m⟩) c bytes) :
    Spells (some ⟨left + 1, low, high, bits⟩) c ((0x80 + m) :: bytes) :=
  .more (fun e => step_more e hm hlow hhigh) hrest

/-- What begins a character of three bytes: the next byte keeps it from being shorter, and
from being a surrogate. -/
theorem lead_three (e : List Point) {a : ℕ} (ha : a < 16) : lead e (0xE0 + a) =
    ([], some ⟨1, if a = 0 then 0xA0 else 0x80, if a = 13 then 0x9F else 0xBF, a⟩) := by
  unfold lead
  have h1 : ¬0xE0 + a < 0x80 := by omega
  have h2 : ¬0xE0 + a < 0xC2 := by omega
  have h3 : ¬0xE0 + a < 0xE0 := by omega
  have h4 : 0xE0 + a < 0xF0 := by omega
  rw [if_neg h1, if_neg h2, if_neg h3]
  by_cases hzero : a = 0
  · subst hzero
    rfl
  · by_cases hlast : a = 13
    · subst hlast
      rfl
    · rw [if_neg (by omega), if_neg (by omega), if_pos h4, if_neg hzero, if_neg hlast]
      simp only [Nat.add_sub_cancel_left]

/-- What begins a character of four bytes: the next byte keeps it from being shorter, and
from being no code point. -/
theorem lead_four (e : List Point) {a : ℕ} (ha : a ≤ 4) : lead e (0xF0 + a) =
    ([], some ⟨2, if a = 0 then 0x90 else 0x80, if a = 4 then 0x8F else 0xBF, a⟩) := by
  unfold lead
  have h1 : ¬0xF0 + a < 0x80 := by omega
  have h2 : ¬0xF0 + a < 0xC2 := by omega
  have h3 : ¬0xF0 + a < 0xE0 := by omega
  have h4 : ¬0xF0 + a < 0xF0 := by omega
  rw [if_neg h1, if_neg h2, if_neg h3, if_neg (by omega), if_neg (by omega), if_neg h4]
  by_cases hzero : a = 0
  · subst hzero
    rfl
  · by_cases hlast : a = 4
    · subst hlast
      rfl
    · rw [if_neg (by omega), if_pos (by omega), if_neg hzero, if_neg hlast]
      simp only [Nat.add_sub_cancel_left]

/-- **A character is read from its bytes.** -/
theorem spells_encodeChar {c : Point} (hc : IsScalar c) : Spells none c (encodeChar c) := by
  have hlt := c.isLt
  unfold IsScalar at hc
  unfold encodeChar
  split_ifs with hone htwo hthree
  · refine .last fun e => ?_
    rw [step_none, lead, if_pos hone, ofNat_val]
  · have hlead : ∀ e, step e none (0xC0 + c.val / 64) = ([], some ⟨0, 0x80, 0xBF, c.val / 64⟩) := by
      intro e
      rw [step_none, lead, if_neg (by omega), if_neg (by omega), if_pos (by omega),
        Nat.add_sub_cancel_left]
    exact .more hlead (spells_last (by omega) (by omega) (by omega) (by omega))
  · refine .more (fun e => lead_three e (by omega)) ?_
    -- the second byte is out of the way of the shorter characters and of the surrogates
    refine spells_more (by omega) (by split_ifs <;> omega) (by split_ifs <;> omega) ?_
    exact spells_last (by omega) (by omega) (by omega) (by omega)
  · refine .more (fun e => lead_four e (by omega)) ?_
    refine spells_more (by omega) (by split_ifs <;> omega) (by split_ifs <;> omega) ?_
    refine spells_more (by omega) (by omega) (by omega) ?_
    exact spells_last (by omega) (by omega) (by omega) (by omega)

/-- **What is encoded decodes to itself**, before anything else. -/
theorem decode_encode_append {s : List Point} (hs : ∀ c ∈ s, IsScalar c) (rest : List ℕ) :
    decode onError (encode s ++ rest) = s ++ decode onError rest := by
  induction s with
  | nil => rfl
  | cons c s ih =>
    obtain ⟨hc, hs⟩ := List.forall_mem_cons.mp hs
    rw [encode_cons, List.append_assoc, decode, (spells_encodeChar hc).decodeFrom_append, ih hs]
    rfl

theorem decode_encode {s : List Point} (hs : ∀ c ∈ s, IsScalar c) :
    decode onError (encode s) = s := by
  have h : decode onError (encode s ++ []) = s ++ decode onError [] := decode_encode_append hs []
  rwa [List.append_nil, decode_nil, List.append_nil] at h

/-! ## Cutting -/

/-- How many bytes a text has. -/
def size (s : List Point) : ℕ := (encode s).length

@[simp] theorem size_nil : size [] = 0 := rfl

theorem size_cons (c : Point) (s : List Point) :
    size (c :: s) = (encodeChar c).length + size s := List.length_append

/-- The characters that are whole in the first `n` bytes. -/
def whole : ℕ → List Point → List Point
  | _, [] => []
  | n, c :: s =>
    if (encodeChar c).length ≤ n then c :: whole (n - (encodeChar c).length) s else []

/-- **Bytes that are cut decode to the characters that are whole**, if the handler drops the
rest. -/
theorem decode_take_encode {s : List Point} (hs : ∀ c ∈ s, IsScalar c) :
    ∀ n, decode [] ((encode s).take n) = whole n s := by
  induction s with
  | nil =>
    intro n
    rw [encode_nil, List.take_nil]
    rfl
  | cons c s ih =>
    intro n
    obtain ⟨hc, hs⟩ := List.forall_mem_cons.mp hs
    rw [encode_cons, List.take_append, whole]
    by_cases hn : (encodeChar c).length ≤ n
    · rw [if_pos hn, List.take_of_length_le hn, decode, (spells_encodeChar hc).decodeFrom_append,
        ih hs]
    · have hnone : n - (encodeChar c).length = 0 := by omega
      rw [if_neg hn, hnone, List.take_zero, List.append_nil, decode]
      rcases Nat.eq_zero_or_pos n with rfl | hpos
      · rfl
      · exact (spells_encodeChar hc).decodeFrom_take n hpos (by omega)

theorem size_whole (s : List Point) : ∀ n, size (whole n s) ≤ n := by
  induction s with
  | nil => exact fun _ => Nat.zero_le _
  | cons c s ih =>
    intro n
    rw [whole]
    split
    · next hn =>
      have hrest := ih (n - (encodeChar c).length)
      rw [size_cons]
      omega
    · exact Nat.zero_le _

theorem whole_isPrefix (s : List Point) : ∀ n, whole n s <+: s := by
  induction s with
  | nil => exact fun _ => List.prefix_rfl
  | cons c s ih =>
    intro n
    rw [whole]
    split
    · exact List.cons_prefix_cons.mpr ⟨rfl, ih _⟩
    · exact List.nil_prefix

/-- **Every start that fits is whole.** -/
theorem isPrefix_whole {s t : List Point} (h : t <+: s) : ∀ {n}, size t ≤ n → t <+: whole n s := by
  induction t generalizing s with
  | nil => exact fun _ => List.nil_prefix
  | cons c t ih =>
    intro n hn
    obtain ⟨s, rfl⟩ : ∃ s', s = c :: s' := by
      obtain ⟨u, hu⟩ := h
      exact ⟨t ++ u, hu.symm⟩
    rw [size_cons] at hn
    rw [whole, if_pos (by omega)]
    refine List.cons_prefix_cons.mpr ⟨rfl, ih (List.cons_prefix_cons.mp h).2 ?_⟩
    omega

theorem whole_of_size_le {s : List Point} {n : ℕ} (h : size s ≤ n) : whole n s = s :=
  (whole_isPrefix s n).eq_of_length_le (isPrefix_whole List.prefix_rfl h).length_le

end Utf8
