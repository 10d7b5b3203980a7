import LayaWatch.Lib.Utf8
import Mathlib.Data.Rat.Defs
import Mathlib.Data.List.Lex

/-!
# Python values

What the program's values are: a `str` is a sequence of code points, in which
lone surrogates may occur (`json.loads` produces them); a JSON value is a tree
of these. Floats are exact rationals throughout.
-/

namespace LayaWatch

/-- An element of a Python `str`: any code point, surrogates included. -/
abbrev CodePoint : Type := Fin 0x110000

/-- A Python `str`. -/
abbrev PyStr : Type := List CodePoint

/-- A code point can be written as a numeral. -/
instance CodePoint.neZero : @NeZero ℕ Zero.ofOfNat0 0x110000 := Nat.instNeZeroSucc

/-- The test for equality of strings that membership uses decides equality. -/
instance PyStr.lawfulBEq : LawfulBEq PyStr := List.instLawfulBEq

namespace CodePoint

/-- The code point of a Lean character (which is never a surrogate). -/
def ofChar (c : Char) : CodePoint :=
  ⟨c.toNat, by
    have h := c.valid
    unfold UInt32.isValidChar Nat.isValidChar at h
    unfold Char.toNat
    omega⟩

/-- The code points that UTF-8 cannot encode. -/
def isSurrogate (c : CodePoint) : Bool := decide (0xD800 ≤ c.val ∧ c.val ≤ 0xDFFF)

/-- `c.isspace()`. -/
def isSpace (c : CodePoint) : Bool :=
  decide (9 ≤ c.val ∧ c.val ≤ 13 ∨ 28 ≤ c.val ∧ c.val ≤ 32 ∨ 0x2000 ≤ c.val ∧ c.val ≤ 0x200A) ||
    [0x85, 0xA0, 0x1680, 0x2028, 0x2029, 0x202F, 0x205F, 0x3000].contains c.val

end CodePoint

/-- A string literal of the source. -/
def py (s : String) : PyStr := s.toList.map CodePoint.ofChar

namespace PyStr

/-- `s.encode("utf-8")` succeeds: there is no surrogate in it. -/
def encodable (s : PyStr) : Bool := s.all fun c => !c.isSurrogate

/-- Its characters have encodings. -/
theorem encodable_iff_scalar {s : PyStr} : s.encodable = true ↔ ∀ c ∈ s, Utf8.IsScalar c := by
  unfold encodable Utf8.IsScalar CodePoint.isSurrogate
  simp only [List.all_eq_true, Bool.not_eq_true', decide_eq_false_iff_not]

/-- Texts are encoded one after the other. -/
theorem encodable_append (s t : PyStr) : encodable (s ++ t) = (s.encodable && t.encodable) :=
  List.all_append

/-- `s or ""`. -/
def orEmpty (s : Option PyStr) : PyStr := s.getD []

/-- `bool(s)`: present and not empty. -/
def truthy (s : Option PyStr) : Bool := !(orEmpty s).isEmpty

/-- `s.strip()`. -/
def strip (s : PyStr) : PyStr :=
  ((s.dropWhile CodePoint.isSpace).reverse.dropWhile CodePoint.isSpace).reverse

end PyStr

/-- A JSON value, as `json.loads` returns it and `json.dumps` takes it. -/
inductive Json where
  /-- `None` -/
  | null
  /-- a boolean -/
  | bool (b : Bool)
  /-- an `int` -/
  | int (n : ℤ)
  /-- a finite `float` -/
  | float (x : ℚ)
  /-- a string -/
  | str (s : PyStr)
  /-- an array -/
  | arr (items : List Json)
  /-- an object, in insertion order -/
  | obj (fields : List (PyStr × Json))

/-- A `dict` with string keys, as the program builds them. -/
abbrev Fields : Type := List (PyStr × Json)

namespace Fields

/-- `fields.get(key)`. -/
def get (key : PyStr) : Fields → Option Json
  | [] => none
  | (k, v) :: rest => if k = key then some v else get key rest

/-- `fields[key] = value`: in place, or at the end. -/
def set (key : PyStr) (value : Json) : Fields → Fields
  | [] => [(key, value)]
  | (k, v) :: rest => if k = key then (key, value) :: rest else (k, v) :: set key value rest

/-! ## Reading and setting -/

variable {key other : PyStr} {value value' : Json}

theorem get_set (fields : Fields) : Fields.get key (Fields.set key value fields) = some value := by
  induction fields with
  | nil => exact if_pos rfl
  | cons e fields ih =>
    obtain ⟨k, v⟩ := e
    rw [Fields.set]
    split
    · exact if_pos rfl
    · next hne => rw [Fields.get, if_neg hne, ih]

theorem get_set_ne (fields : Fields) (h : other ≠ key) :
    Fields.get other (Fields.set key value fields) = Fields.get other fields := by
  induction fields with
  | nil => exact if_neg h.symm
  | cons e fields ih =>
    obtain ⟨k, v⟩ := e
    rw [Fields.set]
    split
    · next heq => rw [Fields.get, Fields.get, heq, if_neg h.symm, if_neg h.symm]
    · rw [Fields.get, Fields.get, ih]

theorem set_set (fields : Fields) :
    Fields.set key value (Fields.set key value' fields) = Fields.set key value fields := by
  induction fields with
  | nil => exact if_pos rfl
  | cons e fields ih =>
    obtain ⟨k, v⟩ := e
    by_cases h : k = key
    · simp only [Fields.set, if_pos h, if_true]
    · simp only [Fields.set, if_neg h, ih]

/-- A field that is there keeps its place. -/
theorem set_comm (fields : Fields) (hne : other ≠ key)
    (h : (Fields.get key fields).isSome = true) :
    Fields.set key value (Fields.set other value' fields) =
      Fields.set other value' (Fields.set key value fields) := by
  induction fields with
  | nil => cases h
  | cons e fields ih =>
    obtain ⟨k, v⟩ := e
    by_cases hk : k = key
    · have hko : k ≠ other := fun heq => hne (heq.symm.trans hk)
      simp only [Fields.set, if_pos hk, if_neg hko, if_neg hne.symm]
    · have hrest := ih (by rwa [Fields.get, if_neg hk] at h)
      by_cases hko : k = other
      · simp only [Fields.set, if_pos hko, if_neg hk, if_neg hne]
      · simp only [Fields.set, if_neg hko, if_neg hk, hrest]

/-- The members of a dict after `out[key] = value`. -/
theorem mem_set {key : PyStr} {value : Json} : ∀ {out : Fields}, (out.map Prod.fst).Nodup →
    ∀ m, m ∈ out.set key value ↔ m = (key, value) ∨ m ∈ out ∧ m.1 ≠ key := by
  intro out
  induction out with
  | nil =>
    intro _ m
    simp [Fields.set]
  | cons e out ih =>
    intro hnodup m
    obtain ⟨k, v⟩ := e
    rw [List.map_cons, List.nodup_cons] at hnodup
    rw [Fields.set]
    by_cases hk : k = key
    · subst hk
      have hrest : ∀ m ∈ out, m.1 ≠ k := fun m hm hmk =>
        hnodup.1 (List.mem_map.mpr ⟨m, hm, hmk⟩)
      rw [if_pos rfl, List.mem_cons, List.mem_cons]
      constructor
      · rintro (rfl | hm)
        · exact Or.inl rfl
        · exact Or.inr ⟨Or.inr hm, hrest m hm⟩
      · rintro (rfl | ⟨rfl | hm, hne⟩)
        · exact Or.inl rfl
        · exact absurd rfl hne
        · exact Or.inr hm
    · rw [if_neg hk, List.mem_cons, List.mem_cons, ih hnodup.2]
      constructor
      · rintro (rfl | rfl | ⟨hm, hne⟩)
        · exact Or.inr ⟨Or.inl rfl, hk⟩
        · exact Or.inl rfl
        · exact Or.inr ⟨Or.inr hm, hne⟩
      · rintro (rfl | ⟨rfl | hm, hne⟩)
        · exact Or.inr (Or.inl rfl)
        · exact Or.inl rfl
        · exact Or.inr (Or.inr ⟨hm, hne⟩)

/-- A dict keeps its keys distinct. -/
theorem nodup_set {key : PyStr} {value : Json} {out : Fields} (h : (out.map Prod.fst).Nodup) :
    ((out.set key value).map Prod.fst).Nodup := by
  induction out with
  | nil => simp [Fields.set]
  | cons e out ih =>
    obtain ⟨k, v⟩ := e
    rw [List.map_cons, List.nodup_cons] at h
    rw [Fields.set]
    by_cases hk : k = key
    · rw [if_pos hk, List.map_cons, List.nodup_cons]
      exact ⟨hk ▸ h.1, h.2⟩
    · rw [if_neg hk, List.map_cons, List.nodup_cons]
      refine ⟨fun hmem => ?_, ih h.2⟩
      obtain ⟨m, hm, hmk⟩ := List.mem_map.mp hmem
      rcases (mem_set h.2 m).mp hm with rfl | ⟨hm, -⟩
      · exact hk hmk.symm
      · exact h.1 (List.mem_map.mpr ⟨m, hm, hmk⟩)

end Fields

namespace Json

/-- `bool(value)`. -/
def truthy : Json → Bool
  | null => false
  | bool b => b
  | int n => decide (n ≠ 0)
  | float x => decide (x ≠ 0)
  | str s => !s.isEmpty
  | arr l => !l.isEmpty
  | obj l => !l.isEmpty

end Json

end LayaWatch
