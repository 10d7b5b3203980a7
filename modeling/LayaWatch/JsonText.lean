import LayaWatch.Python
import Mathlib.Data.Nat.Digits.Lemmas
import Mathlib.Data.Rat.Lemmas

/-!
# JSON text

`json.dumps(.., separators=(",", ":"))` and `json.loads`. How a float is written is
a parameter, `FloatText`, with the laws of the shortest text that reads back as the
float. (`loads` takes no NaN and no infinity here, which are no numbers of the
model.)

Objects of numbers, strings and arrays of these, which is what a cursor is, read
back as they were written (`loads_dumps`), and the text is ASCII (`dumps_ascii`).
-/

namespace LayaWatch

/-! ## Characters -/

namespace CodePoint

/-- A decimal digit. -/
def isDigit (c : CodePoint) : Bool := decide (48 ≤ c.val ∧ c.val ≤ 57)

/-- A character of a number. -/
def isNumeric (c : CodePoint) : Bool :=
  c.isDigit || [ofChar '-', ofChar '+', ofChar '.', ofChar 'e', ofChar 'E'].contains c

/-- A character that makes a number a float. -/
def isFloatMark (c : CodePoint) : Bool := [ofChar '.', ofChar 'e', ofChar 'E'].contains c

/-- An ASCII character other than NUL. -/
def isAscii (c : CodePoint) : Bool := decide (0 < c.val ∧ c.val < 128)

/-- A printable ASCII character. -/
def isPrintable (c : CodePoint) : Bool := decide (32 ≤ c.val ∧ c.val ≤ 126)

/-- `chr`, of numbers below 0x110000. -/
def ofNat (n : ℕ) : CodePoint := ⟨n % 0x110000, Nat.mod_lt _ (by decide)⟩

/-- The digit of a value below 10. -/
def ofDigit (n : ℕ) : CodePoint := ofNat (48 + n)

/-- The value of a hexadecimal digit. -/
def hexValue (c : CodePoint) : Option ℕ :=
  if 48 ≤ c.val ∧ c.val ≤ 57 then some (c.val - 48)
  else if 97 ≤ c.val ∧ c.val ≤ 102 then some (c.val - 87)
  else if 65 ≤ c.val ∧ c.val ≤ 70 then some (c.val - 55)
  else none

/-- The hexadecimal digit of a value below 16. -/
def ofHex (n : ℕ) : CodePoint := ofNat (if n < 10 then 48 + n else 87 + n)

end CodePoint

/-- How Python writes and reads a float. -/
structure FloatText where
  /-- `float.__repr__` -/
  repr : ℚ → PyStr
  /-- the float of a JSON number with a fraction or an exponent -/
  read : PyStr → Option ℚ
  /-- it is a number -/
  repr_numeric : ∀ x, ∀ c ∈ repr x, c.isNumeric = true
  /-- with a fraction or an exponent -/
  repr_float : ∀ x, (repr x).any CodePoint.isFloatMark = true
  /-- that reads as the same float -/
  read_repr : ∀ x, read (repr x) = some x

namespace JsonText

open CodePoint

/-! ## Writing -/

/-- `\uXXXX`. -/
def escapeUnit (n : ℕ) : PyStr :=
  [ofChar '\\', ofChar 'u', ofHex (n / 4096 % 16), ofHex (n / 256 % 16), ofHex (n / 16 % 16),
    ofHex (n % 16)]

/-- The escapes of one letter: the letter, and what it stands for. -/
def letters : List (CodePoint × CodePoint) :=
  [(ofChar '"', ofChar '"'), (ofChar '\\', ofChar '\\'), (ofChar 'n', ofChar '\n'),
    (ofChar 'r', ofChar '\r'), (ofChar 't', ofChar '\t'), (ofChar 'f', 12), (ofChar 'b', 8)]

/-- A character inside a string. -/
def escape (c : CodePoint) : PyStr :=
  match letters.find? fun e => e.2 = c with
  | some e => [ofChar '\\', e.1]
  | none =>
    if 32 ≤ c.val ∧ c.val ≤ 126 then [c]
    else if c.val < 0x10000 then escapeUnit c.val
    else
      escapeUnit (0xD800 + (c.val - 0x10000) / 1024) ++
        escapeUnit (0xDC00 + (c.val - 0x10000) % 1024)

/-- A string. -/
def dumpsStr (s : PyStr) : PyStr := ofChar '"' :: (s.flatMap escape ++ [ofChar '"'])

/-- A natural number in decimal. -/
def dumpsNat (n : ℕ) : PyStr :=
  if n = 0 then [ofDigit 0] else ((Nat.digits 10 n).map ofDigit).reverse

/-- An integer. -/
def dumpsInt (n : ℤ) : PyStr :=
  if n < 0 then ofChar '-' :: dumpsNat n.natAbs else dumpsNat n.natAbs

mutual

/-- `json.dumps`. -/
def dumps (T : FloatText) : Json → PyStr
  | .null => py "null"
  | .bool true => py "true"
  | .bool false => py "false"
  | .int n => dumpsInt n
  | .float x => T.repr x
  | .str s => dumpsStr s
  | .arr items => ofChar '[' :: (dumpsItems T items ++ [ofChar ']'])
  | .obj fields => ofChar '{' :: (dumpsMembers T fields ++ [ofChar '}'])

/-- The items of an array. -/
def dumpsItems (T : FloatText) : List Json → PyStr
  | [] => []
  | [v] => dumps T v
  | v :: rest => dumps T v ++ ofChar ',' :: dumpsItems T rest

/-- The members of an object. -/
def dumpsMembers (T : FloatText) : List (PyStr × Json) → PyStr
  | [] => []
  | [(k, v)] => dumpsStr k ++ ofChar ':' :: dumps T v
  | (k, v) :: rest => dumpsStr k ++ ofChar ':' :: (dumps T v ++ ofChar ',' :: dumpsMembers T rest)

end

/-! ## Reading -/

/-- Skip whitespace. -/
def skip (s : PyStr) : PyStr :=
  s.dropWhile fun c => [ofChar ' ', ofChar '\t', ofChar '\n', ofChar '\r'].contains c

/-- Four hexadecimal digits. -/
def unit : PyStr → Option (ℕ × PyStr)
  | a :: b :: c :: d :: rest => do
    let a ← hexValue a
    let b ← hexValue b
    let c ← hexValue c
    let d ← hexValue d
    some (((a * 16 + b) * 16 + c) * 16 + d, rest)
  | _ => none

/-- What follows a `\u`: a code unit, or two that make a pair. -/
def unitOrPair (s : PyStr) : Option (CodePoint × PyStr) := do
  let (high, rest) ← unit s
  let single := (ofNat high, rest)
  if 0xD800 ≤ high ∧ high ≤ 0xDBFF then
    match rest with
    | b :: u :: rest' =>
      if b = ofChar '\\' ∧ u = ofChar 'u' then
        let (low, rest') ← unit rest'
        if 0xDC00 ≤ low ∧ low ≤ 0xDFFF then
          some (ofNat (0x10000 + (high - 0xD800) * 1024 + (low - 0xDC00)), rest')
        else some single
      else some single
    | _ => some single
  else some single

/-- The rest of a string after its quote. -/
def loadsStr : ℕ → PyStr → Option (PyStr × PyStr)
  | 0, _ => none
  | _, [] => none
  | n + 1, c :: rest =>
    if c = ofChar '"' then some ([], rest)
    else if c = ofChar '\\' then
      match rest with
      | [] => none
      | e :: rest =>
        if e = ofChar 'u' then do
          let (c, rest) ← unitOrPair rest
          let (s, rest) ← loadsStr n rest
          some (c :: s, rest)
        else do
          let e ← letters.find? fun l => l.1 = e
          let (s, rest) ← loadsStr n rest
          some (e.2 :: s, rest)
    else if c.val < 32 then none
    else do
      let (s, rest) ← loadsStr n rest
      some (c :: s, rest)

/-- The natural number of a string of digits, without a leading zero. -/
def readNat (digits : PyStr) : Option ℕ :=
  if digits.isEmpty || !digits.all isDigit || (digits.head? = some (ofDigit 0) && digits.length ≠ 1)
  then none
  else some (Nat.ofDigits 10 (digits.reverse.map fun c => c.val - 48))

/-- The integer of a string. -/
def readInt : PyStr → Option ℤ
  | c :: digits =>
    if c = ofChar '-' then (readNat digits).map fun n : ℕ => -(n : ℤ)
    else (readNat (c :: digits)).map fun n : ℕ => (n : ℤ)
  | [] => none

/-- A number. -/
def loadsNumber (T : FloatText) (s : PyStr) : Option (Json × PyStr) :=
  let token := s.takeWhile isNumeric
  let rest := s.dropWhile isNumeric
  if token.any isFloatMark then (T.read token).map fun x => (.float x, rest)
  else (readInt token).map fun n => (.int n, rest)

/-- A literal name. -/
def loadsName (s : PyStr) : Option (Json × PyStr) :=
  if (py "null").isPrefixOf s then some (.null, s.drop 4)
  else if (py "true").isPrefixOf s then some (.bool true, s.drop 4)
  else if (py "false").isPrefixOf s then some (.bool false, s.drop 5)
  else none

mutual

/-- A value. -/
def loadsValue (T : FloatText) : ℕ → PyStr → Option (Json × PyStr)
  | 0, _ => none
  | n + 1, s =>
    match skip s with
    | [] => none
    | c :: rest =>
      if c = ofChar '"' then (loadsStr (n + 1) rest).map fun p => (.str p.1, p.2)
      else if c = ofChar '[' then
        match skip rest with
        | [] => none
        | d :: after =>
          if d = ofChar ']' then some (.arr [], after)
          else (loadsItems T n rest).map fun p => (.arr p.1, p.2)
      else if c = ofChar '{' then
        match skip rest with
        | [] => none
        | d :: after =>
          if d = ofChar '}' then some (.obj [], after)
          else (loadsMembers T n rest).map fun p =>
            (.obj (p.1.foldl (fun fields e => Fields.set e.1 e.2 fields) []), p.2)
      else if c.isNumeric then loadsNumber T (c :: rest)
      else loadsName (c :: rest)

/-- The items of an array, from the first one on. -/
def loadsItems (T : FloatText) : ℕ → PyStr → Option (List Json × PyStr)
  | 0, _ => none
  | n + 1, s => do
    let (v, rest) ← loadsValue T n s
    match skip rest with
    | [] => none
    | c :: rest =>
      if c = ofChar ']' then some ([v], rest)
      else if c = ofChar ',' then do
        let (vs, rest) ← loadsItems T n rest
        some (v :: vs, rest)
      else none

/-- The members of an object, from the first one on. -/
def loadsMembers (T : FloatText) : ℕ → PyStr → Option (List (PyStr × Json) × PyStr)
  | 0, _ => none
  | n + 1, s =>
    match skip s with
    | [] => none
    | q :: rest =>
      if q = ofChar '"' then do
        let (k, rest) ← loadsStr (n + 1) rest
        match skip rest with
        | [] => none
        | colon :: rest =>
          if colon = ofChar ':' then do
            let (v, rest) ← loadsValue T n rest
            match skip rest with
            | [] => none
            | c :: rest =>
              if c = ofChar '}' then some ([(k, v)], rest)
              else if c = ofChar ',' then do
                let (members, rest) ← loadsMembers T n rest
                some ((k, v) :: members, rest)
              else none
          else none
      else none

end

/-- `json.loads`. -/
def loads (T : FloatText) (s : PyStr) : Option Json :=
  match loadsValue T (s.length + 1) s with
  | some (v, rest) => if (skip rest).isEmpty then some v else none
  | none => none

/-! ## Numbers read back -/

theorem ofDigit_val {d : ℕ} (h : d < 10) : (ofDigit d).val = 48 + d := by
  change (48 + d) % 0x110000 = 48 + d
  omega

theorem isDigit_ofDigit {d : ℕ} (h : d < 10) : (ofDigit d).isDigit = true := by
  rw [isDigit, ofDigit_val h]
  exact decide_eq_true (by omega)

theorem dumpsNat_isDigit (n : ℕ) : ∀ c ∈ dumpsNat n, c.isDigit = true := by
  intro c hc
  unfold dumpsNat at hc
  split at hc
  · rw [List.mem_singleton.mp hc]
    exact isDigit_ofDigit (by decide)
  · rw [List.mem_reverse] at hc
    obtain ⟨d, hd, rfl⟩ := List.mem_map.mp hc
    exact isDigit_ofDigit (Nat.digits_lt_base (by decide) hd)

theorem dumpsNat_ne_nil (n : ℕ) : dumpsNat n ≠ [] := by
  unfold dumpsNat
  split
  · exact List.cons_ne_nil _ _
  · rename_i hn
    rw [ne_eq, List.reverse_eq_nil_iff, List.map_eq_nil_iff, Nat.digits_eq_nil_iff_eq_zero]
    exact hn

theorem readNat_dumpsNat (n : ℕ) : readNat (dumpsNat n) = some n := by
  by_cases hn : n = 0
  · subst hn
    rfl
  · have hall : (dumpsNat n).all isDigit = true := List.all_eq_true.mpr (dumpsNat_isDigit n)
    have hne := dumpsNat_ne_nil n
    have hhead : (dumpsNat n).head? ≠ some (ofDigit 0) := by
      have hlast := Nat.getLast_digit_ne_zero 10 hn
      have hdigits : Nat.digits 10 n ≠ [] := Nat.digits_ne_nil_iff_ne_zero.mpr hn
      rw [dumpsNat, if_neg hn, List.head?_reverse, List.getLast?_map,
        List.getLast?_eq_some_getLast hdigits, Option.map_some]
      intro heq
      have hlt : (Nat.digits 10 n).getLast hdigits < 10 :=
        Nat.digits_lt_base (by decide) (List.getLast_mem hdigits)
      have hval := congrArg Fin.val (Option.some.inj heq)
      rw [ofDigit_val hlt, ofDigit_val (by decide)] at hval
      omega
    have hcond : ((dumpsNat n).isEmpty || !(dumpsNat n).all isDigit ||
        (decide ((dumpsNat n).head? = some (ofDigit 0)) &&
          decide ((dumpsNat n).length ≠ 1))) = false := by
      rw [hall, decide_eq_false hhead, List.isEmpty_eq_false_iff.mpr hne]
      rfl
    have hvalue : (dumpsNat n).reverse.map (fun c => c.val - 48) = Nat.digits 10 n := by
      rw [dumpsNat, if_neg hn, List.reverse_reverse, List.map_map]
      refine (List.map_congr_left fun d hd => ?_).trans (List.map_id _)
      have hval := ofDigit_val (Nat.digits_lt_base (by decide) hd)
      rw [Function.comp_apply, hval, id]
      omega
    unfold readNat
    rw [if_neg (by rw [hcond]; exact Bool.false_ne_true), hvalue, Nat.ofDigits_digits]

theorem head_isDigit {c : CodePoint} (h : c.isDigit = true) : c ≠ ofChar '-' := by
  rintro rfl
  exact absurd h (by decide)

theorem readInt_dumpsInt (n : ℤ) : readInt (dumpsInt n) = some n := by
  unfold dumpsInt
  by_cases hn : n < 0
  · rw [if_pos hn, readInt, if_pos rfl, readNat_dumpsNat, Option.map_some]
    exact congrArg some (by omega)
  · rw [if_neg hn]
    obtain ⟨c, digits, hdigits⟩ := List.exists_cons_of_ne_nil (dumpsNat_ne_nil n.natAbs)
    have hc : c.isDigit = true :=
      dumpsNat_isDigit n.natAbs c (hdigits ▸ List.mem_cons_self ..)
    rw [hdigits, readInt, if_neg (head_isDigit hc), ← hdigits, readNat_dumpsNat, Option.map_some]
    exact congrArg some (by omega)

/-- What may follow a number: nothing that belongs to it. -/
def Ends (rest : PyStr) : Prop := ∀ c, rest.head? = some c → c.isNumeric = false

theorem takeWhile_number {token rest : PyStr} (h : ∀ c ∈ token, c.isNumeric = true)
    (hrest : Ends rest) : (token ++ rest).takeWhile isNumeric = token ∧
      (token ++ rest).dropWhile isNumeric = rest := by
  rw [List.takeWhile_append_of_pos h, List.dropWhile_append_of_pos h]
  rcases rest with _ | ⟨c, rest⟩
  · exact ⟨List.append_nil _, rfl⟩
  · have hc := hrest c rfl
    rw [List.takeWhile_cons_of_neg (by rw [hc]; exact Bool.false_ne_true),
      List.dropWhile_cons_of_neg (by rw [hc]; exact Bool.false_ne_true), List.append_nil]
    exact ⟨rfl, rfl⟩

theorem isNumeric_of_isDigit {c : CodePoint} (h : c.isDigit = true) : c.isNumeric = true := by
  rw [isNumeric, h, Bool.true_or]

theorem not_isFloatMark_of_isDigit {c : CodePoint} (h : c.isDigit = true) :
    c.isFloatMark = false := by
  rw [isFloatMark, Bool.eq_false_iff, ne_eq, List.contains_iff_mem, List.mem_cons, List.mem_cons,
    List.mem_singleton]
  rintro (rfl | rfl | rfl) <;> exact absurd h (by decide)

theorem dumpsInt_chars (n : ℤ) : ∀ c ∈ dumpsInt n, c = ofChar '-' ∨ c.isDigit = true := by
  intro c hc
  unfold dumpsInt at hc
  split at hc
  · rcases List.mem_cons.mp hc with rfl | hc
    · exact Or.inl rfl
    · exact Or.inr (dumpsNat_isDigit _ c hc)
  · exact Or.inr (dumpsNat_isDigit _ c hc)

theorem dumpsInt_numeric (n : ℤ) : ∀ c ∈ dumpsInt n, c.isNumeric = true := by
  intro c hc
  rcases dumpsInt_chars n c hc with rfl | hd
  · decide
  · exact isNumeric_of_isDigit hd

theorem loadsNumber_int (T : FloatText) (n : ℤ) {rest : PyStr} (hrest : Ends rest) :
    loadsNumber T (dumpsInt n ++ rest) = some (.int n, rest) := by
  obtain ⟨htake, hdrop⟩ := takeWhile_number (dumpsInt_numeric n) hrest
  have hmark : (dumpsInt n).any isFloatMark = false := by
    rw [List.any_eq_false]
    intro c hc
    rw [Bool.not_eq_true]
    rcases dumpsInt_chars n c hc with rfl | hd
    · decide
    · exact not_isFloatMark_of_isDigit hd
  simp only [loadsNumber, htake, hdrop, hmark, Bool.false_eq_true, if_false, readInt_dumpsInt,
    Option.map_some]

theorem loadsNumber_float (T : FloatText) (x : ℚ) {rest : PyStr} (hrest : Ends rest) :
    loadsNumber T (T.repr x ++ rest) = some (.float x, rest) := by
  obtain ⟨htake, hdrop⟩ := takeWhile_number (T.repr_numeric x) hrest
  simp only [loadsNumber, htake, hdrop, T.repr_float x, if_true, T.read_repr, Option.map_some]

/-! ## Strings read back -/

theorem hexValue_ofHex {n : ℕ} (h : n < 16) : hexValue (ofHex n) = some n := by
  interval_cases n <;> rfl

theorem unit_hex {n : ℕ} (h : n < 0x10000) (rest : PyStr) :
    unit (ofHex (n / 4096 % 16) :: ofHex (n / 256 % 16) :: ofHex (n / 16 % 16) ::
      ofHex (n % 16) :: rest) = some (n, rest) := by
  have hvalue : ((n / 4096 % 16 * 16 + n / 256 % 16) * 16 + n / 16 % 16) * 16 + n % 16 = n := by
    omega
  simp only [unit, hexValue_ofHex (Nat.mod_lt _ (by decide : 0 < 16)), Option.bind_eq_bind,
    Option.bind_some, hvalue]

theorem ofNat_val (c : CodePoint) : ofNat c.val = c := Fin.ext (Nat.mod_eq_of_lt c.isLt)

/-- A character below the pairs, read back from its escape. -/
theorem unitOrPair_single {c : CodePoint} (h : c.val < 0x10000) (hs : c.isSurrogate = false)
    (rest : PyStr) : unitOrPair ((escapeUnit c.val).drop 2 ++ rest) = some (c, rest) := by
  have hhigh : ¬(0xD800 ≤ c.val ∧ c.val ≤ 0xDBFF) := by
    have := of_decide_eq_false hs
    omega
  simp only [escapeUnit, List.drop_succ_cons, List.drop_zero, List.cons_append, List.nil_append,
    unitOrPair, unit_hex h, Option.bind_eq_bind, Option.bind_some, if_neg hhigh, ofNat_val]

/-- Two code units that make a pair. -/
theorem unitOrPair_two {high low : ℕ} (hhigh : 0xD800 ≤ high ∧ high ≤ 0xDBFF)
    (hlow : 0xDC00 ≤ low ∧ low ≤ 0xDFFF) (rest : PyStr) :
    unitOrPair ((escapeUnit high).drop 2 ++ (escapeUnit low ++ rest)) =
      some (ofNat (0x10000 + (high - 0xD800) * 1024 + (low - 0xDC00)), rest) := by
  have hu1 := fun r => unit_hex (n := high) (by omega) r
  have hu2 := fun r => unit_hex (n := low) (by omega) r
  simp only [escapeUnit, List.drop_succ_cons, List.drop_zero, List.cons_append, List.nil_append,
    unitOrPair, hu1, hu2, Option.bind_eq_bind, Option.bind_some, if_pos hhigh, if_pos hlow,
    and_self, if_true]

/-- A character written as a pair, read back. -/
theorem unitOrPair_pair {c : CodePoint} (h : 0x10000 ≤ c.val) (rest : PyStr) :
    unitOrPair ((escapeUnit (0xD800 + (c.val - 0x10000) / 1024)).drop 2 ++
      (escapeUnit (0xDC00 + (c.val - 0x10000) % 1024) ++ rest)) = some (c, rest) := by
  have hlt := c.isLt
  have hval : 0x10000 + (0xD800 + (c.val - 0x10000) / 1024 - 0xD800) * 1024 +
      (0xDC00 + (c.val - 0x10000) % 1024 - 0xDC00) = c.val := by omega
  rw [unitOrPair_two (by omega) (by omega), hval, ofNat_val]

/-- The letter of an escape tells which one it is. -/
theorem letters_spec {e : CodePoint × CodePoint} (h : e ∈ letters) :
    letters.find? (fun l => l.1 = e.1) = some e ∧ e.1 ≠ ofChar 'u' := by
  have hall : letters.all (fun e => decide (letters.find? (fun l => l.1 = e.1) = some e ∧
      e.1 ≠ ofChar 'u')) = true := by
    decide +kernel
  exact of_decide_eq_true (List.all_eq_true.mp hall e h)

/-- One character, read back from its escape. -/
theorem loadsStr_escape (n : ℕ) {c : CodePoint} (hs : c.isSurrogate = false) (rest : PyStr) :
    loadsStr (n + 1) (escape c ++ rest) = (loadsStr n rest).map fun p => (c :: p.1, p.2) := by
  have hbind : ∀ (o : Option (PyStr × PyStr)) (d : CodePoint),
      (o.bind fun p => some (d :: p.1, p.2)) = o.map fun p => (d :: p.1, p.2) := by
    intro o d
    cases o <;> rfl
  have hbackslash : ofChar '\\' ≠ ofChar '"' := by decide
  unfold escape
  split
  · -- a letter escape
    rename_i e he
    have hmem := List.mem_of_find?_eq_some he
    have hc : e.2 = c := by simpa using List.find?_some he
    obtain ⟨hback, hu⟩ := letters_spec hmem
    subst hc
    simp only [List.cons_append, List.nil_append, loadsStr, if_neg hbackslash, if_true, if_neg hu,
      hback, Option.bind_eq_bind, Option.bind_some, hbind]
  · rename_i hnone
    have hletter := List.find?_eq_none.mp hnone
    have hquote : c ≠ ofChar '"' := fun heq =>
      hletter (ofChar '"', ofChar '"') (by decide) (decide_eq_true heq.symm)
    have hslash : c ≠ ofChar '\\' := fun heq =>
      hletter (ofChar '\\', ofChar '\\') (by decide) (decide_eq_true heq.symm)
    split
    · -- itself
      rename_i hascii
      simp only [List.cons_append, List.nil_append, loadsStr, if_neg hquote, if_neg hslash,
        if_neg (not_lt.mpr hascii.1), Option.bind_eq_bind, hbind]
    · split
      · rename_i hsmall
        have hread := unitOrPair_single hsmall hs rest
        simp only [escapeUnit, List.drop_succ_cons, List.drop_zero] at hread
        simp only [escapeUnit, List.cons_append, List.nil_append, loadsStr, if_neg hbackslash,
          if_true] at hread ⊢
        rw [hread]
        simp only [Option.bind_eq_bind, Option.bind_some, hbind]
      · rename_i hlarge
        have hread := unitOrPair_pair (not_lt.mp hlarge) rest
        simp only [escapeUnit, List.drop_succ_cons, List.drop_zero] at hread
        simp only [escapeUnit, List.cons_append, List.nil_append, loadsStr, if_neg hbackslash,
          if_true] at hread ⊢
        rw [hread]
        simp only [Option.bind_eq_bind, Option.bind_some, hbind]

theorem loadsStr_dumpsStr {s : PyStr} (hs : s.encodable = true) (rest : PyStr) :
    ∀ n, s.length < n → loadsStr n (s.flatMap escape ++ ofChar '"' :: rest) = some (s, rest) := by
  induction s with
  | nil =>
    intro n hn
    obtain ⟨n, rfl⟩ := Nat.exists_eq_succ_of_ne_zero (Nat.ne_of_gt hn)
    simp only [List.flatMap_nil, List.nil_append, loadsStr, if_true]
  | cons c s ih =>
    intro n hn
    obtain ⟨n, rfl⟩ := Nat.exists_eq_succ_of_ne_zero (Nat.ne_of_gt (Nat.lt_of_le_of_lt
      (Nat.zero_le _) hn))
    have hall := List.all_eq_true.mp hs
    have hc : c.isSurrogate = false := by simpa using hall c (List.mem_cons_self ..)
    have hrest : PyStr.encodable s = true :=
      List.all_eq_true.mpr fun d hd => hall d (List.mem_cons_of_mem c hd)
    rw [List.flatMap_cons, List.append_assoc, loadsStr_escape n hc,
      ih hrest n (by simpa using hn), Option.map_some]

/-! ## Flat objects read back -/

/-- A number or a string that is stored. -/
def Plain : Json → Prop
  | .int _ | .float _ => True
  | .str s => s.encodable = true
  | _ => False

/-- A plain value, or an array of some. -/
def Flat : Json → Prop
  | .arr items => items ≠ [] ∧ ∀ v ∈ items, Plain v
  | v => Plain v

variable (T : FloatText)

/-- Whitespace. -/
def spaces : List CodePoint := [ofChar ' ', ofChar '\t', ofChar '\n', ofChar '\r']

/-- What a token starts with: no whitespace. -/
def starts (c : CodePoint) : Bool :=
  c.isNumeric ||
    [ofChar '"', ofChar ',', ofChar ']', ofChar '}', ofChar '[', ofChar '{', ofChar ':'].contains c

theorem skip_cons {c : CodePoint} (h : starts c = true) (rest : PyStr) :
    skip (c :: rest) = c :: rest := by
  refine List.dropWhile_cons_of_neg ?_
  rw [List.contains_iff_mem]
  intro hmem
  have hall : spaces.all (fun d => !starts d) = true := by decide +kernel
  have hspace := List.all_eq_true.mp hall c hmem
  rw [h] at hspace
  cases hspace

theorem starts_of_isNumeric {c : CodePoint} (h : c.isNumeric = true) : starts c = true := by
  rw [starts, h, Bool.true_or]

/-- The text of a plain value starts like a string or a number. -/
theorem dumps_head {v : Json} (hv : Plain v) : ∃ c text, dumps T v = c :: text ∧
    (c = ofChar '"' ∨ c.isNumeric = true) := by
  cases v with
  | int n =>
    obtain ⟨c, text, htext⟩ : ∃ c text, dumpsInt n = c :: text := by
      unfold dumpsInt
      split
      · exact ⟨_, _, rfl⟩
      · exact List.exists_cons_of_ne_nil (dumpsNat_ne_nil _)
    refine ⟨c, text, by rw [dumps, htext], Or.inr (dumpsInt_numeric n c ?_)⟩
    rw [htext]
    exact List.mem_cons_self ..
  | float x =>
    have hne : T.repr x ≠ [] := fun hnil => by
      have hmark := T.repr_float x
      rw [hnil] at hmark
      cases hmark
    obtain ⟨c, text, htext⟩ := List.exists_cons_of_ne_nil hne
    refine ⟨c, text, by rw [dumps, htext], Or.inr (T.repr_numeric x c ?_)⟩
    rw [htext]
    exact List.mem_cons_self ..
  | str s => exact ⟨_, _, rfl, Or.inl rfl⟩
  | _ => cases hv

theorem length_flatMap_escape (s : PyStr) : s.length ≤ (s.flatMap escape).length := by
  have hpos : ∀ c, 1 ≤ (escape c).length := by
    intro c
    unfold escape escapeUnit
    split
    · simp
    · split
      · simp
      · split <;> simp
  induction s with
  | nil => exact Nat.zero_le _
  | cons c s ih =>
    rw [List.flatMap_cons, List.length_append, List.length_cons]
    have := hpos c
    omega

theorem length_dumpsStr (s : PyStr) : s.length + 2 ≤ (dumpsStr s).length := by
  have := length_flatMap_escape s
  simp only [dumpsStr, List.length_cons, List.length_append, List.length_nil]
  omega

theorem numeric_ne {c : CodePoint} (h : c.isNumeric = true) :
    c ≠ ofChar '"' ∧ c ≠ ofChar '[' ∧ c ≠ ofChar '{' ∧ c ≠ ofChar ']' := by
  refine ⟨?_, ?_, ?_, ?_⟩ <;> rintro rfl <;> exact absurd h (by decide)

/-- A number, read back as a value. -/
theorem loadsValue_number {v : Json} {text rest : PyStr} {c : CodePoint}
    (hc : c.isNumeric = true)
    (h : loadsNumber T (c :: text ++ rest) = some (v, rest)) (n : ℕ) :
    loadsValue T (n + 1) (c :: text ++ rest) = some (v, rest) := by
  obtain ⟨hquote, harr, hobj, -⟩ := numeric_ne hc
  rw [List.cons_append] at h ⊢
  simp only [loadsValue, skip_cons (starts_of_isNumeric hc), if_neg hquote, if_neg harr,
    if_neg hobj,
    hc, if_true, h]

/-- A plain value, read back. -/
theorem loadsValue_plain {v : Json} (hv : Plain v) {rest : PyStr} (hrest : Ends rest) {n : ℕ}
    (hn : (dumps T v).length < n) : loadsValue T n (dumps T v ++ rest) = some (v, rest) := by
  obtain ⟨n, rfl⟩ := Nat.exists_eq_succ_of_ne_zero (Nat.ne_of_gt (Nat.lt_of_le_of_lt
    (Nat.zero_le _) hn))
  obtain ⟨c, text, htext, hc⟩ := dumps_head T hv
  cases v with
  | int m =>
    rw [dumps] at htext ⊢
    have hnum := loadsNumber_int T m hrest
    have hnumeric := dumpsInt_numeric m c (by rw [htext]; exact List.mem_cons_self ..)
    rw [htext] at hnum ⊢
    exact loadsValue_number T hnumeric hnum n
  | float x =>
    rw [dumps] at htext ⊢
    have hnum := loadsNumber_float T x hrest
    have hnumeric := T.repr_numeric x c (by rw [htext]; exact List.mem_cons_self ..)
    rw [htext] at hnum ⊢
    exact loadsValue_number T hnumeric hnum n
  | str s =>
    have hlen := length_dumpsStr s
    rw [dumps] at hn ⊢
    rw [dumpsStr, List.cons_append, List.append_assoc]
    have hquote : starts (ofChar '"') = true := by decide +kernel
    simp only [loadsValue, skip_cons hquote, if_true]
    rw [List.singleton_append, loadsStr_dumpsStr hv rest (n + 1) (by omega), Option.map_some]
  | _ => cases hv

theorem ends_cons {c : CodePoint} (h : c.isNumeric = false) (rest : PyStr) : Ends (c :: rest) :=
  fun _ hd => Option.some.inj hd ▸ h

theorem starts_bracket : starts (ofChar '[') = true ∧ starts (ofChar ']') = true ∧
    starts (ofChar '{') = true ∧ starts (ofChar '}') = true ∧ starts (ofChar ',') = true ∧
    starts (ofChar ':') = true ∧ starts (ofChar '"') = true := by
  decide +kernel

theorem dumpsItems_cons (v : Json) {items : List Json} (h : items ≠ []) :
    dumpsItems T (v :: items) = dumps T v ++ ofChar ',' :: dumpsItems T items := by
  rw [dumpsItems]
  exact h

theorem dumpsMembers_cons (e : PyStr × Json) {members : List (PyStr × Json)} (h : members ≠ []) :
    dumpsMembers T (e :: members) =
      dumpsStr e.1 ++ ofChar ':' :: (dumps T e.2 ++ ofChar ',' :: dumpsMembers T members) := by
  rw [dumpsMembers]
  exact h

/-- The items of an array, read back. -/
theorem loadsItems_dumps (rest : PyStr) : ∀ {items : List Json} {n : ℕ}, items ≠ [] →
    (∀ v ∈ items, Plain v) → (dumpsItems T items).length + 2 ≤ n →
    loadsItems T n (dumpsItems T items ++ ofChar ']' :: rest) = some (items, rest) := by
  obtain ⟨-, hclose, -, -, hcomma, -, -⟩ := starts_bracket
  intro items
  induction items with
  | nil => exact fun hne _ _ => absurd rfl hne
  | cons v items ih =>
    intro n _ hplain hn
    obtain ⟨n, rfl⟩ := Nat.exists_eq_succ_of_ne_zero (Nat.ne_of_gt (Nat.lt_of_lt_of_le
      (Nat.succ_pos _) hn))
    have hv := hplain v (List.mem_cons_self ..)
    rcases items with _ | ⟨w, items⟩
    · rw [dumpsItems] at hn ⊢
      rw [loadsItems, loadsValue_plain T hv (ends_cons (by decide) rest) (by omega)]
      simp only [Option.bind_eq_bind, Option.bind_some, skip_cons hclose, if_true]
    · have hne : ofChar ',' ≠ ofChar ']' := by decide
      have hitems := List.cons_ne_nil w items
      rw [dumpsItems_cons T v hitems, List.length_append, List.length_cons] at hn
      rw [dumpsItems_cons T v hitems, List.append_assoc, List.cons_append, loadsItems,
        loadsValue_plain T hv (ends_cons (by decide) _) (by omega)]
      simp only [Option.bind_eq_bind, Option.bind_some, skip_cons hcomma, if_neg hne, if_true]
      rw [ih hitems (fun u hu => hplain u (List.mem_cons_of_mem v hu)) (by omega),
        Option.bind_some]

/-- A flat value, read back. -/
theorem loadsValue_flat {v : Json} (hv : Flat v) {rest : PyStr} (hrest : Ends rest) {n : ℕ}
    (hn : (dumps T v).length < n) : loadsValue T n (dumps T v ++ rest) = some (v, rest) := by
  cases v with
  | arr items =>
    obtain ⟨hne, hplain⟩ := hv
    obtain ⟨hopen, -, -, -, -, -, -⟩ := starts_bracket
    obtain ⟨n, rfl⟩ := Nat.exists_eq_succ_of_ne_zero (Nat.ne_of_gt (Nat.lt_of_le_of_lt
      (Nat.zero_le _) hn))
    have hitems := loadsItems_dumps T rest (n := n) hne hplain (by
      simp only [dumps, List.length_cons, List.length_append, List.length_nil] at hn
      omega)
    have hhead : ∃ c text, dumpsItems T items = c :: text ∧ starts c = true ∧ c ≠ ofChar ']' := by
      rcases items with _ | ⟨w, items⟩
      · exact absurd rfl hne
      · obtain ⟨c, text, htext, hc⟩ := dumps_head T (hplain w (List.mem_cons_self ..))
        refine ⟨c, ?_⟩
        have hfirst : starts c = true ∧ c ≠ ofChar ']' := by
          rcases hc with rfl | hc
          · decide +kernel
          · exact ⟨starts_of_isNumeric hc, (numeric_ne hc).2.2.2⟩
        by_cases hnil : items = []
        · subst hnil
          exact ⟨text, by rw [dumpsItems, htext], hfirst⟩
        · exact ⟨_, by rw [dumpsItems_cons T w hnil, htext, List.cons_append], hfirst⟩
    obtain ⟨c, text, htext, hstarts, hc⟩ := hhead
    have hquote : ofChar '[' ≠ ofChar '"' := by decide
    rw [dumps, List.cons_append, List.append_assoc, List.singleton_append]
    rw [htext, List.cons_append] at hitems ⊢
    simp only [loadsValue, skip_cons hopen, skip_cons hstarts, if_neg hquote, if_neg hc, if_true,
      hitems, Option.map_some]
  | _ =>
    refine loadsValue_plain T ?_ hrest hn
    exact hv

/-- The members of an object, read back. -/
theorem loadsMembers_dumps (rest : PyStr) : ∀ {members : List (PyStr × Json)} {n : ℕ},
    members ≠ [] → (∀ e ∈ members, e.1.encodable = true ∧ Flat e.2) →
    (dumpsMembers T members).length < n →
    loadsMembers T n (dumpsMembers T members ++ ofChar '}' :: rest) = some (members, rest) := by
  obtain ⟨-, -, -, hclose, hcomma, hcolon, hquote⟩ := starts_bracket
  intro members
  induction members with
  | nil => exact fun hne _ _ => absurd rfl hne
  | cons e members ih =>
    intro n _ hflat hn
    obtain ⟨n, rfl⟩ := Nat.exists_eq_succ_of_ne_zero (Nat.ne_of_gt (Nat.lt_of_le_of_lt
      (Nat.zero_le _) hn))
    obtain ⟨hkey, hvalue⟩ := hflat e (List.mem_cons_self ..)
    have hlen := length_dumpsStr e.1
    rcases members with _ | ⟨e', members⟩
    · rw [dumpsMembers, List.length_append, List.length_cons] at hn
      rw [dumpsMembers, List.append_assoc, dumpsStr, List.cons_append, List.append_assoc,
        List.singleton_append, List.cons_append, loadsMembers, skip_cons hquote]
      simp only [if_true, loadsStr_dumpsStr hkey _ (n + 1) (by omega), Option.bind_eq_bind,
        Option.bind_some, skip_cons hcolon,
        loadsValue_flat T hvalue (ends_cons (c := ofChar '}') (by decide) rest) (n := n)
          (by omega), skip_cons hclose]
    · have hne : ofChar ',' ≠ ofChar '}' := by decide
      have hmembers := List.cons_ne_nil e' members
      rw [dumpsMembers_cons T e hmembers] at hn ⊢
      simp only [List.length_append, List.length_cons] at hn
      rw [List.append_assoc, dumpsStr, List.cons_append, List.append_assoc,
        List.singleton_append, List.cons_append, List.append_assoc, List.cons_append,
        loadsMembers, skip_cons hquote]
      simp only [if_true, loadsStr_dumpsStr hkey _ (n + 1) (by omega), Option.bind_eq_bind,
        Option.bind_some, skip_cons hcolon,
        loadsValue_flat T hvalue (ends_cons (c := ofChar ',') (by decide) _) (n := n)
          (by omega), skip_cons hcomma, if_neg hne,
        ih hmembers (fun u hu => hflat u (List.mem_cons_of_mem e hu)) (n := n) (by omega)]

theorem set_fresh (k : PyStr) (v : Json) {fields : Fields} (h : ∀ e ∈ fields, e.1 ≠ k) :
    Fields.set k v fields = fields ++ [(k, v)] := by
  induction fields with
  | nil => rfl
  | cons e fields ih =>
    rw [Fields.set, if_neg (h e (List.mem_cons_self ..)),
      ih fun f hf => h f (List.mem_cons_of_mem e hf), List.cons_append]

/-- Members with distinct keys make the object they are. -/
theorem foldl_set {members : List (PyStr × Json)} :
    ∀ {fields : Fields}, ((fields ++ members).map Prod.fst).Nodup →
      members.foldl (fun fields e => Fields.set e.1 e.2 fields) fields = fields ++ members := by
  induction members with
  | nil => exact fun _ => (List.append_nil _).symm
  | cons e members ih =>
    intro fields hnodup
    have hfresh : ∀ f ∈ fields, f.1 ≠ e.1 := by
      intro f hf heq
      rw [List.map_append, List.nodup_append] at hnodup
      exact hnodup.2.2 f.1 (List.mem_map_of_mem hf) e.1
        (List.mem_map_of_mem (List.mem_cons_self ..)) heq
    rw [List.foldl_cons, set_fresh e.1 e.2 hfresh, ih (by rwa [List.append_assoc]),
      List.append_assoc, List.singleton_append]

/-- An object of flat values, read back. -/
theorem loads_dumps {members : List (PyStr × Json)} (hne : members ≠ [])
    (hkeys : (members.map Prod.fst).Nodup)
    (hflat : ∀ e ∈ members, e.1.encodable = true ∧ Flat e.2) :
    loads T (dumps T (.obj members)) = some (.obj members) := by
  obtain ⟨-, -, hopen, -, -, -, hstarts⟩ := starts_bracket
  have hmembers := loadsMembers_dumps T [] (n := (dumps T (.obj members)).length) hne hflat
     (by simp only [dumps, List.length_cons, List.length_append]; omega)
  have hhead : ∃ text, dumpsMembers T members = ofChar '"' :: text := by
    rcases members with _ | ⟨e, members⟩
    · exact absurd rfl hne
    · by_cases hnil : members = []
      · subst hnil
        exact ⟨_, by rw [dumpsMembers, dumpsStr, List.cons_append]⟩
      · exact ⟨_, by rw [dumpsMembers_cons T e hnil, dumpsStr, List.cons_append]⟩
  obtain ⟨text, htext⟩ := hhead
  have hne1 : ofChar '{' ≠ ofChar '"' := by decide
  have hne2 : ofChar '{' ≠ ofChar '[' := by decide
  have hne3 : ofChar '"' ≠ ofChar '}' := by decide
  have hfold : members.foldl (fun fields e => Fields.set e.1 e.2 fields) [] = [] ++ members :=
    foldl_set hkeys
  have hvalue : loadsValue T ((dumps T (.obj members)).length + 1) (dumps T (.obj members)) =
      some (.obj members, []) := by
    generalize (dumps T (.obj members)).length = n at hmembers ⊢
    rw [dumps]
    rw [htext, List.cons_append] at hmembers ⊢
    simp only [loadsValue, skip_cons hopen, skip_cons hstarts, if_neg hne1, if_neg hne2,
      if_neg hne3, if_true, hmembers, Option.map_some, hfold, List.nil_append]
  rw [loads, hvalue]
  rfl

/-! ## The text is printable ASCII -/

theorem isAscii_of_isPrintable {c : CodePoint} (h : c.isPrintable = true) : c.isAscii = true := by
  have hrange := of_decide_eq_true h
  exact decide_eq_true (by omega)

theorem isNumeric_printable {c : CodePoint} (h : c.isNumeric = true) : c.isPrintable = true := by
  rcases (Bool.or_eq_true _ _).mp h with hd | hm
  · have hdigit := of_decide_eq_true hd
    exact decide_eq_true (by omega)
  · have hall : [ofChar '-', ofChar '+', ofChar '.', ofChar 'e', ofChar 'E'].all
        isPrintable = true := by decide +kernel
    exact List.all_eq_true.mp hall c (List.contains_iff_mem.mp hm)

theorem ofHex_printable {n : ℕ} (h : n < 16) : (ofHex n).isPrintable = true := by
  interval_cases n <;> decide

theorem escapeUnit_printable (n : ℕ) : ∀ c ∈ escapeUnit n, c.isPrintable = true := by
  intro c hc
  have hmod : ∀ k, (ofHex (k % 16)).isPrintable = true := fun k =>
    ofHex_printable (Nat.mod_lt _ (by decide))
  simp only [escapeUnit, List.mem_cons, List.not_mem_nil, or_false] at hc
  rcases hc with rfl | rfl | rfl | rfl | rfl | rfl
  · decide
  · decide
  · exact hmod _
  · exact hmod _
  · exact hmod _
  · exact hmod _

theorem escape_printable (d : CodePoint) : ∀ c ∈ escape d, c.isPrintable = true := by
  intro c hc
  unfold escape at hc
  split at hc
  · rename_i e he
    have hall : letters.all (fun e => e.1.isPrintable) = true := by decide +kernel
    have hletter := List.all_eq_true.mp hall e (List.mem_of_find?_eq_some he)
    simp only [List.mem_cons, List.not_mem_nil, or_false] at hc
    rcases hc with rfl | rfl
    · decide
    · exact hletter
  · split at hc
    · rename_i hprint
      rw [List.mem_singleton.mp hc]
      exact decide_eq_true (by omega)
    · split at hc
      · exact escapeUnit_printable _ c hc
      · rcases List.mem_append.mp hc with hc | hc
        · exact escapeUnit_printable _ c hc
        · exact escapeUnit_printable _ c hc

theorem dumpsStr_printable (s : PyStr) : ∀ c ∈ dumpsStr s, c.isPrintable = true := by
  intro c hc
  rcases List.mem_cons.mp hc with rfl | hc
  · decide
  · rcases List.mem_append.mp hc with hc | hc
    · obtain ⟨d, -, hd⟩ := List.mem_flatMap.mp hc
      exact escape_printable d c hd
    · rw [List.mem_singleton.mp hc]
      decide

theorem names_printable (c : CodePoint) (h : c ∈ py "null" ∨ c ∈ py "true" ∨ c ∈ py "false") :
    c.isPrintable = true := by
  have hall : (py "null" ++ py "true" ++ py "false").all isPrintable = true := by
    decide +kernel
  refine List.all_eq_true.mp hall c ?_
  rw [List.mem_append, List.mem_append, or_assoc]
  exact h

mutual

/-- What `json.dumps` writes is printable ASCII. -/
theorem dumps_printable : ∀ v : Json, ∀ c ∈ dumps T v, c.isPrintable = true
  | .null, c, hc => by
    rw [dumps] at hc
    exact names_printable c (Or.inl hc)
  | .bool true, c, hc => by
    rw [dumps] at hc
    exact names_printable c (Or.inr (Or.inl hc))
  | .bool false, c, hc => by
    rw [dumps] at hc
    exact names_printable c (Or.inr (Or.inr hc))
  | .int n, c, hc => by
    rw [dumps] at hc
    exact isNumeric_printable (dumpsInt_numeric n c hc)
  | .float x, c, hc => by
    rw [dumps] at hc
    exact isNumeric_printable (T.repr_numeric x c hc)
  | .str s, c, hc => by
    rw [dumps] at hc
    exact dumpsStr_printable s c hc
  | .arr items, c, hc => by
    rw [dumps, List.mem_cons, List.mem_append, List.mem_singleton] at hc
    rcases hc with rfl | hc | rfl
    · decide
    · exact dumpsItems_printable items c hc
    · decide
  | .obj fields, c, hc => by
    rw [dumps, List.mem_cons, List.mem_append, List.mem_singleton] at hc
    rcases hc with rfl | hc | rfl
    · decide
    · exact dumpsMembers_printable fields c hc
    · decide

theorem dumpsItems_printable : ∀ items : List Json, ∀ c ∈ dumpsItems T items, c.isPrintable = true
  | [], c, hc => by
    rw [dumpsItems] at hc
    cases hc
  | [v], c, hc => by
    rw [dumpsItems] at hc
    exact dumps_printable v c hc
  | v :: w :: rest, c, hc => by
    rw [dumpsItems_cons T v (List.cons_ne_nil w rest), List.mem_append, List.mem_cons] at hc
    rcases hc with hc | rfl | hc
    · exact dumps_printable v c hc
    · decide
    · exact dumpsItems_printable (w :: rest) c hc

theorem dumpsMembers_printable : ∀ fields : List (PyStr × Json), ∀ c ∈ dumpsMembers T fields,
    c.isPrintable = true
  | [], c, hc => by
    rw [dumpsMembers] at hc
    cases hc
  | [(k, v)], c, hc => by
    rw [dumpsMembers, List.mem_append, List.mem_cons] at hc
    rcases hc with hc | rfl | hc
    · exact dumpsStr_printable k c hc
    · decide
    · exact dumps_printable v c hc
  | (k, v) :: e :: rest, c, hc => by
    rw [dumpsMembers_cons T (k, v) (List.cons_ne_nil e rest), List.mem_append, List.mem_cons,
      List.mem_append, List.mem_cons] at hc
    rcases hc with hc | rfl | hc | rfl | hc
    · exact dumpsStr_printable k c hc
    · decide
    · exact dumps_printable v c hc
    · decide
    · exact dumpsMembers_printable (e :: rest) c hc

end

theorem isNumeric_ascii {c : CodePoint} (h : c.isNumeric = true) : c.isAscii = true :=
  isAscii_of_isPrintable (isNumeric_printable h)

theorem escapeUnit_ascii (n : ℕ) : ∀ c ∈ escapeUnit n, c.isAscii = true :=
  fun c hc => isAscii_of_isPrintable (escapeUnit_printable n c hc)

/-- What `json.dumps` writes is ASCII. -/
theorem dumps_ascii (v : Json) : ∀ c ∈ dumps T v, c.isAscii = true :=
  fun c hc => isAscii_of_isPrintable (dumps_printable T v c hc)

end JsonText

end LayaWatch
