import LayaWatch.JsonText

/-!
# JSON read back

What `json.dumps` writes is what `json.loads` reads back (`loads_dumps_storable`): any value,
however deep, whose strings can be stored and whose objects have no name twice. Its text has
no line break in it, so that values can be put on lines of their own
(`loadsLines_dumpsLines`).
-/

namespace LayaWatch

namespace JsonText

open CodePoint

mutual

/-- Its strings can be stored, and its objects have no name twice. -/
def Storable : Json → Prop
  | .str s => s.encodable = true
  | .arr items => StorableItems items
  | .obj fields => (fields.map Prod.fst).Nodup ∧ StorableMembers fields
  | _ => True

/-- Of the items of an array. -/
def StorableItems : List Json → Prop
  | [] => True
  | v :: items => Storable v ∧ StorableItems items

/-- Of the members of an object. -/
def StorableMembers : List (PyStr × Json) → Prop
  | [] => True
  | e :: members => e.1.encodable = true ∧ Storable e.2 ∧ StorableMembers members

end

section

variable (T : FloatText)

/-! ## How a value begins -/

theorem skip_of_not_space {c : CodePoint} (h : spaces.contains c = false) (rest : PyStr) :
    skip (c :: rest) = c :: rest := List.dropWhile_cons_of_neg (ne_true_of_eq_false h)

/-- The text of a value begins with neither whitespace nor the end of an array. -/
theorem dumps_begins (v : Json) : ∃ c text, dumps T v = c :: text ∧
    spaces.contains c = false ∧ c ≠ ofChar ']' := by
  have hplain : ∀ {v : Json}, Plain v → ∃ c text, dumps T v = c :: text ∧
      spaces.contains c = false ∧ c ≠ ofChar ']' := by
    intro v hv
    obtain ⟨c, text, htext, hc⟩ := dumps_head T hv
    refine ⟨c, text, htext, ?_⟩
    rcases hc with rfl | hc
    · decide
    · refine ⟨Bool.eq_false_iff.mpr fun hspace => ?_, (numeric_ne hc).2.2.2⟩
      have hnone : (spaces.all fun d => !d.isNumeric) = true := by decide
      have hfalse := List.all_eq_true.mp hnone c (List.contains_iff_mem.mp hspace)
      rw [hc] at hfalse
      cases hfalse
  cases v with
  | null => exact ⟨_, _, rfl, by decide⟩
  | bool b => cases b <;> exact ⟨_, _, rfl, by decide⟩
  | int n => exact hplain (v := .int n) trivial
  | float x => exact hplain (v := .float x) trivial
  | str s => exact ⟨_, _, rfl, by decide⟩
  | arr items => exact ⟨_, _, rfl, by decide⟩
  | obj fields => exact ⟨_, _, rfl, by decide⟩

/-- A name, read back as a value. -/
theorem loadsValue_name {v : Json} (name : PyStr) {rest : PyStr} {c : CodePoint} {text : PyStr}
    (hname : name = c :: text)
    (hc : spaces.contains c = false ∧ c ≠ ofChar '"' ∧ c ≠ ofChar '[' ∧ c ≠ ofChar '{' ∧
      c.isNumeric = false)
    (h : loadsName (name ++ rest) = some (v, rest)) (n : ℕ) :
    loadsValue T (n + 1) (name ++ rest) = some (v, rest) := by
  obtain ⟨hspace, hquote, harr, hobj, hnumeric⟩ := hc
  subst hname
  rw [List.cons_append] at h ⊢
  simp only [loadsValue, skip_of_not_space hspace, if_neg hquote, if_neg harr, if_neg hobj,
    hnumeric, Bool.false_eq_true, if_false, h]

/-! ## Reading back -/

mutual

/-- A value, read back. -/
theorem loadsValue_storable : ∀ v : Json, Storable v → ∀ {rest : PyStr} {n : ℕ}, Ends rest →
    (dumps T v).length < n → loadsValue T n (dumps T v ++ rest) = some (v, rest)
  | v, hv, rest, 0, _, hn => absurd hn (Nat.not_lt_zero _)
  | .null, _, rest, n + 1, _, _ => loadsValue_name T (py "null") rfl (by decide) rfl n
  | .bool true, _, rest, n + 1, _, _ =>
    loadsValue_name T (py "true") rfl (by decide) rfl n
  | .bool false, _, rest, n + 1, _, _ =>
    loadsValue_name T (py "false") rfl (by decide) rfl n
  | .int m, _, rest, n + 1, hrest, hn => loadsValue_plain T (v := .int m) trivial hrest hn
  | .float x, _, rest, n + 1, hrest, hn => loadsValue_plain T (v := .float x) trivial hrest hn
  | .str s, hv, rest, n + 1, hrest, hn => loadsValue_plain T (v := .str s) hv hrest hn
  | .arr [], _, rest, n + 1, _, _ => by
    obtain ⟨hopen, hclose, -, -, -, -, -⟩ := starts_bracket
    have hquote : ofChar '[' ≠ ofChar '"' := by decide
    simp only [dumps, dumpsItems, List.nil_append, List.cons_append, loadsValue, skip_cons hopen,
      skip_cons hclose, if_neg hquote, if_true]
  | .arr (v :: items), hv, rest, n + 1, _, hn => by
    obtain ⟨hopen, -, -, -, -, -, -⟩ := starts_bracket
    have hquote : ofChar '[' ≠ ofChar '"' := by decide
    have hitems := @loadsItems_storable (v :: items) hv rest n
      (List.cons_ne_nil v items) (by
        simp only [dumps, List.length_cons, List.length_append, List.length_nil] at hn
        omega)
    obtain ⟨c, text, htext, hspace, hend⟩ : ∃ c text, dumpsItems T (v :: items) = c :: text ∧
        spaces.contains c = false ∧ c ≠ ofChar ']' := by
      obtain ⟨c, text, htext, hc⟩ := dumps_begins T v
      by_cases hnil : items = []
      · exact ⟨c, text, by rw [hnil, dumpsItems, htext], hc⟩
      · exact ⟨c, _, by rw [dumpsItems_cons T v hnil, htext, List.cons_append], hc⟩
    rw [dumps, List.cons_append, List.append_assoc, List.singleton_append]
    rw [htext, List.cons_append] at hitems ⊢
    simp only [loadsValue, skip_cons hopen, skip_of_not_space hspace, if_neg hquote, if_neg hend,
      if_true, hitems, Option.map_some]
  | .obj [], _, rest, n + 1, _, _ => by
    obtain ⟨-, -, hopen, hclose, -, -, -⟩ := starts_bracket
    have hquote : ofChar '{' ≠ ofChar '"' := by decide
    have harr : ofChar '{' ≠ ofChar '[' := by decide
    simp only [dumps, dumpsMembers, List.nil_append, List.cons_append, loadsValue,
      skip_cons hopen, skip_cons hclose, if_neg hquote, if_neg harr, if_true]
  | .obj (e :: members), hv, rest, n + 1, _, hn => by
    obtain ⟨-, -, hopen, -, -, -, hstarts⟩ := starts_bracket
    have hquote : ofChar '{' ≠ ofChar '"' := by decide
    have harr : ofChar '{' ≠ ofChar '[' := by decide
    have hclose : ofChar '"' ≠ ofChar '}' := by decide
    have hmembers := @loadsMembers_storable (e :: members) hv.2 rest n
      (List.cons_ne_nil e members) (by
        simp only [dumps, List.length_cons, List.length_append, List.length_nil] at hn
        omega)
    obtain ⟨text, htext⟩ : ∃ text, dumpsMembers T (e :: members) = ofChar '"' :: text := by
      by_cases hnil : members = []
      · exact ⟨_, by rw [hnil, dumpsMembers, dumpsStr, List.cons_append]⟩
      · exact ⟨_, by rw [dumpsMembers_cons T e hnil, dumpsStr, List.cons_append]⟩
    have hfold : (e :: members).foldl (fun fields e => Fields.set e.1 e.2 fields) [] =
        [] ++ e :: members := foldl_set hv.1
    rw [dumps, List.cons_append, List.append_assoc, List.singleton_append]
    rw [htext, List.cons_append] at hmembers ⊢
    simp only [loadsValue, skip_cons hopen, skip_cons hstarts, if_neg hquote, if_neg harr,
      if_neg hclose, if_true, hmembers, Option.map_some, hfold, List.nil_append]

/-- The items of an array, read back. -/
theorem loadsItems_storable : ∀ items : List Json, StorableItems items →
    ∀ {rest : PyStr} {n : ℕ}, items ≠ [] → (dumpsItems T items).length + 2 ≤ n →
    loadsItems T n (dumpsItems T items ++ ofChar ']' :: rest) = some (items, rest)
  | items, _, rest, 0, _, hn => absurd hn (Nat.not_succ_le_zero _)
  | [], _, rest, n + 1, hne, _ => absurd rfl hne
  | [v], hitems, rest, n + 1, _, hn => by
    obtain ⟨-, hclose, -, -, -, -, -⟩ := starts_bracket
    rw [dumpsItems] at hn ⊢
    rw [loadsItems, loadsValue_storable v hitems.1 (ends_cons (by decide) rest) (by omega)]
    simp only [Option.bind_eq_bind, Option.bind_some, skip_cons hclose, if_true]
  | v :: w :: items, hitems, rest, n + 1, _, hn => by
    obtain ⟨-, -, -, -, hcomma, -, -⟩ := starts_bracket
    have hne : ofChar ',' ≠ ofChar ']' := by decide
    have hmore := List.cons_ne_nil w items
    rw [dumpsItems_cons T v hmore] at hn ⊢
    rw [List.length_append, List.length_cons] at hn
    rw [List.append_assoc, List.cons_append, loadsItems,
      loadsValue_storable v hitems.1 (ends_cons (by decide) _) (by omega)]
    simp only [Option.bind_eq_bind, Option.bind_some, skip_cons hcomma, if_neg hne, if_true]
    rw [loadsItems_storable (w :: items) hitems.2 hmore (by omega), Option.bind_some]

/-- The members of an object, read back. -/
theorem loadsMembers_storable : ∀ members : List (PyStr × Json), StorableMembers members →
    ∀ {rest : PyStr} {n : ℕ}, members ≠ [] → (dumpsMembers T members).length < n →
    loadsMembers T n (dumpsMembers T members ++ ofChar '}' :: rest) = some (members, rest)
  | members, _, rest, 0, _, hn => absurd hn (Nat.not_lt_zero _)
  | [], _, rest, n + 1, hne, _ => absurd rfl hne
  | [(k, v)], hmembers, rest, n + 1, _, hn => by
    obtain ⟨-, -, -, hclose, -, hcolon, hquote⟩ := starts_bracket
    obtain ⟨(hkey : k.encodable = true), hvalue, -⟩ := hmembers
    have hlen := length_dumpsStr k
    rw [dumpsMembers, List.length_append, List.length_cons] at hn
    have hread := loadsValue_storable v hvalue (ends_cons (c := ofChar '}') (by decide) rest)
      (n := n) (by omega)
    rw [dumpsMembers, List.append_assoc, dumpsStr, List.cons_append, List.append_assoc,
      List.singleton_append, List.cons_append, loadsMembers, skip_cons hquote]
    simp only [if_true, loadsStr_dumpsStr hkey _ (n + 1) (by omega), Option.bind_eq_bind,
      Option.bind_some, skip_cons hcolon, hread, skip_cons hclose]
  | (k, v) :: e :: members, hmembers, rest, n + 1, _, hn => by
    obtain ⟨-, -, -, -, hcomma, hcolon, hquote⟩ := starts_bracket
    obtain ⟨(hkey : k.encodable = true), hvalue, hrest⟩ := hmembers
    have hlen := length_dumpsStr k
    have hne : ofChar ',' ≠ ofChar '}' := by decide
    have hmore := List.cons_ne_nil e members
    rw [dumpsMembers_cons T (k, v) hmore] at hn ⊢
    simp only [List.length_append, List.length_cons] at hn
    have hread := loadsValue_storable v hvalue (ends_cons (c := ofChar ',') (by decide)
      (dumpsMembers T (e :: members) ++ ofChar '}' :: rest)) (n := n) (by omega)
    have hthen := @loadsMembers_storable (e :: members) hrest rest n hmore
      (by omega)
    rw [List.append_assoc, dumpsStr, List.cons_append, List.append_assoc, List.singleton_append,
      List.cons_append, List.append_assoc, List.cons_append, loadsMembers, skip_cons hquote]
    simp only [if_true, loadsStr_dumpsStr hkey _ (n + 1) (by omega), Option.bind_eq_bind,
      Option.bind_some, skip_cons hcolon, hread, skip_cons hcomma, if_neg hne, hthen]

end

/-- **What is written is read back.** -/
theorem loads_dumps_storable {v : Json} (h : Storable v) : loads T (dumps T v) = some v := by
  have hread := @loadsValue_storable T v h [] ((dumps T v).length + 1) nofun
    (Nat.lt_succ_self _)
  rw [List.append_nil] at hread
  rw [loads, hread]
  rfl

/-! ## One value a line -/

/-- Each value on a line of its own. -/
def dumpsLines (values : List Json) : PyStr :=
  values.flatMap fun v => dumps T v ++ [ofChar '\n']

/-- The values of the lines. -/
def loadsLines (text : PyStr) : Option (List Json) :=
  ((text.splitOn (ofChar '\n')).dropLast).mapM (loads T)

theorem newline_notMem_dumps (v : Json) : ofChar '\n' ∉ dumps T v := fun h =>
  absurd (dumps_printable T v _ h) (by decide)

theorem splitOn_dumpsLines (values : List Json) :
    (dumpsLines T values).splitOn (ofChar '\n') = values.map (dumps T) ++ [[]] := by
  induction values with
  | nil => exact List.splitOn_nil _
  | cons v values ih =>
    unfold dumpsLines at ih ⊢
    rw [List.flatMap_cons, List.append_assoc, List.singleton_append,
      List.splitOn_append_cons_self_of_not_mem (newline_notMem_dumps T v), ih, List.map_cons,
      List.cons_append]

/-- **Each line is read back.** -/
theorem loadsLines_dumpsLines {values : List Json} (h : ∀ v ∈ values, Storable v) :
    loadsLines T (dumpsLines T values) = some values := by
  rw [loadsLines, splitOn_dumpsLines, List.dropLast_concat]
  induction values with
  | nil => rfl
  | cons v values ih =>
    rw [List.map_cons, List.mapM_cons, loads_dumps_storable T (h v (List.mem_cons_self ..)),
      ih fun w hw => h w (List.mem_cons_of_mem v hw)]
    rfl

end

end JsonText

end LayaWatch
