import LayaWatch.Redact

/-!
# The texts of a captured value

Which texts of a value are left of it by `redact_for_capture`. The keys stay, scrubbed; a
string or a container under a redacted key does not, nor does the value of a member whose
key is scrubbed to the key of a later one, which takes its place. What holds of the texts
of the redacted value is so read off the value (`texts_redactForCapture`).
-/

namespace LayaWatch

namespace Redact

/-! ## Texts -/

mutual

/-- Every key and every string of a value is as it should be. -/
def Texts (P : PyStr → Prop) : Json → Prop
  | .str s => P s
  | .arr items => TextsOfItems P items
  | .obj members => TextsOfMembers P members
  | _ => True

/-- The items of an array. -/
def TextsOfItems (P : PyStr → Prop) : List Json → Prop
  | [] => True
  | item :: rest => Texts P item ∧ TextsOfItems P rest

/-- The members of an object. -/
def TextsOfMembers (P : PyStr → Prop) : List (PyStr × Json) → Prop
  | [] => True
  | (key, item) :: rest => P key ∧ Texts P item ∧ TextsOfMembers P rest

end

/-- One of the members is stored under the key that `key` is scrubbed to. -/
def Overwritten (U : UnicodeText) (key : PyStr) (members : List (PyStr × Json)) : Prop :=
  ∃ m ∈ members, scrubPii U m.1 = scrubPii U key

mutual

/-- Every text that stays of a value is as it should be. -/
def KeptTexts (U : UnicodeText) (P : PyStr → Prop) : Json → Prop
  | .str s => P s
  | .arr items => KeptOfItems U P items
  | .obj members => KeptOfMembers U P members
  | _ => True

/-- The items of an array. -/
def KeptOfItems (U : UnicodeText) (P : PyStr → Prop) : List Json → Prop
  | [] => True
  | item :: rest => KeptTexts U P item ∧ KeptOfItems U P rest

/-- The members of an object: the keys stay, and the values that are neither overwritten
nor under a redacted key. -/
def KeptOfMembers (U : UnicodeText) (P : PyStr → Prop) : List (PyStr × Json) → Prop
  | [] => True
  | (key, item) :: rest =>
    P key ∧ (Overwritten U key rest ∨ isRedactedKey U key = true ∨ KeptTexts U P item) ∧
      KeptOfMembers U P rest

end

variable {U : UnicodeText} {P Q : PyStr → Prop}

theorem textsOfMembers_iff : ∀ members : List (PyStr × Json),
    TextsOfMembers P members ↔ ∀ m ∈ members, P m.1 ∧ Texts P m.2
  | [] => by
    rw [TextsOfMembers]
    exact iff_of_true trivial fun _ h => by cases h
  | (key, item) :: rest => by
    rw [TextsOfMembers, List.forall_mem_cons, textsOfMembers_iff rest, and_assoc]

/-! ## What is left -/

mutual

/-- **The texts of a redacted value** are as they should be exactly if the texts that stay
are so once they are scrubbed. -/
theorem texts_redactForCapture (hredacted : Q redacted)
    (hscrub : ∀ s, Q (scrubPii U s) ↔ P s) : ∀ v : Json,
      Texts Q (redactForCapture U v) ↔ KeptTexts U P v
  | .null | .bool _ | .int _ | .float _ => by
    simp only [redactForCapture, Texts, KeptTexts]
  | .str s => by
    rw [redactForCapture, Texts, KeptTexts, hscrub]
  | .arr items => by
    rw [redactForCapture, Texts, KeptTexts]
    exact texts_redactItems hredacted hscrub items
  | .obj members => by
    rw [redactForCapture, Texts, KeptTexts,
      texts_redactMembers hredacted hscrub members [] List.nodup_nil]
    exact and_iff_right fun m hm => by cases hm

theorem texts_redactItems (hredacted : Q redacted) (hscrub : ∀ s, Q (scrubPii U s) ↔ P s) :
    ∀ items : List Json, TextsOfItems Q (redactItems U items) ↔ KeptOfItems U P items
  | [] => by
    rw [redactItems, TextsOfItems, KeptOfItems]
  | item :: rest => by
    rw [redactItems, TextsOfItems, KeptOfItems, texts_redactForCapture hredacted hscrub item,
      texts_redactItems hredacted hscrub rest]

/-- What `out` holds stays besides what the members take the place of. -/
theorem texts_redactMembers (hredacted : Q redacted) (hscrub : ∀ s, Q (scrubPii U s) ↔ P s) :
    ∀ (members : List (PyStr × Json)) (out : Fields), (out.map Prod.fst).Nodup →
      (TextsOfMembers Q (redactMembers U members out) ↔ (∀ m ∈ out,
        Q m.1 ∧ ((∃ m' ∈ members, scrubPii U m'.1 = m.1) ∨ Texts Q m.2)) ∧
          KeptOfMembers U P members)
  | [], out, _ => by
    rw [redactMembers, KeptOfMembers, textsOfMembers_iff]
    simp
  | (key, item) :: rest, out, hnodup => by
    have hvalue : Texts Q (if isRedactedKey U key && !isScalar item then .str redacted
        else redactForCapture U item) ↔ isRedactedKey U key = true ∨ KeptTexts U P item := by
      cases hkey : isRedactedKey U key with
      | false => simp [texts_redactForCapture hredacted hscrub item]
      | true =>
        cases hscalar : isScalar item with
        | false => simp [Texts, hredacted]
        | true =>
          refine iff_of_true ?_ (Or.inl rfl)
          rw [Bool.not_true, Bool.and_false, if_neg Bool.false_ne_true,
            texts_redactForCapture hredacted hscrub item]
          cases item with
          | str _ => cases hscalar
          | arr _ => cases hscalar
          | obj _ => cases hscalar
          | _ => simp only [KeptTexts]
    rw [redactMembers, texts_redactMembers hredacted hscrub rest _ (Fields.nodup_set hnodup),
      KeptOfMembers, Overwritten]
    constructor
    · rintro ⟨hout, hrest⟩
      obtain ⟨hk, hv⟩ := hout _ ((Fields.mem_set hnodup _).mpr (Or.inl rfl))
      refine ⟨fun m hm => ?_, (hscrub key).mp hk, ?_, hrest⟩
      · by_cases hmk : m.1 = scrubPii U key
        · exact ⟨hmk ▸ hk, Or.inl ⟨_, List.mem_cons_self, hmk.symm⟩⟩
        · obtain ⟨hm1, hm2⟩ := hout m ((Fields.mem_set hnodup m).mpr (Or.inr ⟨hm, hmk⟩))
          refine ⟨hm1, hm2.imp_left ?_⟩
          rintro ⟨m', hm', hsame⟩
          exact ⟨m', List.mem_cons_of_mem _ hm', hsame⟩
      · exact hv.imp_right hvalue.mp
    · rintro ⟨hout, hk, hv, hrest⟩
      refine ⟨fun m hm => ?_, hrest⟩
      rcases (Fields.mem_set hnodup m).mp hm with rfl | ⟨hm, hmk⟩
      · exact ⟨(hscrub key).mpr hk, hv.imp_right hvalue.mpr⟩
      · obtain ⟨hm1, hm2⟩ := hout m hm
        refine ⟨hm1, hm2.imp_left ?_⟩
        rintro ⟨m', hm', hsame⟩
        rcases List.mem_cons.mp hm' with rfl | hm'
        · exact absurd hsame.symm hmk
        · exact ⟨m', hm', hsame⟩

end

end Redact

end LayaWatch
