import LayaWatch.Capture

/-!
# What is under a redacted key

What stands under a redacted key does not show in what is stored: two values that are alike
besides it are redacted to the same value (`keys_noninterfering`). A number, a boolean or
`None` under such a key is kept by `redact_for_capture`, and nothing by `redact_structure`,
so that the values may differ in the one by strings and containers, and in the other by
anything.
-/

namespace LayaWatch

namespace Redact

mutual

/-- Two values are alike, besides values under redacted keys that may stand for each other. -/
inductive Alike (U : UnicodeText) (StandsFor : Json → Json → Prop) : Json → Json → Prop
  /-- the same value -/
  | same (v : Json) : Alike U StandsFor v v
  /-- arrays -/
  | arr {items items' : List Json} (h : AlikeItems U StandsFor items items') :
    Alike U StandsFor (.arr items) (.arr items')
  /-- objects -/
  | obj {fields fields' : List (PyStr × Json)} (h : AlikeMembers U StandsFor fields fields') :
    Alike U StandsFor (.obj fields) (.obj fields')

/-- The items of an array. -/
inductive AlikeItems (U : UnicodeText) (StandsFor : Json → Json → Prop) :
    List Json → List Json → Prop
  /-- no item -/
  | nil : AlikeItems U StandsFor [] []
  /-- one more item -/
  | cons {v v' : Json} {rest rest' : List Json} (h : Alike U StandsFor v v')
    (hrest : AlikeItems U StandsFor rest rest') : AlikeItems U StandsFor (v :: rest) (v' :: rest')

/-- The members of an object. -/
inductive AlikeMembers (U : UnicodeText) (StandsFor : Json → Json → Prop) :
    List (PyStr × Json) → List (PyStr × Json) → Prop
  /-- no member -/
  | nil : AlikeMembers U StandsFor [] []
  /-- one more member, whose values are alike -/
  | cons (key : PyStr) {v v' : Json} {rest rest' : List (PyStr × Json)}
    (h : Alike U StandsFor v v') (hrest : AlikeMembers U StandsFor rest rest') :
    AlikeMembers U StandsFor ((key, v) :: rest) ((key, v') :: rest')
  /-- one more member under a redacted key, whose value is replaced -/
  | replaced (key : PyStr) {v v' : Json} {rest rest' : List (PyStr × Json)}
    (hkey : isRedactedKey U key = true) (hv : StandsFor v v')
    (hrest : AlikeMembers U StandsFor rest rest') :
    AlikeMembers U StandsFor ((key, v) :: rest) ((key, v') :: rest')

end

/-- Two strings or containers. -/
def NoScalars (v w : Json) : Prop := isScalar v = false ∧ isScalar w = false

/-- Any two values. -/
def Any (_ _ : Json) : Prop := True

variable {U : UnicodeText}

/-! ## For capture -/

/-- Values that are alike are both scalars or both not. -/
theorem Alike.isScalar_eq {v w : Json} (h : Alike U NoScalars v w) : isScalar v = isScalar w := by
  cases h with
  | same => rfl
  | arr => rfl
  | obj => rfl

mutual

/-- Values that are alike are redacted to one. -/
theorem Alike.redactForCapture_eq : ∀ {v w : Json}, Alike U NoScalars v w →
    redactForCapture U v = redactForCapture U w
  | _, _, .same v => rfl
  | _, _, .arr h => by
    rw [redactForCapture, redactForCapture, h.redactItems_eq]
  | _, _, .obj h => by
    rw [redactForCapture, redactForCapture, h.redactMembers_eq]

theorem AlikeItems.redactItems_eq : ∀ {items items' : List Json},
    AlikeItems U NoScalars items items' → redactItems U items = redactItems U items'
  | _, _, .nil => rfl
  | _, _, .cons h hrest => by
    rw [redactItems, redactItems, h.redactForCapture_eq, hrest.redactItems_eq]

theorem AlikeMembers.redactMembers_eq : ∀ {fields fields' : List (PyStr × Json)},
    AlikeMembers U NoScalars fields fields' → ∀ {out : Fields},
      redactMembers U fields out = redactMembers U fields' out
  | _, _, .nil, _ => rfl
  | _, _, .cons key h hrest, _ => by
    rw [redactMembers, redactMembers, h.isScalar_eq, h.redactForCapture_eq,
      hrest.redactMembers_eq]
  | _, _, .replaced key hkey hv hrest, _ => by
    rw [redactMembers, redactMembers, hkey, hv.1, hv.2, hrest.redactMembers_eq]
    rfl

end

/-! ## For structures -/

mutual

theorem Alike.redactStructure_eq : ∀ {v w : Json}, Alike U Any v w →
    redactStructure U v = redactStructure U w
  | _, _, .same v => rfl
  | _, _, .arr h => by
    rw [redactStructure, redactStructure, h.redactStructureItems_eq]
  | _, _, .obj h => by
    rw [redactStructure, redactStructure, h.redactStructureMembers_eq]

theorem AlikeItems.redactStructureItems_eq : ∀ {items items' : List Json},
    AlikeItems U Any items items' → redactStructureItems U items = redactStructureItems U items'
  | _, _, .nil => rfl
  | _, _, .cons h hrest => by
    rw [redactStructureItems, redactStructureItems, h.redactStructure_eq,
      hrest.redactStructureItems_eq]

theorem AlikeMembers.redactStructureMembers_eq : ∀ {fields fields' : List (PyStr × Json)},
    AlikeMembers U Any fields fields' → ∀ {out : Fields},
      redactStructureMembers U fields out = redactStructureMembers U fields' out
  | _, _, .nil, _ => rfl
  | _, _, .cons key h hrest, _ => by
    rw [redactStructureMembers, redactStructureMembers, h.redactStructure_eq,
      hrest.redactStructureMembers_eq]
  | _, _, .replaced key hkey _ hrest, _ => by
    rw [redactStructureMembers, redactStructureMembers, if_pos hkey, if_pos hkey,
      hrest.redactStructureMembers_eq]

end

/-! ## Noninterference -/

/-- **Key redaction is noninterfering**: what is stored of a value does not depend on the
strings and containers under its redacted keys, and a redacted structure not on any value
there. -/
theorem keys_noninterfering (U : UnicodeText) :
    (∀ v w : Json, Alike U NoScalars v w → redactForCapture U v = redactForCapture U w ∧
      ∀ (enabled : Bool) (maxBytes : ℤ),
        captureValue U v enabled maxBytes = captureValue U w enabled maxBytes) ∧
      ∀ v w : Json, Alike U Any v w → redactStructure U v = redactStructure U w := by
  refine ⟨fun v w h => ⟨h.redactForCapture_eq, fun enabled maxBytes => ?_⟩,
    fun v w h => h.redactStructure_eq⟩
  unfold captureValue
  rw [h.redactForCapture_eq]

/-- A list of notes, the first of which has something under a redacted key. -/
def noteWith (kept : Json) : Json :=
  .arr [.obj [(py "note", .str (py "hello")), (py "apiKey", kept)], .null]

theorem alike_noteWith {StandsFor : Json → Json → Prop} {v w : Json} (h : StandsFor v w) :
    Alike asciiText StandsFor (noteWith v) (noteWith w) := by
  refine .arr (.cons (.obj ?_) (.cons (.same _) .nil))
  exact .cons _ (.same _) (.replaced _ (by decide +kernel) h .nil)

theorem keys_noninterfering_note :
    (redactForCapture asciiText (noteWith (.str (py "sk-1"))) =
        redactForCapture asciiText (noteWith (.arr [.null])) ∧
      captureValue asciiText (noteWith (.str (py "sk-1"))) true 1000 =
        captureValue asciiText (noteWith (.arr [.null])) true 1000) ∧
      redactStructure asciiText (noteWith (.str (py "sk-1"))) =
        redactStructure asciiText (noteWith (.int 4)) := by
  obtain ⟨hcapture, hstructure⟩ := keys_noninterfering asciiText
  obtain ⟨hredact, hstore⟩ := hcapture (noteWith (.str (py "sk-1"))) (noteWith (.arr [.null]))
    (alike_noteWith ⟨rfl, rfl⟩)
  exact ⟨⟨hredact, hstore true 1000⟩, hstructure _ _ (alike_noteWith trivial)⟩

end Redact

end LayaWatch
