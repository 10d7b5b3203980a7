import LayaWatch.EffectiveSettings
import LayaWatch.KeyEdits

/-!
# Settings read back

What was written reads back, of the controls of `api/settings.py` and of the policy of
`auth/ratelimit.py`: a field that an accepted update names has the value it was given, and
any other the one it had. So updates of different fields can be made in either order
(`settings_read_back`).
-/

namespace LayaWatch

open Auth

/-! ## Texts -/

/-- What the settings use of Python's numbers: `int(str(n))` is `n`, `float(str(x))` is `x`,
and `float(n)` is exact for small integers and does not change the order. (That `str` and
`int` refuse integers of thousands of digits is left out; no body has such a one.) -/
structure SettingText extends EnvText where
  /-- integers read back -/
  int_str : ∀ n : ℤ, int (JsonText.dumpsInt n) = some n
  /-- finite floats read back -/
  number_str : ∀ x : ℚ, number (repr x) = some (.finite x)
  /-- digits have no case -/
  lower_digits : ∀ s : PyStr, (∀ c ∈ s, c.isDigit = true) → lower s = s
  /-- small integers are floats -/
  floatOfInt_small : ∀ n : ℤ, |n| ≤ 2 → floatOfInt n = some (n : ℚ)
  /-- a larger integer is not a smaller float -/
  floatOfInt_mono : ∀ (m n : ℤ) (x y : ℚ), m ≤ n → floatOfInt m = some x → floatOfInt n = some y →
    x ≤ y

/-- `upsert_policy`. -/
def upsertPolicy (updates : List (PolicyField × Json)) (who : PyStr) (now : ℚ) (db : Db) : Db :=
  updates.foldl (fun db e => upsertSetting (py e.1.key) (policyText e.2) who now db) db

/-- After an accepted update of the policy, a field has the value that the update gives it, or
the one it had. -/
def PolicyReadsBack (T : SettingText) (cfg : Config) : Prop :=
  ∀ (db : Db) (payload : Dict PyStr Json) (r : SessionRequest) updates (who : PyStr) (now : ℚ),
    r.body = .ok (.obj payload.entries) → validatedUpdate r = .ok updates →
      ∀ field ∈ policyFields,
        (effectivePolicy T.toPyText cfg (upsertPolicy updates who now db)).get (py field.name) =
          (payload.get (py field.name)).or
            ((effectivePolicy T.toPyText cfg db).get (py field.name))

/-- After an accepted POST of settings, a control that it names equals what was posted, and any
other has the value it had. -/
def ControlsReadBack (A : AuthLib) (T : SettingText) (cfg : Config) : Prop :=
  ∀ (db t : Db) (payload : Dict PyStr Json) (r : ApiRequest) (now : ℚ) fields,
    r.body = .ok (.obj payload.entries) →
      updateSettings A T.toPyText cfg r now db = (.ok fields, t) → ∀ c : Control,
        match payload.get (py c.name) with
        | some value => (c.effective T.toEnvText cfg t).equals value
        | none => c.effective T.toEnvText cfg t = c.effective T.toEnvText cfg db

/-- Two bodies that name no field together. -/
def NamesApart (p q : Dict PyStr Json) : Prop := ∀ name ∈ p.keys, name ∉ q.keys

/-- Accepted updates of different fields can be made in either order. -/
structure EitherOrder (A : AuthLib) (T : SettingText) (cfg : Config) : Prop where
  /-- of the policy -/
  policy : ∀ (db : Db) (p q : Dict PyStr Json) (r s : SessionRequest) updates updates' (who : PyStr)
    (now now' : ℚ), r.body = .ok (.obj p.entries) → s.body = .ok (.obj q.entries) → NamesApart p q →
      validatedUpdate r = .ok updates → validatedUpdate s = .ok updates' →
        effectivePolicy T.toPyText cfg
            (upsertPolicy updates' who now' (upsertPolicy updates who now db)) =
          effectivePolicy T.toPyText cfg
            (upsertPolicy updates who now' (upsertPolicy updates' who now db))
  /-- of the controls -/
  controls : ∀ (db t u t' u' : Db) (p q : Dict PyStr Json) (r s : ApiRequest) (now now' : ℚ)
    a b c d, r.body = .ok (.obj p.entries) → s.body = .ok (.obj q.entries) → NamesApart p q →
      updateSettings A T.toPyText cfg r now db = (.ok a, t) →
      updateSettings A T.toPyText cfg s now' t = (.ok b, u) →
      updateSettings A T.toPyText cfg s now db = (.ok c, t') →
      updateSettings A T.toPyText cfg r now' t' = (.ok d, u') →
        ∀ control : Control, control.effective T.toEnvText cfg u =
          control.effective T.toEnvText cfg u'

theorem strip_of_noSpace {s : PyStr} (h : ∀ c ∈ s, c.isSpace = false) : s.strip = s := by
  have hdrop : ∀ t : PyStr, (∀ c ∈ t, c.isSpace = false) → t.dropWhile CodePoint.isSpace = t := by
    intro t ht
    cases t with
    | nil => rfl
    | cons c rest =>
      rw [List.dropWhile_cons, if_neg (Bool.eq_false_iff.mp (ht c List.mem_cons_self))]
  unfold PyStr.strip
  rw [hdrop s h, hdrop s.reverse fun c hc => h c (List.mem_reverse.mp hc), List.reverse_reverse]

theorem noSpace_of_digit {c : CodePoint} (h : c.isDigit = true) : c.isSpace = false := by
  obtain ⟨hlow, hhigh⟩ := of_decide_eq_true h
  unfold CodePoint.isSpace
  rw [decide_eq_false (by omega), Bool.false_or]
  refine Bool.eq_false_iff.mpr fun hmem => ?_
  have hval := List.contains_iff_mem.mp hmem
  simp only [List.mem_cons, List.not_mem_nil, or_false] at hval
  omega

theorem strip_dumpsInt (n : ℤ) : (JsonText.dumpsInt n).strip = JsonText.dumpsInt n := by
  refine strip_of_noSpace fun c hc => ?_
  rcases JsonText.dumpsInt_chars n c hc with rfl | hdigit
  · decide
  · exact noSpace_of_digit hdigit

/-- A boolean reads back. -/
theorem SettingText.trueText_of (T : SettingText) (b : Bool) :
    trueText.contains (T.lower (PyStr.strip (py (if b then "1" else "0")))) = b := by
  have hdigits : ∀ c ∈ py (if b then "1" else "0"), c.isDigit = true :=
    List.all_eq_true.mp (by cases b <;> decide)
  rw [strip_of_noSpace fun c hc => noSpace_of_digit (hdigits c hc), T.lower_digits _ hdigits]
  cases b <;> decide

/-- An integer that is a float between 0 and 1 is that float. -/
theorem SettingText.floatOfInt_unit (T : SettingText) {n : ℤ} {x : ℚ}
    (h : T.floatOfInt n = some x) (hlow : 0 ≤ x) (hhigh : x ≤ 1) : x = n := by
  rcases lt_trichotomy n 0 with hneg | rfl | hpos
  · have hle := T.floatOfInt_mono n (-1) x _ (by omega) h (T.floatOfInt_small (-1) (by decide))
    norm_num at hle
    linarith
  · exact Option.some.inj (h.symm.trans (T.floatOfInt_small 0 (by decide)))
  · by_cases hone : n = 1
    · subst hone
      exact Option.some.inj (h.symm.trans (T.floatOfInt_small 1 (by decide)))
    · have hle := T.floatOfInt_mono 2 n _ x (by omega) (T.floatOfInt_small 2 (by decide)) h
      norm_num at hle
      linarith

/-! ## One control -/

section

variable {T : SettingText} {c : Control} {value : Json} {text : PyStr}

theorem Control.controlText_int {minimum : ℤ} (h : c.minimum = some minimum) :
    controlText T.toPyText (py c.name) value = intText (py c.name) minimum value := by
  cases c with
  | traceSample | capturePayloads => cases h
  | _ =>
    obtain rfl := Option.some.inj h
    rfl

/-- What is stored of a posted value is typed as that value. -/
theorem Control.typed_posted (h : controlText T.toPyText (py c.name) value = .ok text) :
    ∃ v, c.typed T.toEnvText text = some v ∧ v.equals value := by
  rcases c.kind_cases with rfl | rfl | ⟨minimum, hminimum⟩
  · change sampleText T.toPyText value = .ok text at h
    unfold sampleText at h
    dsimp only at h
    split at h
    · next x =>
      split at h
      · obtain rfl := Except.ok.inj h
        exact ⟨.float (.finite x), congrArg (Option.map ControlValue.float) (T.number_str x), rfl⟩
      · cases h
    · next n =>
      split at h
      · cases h
      · next x hx =>
        split at h
        · next hunit =>
          obtain rfl := Except.ok.inj h
          refine ⟨.float (.finite x), congrArg (Option.map ControlValue.float) (T.number_str x), ?_⟩
          exact congrArg PyFloat.finite (T.floatOfInt_unit hx hunit.1 hunit.2)
        · cases h
    · cases h
  · unfold controlText at h
    rw [if_pos (show py capturePayloads.name = py "capture_payloads" from rfl)] at h
    split at h
    · next b =>
      obtain rfl := Except.ok.inj h
      exact ⟨.bool b, congrArg (fun b => some (ControlValue.bool b)) (T.trueText_of b), rfl⟩
    · cases h
  · rw [controlText_int hminimum] at h
    unfold intText at h
    split at h
    · next n =>
      split at h
      · cases h
      · obtain rfl := Except.ok.inj h
        refine ⟨.int n, ?_, rfl⟩
        rw [typed_int hminimum, T.int_str]
        rfl
    · cases h

end

/-! ## The handler -/

/-- The rows that are written for some texts. -/
def settingRows (texts : List (PyStr × PyStr)) (who : PyStr) (now : ℚ) :
    List (PyStr × SettingRow) := texts.map fun e => (e.1, ⟨e.2, now, some who⟩)

/-- Several settings are written, one after the other. -/
theorem settings_upserts {α : Type} (key text : α → PyStr) (who : PyStr) (now : ℚ) (l : List α) :
    ∀ db : Db, (l.foldl (fun db e => upsertSetting (key e) (text e) who now db) db).settings =
      db.settings.update (settingRows (l.map fun e => (key e, text e)) who now) := by
  induction l with
  | nil => exact fun _ => rfl
  | cons e rest ih => exact fun db => ih (upsertSetting (key e) (text e) who now db)

section

variable {A : AuthLib} {T : PyText} {cfg : Config}

/-- The POST of settings writes the texts of its body, or nothing. -/
theorem updateSettings_ends (r : ApiRequest) (now : ℚ) (db : Db) :
    (updateSettings A T cfg r now).Ends db
      (fun _ t => ∃ texts who, settingTexts T r = .ok texts ∧
        t.settings = db.settings.update (settingRows texts who now))
      fun _ t => t.settings = db.settings := by
  refine ((enforce_ends r.toSessionRequest false now db).mono (fun _ _ h => h)
    fun _ t h => by rw [h]).bind ?_
  rintro cached t rfl
  refine Prog.Ends.bind (P := fun texts u => u = t ∧ settingTexts T r = .ok texts)
    (Prog.Ends.lift (fun _ h => ⟨rfl, h⟩) fun _ _ => rfl) ?_
  rintro texts u ⟨rfl, htexts⟩
  refine ((gated_ends r.toSessionRequest cached _ _ _ now u).mono (fun _ _ h => h)
    fun _ _ h => h.2).bind ?_
  rintro who u rfl
  have hwritten : ∀ (entry : AuditEntry), ((texts.foldl (fun db e =>
      upsertSetting e.1 e.2 who.actor now db) u).audit entry).settings =
        u.settings.update (settingRows texts who.actor now) := by
    intro entry
    have hrows := settings_upserts Prod.fst Prod.snd who.actor now texts u
    rwa [show (texts.map fun e => (e.1, e.2)) = texts from List.map_id texts] at hrows
  dsimp only
  split
  -- the permission for capture payloads leaves the settings alone, and so does its audit row
  on_goal 1 =>
    refine ((requirePermission_ends who _ _ none now u).mono (fun _ _ h => h) ?_).bind ?_
    · rintro _ t ⟨entry, rfl⟩
      rfl
    rintro - u rfl
  all_goals
    refine Prog.Ends.bind (P := fun _ v => v = u) rfl ?_
    rintro before v rfl
    refine Prog.Ends.bind (P := fun _ w => w = v)
      (Prog.Ends.lift (fun _ _ => rfl) fun _ _ => rfl) ?_
    rintro after w rfl
    refine Prog.Ends.bind
      (P := fun _ (x : Db) => x.settings = w.settings.update (settingRows texts who.actor now))
      (hwritten _) ?_
    rintro - x hx
  · exact Prog.Ends.bind (P := fun _ (y : Db) => y.settings = x.settings) rfl
      fun _ y hy => ⟨texts, who.actor, htexts, hy.trans hx⟩
  · exact ⟨texts, who.actor, htexts, hx⟩

end

/-! ## Bodies -/

/-- What stands for an element of a list. -/
theorem forall₂_image {α β : Type} {R : α → β → Prop} {l : List α} {l' : List β}
    (h : List.Forall₂ R l l') {a : α} (ha : a ∈ l) : ∃ b ∈ l', R a b := by
  induction h with
  | nil => cases ha
  | cons hab _ ih =>
    rcases List.mem_cons.mp ha with rfl | ha
    · exact ⟨_, List.mem_cons_self, hab⟩
    · obtain ⟨b, hb, hR⟩ := ih ha
      exact ⟨b, List.mem_cons_of_mem _ hb, hR⟩

/-- Where every element stands for one with the same key, the keys are the same. -/
theorem forall₂_keys {α β κ : Type} {R : α → β → Prop} {f : α → κ} {g : β → κ} {l : List α}
    {l' : List β} (h : List.Forall₂ R l l') (hkey : ∀ a b, R a b → g b = f a) :
    l'.map g = l.map f := by
  induction h with
  | nil => rfl
  | cons hab _ ih => rw [List.map_cons, List.map_cons, ih, hkey _ _ hab]

section

variable {T : SettingText} {cfg : Config} {db t : Db} {payload : Dict PyStr Json} {c : Control}
  {texts : List (PyStr × PyStr)} {who : PyStr} {now : ℚ} {text : PyStr}

/-- The texts of an accepted body, one for each of its members. -/
theorem settingTexts_forall₂ {r : ApiRequest} (hbody : r.body = .ok (.obj payload.entries))
    (h : settingTexts T.toPyText r = .ok texts) :
    List.Forall₂ (fun e s => s.1 = e.1 ∧ controlText T.toPyText e.1 e.2 = .ok s.2)
      payload.entries texts := by
  obtain ⟨-, -, h⟩ := bind_eq_ok.mp h
  obtain ⟨fields, hfields, h⟩ := bind_eq_ok.mp h
  obtain rfl := Except.ok.inj ((objectBody_eq_ok.mpr hbody).symm.trans hfields)
  split at h
  · cases h
  · refine (mapM_eq_ok.mp h).imp fun e s hs => ?_
    rcases htext : controlText T.toPyText e.1 e.2 with _ | text
    · rw [htext] at hs
      cases hs
    · rw [htext] at hs
      obtain rfl := Except.ok.inj hs
      exact ⟨rfl, rfl⟩

theorem settingTexts_keys {r : ApiRequest} (hbody : r.body = .ok (.obj payload.entries))
    (h : settingTexts T.toPyText r = .ok texts) : texts.map Prod.fst = payload.keys :=
  forall₂_keys (settingTexts_forall₂ hbody h) fun _ _ hs => hs.1

theorem keys_settingRows : (settingRows texts who now).map Prod.fst = texts.map Prod.fst := by
  unfold settingRows
  rw [List.map_map]
  rfl

/-- A control that was written. -/
theorem Control.effective_written (hnodup : (texts.map Prod.fst).Nodup)
    (ht : t.settings = db.settings.update (settingRows texts who now))
    (h : (py c.name, text) ∈ texts) :
    c.effective T.toEnvText cfg t = (c.typed T.toEnvText text).getD (c.default cfg) := by
  have hrow : (py c.name, (⟨text, now, some who⟩ : SettingRow)) ∈ settingRows texts who now :=
    List.mem_map.mpr ⟨(py c.name, text), h, rfl⟩
  unfold effective
  rw [ht, Dict.get_update_of_mem (keys_settingRows ▸ hnodup) hrow]

/-- A control that was not. -/
theorem Control.effective_kept (ht : t.settings = db.settings.update (settingRows texts who now))
    (h : py c.name ∉ texts.map Prod.fst) :
    c.effective T.toEnvText cfg t = c.effective T.toEnvText cfg db := by
  unfold effective
  rw [ht, Dict.get_update_of_not_mem (keys_settingRows ▸ h)]

/-- What the texts of a body make of a control. -/
def Control.after (T : EnvText) (cfg : Config) (c : Control) (texts : List (PyStr × PyStr))
    (before : ControlValue) : ControlValue :=
  match Dict.lookup (py c.name) texts with
  | some text => (c.typed T text).getD (c.default cfg)
  | none => before

theorem Control.effective_after (hnodup : (texts.map Prod.fst).Nodup)
    (ht : t.settings = db.settings.update (settingRows texts who now)) :
    c.effective T.toEnvText cfg t =
      c.after T.toEnvText cfg texts (c.effective T.toEnvText cfg db) := by
  unfold after
  rcases hlookup : Dict.lookup (py c.name) texts with _ | text
  · exact effective_kept ht (Dict.lookup_eq_none.mp hlookup)
  · exact effective_written hnodup ht (Dict.lookup_mem hlookup)

/-- Texts for different controls can be written in either order. -/
theorem Control.after_comm {texts' : List (PyStr × PyStr)}
    (h : ∀ name ∈ texts.map Prod.fst, name ∉ texts'.map Prod.fst) (before : ControlValue) :
    c.after T.toEnvText cfg texts' (c.after T.toEnvText cfg texts before) =
      c.after T.toEnvText cfg texts (c.after T.toEnvText cfg texts' before) := by
  unfold after
  by_cases hname : py c.name ∈ texts.map Prod.fst
  · rw [Dict.lookup_eq_none.mpr (h _ hname)]
  · rw [Dict.lookup_eq_none.mpr hname]

end

/-- **Posted controls read back.** -/
theorem controls_read_back (A : AuthLib) (T : SettingText) (cfg : Config) :
    ControlsReadBack A T cfg := by
  intro db t payload r now fields hbody hrun c
  obtain ⟨texts, who, htexts, ht⟩ := (updateSettings_ends r now db).ok hrun
  have hkeys := settingTexts_keys hbody htexts
  rcases hget : payload.get (py c.name) with _ | value
  · refine Control.effective_kept ht ?_
    rw [hkeys]
    exact Dict.get_eq_none.mp hget
  · obtain ⟨⟨name, text⟩, hmem, hname, htext⟩ :=
      forall₂_image (settingTexts_forall₂ hbody htexts) (Dict.get_eq_some.mp hget)
    obtain rfl : name = py c.name := hname
    obtain ⟨v, hv, hequals⟩ := Control.typed_posted htext
    dsimp only
    rw [Control.effective_written (hkeys ▸ payload.keys_nodup) ht hmem, hv]
    exact hequals

/-- **Posts of different controls** can be made in either order. -/
theorem controls_either_order {A : AuthLib} {T : SettingText} {cfg : Config} {db t u t' u' : Db}
    {p q : Dict PyStr Json} {r s : ApiRequest} {now now' : ℚ} {a b a' b' : Fields}
    (hr : r.body = .ok (.obj p.entries)) (hs : s.body = .ok (.obj q.entries))
    (hapart : NamesApart p q) (ht : updateSettings A T.toPyText cfg r now db = (.ok a, t))
    (hu : updateSettings A T.toPyText cfg s now' t = (.ok b, u))
    (ht' : updateSettings A T.toPyText cfg s now db = (.ok a', t'))
    (hu' : updateSettings A T.toPyText cfg r now' t' = (.ok b', u')) (c : Control) :
    c.effective T.toEnvText cfg u = c.effective T.toEnvText cfg u' := by
  have hafter : ∀ {r : ApiRequest} {p : Dict PyStr Json} {now : ℚ} {db t : Db} {a : Fields}
      {texts : List (PyStr × PyStr)}, r.body = .ok (.obj p.entries) →
      settingTexts T.toPyText r = .ok texts →
      updateSettings A T.toPyText cfg r now db = (.ok a, t) → c.effective T.toEnvText cfg t =
        c.after T.toEnvText cfg texts (c.effective T.toEnvText cfg db) := by
    intro r p now db t a texts hbody htexts hrun
    obtain ⟨texts', who, htexts', ht⟩ := (updateSettings_ends r now db).ok hrun
    obtain rfl := Except.ok.inj (htexts.symm.trans htexts')
    exact Control.effective_after (settingTexts_keys hbody htexts ▸ p.keys_nodup) ht
  obtain ⟨texts, -, hp, -⟩ := (updateSettings_ends r now db).ok ht
  obtain ⟨texts', -, hq, -⟩ := (updateSettings_ends s now db).ok ht'
  rw [hafter hs hq hu, hafter hr hp ht, hafter hr hp hu', hafter hs hq ht']
  refine Control.after_comm (fun name hname => ?_) _
  rw [settingTexts_keys hr hp] at hname
  rw [settingTexts_keys hs hq]
  exact hapart name hname

/-! ## The policy -/

section

variable {T : SettingText} {cfg : Config} {db : Db} {field : PolicyField} {value : Json}

/-- What `effective_policy` has for a field. -/
def PolicyField.effective (T : PyText) (cfg : Config) (db : Db) (field : PolicyField) : Json :=
  ((db.settings.get (py field.key)).bind fun row => parsePolicyText T field row.value).getD
    (field.default cfg)

/-- The names of the fields are distinct. -/
theorem names_policyFields : (policyFields.map fun field => py field.name).Nodup := by
  decide +kernel

/-- Each field has a key of its own. -/
theorem key_policyFields {f g : PolicyField} (hf : f ∈ policyFields) (hg : g ∈ policyFields)
    (h : py f.key = py g.key) : py f.name = py g.name := by
  have hall : ∀ a ∈ policyFields.map fun f => (py f.key, py f.name),
      ∀ b ∈ policyFields.map fun f => (py f.key, py f.name), a.1 = b.1 → a.2 = b.2 := by
    decide +kernel
  exact hall _ (List.mem_map.mpr ⟨f, hf, rfl⟩) _ (List.mem_map.mpr ⟨g, hg, rfl⟩) h

/-- A member of a list of members that has its name. -/
theorem get_map {l : List PolicyField} {f : PolicyField → Json}
    (hn : (l.map fun field => py field.name).Nodup) (h : field ∈ l) :
    Fields.get (py field.name) (l.map fun field => (py field.name, f field)) = some (f field) := by
  induction l with
  | nil => cases h
  | cons g rest ih =>
    rw [List.map_cons, List.nodup_cons] at hn
    rw [List.map_cons, Fields.get]
    rcases List.mem_cons.mp h with rfl | h
    · rw [if_pos rfl]
    · rw [if_neg, ih hn.2 h]
      intro heq
      exact hn.1 (heq ▸ List.mem_map.mpr ⟨field, h, rfl⟩)

theorem effectivePolicy_get (h : field ∈ policyFields) :
    (effectivePolicy T.toPyText cfg db).get (py field.name) =
      some (field.effective T.toPyText cfg db) := get_map names_policyFields h

/-- The constraint lets an integer through as it is. -/
theorem policyInt_eq {name : PyStr} {kind : PolicyKind} {n : ℤ}
    (h : policyInt name kind n = .ok value) : value = .int n := by
  unfold policyInt at h
  cases kind with
  | bool => exact (Except.ok.inj h).symm
  | int minimum =>
    dsimp only at h
    split at h
    · cases h
    · exact (Except.ok.inj h).symm
  | window choices =>
    dsimp only at h
    split at h
    · exact (Except.ok.inj h).symm
    · cases h

/-- A value of the policy that is accepted is a boolean or a constrained integer. -/
theorem parsePolicy_cases {raw : Json} (h : parsePolicy field raw = .ok value) :
    (∃ b, field.kind = .bool ∧ raw = .bool b ∧ value = .bool b) ∨
      ∃ n, field.kind ≠ .bool ∧ raw = .int n ∧
        policyInt (py field.name) field.kind n = .ok value := by
  unfold parsePolicy at h
  dsimp only at h
  split at h
  · next b hkind => exact Or.inl ⟨b, hkind, rfl, (Except.ok.inj h).symm⟩
  · cases h
  · next n hne => exact Or.inr ⟨n, fun hkind => hne hkind, rfl, h⟩
  · cases h

/-- What is stored of a value of the policy reads back. -/
theorem parsePolicyText_policyText {raw : Json} (h : parsePolicy field raw = .ok value) :
    value = raw ∧ parsePolicyText T.toPyText field (policyText value) = some value := by
  unfold parsePolicyText
  rcases parsePolicy_cases h with ⟨b, hkind, rfl, rfl⟩ | ⟨n, hkind, rfl, hn⟩
  · rw [hkind]
    exact ⟨rfl, congrArg (fun b => some (Json.bool b)) (T.trueText_of b)⟩
  · obtain rfl := policyInt_eq hn
    refine ⟨rfl, ?_⟩
    unfold policyText
    dsimp only
    rw [strip_dumpsInt, T.int_str]
    rcases hk : field.kind with _ | minimum | choices
    · exact absurd hk hkind
    · rw [hk] at hn
      exact congrArg Except.toOption hn
    · rw [hk] at hn
      exact congrArg Except.toOption hn

variable {payload : Dict PyStr Json} {updates : List (PolicyField × Json)} {who : PyStr} {now : ℚ}

/-- The updates of an accepted body, one for each of its members. -/
theorem validatedUpdate_forall₂ {r : SessionRequest} (hbody : r.body = .ok (.obj payload.entries))
    (h : validatedUpdate r = .ok updates) :
    List.Forall₂ (fun e u => u.1 ∈ policyFields ∧ py u.1.name = e.1 ∧
      parsePolicy u.1 e.2 = .ok u.2) payload.entries updates := by
  obtain ⟨fields, hfields, h⟩ := bind_eq_ok.mp h
  obtain rfl := Except.ok.inj ((objectBody_eq_ok.mpr hbody).symm.trans hfields)
  split at h
  · cases h
  · refine (mapM_eq_ok.mp h).imp fun e u hu => ?_
    split at hu
    · cases hu
    · next field hfield =>
      rcases hvalue : parsePolicy field e.2 with _ | value
      · rw [hvalue] at hu
        cases hu
      · rw [hvalue] at hu
        obtain rfl := Except.ok.inj hu
        exact ⟨List.mem_of_find?_eq_some hfield, by simpa using List.find?_some hfield, hvalue⟩

/-- The rows that are written for some updates. -/
def policyRows (updates : List (PolicyField × Json)) : List (PyStr × PyStr) :=
  updates.map fun u => (py u.1.key, policyText u.2)

theorem settings_upsertPolicy : (upsertPolicy updates who now db).settings =
    db.settings.update (settingRows (policyRows updates) who now) :=
  settings_upserts (fun u : PolicyField × Json => py u.1.key) (fun u => policyText u.2) who now
    updates db

/-- What an accepted update makes of the value of a field. -/
theorem PolicyField.effective_after {r : SessionRequest}
    (hbody : r.body = .ok (.obj payload.entries)) (h : validatedUpdate r = .ok updates)
    (hfield : field ∈ policyFields) :
    field.effective T.toPyText cfg (upsertPolicy updates who now db) =
      (payload.get (py field.name)).getD (field.effective T.toPyText cfg db) := by
  have hall := validatedUpdate_forall₂ hbody h
  have hnames : (updates.map fun u => py u.1.name) = payload.keys :=
    forall₂_keys hall fun _ _ hu => hu.2.1
  have hmem : ∀ u ∈ updates, u.1 ∈ policyFields := by
    intro u hu
    obtain ⟨e, -, he⟩ := forall₂_image hall.flip hu
    exact he.1
  have hkeys : ((settingRows (policyRows updates) who now).map Prod.fst).Nodup := by
    have hnodup : (updates.map fun u => py u.1.name).Nodup := hnames ▸ payload.keys_nodup
    rw [keys_settingRows]
    unfold policyRows
    rw [List.map_map]
    refine List.pairwise_map.mpr ((List.pairwise_map.mp hnodup).imp_of_mem ?_)
    intro u v hu hv hne heq
    exact hne (key_policyFields (hmem u hu) (hmem v hv) heq)
  unfold effective
  rw [settings_upsertPolicy]
  rcases hget : payload.get (py field.name) with _ | raw
  · rw [Dict.get_update_of_not_mem]
    · rfl
    · rw [keys_settingRows]
      unfold policyRows
      rw [List.map_map]
      intro hkey
      obtain ⟨u, hu, heq⟩ := List.mem_map.mp hkey
      have hname := key_policyFields (hmem u hu) hfield heq
      refine Dict.get_eq_none.mp hget ?_
      rw [← hnames, ← hname]
      exact List.mem_map.mpr ⟨u, hu, rfl⟩
  · obtain ⟨u, hu, hthere, hname, hvalue⟩ := forall₂_image hall (Dict.get_eq_some.mp hget)
    have hsame : u.1 = field := List.inj_on_of_nodup_map names_policyFields hthere hfield hname
    obtain ⟨field', value⟩ := u
    obtain rfl : field' = field := hsame
    obtain ⟨rfl, htext⟩ := parsePolicyText_policyText (T := T) hvalue
    have hrow : (py field'.key, (⟨policyText value, now, some who⟩ : SettingRow)) ∈
        settingRows (policyRows updates) who now :=
      List.mem_map.mpr ⟨_, List.mem_map.mpr ⟨_, hu, rfl⟩, rfl⟩
    rw [Dict.get_update_of_mem hkeys hrow]
    dsimp only [Option.bind_some]
    rw [htext]
    rfl

end

/-- **An update of the policy reads back.** -/
theorem policy_reads_back (T : SettingText) (cfg : Config) : PolicyReadsBack T cfg := by
  intro db payload r updates who now hbody hupdates field hfield
  rw [effectivePolicy_get hfield, effectivePolicy_get hfield,
    PolicyField.effective_after hbody hupdates hfield]
  cases payload.get (py field.name) <;> rfl

/-- **Updates of different fields** of the policy can be made in either order. -/
theorem policy_either_order {T : SettingText} {cfg : Config} {db : Db} {p q : Dict PyStr Json}
    {r s : SessionRequest} {updates updates' : List (PolicyField × Json)} {who : PyStr}
    {now now' : ℚ} (hr : r.body = .ok (.obj p.entries)) (hs : s.body = .ok (.obj q.entries))
    (hapart : NamesApart p q) (hp : validatedUpdate r = .ok updates)
    (hq : validatedUpdate s = .ok updates') :
    effectivePolicy T.toPyText cfg
        (upsertPolicy updates' who now' (upsertPolicy updates who now db)) =
      effectivePolicy T.toPyText cfg
        (upsertPolicy updates who now' (upsertPolicy updates' who now db)) := by
  refine List.map_congr_left fun field hfield => congrArg (Prod.mk (py field.name)) ?_
  change field.effective T.toPyText cfg _ = field.effective T.toPyText cfg _
  rw [PolicyField.effective_after hs hq hfield, PolicyField.effective_after hr hp hfield,
    PolicyField.effective_after hr hp hfield, PolicyField.effective_after hs hq hfield]
  by_cases hname : py field.name ∈ p.keys
  · rw [Dict.get_eq_none.mpr (hapart _ hname)]
    rfl
  · rw [Dict.get_eq_none.mpr hname]
    rfl

/-- **Settings writes read back**, and writes of different fields can be made in either order. -/
theorem settings_read_back (A : AuthLib) (T : SettingText) (cfg : Config) :
    PolicyReadsBack T cfg ∧ ControlsReadBack A T cfg ∧ EitherOrder A T cfg where
  left := policy_reads_back T cfg
  right := ⟨controls_read_back A T cfg,
    { policy := fun _ _ _ _ _ _ _ _ _ _ hr hs hapart hp hq =>
        policy_either_order hr hs hapart hp hq
      controls := fun _ _ _ _ _ _ _ _ _ _ _ _ _ _ _ hr hs hapart ht hu ht' hu' =>
        controls_either_order hr hs hapart ht hu ht' hu' }⟩

/-- Whole numbers and ASCII, with the floats that are written for them. -/
def settingText : SettingText where
  toPyText := { wholeText with
    float := fun s => ((wholeRead s).or ((JsonText.readInt s).map Int.cast)).map some }
  number := fun s => ((wholeRead s).or ((JsonText.readInt s).map Int.cast)).map .finite
  float_eq := by
    intro s
    rw [Option.map_map]
    rfl
  int_str := JsonText.readInt_dumpsInt
  number_str := by
    intro x
    change ((wholeRead (wholeRepr x)).or _).map PyFloat.finite = _
    rw [wholeRead_wholeRepr]
    rfl
  lower_digits := by
    intro s hs
    change s.map foldCase = s
    refine (List.map_congr_left fun c hc => ?_).trans (List.map_id s)
    obtain ⟨hlow, hhigh⟩ := of_decide_eq_true (hs c hc)
    exact if_neg (by omega)
  floatOfInt_small := fun _ _ => rfl
  floatOfInt_mono := by
    intro m n x y hle hx hy
    obtain rfl := Option.some.inj hx
    obtain rfl := Option.some.inj hy
    exact_mod_cast hle

/-- A body with one member. -/
def oneField (name : String) (value : Json) : Dict PyStr Json :=
  Dict.empty.set (py name) value

/-- Seven logins, where the default is five. -/
def sevenLogins : SessionRequest where
  body := .ok (.obj (oneField "login" (.int 7)).entries)

theorem settings_read_back_login : ∃ updates, validatedUpdate sevenLogins = .ok updates ∧
    (effectivePolicy settingText.toPyText Config.defaults
      (upsertPolicy updates (py "owner") 0 {})).get (py "login") = some (.int 7) := by
  refine ⟨[(⟨"login", "ratelimit.login", fun cfg => .int cfg.ratelimitLogin, .int 1⟩, .int 7)],
    rfl, ?_⟩
  obtain ⟨hpolicy, -, -⟩ := settings_read_back textAuth settingText Config.defaults
  refine (hpolicy {} (oneField "login" (.int 7)) sevenLogins _ (py "owner") 0 rfl rfl
    ⟨"login", "ratelimit.login", fun cfg => .int cfg.ratelimitLogin, .int 1⟩ ?_).trans rfl
  exact .tail _ (.tail _ (.tail _ (.head _)))

end LayaWatch
