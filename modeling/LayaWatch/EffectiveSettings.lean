import LayaWatch.Mutations
import LayaWatch.Startup

/-!
# Effective settings

The value a control has: what `_typed` of `api/settings.py` makes of its row, and the
default of the configuration where there is none or it raises. `_typed` only parses: a row
that parses to a number which `POST /api/v1/settings` would refuse is effective, so that
the effective values are legal exactly while no row is such a one (`effective_legal_iff`).
-/

namespace LayaWatch

open Auth

/-! ## Controls -/

/-- The controls of `_CONTROLS`. -/
inductive Control where
  /-- `"retention_traces"` -/
  | retentionTraces
  /-- `"retention_days"` -/
  | retentionDays
  /-- `"log_ring_size"` -/
  | logRingSize
  /-- `"trace_sample"` -/
  | traceSample
  /-- `"stream_tick"` -/
  | streamTick
  /-- `"capture_payloads"` -/
  | capturePayloads
  deriving DecidableEq

/-- What a control is: an integer, a float or a boolean. -/
inductive ControlValue where
  /-- an `int` -/
  | int (n : ℤ)
  /-- a `float`, finite or not -/
  | float (x : PyFloat)
  /-- a `bool` -/
  | bool (b : Bool)
  deriving DecidableEq

namespace ControlValue

/-- The value in a response, where JSON has it. -/
def json : ControlValue → Option Json
  | int n => some (.int n)
  | float x => x.toRat?.map Json.float
  | bool b => some (.bool b)

/-- `value == posted`. -/
def equals : ControlValue → Json → Prop
  | int n, .int m => n = m
  | float x, .int m => x = .finite m
  | float x, .float y => x = .finite y
  | bool b, .bool c => b = c
  | _, _ => False

end ControlValue

namespace Control

/-- The controls, in the order of `_CONTROLS`. -/
def all : List Control :=
  [retentionTraces, retentionDays, logRingSize, traceSample, streamTick, capturePayloads]

/-- Its name, which is its key in `settings`. -/
def name : Control → String
  | retentionTraces => "retention_traces"
  | retentionDays => "retention_days"
  | logRingSize => "log_ring_size"
  | traceSample => "trace_sample"
  | streamTick => "stream_tick"
  | capturePayloads => "capture_payloads"

/-- `getattr(config, name)`. -/
def default (cfg : Config) : Control → ControlValue
  | retentionTraces => .int cfg.retentionTraces
  | retentionDays => .int cfg.retentionDays
  | logRingSize => .int cfg.logRingSize
  | traceSample => .float cfg.traceSample
  | streamTick => .int cfg.streamTick
  | capturePayloads => .bool cfg.capturePayloads

/-- The minimum of an integer control. -/
def minimum : Control → Option ℤ
  | traceSample | capturePayloads => none
  | c => intMinimums.lookup (py c.name)

section

variable (T : EnvText)

/-- `_typed`, unless it raises. -/
def typed (c : Control) (text : PyStr) : Option ControlValue :=
  match c with
  | capturePayloads => some (.bool (trueText.contains (T.lower text.strip)))
  | traceSample => (T.number text).map .float
  | _ => (T.int text).map .int

/-- `_effective_value`. -/
def effective (cfg : Config) (db : Db) (c : Control) : ControlValue :=
  match db.settings.get (py c.name) with
  | none => c.default cfg
  | some row => (c.typed T row.value).getD (c.default cfg)

end

/-- The domain of a control. -/
def Takes (c : Control) : ControlValue → Prop
  | .int n => ∃ minimum, c.minimum = some minimum ∧ minimum ≤ n
  | .float x => c = traceSample ∧ ∃ q, x = .finite q ∧ 0 ≤ q ∧ q ≤ 1
  | .bool _ => c = capturePayloads

/-- The text is read as a number that is out of the domain of the control: for an integer
control one below its minimum, for `trace_sample` one that is not between 0 and 1. -/
def Misreads (T : EnvText) (c : Control) (text : PyStr) : Prop :=
  match c with
  | capturePayloads => False
  | traceSample => ∃ x, T.number text = some x ∧ ¬∃ q, x = .finite q ∧ 0 ≤ q ∧ q ≤ 1
  | c => ∃ n minimum, T.int text = some n ∧ c.minimum = some minimum ∧ n < minimum

end Control

/-- Every default of the configuration is in the domain of its control. -/
def Config.Legal (cfg : Config) : Prop := ∀ c : Control, c.Takes (c.default cfg)

/-- The effective values are legal: each is in the domain of its control, and is that of the
row where this is in the domain, and the default where it is not, or there is none. -/
structure EffectiveLegal (T : EnvText) (cfg : Config) (db : Db) : Prop where
  /-- in the domain -/
  takes : ∀ c : Control, c.Takes (c.effective T cfg db)
  /-- a row that is valid counts -/
  valid : ∀ (c : Control) row v, db.settings.get (py c.name) = some row →
    c.typed T row.value = some v → c.Takes v → c.effective T cfg db = v
  /-- and any other does not -/
  fallback : ∀ c : Control, (∀ row v, db.settings.get (py c.name) = some row →
    c.typed T row.value = some v → ¬c.Takes v) → c.effective T cfg db = c.default cfg

/-! ## The domains -/

section

variable {T : EnvText} {cfg : Config} {db : Db} {c : Control}

theorem Control.mem_all (c : Control) : c ∈ Control.all := by
  cases c <;> decide

/-- The controls are those of `_CONTROLS`. -/
theorem names_all : (Control.all.map fun c => py c.name) = controls := rfl

theorem Control.name_injective {c d : Control} (h : py c.name = py d.name) : c = d := by
  revert h
  cases c <;> cases d <;> decide

/-- The domain is what `POST /api/v1/settings` takes. -/
theorem Control.takes_int {minimum : ℤ} (h : c.minimum = some minimum) (n : ℤ) :
    c.Takes (.int n) ↔ TakesControl T.toPyText c.name (.int n) := by
  have hlookup : intMinimums.lookup (py c.name) = some minimum := by
    cases c with
    | traceSample | capturePayloads => cases h
    | _ => exact h
  rw [takesControl_int hlookup, Takes, h]
  exact ⟨fun ⟨_, heq, hle⟩ => Option.some.inj heq ▸ hle, fun hle => ⟨minimum, rfl, hle⟩⟩

theorem Control.takes_sample (q : ℚ) : traceSample.Takes (.float (.finite q)) ↔
    TakesControl T.toPyText traceSample.name (.float q) := by
  refine Iff.trans ?_ (takesControl_sample q).symm
  unfold Takes
  simp only [PyFloat.finite.injEq, exists_eq_left', true_and]

/-- An integer control is an integer. -/
theorem Control.typed_int {minimum : ℤ} (h : c.minimum = some minimum) (text : PyStr) :
    c.typed T text = (T.int text).map .int := by
  cases c with
  | traceSample | capturePayloads => cases h
  | _ => rfl

theorem Control.misreads_int {minimum : ℤ} (h : c.minimum = some minimum) {text : PyStr} :
    c.Misreads T text ↔ ∃ n, T.int text = some n ∧ n < minimum := by
  have hthere : c.Misreads T text ↔
      ∃ n minimum, T.int text = some n ∧ c.minimum = some minimum ∧ n < minimum := by
    cases c with
    | traceSample | capturePayloads => cases h
    | _ => exact Iff.rfl
  rw [hthere]
  refine exists_congr fun n => ?_
  rw [h]
  simp

/-- Every control has a minimum, but for two. -/
theorem Control.kind_cases (c : Control) :
    c = traceSample ∨ c = capturePayloads ∨ ∃ minimum, c.minimum = some minimum := by
  cases c with
  | traceSample => exact Or.inl rfl
  | capturePayloads => exact Or.inr (Or.inl rfl)
  | _ => exact Or.inr (Or.inr ⟨_, rfl⟩)

/-- What `_typed` makes of a text is out of the domain exactly if it is misread. -/
theorem Control.misreads_iff {text : PyStr} :
    c.Misreads T text ↔ ∃ v, c.typed T text = some v ∧ ¬c.Takes v := by
  rcases c.kind_cases with rfl | rfl | ⟨minimum, hminimum⟩
  · change (∃ x, T.number text = some x ∧ _) ↔
      ∃ v, (T.number text).map ControlValue.float = some v ∧ _
    rcases T.number text with _ | x
    · simp
    · simp [Takes]
  · refine iff_of_false id ?_
    rintro ⟨v, hv, hno⟩
    obtain rfl := Option.some.inj hv
    exact hno rfl
  · rw [misreads_int hminimum, typed_int hminimum]
    rcases T.int text with _ | n
    · simp
    · simp [Takes, hminimum]

/-- `_typed`, as the responses show it: JSON has the finite floats. -/
theorem Control.typedControl_eq (c : Control) (text : PyStr) :
    typedControl T.toPyText (py c.name) text = (c.typed T text).bind ControlValue.json := by
  rcases c.kind_cases with rfl | rfl | ⟨minimum, hminimum⟩
  · change (T.float text).bind _ = ((T.number text).map ControlValue.float).bind _
    rw [T.float_eq]
    cases T.number text <;> rfl
  · rfl
  · rw [typed_int hminimum]
    have htyped : typedControl T.toPyText (py c.name) text = (T.int text).map Json.int := by
      cases c with
      | traceSample | capturePayloads => cases hminimum
      | _ => rfl
    rw [htyped]
    cases T.int text <;> rfl

/-- An effective value that JSON has is what the settings show. -/
theorem Control.effectiveValue_eq {value : Json}
    (h : (c.effective T cfg db).json = some value) :
    effectiveValue T.toPyText cfg db (py c.name) = value := by
  have hdefault : ∀ {value : Json}, (c.default cfg).json = some value →
      ((cfg.control.lookup (py c.name)).getD .null) = value := by
    intro value hvalue
    cases c with
    | traceSample =>
      change (cfg.traceSample.toRat?.map Json.float).getD .null = value
      exact congrArg (Option.getD · Json.null) hvalue
    | _ => exact Option.some.inj hvalue
  unfold effective at h
  unfold effectiveValue
  rcases hrow : db.settings.get (py c.name) with _ | row
  · rw [hrow] at h
    exact hdefault h
  · rw [hrow] at h
    dsimp only at h ⊢
    rw [typedControl_eq]
    rcases htyped : c.typed T row.value with _ | v
    · rw [htyped] at h
      exact hdefault h
    · rw [htyped] at h
      rw [Option.bind_some, show v.json = some value from h]
      rfl

/-! ## Legal values -/

/-- **Effective settings** are legal exactly if no row of a control holds a text that is read as
a number out of its domain. -/
theorem effective_legal_iff (hcfg : cfg.Legal) : EffectiveLegal T cfg db ↔
    ∀ (c : Control) row, db.settings.get (py c.name) = some row → ¬c.Misreads T row.value := by
  constructor
  · intro h c row hrow hmis
    obtain ⟨v, hv, hno⟩ := Control.misreads_iff.mp hmis
    have heffective : c.effective T cfg db = v := by
      unfold Control.effective
      rw [hrow]
      dsimp only
      rw [hv]
      rfl
    exact hno (heffective ▸ h.takes c)
  · intro h
    -- a stored text that reads as a value is one that the control takes
    have hvalid : ∀ (c : Control) row v, db.settings.get (py c.name) = some row →
        c.typed T row.value = some v → c.Takes v := by
      intro c row v hrow hv
      by_contra hno
      exact h c row hrow (Control.misreads_iff.mpr ⟨v, hv, hno⟩)
    refine ⟨fun c => ?_, fun c row v hrow hv _ => ?_, fun c hno => ?_⟩
    · unfold Control.effective
      rcases hrow : db.settings.get (py c.name) with _ | row
      · exact hcfg c
      · dsimp only
        rcases hv : c.typed T row.value with _ | v
        · exact hcfg c
        · exact hvalid c row v hrow hv
    · unfold Control.effective
      rw [hrow]
      dsimp only
      rw [hv]
      rfl
    · unfold Control.effective
      rcases hrow : db.settings.get (py c.name) with _ | row
      · rfl
      · dsimp only
        rcases hv : c.typed T row.value with _ | v
        · rfl
        · exact absurd (hvalid c row v hrow hv) (hno row v hrow hv)

/-- A table with one row. -/
def oneSetting (key value : String) : Db := upsertSetting (py key) (py value) (py "hand") 0 {}

theorem defaults_legal : Config.defaults.Legal := by
  intro c
  cases c with
  | traceSample => exact ⟨rfl, 1, rfl, by decide, by decide⟩
  | capturePayloads => exact rfl
  | _ => exact ⟨_, rfl, by decide⟩

/-- The row of another key, or none. -/
theorem get_oneSetting {key value : String} {k : PyStr} {row : SettingRow}
    (h : (oneSetting key value).settings.get k = some row) : k = py key ∧ row.value = py value := by
  unfold oneSetting upsertSetting at h
  by_cases hk : k = py key
  · rw [hk] at h
    have hrow := (Dict.get_set_self _ _ _).symm.trans h
    rw [← Option.some.inj hrow]
    exact ⟨hk, rfl⟩
  · have hnone := (Dict.get_set_ne _ _ hk).symm.trans h
    cases hnone

theorem effective_legal_days :
    EffectiveLegal wholeEnv Config.defaults (oneSetting "retention_days" "30") := by
  refine (effective_legal_iff defaults_legal).mpr fun c row hrow hmis => ?_
  obtain ⟨hname, hvalue⟩ := get_oneSetting hrow
  obtain rfl : c = .retentionDays := Control.name_injective hname
  obtain ⟨n, hn, hlow⟩ := (Control.misreads_int rfl).mp hmis
  rw [hvalue] at hn
  have hthirty : wholeEnv.int (py "30") = some 30 := by decide +kernel
  obtain rfl := Option.some.inj (hthirty.symm.trans hn)
  exact absurd hlow (by decide)

/-- **A row that is out of its domain** is effective. -/
theorem effective_illegal : ¬∀ (T : EnvText) (cfg : Config) (db : Db), cfg.Legal →
    EffectiveLegal T cfg db := by
  intro h
  have hlegal := h wholeEnv Config.defaults (oneSetting "retention_days" "-5") defaults_legal
  have hfive : Control.retentionDays.effective wholeEnv Config.defaults
      (oneSetting "retention_days" "-5") = .int (-5) := by decide +kernel
  have htakes := hlegal.takes .retentionDays
  rw [hfive] at htakes
  obtain ⟨minimum, hminimum, hle⟩ := htakes
  obtain rfl : 1 = minimum := Option.some.inj hminimum
  exact absurd hle (by decide)

end

end LayaWatch
