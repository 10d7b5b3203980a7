import LayaWatch.Config

/-!
# Settings

The controls of `api/settings.py` that can be changed at run time, and what
`POST /api/v1/settings` checks of each before it stores its text.
-/

namespace LayaWatch

/-- `_INT_MINIMUMS`. -/
def intMinimums : List (PyStr × ℤ) :=
  [(py "retention_traces", 1), (py "retention_days", 1), (py "log_ring_size", 100),
    (py "stream_tick", 1)]

section

variable (T : PyText)

/-- `_control_text` of `trace_sample`. -/
def sampleText (value : Json) : Except HttpError PyStr :=
  let name := py "trace_sample"
  let inUnit (x : ℚ) : Except HttpError PyStr :=
    if 0 ≤ x ∧ x ≤ 1 then .ok (T.repr x)
    else .error (.bad name [.text (py "'trace_sample' must be between 0 and 1")])
  match value with
  | .float x => inUnit x
  | .int n =>
    match T.floatOfInt n with
    | none => .error .unhandled
    | some x => inUnit x
  | _ => .error (.bad name [.text (py "'trace_sample' must be a number between 0 and 1")])

/-- `_control_text` of a control with a minimum. -/
def intText (name : PyStr) (minimum : ℤ) (value : Json) : Except HttpError PyStr :=
  match value with
  | .int n =>
    if n < minimum then
      .error (.bad name [.text (py "'"), .str name, .text (py "' must be at least "),
        .str (JsonText.dumpsInt minimum)])
    else .ok (JsonText.dumpsInt n)
  | _ => .error (.bad name [.text (py "'"), .str name, .text (py "' must be an integer")])

/-- `_control_text`, of a control of `_CONTROL_SET`; any other name is refused before. -/
def controlText (name : PyStr) (value : Json) : Except HttpError PyStr :=
  if name = py "capture_payloads" then
    match value with
    | .bool b => .ok (py (if b then "1" else "0"))
    | _ => .error (.bad name [.text (py "'capture_payloads' must be a boolean")])
  else if name = py "trace_sample" then sampleText T value
  else
    match intMinimums.lookup name with
    | some minimum => intText name minimum value
    | none => .error (.bad name [.text (py "unknown setting "), .repr name])

/-- A control takes this value. -/
def TakesControl (name : String) (value : Json) : Prop :=
  ∃ text, controlText T (py name) value = .ok text

variable {T}

/-- An integer control takes what is not below its minimum. -/
theorem takesControl_int {name : String} {minimum : ℤ}
    (h : intMinimums.lookup (py name) = some minimum) (n : ℤ) :
    TakesControl T name (.int n) ↔ minimum ≤ n := by
  have hcapture : py name ≠ py "capture_payloads" := by
    intro heq
    rw [heq] at h
    cases h
  have hsample : py name ≠ py "trace_sample" := by
    intro heq
    rw [heq] at h
    cases h
  unfold TakesControl controlText
  rw [if_neg hcapture, if_neg hsample, h]
  unfold intText
  dsimp only
  by_cases hlow : n < minimum
  · rw [if_pos hlow]
    exact iff_of_false (fun ⟨_, htext⟩ => by cases htext) (not_le.mpr hlow)
  · rw [if_neg hlow]
    exact iff_of_true ⟨_, rfl⟩ (not_lt.mp hlow)

/-- `trace_sample` takes the numbers between 0 and 1. -/
theorem takesControl_sample (x : ℚ) :
    TakesControl T "trace_sample" (.float x) ↔ 0 ≤ x ∧ x ≤ 1 := by
  have hcapture : py "trace_sample" ≠ py "capture_payloads" := by decide
  unfold TakesControl controlText
  rw [if_neg hcapture, if_pos rfl]
  unfold sampleText
  dsimp only
  by_cases hin : 0 ≤ x ∧ x ≤ 1
  · rw [if_pos hin]
    exact iff_of_true ⟨_, rfl⟩ hin
  · rw [if_neg hin]
    exact iff_of_false (fun ⟨_, htext⟩ => by cases htext) hin

end

end LayaWatch
