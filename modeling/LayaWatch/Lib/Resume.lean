import Mathlib.Data.List.Basic

/-!
# Jobs that stop at a failure

A list of jobs is done one after the other until one fails. What is left is the failing job and
all that come after it (`runUntil`). Doing the rest later is the same as not having stopped
(`runUntil_resume`).
-/

namespace Resume

universe u v

variable {A : Type u} {S : Type v}

/-- Do the jobs until one fails: the state, and the jobs that are left. -/
def runUntil (effect : A → S → Option S) : List A → S → S × List A
  | [], s => (s, [])
  | job :: rest, s =>
    match effect job s with
    | some t => runUntil effect rest t
    | none => (s, job :: rest)

variable {effect : A → S → Option S} {done rest : List A} {s t : S}

/-- **Jobs that were done before need not be done again.** -/
theorem runUntil_resume (h : done.foldlM (fun s job => effect job s) s = some t) :
    runUntil effect (done ++ rest) s = runUntil effect rest t := by
  induction done generalizing s with
  | nil =>
    obtain rfl := Option.some.inj h
    rfl
  | cons job done ih =>
    rw [List.foldlM_cons] at h
    obtain ⟨next, heffect, hdone⟩ := Option.bind_eq_some_iff.mp h
    rw [List.cons_append, runUntil, heffect]
    exact ih hdone

end Resume
