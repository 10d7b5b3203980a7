import LayaWatch.Prefetch
import LayaWatch.Lib.Mutex

/-!
# One forward at a time

`RealAdapter.predict` in any number of threads, next to the administrator's calls and the
background thread of `Prefetch`, whose warmup forwards now take `_predict_lock` and run for a
while. Only who holds the lock runs a forward, `_inflight` counts the calls that wait or run,
and every call ends and gives back what it took, whatever is raised in it (`predictions_kept`).
Under `english_only` no forward is of a state that was not detected as English, and none runs
on the multilingual checkpoint, whatever a request pins (`english_kept`).

What the calls record of themselves, and the clocks, are not here.
-/

namespace LayaWatch

/-! ## What a call decides before its forward -/

/-- What a call of the adapter raises. -/
inductive PredictError where
  /-- an `EnglishOnlyError` with its `detection` -/
  | notEnglish (detection : Fields)
  /-- an `EnglishOnlyError` about the `model` that was asked for -/
  | noMultilingual
  /-- another `ValueError` -/
  | value
  /-- anything else -/
  | other

/-- A decision of `Router.route`. -/
structure Decision where
  /-- `model` -/
  model : PyStr
  /-- `reason` -/
  reason : PyStr

/-- What the adapter asks of laya without loading or running anything. -/
structure Oracle where
  /-- `lang.analyse` -/
  analyse : Fields → Fields
  /-- `router.normalise_name`, of what a request asks for -/
  normalise : Json → Except PredictError PyStr
  /-- `Router.route` -/
  route : (state questions : Fields) → (model task : Option Json) → (lang : Option PyStr) →
    Except PredictError Decision
  /-- `str` -/
  str : Json → PyStr

/-- The arguments of `predict`. -/
structure PredictArgs where
  /-- `state` -/
  state : Fields
  /-- `questions` -/
  questions : Fields
  /-- `model` -/
  model : Option Json := none
  /-- `task` -/
  task : Option Json := none
  /-- `lang` -/
  lang : Option Json := none

/-- `det.get("is_english")`, as a condition. -/
def isEnglish (det : Fields) : Bool := ((Fields.get (py "is_english") det).getD .null).truthy

/-- `_lang_code`. -/
def langCode (det : Fields) : PyStr :=
  let undecided := if isEnglish det then py "en" else py "mul"
  match Fields.get (py "language") det with
  | some (.str s) => if s.isEmpty then undecided else s
  | _ => undecided

/-- The `detection` of a refusal. -/
def detectionOf (det : Fields) : Fields :=
  [py "script", py "language", py "non_latin_fraction", py "diacritic_rate"].map fun key =>
    (key, (Fields.get key det).getD .null)

namespace Oracle

variable (O : Oracle) (cfg : PrefetchConfig)

/-- `wants_multi` of `_refuse_when_english_only`. -/
def wantsMulti (model : Option Json) : Except PredictError Bool :=
  match model with
  | none => .ok false
  | some name =>
    if name.truthy then
      match O.normalise name with
      | .ok key => .ok (decide (key = py "multilingual"))
      | .error .other => .error .other
      | .error _ => .ok false
    else .ok false

/-- `_refuse_when_english_only`. -/
def refuseWhenEnglishOnly (det : Fields) (model : Option Json) : Except PredictError Unit :=
  if cfg.englishOnly then
    if isEnglish det then
      match O.wantsMulti model with
      | .ok true => .error .noMultilingual
      | .ok false => .ok ⟨⟩
      | .error e => .error e
    else .error (.notEnglish (detectionOf det))
  else .ok ⟨⟩

/-- `_decide`. -/
def decides (args : PredictArgs) : Except PredictError (Decision × PyStr) := do
  let pin := args.lang.map O.str
  let det := O.analyse args.state
  let code ← match pin with
    | none => do
      refuseWhenEnglishOnly O cfg det args.model
      pure (langCode det)
    | some code =>
      if cfg.englishOnly then do
        refuseWhenEnglishOnly O cfg det args.model
        pure (langCode det)
      else pure code
  let decision ← O.route args.state args.questions args.model args.task pin
  return (decision, code)

end Oracle

/-- What `system_one` raises. -/
inductive ForwardError where
  /-- a `KeyError` -/
  | key
  /-- a `ValueError` -/
  | value
  /-- anything else -/
  | other

/-- A forward as `predict` sees it: a `KeyError` is a `ValueError`. -/
def ForwardError.raised : ForwardError → PredictError
  | key | value => .value
  | other => .other

/-- `len(value)` is a number. -/
def Json.hasLen : Json → Bool
  | .str _ | .arr _ | .obj _ => true
  | _ => false

/-- The part of `predict` under the `serialize` span. -/
def serialize (decision : Decision) (code : PyStr) (result : Fields) :
    Except PredictError Fields :=
  match Fields.get (py "answers") result with
  | some answers =>
    if answers.hasLen then
      .ok [(py "answers", answers), (py "model", .str decision.model),
        (py "route_reason", .str decision.reason), (py "lang", .str code),
        (py "usage", (Fields.get (py "usage") result).getD .null)]
    else .error .other
  | none => .error .other

/-! ## The calls and the lock -/

/-- Where a call is. -/
inductive PredictPc where
  /-- before `_ensure` -/
  | ensuring
  /-- before `_decide` -/
  | deciding
  /-- before `_inflight += 1` -/
  | entering (decision : Decision) (code : PyStr)
  /-- it waits for the lock -/
  | waiting (decision : Decision) (code : PyStr)
  /-- it holds the lock, before `_resident_agent` -/
  | locked (decision : Decision) (code : PyStr)
  /-- its forward runs -/
  | forwarding (decision : Decision) (code : PyStr)
  /-- its forward is done -/
  | serializing (decision : Decision) (code : PyStr) (result : Fields)
  /-- before `_predict_lock.release()` -/
  | releasing (outcome : Except PredictError Fields)
  /-- before `_inflight -= 1` -/
  | leaving (outcome : Except PredictError Fields)
  /-- it has returned or raised -/
  | ended (outcome : Except PredictError Fields)

namespace PredictPc

/-- It holds the lock. -/
def holds : PredictPc → Bool
  | locked _ _ | forwarding _ _ | serializing _ _ _ | releasing _ => true
  | _ => false

/-- It is counted in `_inflight`. -/
def inFlight : PredictPc → Bool
  | waiting _ _ | leaving _ => true
  | pc => pc.holds

/-- Its forward runs. -/
def forwards : PredictPc → Bool
  | forwarding _ _ => true
  | _ => false

/-- It has ended. -/
def hasEnded : PredictPc → Bool
  | ended _ => true
  | _ => false

/-- The steps it has still before it. -/
def left : PredictPc → ℕ
  | ensuring => 9
  | deciding => 8
  | entering _ _ => 7
  | waiting _ _ => 6
  | locked _ _ => 5
  | forwarding _ _ => 4
  | serializing _ _ _ => 3
  | releasing _ => 2
  | leaving _ => 1
  | ended _ => 0

/-- What it has decided. -/
def decision : PredictPc → Option (Decision × PyStr)
  | entering d code | waiting d code | locked d code | forwarding d code
  | serializing d code _ => some (d, code)
  | _ => none

/-- It is past `_resident_agent`. -/
def agentOf : PredictPc → Option PyStr
  | forwarding d _ | serializing d _ _ => some d.model
  | _ => none

end PredictPc

/-- A call of `predict`. -/
structure PredictCall where
  /-- its arguments -/
  args : PredictArgs
  /-- where it is -/
  pc : PredictPc := .ensuring
  /-- `depth`, once it is set -/
  depth : Option ℤ := none

/-- Who can hold the lock. -/
inductive Holder where
  /-- the call with this number -/
  | call (i : ℕ)
  /-- the background thread -/
  | worker
  deriving DecidableEq

/-- Where the background thread is inside `_warm_resident`. -/
inductive WarmPhase where
  /-- it is not between taking the lock and giving it back -/
  | out
  /-- before `router.load(name)` -/
  | locked
  /-- its forward runs -/
  | forwarding
  deriving DecidableEq

/-- The adapter with its calls. -/
structure PredictSys where
  /-- the router and the background thread -/
  adapter : Adapter := {}
  /-- who holds `_predict_lock` -/
  lock : Option Holder := none
  /-- `_inflight` -/
  inflight : ℤ := 0
  /-- the calls so far -/
  calls : List PredictCall := []
  /-- the warmup that is under way -/
  warm : WarmPhase := .out

/-- What a step of a call finds outside. -/
structure PredictEnv where
  /-- the names whose load raises -/
  fails : PyStr → Bool := fun _ => false
  /-- what a load raises -/
  raised : PredictError := .other
  /-- what the forward gives -/
  answer : Except ForwardError Fields := .error .other

/-- Whose step it is. -/
inductive PredictAct where
  /-- a call begins -/
  | call (args : PredictArgs)
  /-- the next step of a call -/
  | step (i : ℕ) (env : PredictEnv)
  /-- the background thread takes the lock for a warmup -/
  | warmLock
  /-- it loads the checkpoint -/
  | warmLoad (fails : PyStr → Bool)
  /-- its forward ends -/
  | warmForward (raises : Bool)
  /-- another step of the adapter -/
  | adapter (a : PrefetchAct)

/-- `router.load`: what is resident then, or none if it raises. -/
def Adapter.routerLoad (cfg : PrefetchConfig) (fails : PyStr → Bool) (name : PyStr)
    (s : Adapter) : Option Adapter :=
  if name ∉ s.loaded ∧ (name ∉ cfg.served ∨ fails name = true) then none
  else some { s with router := some (s.loaded.erase name ++ [name]) }

/-- The name that the background thread is about to warm. -/
def Adapter.warmNext (s : Adapter) : Option PyStr :=
  match s.worker with
  | .warming (name :: _) => if name ∈ s.warmed then none else some name
  | _ => none

namespace PredictSys

variable (cfg : PrefetchConfig) (O : Oracle)

/-- The next step of call `i`, which is `c`. -/
def advance (s : PredictSys) (i : ℕ) (env : PredictEnv) (c : PredictCall) :
    Option (PredictSys × PredictCall) :=
  match c.pc with
  | .ensuring =>
    match s.adapter.ensure cfg env.fails with
    | some adapter => some ({ s with adapter := adapter }, { c with pc := .deciding })
    | none =>
      -- an unknown name of `LAYA_MODELS` is a `ValueError`
      some (s, { c with pc := .ended (.error (if cfg.names.isNone then .value else .other)) })
  | .deciding =>
    match O.decides cfg c.args with
    | .ok (decision, code) => some (s, { c with pc := .entering decision code })
    | .error e => some (s, { c with pc := .ended (.error e) })
  | .entering decision code =>
    some ({ s with inflight := s.inflight + 1 },
      { c with pc := .waiting decision code, depth := some (s.inflight + 1 - 1) })
  | .waiting decision code =>
    if s.lock = none then
      some ({ s with lock := some (.call i) }, { c with pc := .locked decision code })
    else none
  | .locked decision code =>
    match s.adapter.routerLoad cfg env.fails decision.model with
    | some adapter =>
      some ({ s with adapter := adapter }, { c with pc := .forwarding decision code })
    | none => some (s, { c with pc := .releasing (.error env.raised) })
  | .forwarding decision code =>
    match env.answer with
    | .ok result => some (s, { c with pc := .serializing decision code result })
    | .error e => some (s, { c with pc := .releasing (.error e.raised) })
  | .serializing decision code result =>
    some (s, { c with pc := .releasing (serialize decision code result) })
  | .releasing outcome => some ({ s with lock := none }, { c with pc := .leaving outcome })
  | .leaving outcome =>
    some ({ s with inflight := s.inflight - 1 }, { c with pc := .ended outcome })
  | .ended _ => none

/-- One step. -/
def step (s : PredictSys) : PredictAct → Option PredictSys
  | .call args => some { s with calls := s.calls ++ [{ args := args }] }
  | .step i env => do
    let c ← s.calls[i]?
    let (s, c) ← s.advance cfg O i env c
    return { s with calls := s.calls.set i c }
  | .warmLock =>
    if s.adapter.warmNext.isSome ∧ s.warm = .out ∧ s.lock = none then
      some { s with lock := some .worker, warm := .locked }
    else none
  | .warmLoad fails =>
    match s.warm, s.adapter.warmNext with
    | .locked, some name =>
      match s.adapter.routerLoad cfg fails name with
      | some adapter => some { s with adapter := adapter, warm := .forwarding }
      | none => some { s with
        adapter := { s.adapter with worker := .idle }, lock := none, warm := .out }
    | _, _ => none
  | .warmForward raises =>
    match s.warm, s.adapter.worker with
    | .forwarding, .warming (name :: todo) =>
      let adapter := if raises then { s.adapter with worker := .idle }
        else { s.adapter with warmed := name :: s.adapter.warmed, worker := .warming todo }
      some { s with adapter := adapter, lock := none, warm := .out }
    | _, _ => none
  | .adapter a =>
    if a.isWork && s.adapter.warmNext.isSome then none
    else (s.adapter.step cfg a).map fun adapter => { s with adapter := adapter }

/-- The adapter and its calls, from the start on. -/
def machine : Machine PredictSys PredictAct := ⟨fun s => s = {}, step cfg O⟩

/-- Who is where the lock is held. -/
def Holds (s : PredictSys) : Holder → Prop
  | .call i => Threads.At (fun c => c.pc.holds) s.calls i
  | .worker => s.warm ≠ .out

/-- Whose forward runs. -/
def Forwards (s : PredictSys) : Holder → Prop
  | .call i => Threads.At (fun c => c.pc.forwards) s.calls i
  | .worker => s.warm = .forwarding

end PredictSys

/-! ## One step of a call -/

/-- How a call ends, once that is known. -/
def PredictPc.outcome : PredictPc → Option (Except PredictError Fields)
  | releasing outcome | leaving outcome | ended outcome => some outcome
  | _ => none

/-- What a call does with the lock. -/
inductive TakesTurn (i : ℕ) (holds holds' : Bool) (lock lock' : Option Holder) : Prop
  /-- nothing -/
  | keeps : lock' = lock → holds' = holds → TakesTurn i holds holds' lock lock'
  /-- it takes it from nobody -/
  | takes : lock = none → lock' = some (.call i) → holds = false → holds' = true →
      TakesTurn i holds holds' lock lock'
  /-- it gives it back -/
  | gives : lock' = none → holds = true → holds' = false → TakesTurn i holds holds' lock lock'

/-- What a step of a call does. -/
structure Advances (cfg : PrefetchConfig) (O : Oracle) (i : ℕ) (s : PredictSys) (c : PredictCall)
    (t : PredictSys) (c' : PredictCall) : Prop where
  /-- the other calls are left alone -/
  calls : t.calls = s.calls
  /-- the background thread is left alone -/
  worker : t.warm = s.warm ∧ t.adapter.worker = s.adapter.worker ∧
    t.adapter.warmed = s.adapter.warmed
  /-- its arguments are what they were -/
  args : c'.args = c.args
  /-- it has fewer steps before it -/
  left : c'.pc.left < c.pc.left
  /-- its turn with the lock -/
  turn : TakesTurn i c.pc.holds c'.pc.holds s.lock t.lock
  /-- it is counted while it waits or runs -/
  inflight : t.inflight + c.pc.inFlight.toNat = s.inflight + c'.pc.inFlight.toNat
  /-- what it has decided is its own decision -/
  decided : ∀ d, c'.pc.decision = some d → c.pc.decision = some d ∨ O.decides cfg c.args = .ok d
  /-- its answer is about its own decision -/
  answered : ∀ r, c'.pc.outcome = some (.ok r) → c.pc.outcome = some (.ok r) ∨
    ∃ d code result, c.pc = .serializing d code result ∧ serialize d code result = .ok r

section

variable {cfg : PrefetchConfig} {O : Oracle} {s t : PredictSys} {i : ℕ} {env : PredictEnv}
  {c c' : PredictCall}

theorem ensure_worker {fails : PyStr → Bool} {a b : Adapter} (h : a.ensure cfg fails = some b) :
    b.worker = a.worker ∧ b.warmed = a.warmed := by
  rcases Adapter.ensure_cases h with ⟨rfl, -⟩ | ⟨-, _, _, _, -, rfl⟩ <;> exact ⟨rfl, rfl⟩

theorem routerLoad_eq_some {fails : PyStr → Bool} {name : PyStr} {a b : Adapter}
    (h : a.routerLoad cfg fails name = some b) : (name ∈ a.loaded ∨ name ∈ cfg.served) ∧
      b = { a with router := some (a.loaded.erase name ++ [name]) } := by
  unfold Adapter.routerLoad at h
  split at h
  · cases h
  · rename_i hfine
    refine ⟨?_, (Option.some.inj h).symm⟩
    by_contra hnone
    obtain ⟨hloaded, hserved⟩ := not_or.mp hnone
    exact hfine ⟨hloaded, Or.inl hserved⟩

/-- **What a step of a call does.** -/
theorem advances (h : s.advance cfg O i env c = some (t, c')) : Advances cfg O i s c t c' := by
  obtain ⟨args, pc, depth⟩ := c
  cases pc with
  | ensuring =>
    simp only [PredictSys.advance] at h
    split at h
    · rename_i adapter hensure
      obtain ⟨rfl, rfl⟩ := Prod.mk.inj (Option.some.inj h)
      exact ⟨rfl, ⟨rfl, ensure_worker hensure⟩, rfl, by simp [PredictPc.left], .keeps rfl rfl, rfl,
        nofun, nofun⟩
    · obtain ⟨rfl, rfl⟩ := Prod.mk.inj (Option.some.inj h)
      exact ⟨rfl, ⟨rfl, rfl, rfl⟩, rfl, Nat.succ_pos _, .keeps rfl rfl, rfl, nofun, nofun⟩
  | deciding =>
    simp only [PredictSys.advance] at h
    split at h
    · rename_i decision code hdecides
      obtain ⟨rfl, rfl⟩ := Prod.mk.inj (Option.some.inj h)
      refine ⟨rfl, ⟨rfl, rfl, rfl⟩, rfl, Nat.lt_succ_self _, .keeps rfl rfl, rfl, ?_, nofun⟩
      rintro d hd
      obtain rfl := Option.some.inj hd
      exact Or.inr hdecides
    · obtain ⟨rfl, rfl⟩ := Prod.mk.inj (Option.some.inj h)
      exact ⟨rfl, ⟨rfl, rfl, rfl⟩, rfl, Nat.succ_pos _, .keeps rfl rfl, rfl, nofun, nofun⟩
  | entering decision code =>
    obtain ⟨rfl, rfl⟩ := Prod.mk.inj (Option.some.inj h)
    exact ⟨rfl, ⟨rfl, rfl, rfl⟩, rfl, Nat.lt_succ_self _, .keeps rfl rfl,
      by simp [PredictPc.inFlight, PredictPc.holds], fun _ hd => Or.inl hd, nofun⟩
  | waiting decision code =>
    simp only [PredictSys.advance] at h
    split at h
    · rename_i hfree
      obtain ⟨rfl, rfl⟩ := Prod.mk.inj (Option.some.inj h)
      exact ⟨rfl, ⟨rfl, rfl, rfl⟩, rfl, Nat.lt_succ_self _, .takes hfree rfl rfl rfl, rfl,
        fun _ hd => Or.inl hd, nofun⟩
    · cases h
  | locked decision code =>
    simp only [PredictSys.advance] at h
    split at h
    · rename_i adapter hload
      obtain ⟨-, rfl⟩ := routerLoad_eq_some hload
      obtain ⟨rfl, rfl⟩ := Prod.mk.inj (Option.some.inj h)
      exact ⟨rfl, ⟨rfl, rfl, rfl⟩, rfl, Nat.lt_succ_self _, .keeps rfl rfl, rfl,
        fun _ hd => Or.inl hd, nofun⟩
    · obtain ⟨rfl, rfl⟩ := Prod.mk.inj (Option.some.inj h)
      exact ⟨rfl, ⟨rfl, rfl, rfl⟩, rfl, by simp [PredictPc.left], .keeps rfl rfl, rfl, nofun, nofun⟩
  | forwarding decision code =>
    simp only [PredictSys.advance] at h
    split at h
    · obtain ⟨rfl, rfl⟩ := Prod.mk.inj (Option.some.inj h)
      exact ⟨rfl, ⟨rfl, rfl, rfl⟩, rfl, Nat.lt_succ_self _, .keeps rfl rfl, rfl,
        fun _ hd => Or.inl hd, nofun⟩
    · obtain ⟨rfl, rfl⟩ := Prod.mk.inj (Option.some.inj h)
      exact ⟨rfl, ⟨rfl, rfl, rfl⟩, rfl, by simp [PredictPc.left], .keeps rfl rfl, rfl, nofun, nofun⟩
  | serializing decision code result =>
    obtain ⟨rfl, rfl⟩ := Prod.mk.inj (Option.some.inj h)
    refine ⟨rfl, ⟨rfl, rfl, rfl⟩, rfl, Nat.lt_succ_self _, .keeps rfl rfl, rfl, nofun, ?_⟩
    exact fun r hr => Or.inr ⟨decision, code, result, rfl, Option.some.inj hr⟩
  | releasing outcome =>
    obtain ⟨rfl, rfl⟩ := Prod.mk.inj (Option.some.inj h)
    exact ⟨rfl, ⟨rfl, rfl, rfl⟩, rfl, Nat.lt_succ_self _, .gives rfl rfl rfl, rfl, nofun,
      fun _ hr => Or.inl hr⟩
  | leaving outcome =>
    obtain ⟨rfl, rfl⟩ := Prod.mk.inj (Option.some.inj h)
    exact ⟨rfl, ⟨rfl, rfl, rfl⟩, rfl, Nat.lt_succ_self _, .keeps rfl rfl,
      by simp [PredictPc.inFlight, PredictPc.holds], nofun, fun _ hr => Or.inl hr⟩
  | ended outcome => cases h

/-! ## One step -/

/-- What a step does. -/
inductive PredictMoves (cfg : PrefetchConfig) (O : Oracle) (s : PredictSys) :
    PredictAct → PredictSys → Prop
  /-- a call begins -/
  | call {args : PredictArgs} :
      PredictMoves cfg O s (.call args) { s with calls := s.calls ++ [{ args := args }] }
  /-- a call goes on -/
  | step {i : ℕ} {env : PredictEnv} {c c' : PredictCall} {t : PredictSys} :
      s.calls[i]? = some c → s.advance cfg O i env c = some (t, c') →
      PredictMoves cfg O s (.step i env) { t with calls := t.calls.set i c' }
  /-- the background thread takes the lock -/
  | warmLock {name : PyStr} : s.adapter.warmNext = some name → s.warm = .out → s.lock = none →
      PredictMoves cfg O s .warmLock { s with lock := some .worker, warm := .locked }
  /-- it has loaded the checkpoint -/
  | warmLoaded {fails : PyStr → Bool} {name : PyStr} {adapter : Adapter} : s.warm = .locked →
      s.adapter.warmNext = some name → s.adapter.routerLoad cfg fails name = some adapter →
      PredictMoves cfg O s (.warmLoad fails) { s with adapter := adapter, warm := .forwarding }
  /-- the load raises -/
  | warmFailed {fails : PyStr → Bool} : s.warm = .locked →
      PredictMoves cfg O s (.warmLoad fails) { s with
        adapter := { s.adapter with worker := .idle }, lock := none, warm := .out }
  /-- its forward ends -/
  | warmed {raises : Bool} {warmed : List PyStr} {worker : PrefetchWorker} :
      s.warm = .forwarding →
      PredictMoves cfg O s (.warmForward raises) { s with
        adapter := { s.adapter with warmed := warmed, worker := worker }
        lock := none
        warm := .out }
  /-- another step of the adapter -/
  | adapter {a : PrefetchAct} {adapter : Adapter} :
      (a.isWork = true → s.adapter.warmNext = none) → s.adapter.step cfg a = some adapter →
      PredictMoves cfg O s (.adapter a) { s with adapter := adapter }

theorem predictMoves {a : PredictAct} (h : (PredictSys.machine cfg O).step s a = some t) :
    PredictMoves cfg O s a t := by
  change PredictSys.step cfg O s a = some t at h
  cases a with
  | call args =>
    obtain rfl := Option.some.inj h
    exact .call
  | step i env =>
    obtain ⟨c, hc, h⟩ := Option.bind_eq_some_iff.mp h
    obtain ⟨⟨u, c'⟩, hadvance, h⟩ := Option.bind_eq_some_iff.mp h
    obtain rfl := Option.some.inj h
    exact .step hc hadvance
  | warmLock =>
    unfold PredictSys.step at h
    dsimp only at h
    split at h
    · rename_i hfree
      obtain ⟨hnext, hout, hlock⟩ := hfree
      obtain ⟨name, hname⟩ := Option.isSome_iff_exists.mp hnext
      obtain rfl := Option.some.inj h
      exact .warmLock hname hout hlock
    · cases h
  | warmLoad fails =>
    unfold PredictSys.step at h
    dsimp only at h
    split at h
    · rename_i name hwarm hname
      split at h
      · rename_i adapter hload
        obtain rfl := Option.some.inj h
        exact .warmLoaded hwarm hname hload
      · obtain rfl := Option.some.inj h
        exact .warmFailed hwarm
    · cases h
  | warmForward raises =>
    unfold PredictSys.step at h
    dsimp only at h
    split at h
    · rename_i hwarm hworker
      obtain rfl := Option.some.inj h
      cases raises <;> exact .warmed hwarm
    · cases h
  | adapter a =>
    unfold PredictSys.step at h
    dsimp only at h
    split at h
    · cases h
    · rename_i hfree
      obtain ⟨adapter, hadapter, rfl⟩ := Option.map_eq_some_iff.mp h
      refine .adapter (fun hwork => ?_) hadapter
      rw [hwork, Bool.true_and, Bool.not_eq_true] at hfree
      exact Option.isSome_eq_false_iff.mp hfree |> Option.isNone_iff_eq_none.mp

/-! ## The lock and the counter -/

/-- What holds of the calls, the lock and the counter. -/
structure PredictInv (cfg : PrefetchConfig) (O : Oracle) (s : PredictSys) : Prop where
  /-- the lock is held by whoever is where it is held -/
  mutex : Mutex s.lock s.Holds
  /-- the counter counts -/
  inflight : s.inflight = s.calls.countP fun c => c.pc.inFlight
  /-- the background thread stays where it is while it warms -/
  warm : s.warm ≠ .out → s.adapter.warmNext.isSome = true
  /-- a call goes by its own decision -/
  decided : ∀ c ∈ s.calls, ∀ d, c.pc.decision = some d → O.decides cfg c.args = .ok d
  /-- and what it returns is made from that and from its own forward -/
  answered : ∀ c ∈ s.calls, ∀ r, c.pc.outcome = some (.ok r) → ∃ d code result,
    O.decides cfg c.args = .ok (d, code) ∧ serialize d code result = .ok r

/-- A call that moves keeps the lock what it is. -/
theorem mutex_advance (h : Mutex s.lock s.Holds) (hc : s.calls[i]? = some c)
    (hadvances : Advances cfg O i s c t c') :
    Mutex t.lock (PredictSys.Holds { t with calls := s.calls.set i c' }) := by
  have hworker : PredictSys.Holds { t with calls := s.calls.set i c' } .worker ↔
      s.Holds .worker := by
    unfold PredictSys.Holds
    rw [hadvances.worker.1]
  cases hadvances.turn with
  | keeps hlock hholds =>
    have hnext : Mutex s.lock (PredictSys.Holds { t with calls := s.calls.set i c' }) := by
      refine h.congr fun k => ?_
      cases k with
      | worker => exact hworker
      | call j => exact Threads.at_set_same (p := fun c : PredictCall => c.pc.holds) hc hholds
    rwa [← hlock] at hnext
  | takes hfree hlock hbefore hafter =>
    rw [hfree] at h
    have hnext : Mutex (some (.call i))
        (PredictSys.Holds { t with calls := s.calls.set i c' }) := by
      refine h.acquire fun k => ?_
      cases k with
      | worker => rw [hworker, or_iff_left nofun]
      | call j =>
        refine (Threads.at_set_comes (p := fun c : PredictCall => c.pc.holds) hc hafter).trans ?_
        exact or_congr_right ⟨congrArg Holder.call, Holder.call.inj⟩
    rwa [← hlock] at hnext
  | gives hlock hbefore hafter =>
    have hnext : Mutex none (PredictSys.Holds { t with calls := s.calls.set i c' }) := by
      refine h.release (k := .call i) ((Threads.at_iff hc).mpr hbefore) fun k => ?_
      cases k with
      | worker => rw [hworker, and_iff_left nofun]
      | call j =>
        refine (Threads.at_set_goes (p := fun c : PredictCall => c.pc.holds) hc hafter).trans ?_
        exact and_congr_right fun _ => not_congr ⟨congrArg Holder.call, Holder.call.inj⟩
    rwa [← hlock] at hnext

/-- While the background thread is about to warm a checkpoint, the others leave it there. -/
theorem warmNext_step {a : PrefetchAct} {b d : Adapter} (hstep : b.step cfg a = some d)
    (hwork : a.isWork = true → b.warmNext = none) (hnext : b.warmNext.isSome = true) :
    d.warmNext = b.warmNext := by
  cases a with
  | kick =>
    -- it has no thread to start
    simp only [Adapter.step] at hstep
    split at hstep
    · rename_i hidle
      rw [Adapter.warmNext, hidle] at hnext
      cases hnext
    · cases hstep
  | work env =>
    rw [hwork rfl] at hnext
    cases hnext
  | unload names fails =>
    obtain rfl := Option.some.inj hstep
    rcases Adapter.unload_cases cfg b names fails with ⟨hsame, -⟩ | ⟨b', hensure, heq⟩
    · rw [hsame]
    · rw [heq]
      obtain ⟨hworker, hwarmed⟩ := ensure_worker hensure
      rw [Adapter.warmNext, hworker, hwarmed]
      rfl
  | load names memory fails =>
    obtain rfl := Option.some.inj hstep
    rcases Adapter.load_cases cfg b names memory fails with hsame | ⟨b', r, hensure, heq, -⟩
    · rw [hsame]
    · rw [heq]
      obtain ⟨hworker, hwarmed⟩ := ensure_worker hensure
      rw [Adapter.warmNext, hworker, hwarmed]
      rfl

/-- **Every step keeps the lock and the counter.** -/
theorem PredictInv.step (h : PredictInv cfg O s) {a : PredictAct}
    (hmoves : PredictMoves cfg O s a t) : PredictInv cfg O t := by
  cases hmoves with
  | @call args =>
    refine ⟨h.mutex.congr fun k => ?_, ?_, h.warm, fun c hc d hd => ?_, fun c hc r hr => ?_⟩
    · cases k with
      | worker => exact Iff.rfl
      | call k => exact Threads.at_append rfl
    · rw [h.inflight, List.countP_append]
      rfl
    · rcases List.mem_append.mp hc with hc | hc
      · exact h.decided c hc d hd
      · rw [List.mem_singleton.mp hc] at hd
        cases hd
    · rcases List.mem_append.mp hc with hc | hc
      · exact h.answered c hc r hr
      · rw [List.mem_singleton.mp hc] at hr
        cases hr
  | @step i env c c' t hc hadvance =>
    have hadvances := advances hadvance
    have hcalls := hadvances.calls
    have hmem := List.mem_of_getElem? hc
    have hwas : ∀ {e : PredictCall}, e ∈ t.calls.set i c' → e ∈ s.calls ∨ e = c' := fun he =>
      hcalls ▸ List.mem_or_eq_of_mem_set he
    have hmutex := mutex_advance h.mutex hc hadvances
    rw [← hcalls] at hmutex
    refine ⟨hmutex, ?_, ?_, fun e he d hd => ?_, fun e he r hr => ?_⟩
    · have hcount := Threads.countP_set_add (fun c : PredictCall => c.pc.inFlight) c' hc
      have hinflight := hadvances.inflight
      have hbefore := h.inflight
      dsimp only at hcount ⊢
      rw [hcalls]
      omega
    · intro hwarm
      obtain ⟨hsame, hworker, hwarmed⟩ := hadvances.worker
      dsimp only at hwarm ⊢
      rw [hsame] at hwarm
      rw [Adapter.warmNext, hworker, hwarmed]
      exact h.warm hwarm
    · rcases hwas he with he | rfl
      · exact h.decided e he d hd
      · rw [hadvances.args]
        exact (hadvances.decided d hd).elim (h.decided c hmem d) id
    · rcases hwas he with he | rfl
      · exact h.answered e he r hr
      · rw [hadvances.args]
        rcases hadvances.answered r hr with hr | ⟨d, code, result, hpc, hr⟩
        · exact h.answered c hmem r hr
        · exact ⟨d, code, result, h.decided c hmem (d, code) (by rw [hpc]; rfl), hr⟩
  | @warmLock name hnext hout hlock =>
    have hmutex := h.mutex
    rw [hlock] at hmutex
    refine ⟨hmutex.acquire fun k => ?_, h.inflight, fun _ => by rw [hnext]; rfl, h.decided,
      h.answered⟩
    cases k with
    | call i => exact (or_iff_left nofun).symm
    | worker => exact iff_of_true nofun (Or.inr rfl)
  | @warmLoaded fails name adapter hwarm hnext hload =>
    obtain ⟨-, rfl⟩ := routerLoad_eq_some hload
    have hinside : s.warm ≠ .out := by rw [hwarm]; nofun
    refine ⟨h.mutex.congr fun k => ?_, h.inflight, fun _ => h.warm hinside, h.decided, h.answered⟩
    cases k with
    | call i => exact Iff.rfl
    | worker => exact iff_of_true nofun hinside
  | warmFailed hwarm =>
    refine ⟨h.mutex.release (k := .worker) (by rw [PredictSys.Holds, hwarm]; nofun) fun k => ?_,
      h.inflight, fun hout => absurd rfl hout, h.decided, h.answered⟩
    cases k with
    | call i => exact (and_iff_left nofun).symm
    | worker => exact iff_of_false (fun hout => hout rfl) fun hand => hand.2 rfl
  | warmed hwarm =>
    refine ⟨h.mutex.release (k := .worker) (by rw [PredictSys.Holds, hwarm]; nofun) fun k => ?_,
      h.inflight, fun hout => absurd rfl hout, h.decided, h.answered⟩
    cases k with
    | call i => exact (and_iff_left nofun).symm
    | worker => exact iff_of_false (fun hout => hout rfl) fun hand => hand.2 rfl
  | adapter hwork hadapter =>
    refine ⟨h.mutex.congr fun k => by cases k <;> exact Iff.rfl, h.inflight, fun hwarm => ?_,
      h.decided, h.answered⟩
    have hnext := h.warm hwarm
    dsimp only
    rw [warmNext_step hadapter hwork hnext]
    exact hnext

theorem PredictInv.init : PredictInv cfg O {} where
  mutex k := by
    cases k with
    | call i =>
      refine iff_of_false ?_ nofun
      rintro ⟨c, hc, -⟩
      cases hc
    | worker => exact iff_of_false (fun hout => hout rfl) nofun
  inflight := rfl
  warm hout := absurd rfl hout
  decided _ hc := absurd hc List.not_mem_nil
  answered _ hc := absurd hc List.not_mem_nil

/-! ## Going on -/

/-- A call that neither waits nor has ended can go on, whatever it finds. -/
theorem advance_isSome (hwaits : ∀ d code, c.pc ≠ .waiting d code)
    (hended : c.pc.hasEnded = false) (env : PredictEnv) :
    (s.advance cfg O i env c).isSome = true := by
  obtain ⟨args, pc, depth⟩ := c
  cases pc with
  | waiting d code => exact absurd rfl (hwaits d code)
  | ended outcome => cases hended
  | ensuring | deciding | locked _ _ | forwarding _ _ =>
    simp only [PredictSys.advance]
    split <;> rfl
  | _ => rfl

theorem step_isSome (hc : s.calls[i]? = some c)
    (h : (s.advance cfg O i env c).isSome = true) :
    ∃ t, (PredictSys.machine cfg O).step s (.step i env) = some t := by
  obtain ⟨⟨t, c'⟩, hadvance⟩ := Option.isSome_iff_exists.mp h
  refine ⟨{ t with calls := t.calls.set i c' }, ?_⟩
  change (s.calls[i]?.bind fun c => (s.advance cfg O i env c).bind _) = _
  rw [hc, Option.bind_some, hadvance]
  rfl

/-- A step of a call, or of a warmup that holds the lock. -/
def PredictAct.goesOn : PredictAct → Bool
  | step _ _ | warmLoad _ | warmForward _ => true
  | _ => false

/-- A warmup that holds the lock can go on. -/
theorem warm_goes_on (hwarm : s.warm ≠ .out) (hnext : s.adapter.warmNext.isSome = true) :
    ∃ a t, a.goesOn = true ∧ (PredictSys.machine cfg O).step s a = some t := by
  obtain ⟨name, hname⟩ := Option.isSome_iff_exists.mp hnext
  have hsome : ∀ a : PredictAct, a.goesOn = true → (PredictSys.step cfg O s a).isSome = true →
      ∃ a t, a.goesOn = true ∧ (PredictSys.machine cfg O).step s a = some t := fun a ha hstep =>
    ⟨a, _, ha, (Option.isSome_iff_exists.mp hstep).choose_spec⟩
  cases hphase : s.warm with
  | out => exact absurd hphase hwarm
  | locked =>
    refine hsome (.warmLoad fun _ => false) rfl ?_
    simp only [PredictSys.step, hphase, hname]
    split <;> rfl
  | forwarding =>
    refine hsome (.warmForward true) rfl ?_
    unfold Adapter.warmNext at hname
    split at hname
    · rename_i key todo hworker
      simp only [PredictSys.step, hphase, hworker]
      rfl
    · cases hname

/-- **Nothing hangs.** As long as a call has not ended, one can go on, or the warmup can that
holds the lock. -/
theorem PredictInv.goes_on (h : PredictInv cfg O s) (hc : s.calls[i]? = some c)
    (hended : c.pc.hasEnded = false) :
    ∃ a t, a.goesOn = true ∧ (PredictSys.machine cfg O).step s a = some t := by
  have hcall : ∀ {j : ℕ} {d : PredictCall}, s.calls[j]? = some d → d.pc.hasEnded = false →
      (∀ decision code, d.pc ≠ .waiting decision code) →
      ∃ a t, a.goesOn = true ∧ (PredictSys.machine cfg O).step s a = some t := by
    intro j d hd hgoing hwaits
    obtain ⟨t, ht⟩ := step_isSome hd (advance_isSome (O := O) hwaits hgoing {})
    exact ⟨_, t, rfl, ht⟩
  by_cases hwaits : ∃ d code, c.pc = .waiting d code
  · obtain ⟨d, code, hpc⟩ := hwaits
    cases hlock : s.lock with
    | none =>
      have hadvance : (s.advance cfg O i {} c).isSome = true := by
        simp only [PredictSys.advance, hpc, hlock]
        rfl
      obtain ⟨t, ht⟩ := step_isSome hc hadvance
      exact ⟨_, t, rfl, ht⟩
    | some k =>
      -- whoever holds the lock can go on
      have hholds := (h.mutex k).mpr hlock
      cases k with
      | call j =>
        obtain ⟨e, he, hinside⟩ := hholds
        dsimp only at hinside
        refine hcall he ?_ fun d code hpc => ?_
        · cases hpc : e.pc <;> rw [hpc] at hinside <;> first | rfl | cases hinside
        · rw [hpc] at hinside
          cases hinside
      | worker => exact warm_goes_on hholds (h.warm hholds)
  · exact hcall hc hended fun d code hpc => hwaits ⟨d, code, hpc⟩

/-- The steps that call `i` has still before it. -/
def PredictSys.left (s : PredictSys) (i : ℕ) : ℕ := (s.calls[i]?).elim 9 fun c => c.pc.left

/-- The next step of call `i`. -/
def PredictAct.isStepOf (i : ℕ) : PredictAct → Bool
  | step j _ => decide (j = i)
  | _ => false

/-- A step of a call brings it nearer to its end, and no other step takes it away from it. -/
theorem left_step (j : ℕ) {a : PredictAct} (hmoves : PredictMoves cfg O s a t) :
    t.left j + (if a.isStepOf j = true then 1 else 0) ≤ s.left j := by
  cases hmoves with
  | @call args =>
    refine Nat.le_of_eq ?_
    unfold PredictSys.left
    rcases lt_trichotomy j s.calls.length with hj | hj | hj
    · rw [List.getElem?_append_left hj]
      rfl
    · rw [hj, List.getElem?_concat_length, List.getElem?_eq_none (Nat.le_refl _)]
      rfl
    · rw [List.getElem?_eq_none (by simpa using Nat.succ_le_of_lt hj),
        List.getElem?_eq_none (Nat.le_of_lt hj)]
      rfl
  | @step i env c c' t hc hadvance =>
    have hadvances := advances hadvance
    have hleft := hadvances.left
    unfold PredictSys.left
    dsimp only
    rw [hadvances.calls, Threads.getElem?_set_of_mem hc]
    by_cases hj : j = i
    · subst hj
      rw [if_pos rfl, hc]
      simp only [Option.elim_some, PredictAct.isStepOf, decide_true, if_true]
      exact hleft
    · rw [if_neg hj]
      simp only [PredictAct.isStepOf, Ne.symm hj, decide_false, Bool.false_eq_true, if_false,
        Nat.add_zero, Nat.le_refl]
  | _ => exact Nat.le_refl _

/-- What a call records of those before it. -/
theorem depth_step (h : PredictInv cfg O s) {a : PredictAct}
    (hstep : (PredictSys.machine cfg O).step s a = some t) (ha : a = .step i env)
    (hc : s.calls[i]? = some c) {d : Decision} {code : PyStr} (hpc : c.pc = .entering d code) :
    ∃ c', t.calls[i]? = some c' ∧
      c'.depth = some ((s.calls.countP fun c => c.pc.inFlight : ℕ) : ℤ) := by
  subst ha
  obtain ⟨c₀, hc₀, hstep⟩ := Option.bind_eq_some_iff.mp hstep
  obtain rfl := Option.some.inj (hc.symm.trans hc₀)
  simp only [PredictSys.advance, hpc, Option.bind_eq_bind, Option.bind_some] at hstep
  obtain rfl := Option.some.inj hstep
  refine ⟨_, (Threads.getElem?_set_of_mem hc).trans (if_pos rfl), ?_⟩
  dsimp only
  rw [h.inflight, Int.add_sub_cancel]

end

/-! ## Every run -/

/-- What holds of the calls of `predict`, after the steps `es`. -/
structure PredictionsKept (cfg : PrefetchConfig) (O : Oracle) (s : PredictSys)
    (es : List (Machine.Event PredictSys PredictAct)) : Prop where
  /-- whoever runs a forward holds the lock, and nobody else runs one -/
  alone : ∀ k, s.Forwards k → s.lock = some k ∧ ∀ k', s.Forwards k' → k' = k
  /-- the counter counts the calls that wait or run -/
  counted : s.inflight = s.calls.countP fun c => c.pc.inFlight
  /-- the depth that a call records is how many there are before it -/
  depth : ∀ e ∈ es, ∀ i env c d code, e.act = .step i env → e.pre.calls[i]? = some c →
    c.pc = .entering d code → ∃ c', e.post.calls[i]? = some c' ∧
      c'.depth = some ((e.pre.calls.countP fun c => c.pc.inFlight : ℕ) : ℤ)
  /-- a call that has not ended can go on, or whoever holds the lock can -/
  goesOn : ∀ c ∈ s.calls, c.pc.hasEnded = false →
    ∃ a t, a.goesOn = true ∧ (PredictSys.machine cfg O).step s a = some t
  /-- no call takes more than nine steps -/
  steps : ∀ i, es.countP (fun e => e.act.isStepOf i) ≤ 9
  /-- when all have ended, they have given back what they took -/
  quiet : (∀ c ∈ s.calls, c.pc.hasEnded = true) → s.inflight = 0 ∧ ∀ i, s.lock ≠ some (.call i)
  /-- a call returns what was made from its own arguments -/
  answered : ∀ c ∈ s.calls, ∀ r, c.pc = .ended (.ok r) → ∃ d code result,
    O.decides cfg c.args = .ok (d, code) ∧ serialize d code result = .ok r

section

variable {cfg : PrefetchConfig} {O : Oracle} {s t : PredictSys}
  {es : List (Machine.Event PredictSys PredictAct)}

theorem ended_of_hasEnded {pc : PredictPc} (h : pc.hasEnded = true) :
    ∃ outcome, pc = .ended outcome := by
  cases pc with
  | ended outcome => exact ⟨outcome, rfl⟩
  | _ => cases h

theorem PredictSys.Forwards.holds {k : Holder} (h : s.Forwards k) : s.Holds k := by
  cases k with
  | call i =>
    obtain ⟨c, hc, hforwards⟩ := h
    refine ⟨c, hc, ?_⟩
    dsimp only at hforwards ⊢
    cases hpc : c.pc <;> rw [hpc] at hforwards <;> first | rfl | cases hforwards
  | worker =>
    intro hout
    rw [show s.warm = .forwarding from h] at hout
    cases hout

/-- **One forward at a time.** Over every interleaving of the calls of `predict`, the calls of
administrators and the background thread, whatever they raise: only who holds the lock runs a
forward, the counter is exact, no call hangs, and each gives back what it took. -/
theorem predictions_kept (hrun : (PredictSys.machine cfg O).Run {} es s) :
    PredictionsKept cfg O s es := by
  obtain ⟨hend, hall⟩ := hrun.invariant (I := PredictInv cfg O) (G := fun _ _ => True)
    (fun _ _ _ h _ hstep => h.step (predictMoves hstep)) PredictInv.init fun _ _ => trivial
  refine ⟨fun k hk => ⟨(hend.mutex k).mp hk.holds, fun k' hk' =>
    hend.mutex.unique hk'.holds hk.holds⟩, hend.inflight,
    fun e he i env c d code hact hc hpc => ?_, fun c hc hended => ?_, fun i => ?_,
    fun hquiet => ⟨?_, fun i hlock => ?_⟩, fun c hc r hpc => ?_⟩
  · exact depth_step (hall e he).1 (hrun.step_of_mem e he) hact hc hpc
  · obtain ⟨i, hi⟩ := List.getElem?_of_mem hc
    exact hend.goes_on hi hended
  · have hcount := hrun.count_le (I := fun _ => True) (G := fun _ _ => True)
      (f := fun s => s.left i) (p := PredictAct.isStepOf i)
      (fun _ _ _ _ _ hstep => ⟨trivial, left_step i (predictMoves hstep)⟩) trivial
      fun _ _ => trivial
    exact (Nat.le_add_right _ _).trans hcount
  · rw [hend.inflight, List.countP_eq_zero.mpr fun c hc hflight => ?_]
    · rfl
    · obtain ⟨outcome, hpc⟩ := ended_of_hasEnded (hquiet c hc)
      rw [hpc] at hflight
      cases hflight
  · obtain ⟨c, hc, hholds⟩ := (hend.mutex (.call i)).mpr hlock
    obtain ⟨outcome, hpc⟩ := ended_of_hasEnded (hquiet c (List.mem_of_getElem? hc))
    cases (congrArg PredictPc.holds hpc).symm.trans hholds
  · exact hend.answered c hc r (by rw [hpc]; rfl)

end

/-! ## English only -/

/-- A call runs no forward on the multilingual checkpoint, and returns none of its answers. -/
structure PredictCall.Spares (c : PredictCall) : Prop where
  /-- the forward that runs, or has run -/
  agent : c.pc.agentOf ≠ some (py "multilingual")
  /-- what is returned -/
  returned : ∀ r, c.pc.outcome = some (.ok r) →
    Fields.get (py "model") r ≠ some (.str (py "multilingual"))

/-- What holds of the adapter and its calls under `english_only`. -/
structure EnglishInv (s : PredictSys) : Prop where
  /-- the multilingual checkpoint is not resident -/
  loaded : py "multilingual" ∉ s.adapter.loaded
  /-- no call has to do with it -/
  calls : ∀ c ∈ s.calls, c.Spares
  /-- nor has a warmup -/
  warm : s.warm = .forwarding → s.adapter.warmNext ≠ some (py "multilingual")

section

variable {cfg : PrefetchConfig} {O : Oracle} {s t : PredictSys} {a b : Adapter}
  {fails : PyStr → Bool} {key : PyStr}

/-- A load brings in names that are served, and no other. -/
theorem Laya.preload_subset {laya : Laya} {models : List PyStr} {names : List PyStr} :
    ∀ {loaded : List PyStr}, key ∈ (laya.preload models fails names loaded).1 →
      key ∈ loaded ∨ key ∈ models := by
  induction names with
  | nil => exact fun h => Or.inl h
  | cons name names ih =>
    intro loaded h
    unfold Laya.preload at h
    split at h
    · exact Or.inl h
    · rename_i k _
      split at h
      · exact Or.inl h
      · rename_i hfine
        obtain ⟨hserved, -⟩ := not_or.mp hfine
        refine (ih h).elim (fun hmem => ?_) Or.inr
        split at hmem
        · exact Or.inl hmem
        · refine (List.mem_append.mp hmem).imp_right fun hk => ?_
          rw [List.mem_singleton.mp hk]
          exact not_not.mp hserved

/-- Dropping names brings in none. -/
theorem Laya.dropAll_subset {laya : Laya} {names : List PyStr} : ∀ {loaded : List PyStr},
    key ∈ (laya.dropAll names loaded).1 → key ∈ loaded := by
  induction names with
  | nil => exact fun h => h
  | cons name names ih =>
    intro loaded h
    unfold Laya.dropAll at h
    split at h
    · exact h
    · exact List.mem_of_mem_erase (ih h)

/-- Laya has an `english` checkpoint, and its names are the keys of a dict. -/
structure Laya.Catalogued (laya : Laya) : Prop where
  /-- the checkpoint -/
  english : py "english" ∈ laya.catalog
  /-- the names -/
  nodup : laya.catalog.Nodup

variable (hlaya : cfg.laya.Catalogued) (henglish : cfg.englishOnly = true)

include hlaya henglish

/-- `router.models.pop("multilingual")`. -/
theorem multilingual_not_served : py "multilingual" ∉ cfg.served := by
  unfold PrefetchConfig.served
  rw [if_pos henglish]
  exact hlaya.nodup.not_mem_erase

/-- Only the English checkpoint is loaded when the router is built. -/
theorem ensure_english (h : a.ensure cfg fails = some b) (ha : py "multilingual" ∉ a.loaded) :
    py "multilingual" ∉ b.loaded := by
  unfold Adapter.ensure at h
  split at h
  · obtain rfl := Option.some.inj h
    exact ha
  · obtain ⟨names, hnames, h⟩ := Option.bind_eq_some_iff.mp h
    split at h
    · obtain rfl := Option.some.inj h
      exact List.not_mem_nil
    · rename_i first rest
      have hfirst : first = py "english" := by
        have hkeys : cfg.laya.keys [py "english"] = [py "english"] := by
          rw [Laya.keys, List.filterMap_cons, cfg.laya.fixed hlaya.english]
          rfl
        unfold PrefetchConfig.names at hnames
        rw [if_pos henglish] at hnames
        dsimp only at hnames
        rw [if_neg (by decide), hkeys] at hnames
        split at hnames
        · exact (List.cons.inj (Option.some.inj hnames)).1.symm
        · cases hnames
      have hsingle := (Laya.preload_single cfg.laya.catalog fails
        (hfirst ▸ hlaya.english : first ∈ cfg.laya.catalog) []).1
      split at h
      · rename_i loaded hpreload
        obtain rfl := Option.some.inj h
        rw [hpreload, hfirst] at hsingle
        exact fun hmem => absurd (hsingle _ hmem) (by decide)
      · cases h

/-- No step of the adapter brings in the multilingual checkpoint. -/
theorem adapter_english {act : PrefetchAct} (hstep : a.step cfg act = some b)
    (hwork : act.isWork = true → a.warmNext = none) (ha : py "multilingual" ∉ a.loaded) :
    py "multilingual" ∉ b.loaded := by
  have hserved := multilingual_not_served hlaya henglish
  cases act with
  | kick =>
    simp only [Adapter.step] at hstep
    split at hstep
    · obtain rfl := Option.some.inj hstep
      exact ha
    · cases hstep
  | work env =>
    have hidle := hwork rfl
    change a.work cfg env = some b at hstep
    cases hworker : a.worker with
    | started =>
      simp only [Adapter.work, hworker] at hstep
      split at hstep
      · obtain rfl := Option.some.inj hstep
        exact ha
      · rename_i d hensure
        have hd := ensure_english hlaya henglish hensure ha
        obtain rfl := Option.some.inj hstep
        exact hd
    | warming todo =>
      cases todo with
      | nil =>
        simp only [Adapter.work, hworker] at hstep
        obtain rfl := Option.some.inj hstep
        exact ha
      | cons name todo =>
        -- there is nothing to warm in this step
        simp only [Adapter.warmNext, hworker] at hidle
        split at hidle
        · rename_i hwarmed
          simp only [Adapter.work, hworker, if_pos hwarmed] at hstep
          obtain rfl := Option.some.inj hstep
          exact ha
        · cases hidle
    | gated name =>
      simp only [Adapter.work, hworker] at hstep
      split at hstep
      · obtain rfl := Option.some.inj hstep
        exact ha
      · obtain rfl := Option.some.inj hstep
        exact fun hmem => (Laya.preload_subset hmem).elim ha hserved
    | peeking =>
      simp only [Adapter.work, hworker] at hstep
      split at hstep <;> obtain rfl := Option.some.inj hstep <;> exact ha
    | resident _ | fetched _ =>
      simp only [Adapter.work, hworker, Adapter.popleft] at hstep
      split at hstep <;> obtain rfl := Option.some.inj hstep <;> exact ha
    | idle =>
      simp only [Adapter.work, hworker] at hstep
      cases hstep
    | snapshot | checking | staged _ | gating _ =>
      simp only [Adapter.work, hworker] at hstep
      obtain rfl := Option.some.inj hstep
      exact ha
  | unload names fails =>
    obtain rfl := Option.some.inj hstep
    rcases Adapter.unload_cases cfg a names fails with ⟨hsame, -⟩ | ⟨d, hensure, heq⟩
    · rw [hsame]
      exact ha
    · rw [heq]
      exact fun hmem => ensure_english hlaya henglish hensure ha (Laya.dropAll_subset hmem)
  | load names memory fails =>
    obtain rfl := Option.some.inj hstep
    unfold Adapter.load
    split
    · exact ha
    · rename_i d hensure
      have hd := ensure_english hlaya henglish hensure ha
      split
      · exact fun hmem => (Laya.preload_subset hmem).elim hd hserved
      · exact hd

/-- Nor does a load for a forward; and what it loads is another checkpoint. -/
theorem routerLoad_english {name : PyStr} (h : a.routerLoad cfg fails name = some b)
    (ha : py "multilingual" ∉ a.loaded) :
    py "multilingual" ∉ b.loaded ∧ name ≠ py "multilingual" := by
  obtain ⟨hname, rfl⟩ := routerLoad_eq_some h
  have hother : name ≠ py "multilingual" := by
    rintro rfl
    exact hname.elim ha (multilingual_not_served hlaya henglish)
  refine ⟨fun hmem => ?_, hother⟩
  rcases List.mem_append.mp hmem with hmem | hmem
  · exact ha (List.mem_of_mem_erase hmem)
  · exact hother (List.mem_singleton.mp hmem).symm

omit hlaya henglish in
theorem model_of_serialize {d : Decision} {code : PyStr} {result r : Fields}
    (h : serialize d code result = .ok r) : Fields.get (py "model") r = some (.str d.model) := by
  unfold serialize at h
  split at h
  · split at h
    · obtain rfl := Except.ok.inj h
      rfl
    · cases h
  · cases h

omit hlaya in
/-- Whoever decides has passed the gate. -/
theorem gate_of_decides {args : PredictArgs} {d : Decision × PyStr}
    (h : O.decides cfg args = .ok d) :
    isEnglish (O.analyse args.state) = true ∧ O.wantsMulti args.model = .ok false := by
  have hgate : ∀ {det : Fields}, O.refuseWhenEnglishOnly cfg det args.model = .ok ⟨⟩ →
      isEnglish det = true ∧ O.wantsMulti args.model = .ok false := by
    intro det hok
    unfold Oracle.refuseWhenEnglishOnly at hok
    rw [if_pos henglish] at hok
    split at hok
    · rename_i hdetected
      split at hok
      · cases hok
      · rename_i hwants
        exact ⟨hdetected, hwants⟩
      · cases hok
    · cases hok
  cases hrefused : O.refuseWhenEnglishOnly cfg (O.analyse args.state) args.model with
  | ok u => exact hgate hrefused
  | error e =>
    exfalso
    unfold Oracle.decides at h
    dsimp only at h
    cases hpin : args.lang.map O.str with
    | none =>
      rw [hpin, hrefused] at h
      cases h
    | some code =>
      rw [hpin] at h
      dsimp only at h
      rw [if_pos henglish, hrefused] at h
      cases h

/-- A step of a call keeps to the English checkpoint. -/
theorem advance_english {i : ℕ} {env : PredictEnv} {c c' : PredictCall}
    (h : s.advance cfg O i env c = some (t, c')) (hs : py "multilingual" ∉ s.adapter.loaded)
    (hc : c.Spares) : py "multilingual" ∉ t.adapter.loaded ∧ c'.Spares := by
  obtain ⟨args, pc, depth⟩ := c
  have hfree : ∀ {pc : PredictPc} {depth : Option ℤ}, pc.agentOf = none →
      (∀ r, pc.outcome ≠ some (.ok r)) → (PredictCall.mk args pc depth).Spares := by
    intro pc depth hagent hreturned
    exact ⟨by rw [hagent]; nofun, fun r hr => absurd hr (hreturned r)⟩
  cases pc with
  | ensuring =>
    simp only [PredictSys.advance] at h
    split at h
    · rename_i adapter hensure
      have hadapter := ensure_english hlaya henglish hensure hs
      obtain ⟨rfl, rfl⟩ := Prod.mk.inj (Option.some.inj h)
      exact ⟨hadapter, hfree rfl nofun⟩
    · obtain ⟨rfl, rfl⟩ := Prod.mk.inj (Option.some.inj h)
      exact ⟨hs, hfree rfl nofun⟩
  | deciding =>
    simp only [PredictSys.advance] at h
    split at h <;> obtain ⟨rfl, rfl⟩ := Prod.mk.inj (Option.some.inj h) <;>
      exact ⟨hs, hfree rfl nofun⟩
  | entering decision code =>
    obtain ⟨rfl, rfl⟩ := Prod.mk.inj (Option.some.inj h)
    exact ⟨hs, hfree rfl nofun⟩
  | waiting decision code =>
    simp only [PredictSys.advance] at h
    split at h
    · obtain ⟨rfl, rfl⟩ := Prod.mk.inj (Option.some.inj h)
      exact ⟨hs, hfree rfl nofun⟩
    · cases h
  | locked decision code =>
    simp only [PredictSys.advance] at h
    split at h
    · rename_i adapter hload
      obtain ⟨hadapter, hother⟩ := routerLoad_english hlaya henglish hload hs
      obtain ⟨rfl, rfl⟩ := Prod.mk.inj (Option.some.inj h)
      exact ⟨hadapter, fun heq => hother (Option.some.inj heq), nofun⟩
    · obtain ⟨rfl, rfl⟩ := Prod.mk.inj (Option.some.inj h)
      exact ⟨hs, hfree rfl nofun⟩
  | forwarding decision code =>
    simp only [PredictSys.advance] at h
    split at h
    · obtain ⟨rfl, rfl⟩ := Prod.mk.inj (Option.some.inj h)
      exact ⟨hs, hc.agent, nofun⟩
    · obtain ⟨rfl, rfl⟩ := Prod.mk.inj (Option.some.inj h)
      exact ⟨hs, hfree rfl nofun⟩
  | serializing decision code result =>
    obtain ⟨rfl, rfl⟩ := Prod.mk.inj (Option.some.inj h)
    refine ⟨hs, nofun, fun r hr heq => ?_⟩
    rw [model_of_serialize (Option.some.inj hr)] at heq
    exact hc.agent (congrArg some (Json.str.inj (Option.some.inj heq)))
  | releasing outcome =>
    obtain ⟨rfl, rfl⟩ := Prod.mk.inj (Option.some.inj h)
    exact ⟨hs, nofun, hc.returned⟩
  | leaving outcome =>
    obtain ⟨rfl, rfl⟩ := Prod.mk.inj (Option.some.inj h)
    exact ⟨hs, nofun, hc.returned⟩
  | ended outcome => cases h

/-- **No step brings in the multilingual checkpoint.** -/
theorem EnglishInv.step (h : EnglishInv s) (hinv : PredictInv cfg O s) {act : PredictAct}
    (hmoves : PredictMoves cfg O s act t) : EnglishInv t := by
  cases hmoves with
  | @call args =>
    refine ⟨h.loaded, fun c hc => ?_, h.warm⟩
    rcases List.mem_append.mp hc with hc | hc
    · exact h.calls c hc
    · rw [List.mem_singleton.mp hc]
      exact ⟨nofun, nofun⟩
  | @step i env c c' t hc hadvance =>
    have hadvances := advances hadvance
    obtain ⟨hloaded, hspares⟩ := advance_english hlaya henglish hadvance h.loaded
      (h.calls c (List.mem_of_getElem? hc))
    refine ⟨hloaded, fun e he => ?_, fun hwarm => ?_⟩
    · rw [hadvances.calls] at he
      rcases List.mem_or_eq_of_mem_set he with he | rfl
      · exact h.calls e he
      · exact hspares
    · obtain ⟨hsame, hworker, hwarmed⟩ := hadvances.worker
      dsimp only at hwarm ⊢
      rw [hsame] at hwarm
      rw [Adapter.warmNext, hworker, hwarmed]
      exact h.warm hwarm
  | warmLock hnext hout hlock => exact ⟨h.loaded, h.calls, nofun⟩
  | @warmLoaded fails name adapter hwarm hnext hload =>
    obtain ⟨hloaded, hother⟩ := routerLoad_english hlaya henglish hload h.loaded
    obtain ⟨-, rfl⟩ := routerLoad_eq_some hload
    refine ⟨hloaded, h.calls, fun _ heq => hother ?_⟩
    exact Option.some.inj (hnext.symm.trans heq)
  | warmFailed hwarm => exact ⟨h.loaded, h.calls, nofun⟩
  | warmed hwarm => exact ⟨h.loaded, h.calls, nofun⟩
  | adapter hwork hadapter =>
    refine ⟨adapter_english hlaya henglish hadapter hwork h.loaded, h.calls, fun hwarm => ?_⟩
    have hnext := hinv.warm (by rw [show s.warm = .forwarding from hwarm]; nofun)
    dsimp only
    rw [warmNext_step hadapter hwork hnext]
    exact h.warm hwarm

/-- What holds under `english_only`. -/
structure EnglishKept (O : Oracle) (s : PredictSys) : Prop extends EnglishInv s where
  /-- the state of a call that has decided, or returned, was detected as English, and the call
  did not ask for the multilingual checkpoint -/
  gated : ∀ c ∈ s.calls, c.pc.decision.isSome = true ∨ (∃ r, c.pc = .ended (.ok r)) →
    isEnglish (O.analyse c.args.state) = true ∧ O.wantsMulti c.args.model = .ok false

/-- **English only.** Under `english_only`, over every interleaving of calls and whatever they
pin, the multilingual checkpoint is never resident, no forward runs on it, of a call or a
warmup, and no forward is of a state that was not detected as English. -/
theorem english_kept {es : List (Machine.Event PredictSys PredictAct)}
    (hrun : (PredictSys.machine cfg O).Run {} es s) : EnglishKept O s := by
  have hstart : EnglishInv {} :=
    ⟨List.not_mem_nil, fun _ hc => absurd hc List.not_mem_nil, nofun⟩
  obtain ⟨hinv, hkept⟩ := (hrun.invariant (I := fun s => PredictInv cfg O s ∧ EnglishInv s)
    (G := fun _ _ => True) (fun s a t h _ hstep =>
      ⟨h.1.step (predictMoves hstep), h.2.step hlaya henglish h.1 (predictMoves hstep)⟩)
    ⟨PredictInv.init, hstart⟩ fun _ _ => trivial).1
  refine { toEnglishInv := hkept, gated := fun c hc hpast => ?_ }
  rcases hpast with hdecided | ⟨r, hpc⟩
  · obtain ⟨d, hd⟩ := Option.isSome_iff_exists.mp hdecided
    exact gate_of_decides henglish (hinv.decided c hc d hd)
  · obtain ⟨d, code, result, hdecides, -⟩ := hinv.answered c hc r (by rw [hpc]; rfl)
    exact gate_of_decides henglish hdecides

end

/-! ## Two calls and a warmup -/

/-- Laya sends every state to its English checkpoint. -/
def englishOracle : Oracle where
  analyse _ := [(py "is_english", .bool true)]
  normalise _ := .error .value
  route _ _ _ _ _ := .ok ⟨py "english", py "default"⟩
  str _ := []

/-- An English deployment of the three checkpoints. -/
def englishConfig : PrefetchConfig := { stubConfig with englishOnly := true }

/-- Two calls begin while the background thread warms the checkpoint; the second one enters
before the first has the lock, and waits for it. -/
def twoCalls : List PredictAct :=
  .adapter .kick :: List.replicate 2 (.adapter (.work {})) ++
    [.call ⟨[], [], none, none, none⟩, .call ⟨[], [], none, none, some (.str (py "hi"))⟩, .warmLock,
      .warmLoad fun _ => false] ++
    List.replicate 3 (.step 0 {}) ++ List.replicate 3 (.step 1 {}) ++ [.warmForward false] ++
    List.replicate 2 (.step 0 {}) ++ List.replicate 3
      (.step 0 { answer := .ok [(py "answers", .arr [])] }) ++ [.step 1 {}]

theorem twoCalls_run : (PredictSys.machine englishConfig englishOracle).Run {}
    ((PredictSys.machine englishConfig englishOracle).events {} twoCalls)
    ((PredictSys.machine englishConfig englishOracle).final {} twoCalls) :=
  Machine.Run.of_final (by decide +kernel)

/-- Both are in flight then, and the second one has the lock. -/
theorem predictions_kept_twoCalls :
    let s := (PredictSys.machine englishConfig englishOracle).final {} twoCalls
    s.inflight = 2 ∧ s.lock = some (.call 1) ∧
      PredictionsKept englishConfig englishOracle s
        ((PredictSys.machine englishConfig englishOracle).events {} twoCalls) :=
  ⟨by decide +kernel, by decide +kernel, predictions_kept twoCalls_run⟩

/-- And nothing is loaded but the English checkpoint. -/
theorem english_kept_twoCalls :
    let s := (PredictSys.machine englishConfig englishOracle).final {} twoCalls
    s.adapter.loaded = [py "english"] ∧ EnglishKept englishOracle s :=
  ⟨by decide +kernel, english_kept ⟨by decide, by decide⟩ rfl twoCalls_run⟩

end LayaWatch
