import LayaWatch.Recorder
import LayaWatch.Lib.Machine
import Mathlib.Logic.Function.Basic

/-!
# Thread attribution

A pool of worker threads on which requests run: `app.py` dispatches each on some
thread and runs its `on_sent` hook on some thread, `http/middleware.py` (with
`close_on_sent`) and `api/playground.py` start and finish contexts. What a
thread's slots hold is changed by the operations of `Thread` alone, where the
source changes them.

A context is named by the number of its request. While code of a request runs on
a thread, the thread should know no context but the request's own, unfinished
one (`Attributed`). It does, as long as a thread that served an engine request
takes up nothing else before the hook of that request has run, and has run there
(`attribution`).
-/

namespace LayaWatch

/-! ## The server -/

/-- How a request is served. -/
inductive RequestKind where
  /-- on an engine path -/
  | engine
  /-- by a handler that starts no context -/
  | plain
  /-- by the playground, which starts and finishes its own context -/
  | playground
  deriving DecidableEq, Repr

/-- Which code of a request a thread runs. -/
inductive Stage where
  /-- up to `Recorder.start` -/
  | entry (kind : RequestKind)
  /-- from `Recorder.start` to the hook's attachment or `finish` -/
  | working (kind : RequestKind)
  /-- what is left until the request leaves the thread -/
  | leaving
  /-- `sent`, up to `finish` -/
  | hook
  /-- `sent`, from there on -/
  | sent
  deriving DecidableEq, Repr

/-- The threads and the requests. -/
structure Server where
  /-- the slots of each thread -/
  thread : ℕ → Thread := fun _ => {}
  /-- the request each thread runs, and which code of it -/
  running : ℕ → Option (ℕ × Stage) := fun _ => none
  /-- the thread that runs the request -/
  busy : ℕ → Option ℕ := fun _ => none
  /-- the thread each request was dispatched on -/
  dispatched : ℕ → Option ℕ := fun _ => none
  /-- `_finished` of its context -/
  finished : ℕ → Bool := fun _ => false
  /-- its response carries the hook -/
  hooked : ℕ → Bool := fun _ => false
  /-- the thread on which the hook finished it -/
  closedOn : ℕ → Option ℕ := fun _ => none

/-- What a thread does next. -/
inductive ServerAct where
  /-- take up a new request -/
  | dispatch (t r : ℕ) (kind : RequestKind)
  /-- `Recorder.start`, and `spans.bind` on an engine path -/
  | start (t : ℕ)
  /-- `_attach_send_hook`, and `spans.bind(None)` -/
  | attach (t : ℕ)
  /-- `Context.finish` where the context was started: the playground, and the
  `finally` clause when no hook was attached -/
  | finish (t : ℕ)
  /-- leave the request -/
  | leave (t : ℕ)
  /-- take up the hook of a response -/
  | fire (t r : ℕ)
  /-- `Context.finish` in the hook, and `spans.bind(None)` -/
  | sent (t : ℕ)
  deriving DecidableEq, Repr

/-- A request leaves its thread at the end of its code, or without a context. -/
def Stage.mayLeave : Stage → Bool
  | .entry .engine | .working _ | .hook => false
  | .entry _ | .leaving | .sent => true

namespace Server

/-- `t` goes on with `r` at `stage`. -/
def goOn (s : Server) (t r : ℕ) (stage : Stage) : Server :=
  { s with running := Function.update s.running t (some (r, stage)) }

/-- The slots of `t` change. -/
def onThread (s : Server) (t : ℕ) (f : Thread → Thread) : Server :=
  { s with thread := Function.update s.thread t (f (s.thread t)) }

/-- One step of a thread. -/
def step (s : Server) : ServerAct → Option Server
  | .dispatch t r kind =>
    if s.running t = none ∧ s.dispatched r = none then
      some { s.goOn t r (.entry kind) with
        busy := Function.update s.busy r (some t)
        dispatched := Function.update s.dispatched r (some t) }
    else none
  | .start t =>
    match s.running t with
    | some (r, .entry kind) =>
      if kind = .plain then none
      else
        some ((s.goOn t r (.working kind)).onThread t fun th =>
          if kind = .engine then (th.install r).bind (some r) else th.install r)
    | _ => none
  | .attach t =>
    match s.running t with
    | some (r, .working .engine) =>
      some { (s.goOn t r .leaving).onThread t (fun th => th.bind none) with
        hooked := Function.update s.hooked r true }
    | _ => none
  | .finish t =>
    match s.running t with
    | some (r, .working kind) =>
      some { (s.goOn t r .leaving).onThread t (fun th =>
          (if kind = .engine then th.bind none else th).release r) with
        finished := Function.update s.finished r true }
    | _ => none
  | .leave t =>
    match s.running t with
    | some (r, stage) =>
      if stage.mayLeave then
        some { s with
          running := Function.update s.running t none
          busy := Function.update s.busy r none }
      else none
    | none => none
  | .fire t r =>
    if s.running t = none ∧ s.hooked r = true ∧ s.busy r = none then
      some { s.goOn t r .hook with busy := Function.update s.busy r (some t) }
    else none
  | .sent t =>
    match s.running t with
    | some (r, .hook) =>
      if s.finished r then some ((s.goOn t r .sent).onThread t fun th => th.bind none)
      else
        some { (s.goOn t r .sent).onThread t (fun th => (th.release r).bind none) with
          finished := Function.update s.finished r true
          closedOn := Function.update s.closedOn r (some t) }
    | _ => none

/-- The pool, from its start. -/
def machine : Machine Server ServerAct where
  init s := s = {}
  step := step

/-! ## The property and the condition -/

/-- Wherever code of a request runs, `current_context` and what the adapter's proxy
resolves are nothing, or the unfinished context of that request. -/
def Attributed (s : Server) : Prop :=
  ∀ t r stage, s.running t = some (r, stage) →
    ∀ q, (s.thread t).ctx = some q ∨ (s.thread t).resolve = some q →
      q = r ∧ s.finished q = false

/-- An engine request was dispatched on `t`, its response carries the hook, and the
hook has not finished it there. -/
def Left (s : Server) (t q : ℕ) : Prop :=
  s.dispatched q = some t ∧ s.hooked q = true ∧ s.closedOn q ≠ some t

/-- A thread takes up a new request only when nothing is left on it, and a hook only
when nothing but the request of the hook is, whose hook then runs for the first time. -/
def InTurn (s : Server) : ServerAct → Prop
  | .dispatch t _ _ => ∀ q, ¬s.Left t q
  | .fire t r => ∀ q, s.Left t q → q = r ∧ s.closedOn q = none
  | _ => True

/-! ## The invariant -/

/-- What holds of the slots while the threads take up requests in turn. -/
structure Kept (s : Server) : Prop where
  /-- a slot holds the context being worked on, or one that is left -/
  slot : ∀ t q, (s.thread t).ctx = some q →
    (∃ k, s.running t = some (q, .working k)) ∨ s.Left t q
  /-- the proxy is bound to the context being worked on, on an engine path -/
  bound : ∀ t q, (s.thread t).bound = some q → s.running t = some (q, .working .engine)
  /-- the context being worked on is in the slot -/
  mine : ∀ t q k, s.running t = some (q, .working k) → (s.thread t).ctx = some q
  /-- what is left is in the slot -/
  left : ∀ t q, s.Left t q → (s.thread t).ctx = some q
  /-- a request that has not started its context is unfinished -/
  entry : ∀ t q k, s.running t = some (q, .entry k) →
    s.dispatched q = some t ∧ s.hooked q = false ∧ s.finished q = false ∧ s.closedOn q = none
  /-- so is one that works on it -/
  working : ∀ t q k, s.running t = some (q, .working k) →
    s.dispatched q = some t ∧ s.hooked q = false ∧ s.finished q = false ∧ s.closedOn q = none
  /-- a request that was not dispatched has no history -/
  unborn : ∀ q, s.dispatched q = none → s.hooked q = false ∧ s.finished q = false ∧
    s.closedOn q = none ∧ s.busy q = none
  /-- a hook that finished its context did so on some thread -/
  closed : ∀ q, s.hooked q = true → (s.finished q = true ↔ s.closedOn q ≠ none)
  /-- one thread runs a request at a time -/
  busy : ∀ t q stage, s.running t = some (q, stage) → s.busy q = some t
  /-- a busy thread has nothing left but its own -/
  clear : ∀ t r stage, s.running t = some (r, stage) → ∀ q, s.Left t q → q = r ∧ s.closedOn q = none

namespace Kept

variable {s s' : Server} {t r : ℕ}

/-- The slots of a thread that runs a request hold that request. -/
theorem attributed (h : Kept s) : s.Attributed := by
  intro t r stage hrun q hq
  have hworking : ∀ k, s.running t = some (q, .working k) → q = r ∧ s.finished q = false := by
    intro k hk
    have hsame := Option.some.inj (hk.symm.trans hrun)
    exact ⟨congrArg Prod.fst hsame, (h.working t q k hk).2.2.1⟩
  have hslot : (s.thread t).ctx = some q → q = r ∧ s.finished q = false := by
    intro hctx
    rcases h.slot t q hctx with ⟨k, hk⟩ | hleft
    · exact hworking k hk
    · obtain ⟨rfl, hnone⟩ := h.clear t r stage hrun q hleft
      refine ⟨rfl, Bool.eq_false_iff.mpr fun hfin => ?_⟩
      exact (h.closed q hleft.2.1).mp hfin hnone
  rcases hq with hctx | hres
  · exact hslot hctx
  · unfold Thread.resolve at hres
    rcases hb : (s.thread t).bound with _ | b
    · rw [hb, Option.none_or] at hres
      exact hslot hres
    · rw [hb, Option.some_or] at hres
      obtain rfl := Option.some.inj hres
      exact hworking .engine (h.bound t b hb)

/-- The server starts with empty slots. -/
theorem initial : Kept {} where
  slot t q h := by cases h
  bound t q h := by cases h
  mine t q k h := by cases h
  left t q h := by cases h.1
  entry t q k h := by cases h
  working t q k h := by cases h
  unborn q _ := ⟨rfl, rfl, rfl, rfl⟩
  closed q h := by cases h
  busy t q stage h := by cases h
  clear t r stage h := by cases h

/-! ## One thread at a time -/

/-- What `Kept` says of one thread. -/
structure On (s : Server) (t : ℕ) : Prop where
  /-- a slot holds the context being worked on, or one that is left -/
  slot : ∀ q, (s.thread t).ctx = some q → (∃ k, s.running t = some (q, .working k)) ∨ s.Left t q
  /-- the proxy is bound to the context being worked on, on an engine path -/
  bound : ∀ q, (s.thread t).bound = some q → s.running t = some (q, .working .engine)
  /-- the context being worked on is in the slot -/
  mine : ∀ q k, s.running t = some (q, .working k) → (s.thread t).ctx = some q
  /-- what is left is in the slot -/
  left : ∀ q, s.Left t q → (s.thread t).ctx = some q
  /-- a request up to the end of the work on its context is unfinished -/
  fresh : ∀ q stage k, s.running t = some (q, stage) → stage = .entry k ∨ stage = .working k →
    s.dispatched q = some t ∧ s.hooked q = false ∧ s.finished q = false ∧ s.closedOn q = none
  /-- one thread runs a request at a time -/
  busy : ∀ q stage, s.running t = some (q, stage) → s.busy q = some t
  /-- a busy thread has nothing left but its own -/
  clear : ∀ q stage, s.running t = some (q, stage) → ∀ p, s.Left t p → p = q ∧ s.closedOn p = none

/-- A step of a thread for a request leaves the other threads as they are: none of them runs the
request, and what was left on them of it still is. -/
theorem of_on (h : Kept s)
    (hthread : ∀ u, u ≠ t → s'.thread u = s.thread u ∧ s'.running u = s.running u)
    (hrequest : ∀ q, q ≠ r → s'.busy q = s.busy q ∧ s'.dispatched q = s.dispatched q ∧
      s'.hooked q = s.hooked q ∧ s'.finished q = s.finished q ∧ s'.closedOn q = s.closedOn q)
    (hfree : ∀ u, s.busy r = some u → u = t) (hleft : ∀ u, u ≠ t → (s'.Left u r ↔ s.Left u r))
    (hon : On s' t) (hborn : s'.dispatched r = none → s'.hooked r = false ∧ s'.finished r = false ∧
      s'.closedOn r = none ∧ s'.busy r = none)
    (hclosed : s'.hooked r = true → (s'.finished r = true ↔ s'.closedOn r ≠ none)) : Kept s' := by
  have hother : ∀ u, u ≠ t → ∀ q stage, s'.running u = some (q, stage) → q ≠ r := by
    rintro u hu q stage hrun rfl
    rw [(hthread u hu).2] at hrun
    exact hu (hfree u (h.busy u q stage hrun))
  have hleft' : ∀ u, u ≠ t → ∀ q, s'.Left u q ↔ s.Left u q := by
    intro u hu q
    by_cases hq : q = r
    · rw [hq]
      exact hleft u hu
    · obtain ⟨-, hdispatched, hhooked, -, hclosedOn⟩ := hrequest q hq
      rw [Left, Left, hdispatched, hhooked, hclosedOn]
  have hfresh : ∀ u, u ≠ t → ∀ q stage k, s'.running u = some (q, stage) →
      stage = .entry k ∨ stage = .working k → s'.dispatched q = some u ∧ s'.hooked q = false ∧
        s'.finished q = false ∧ s'.closedOn q = none := by
    intro u hu q stage k hrun hstage
    obtain ⟨-, hdispatched, hhooked, hfinished, hclosedOn⟩ :=
      hrequest q (hother u hu q stage hrun)
    rw [(hthread u hu).2] at hrun
    rw [hdispatched, hhooked, hfinished, hclosedOn]
    rcases hstage with rfl | rfl
    · exact h.entry u q k hrun
    · exact h.working u q k hrun
  constructor
  case slot =>
    intro u q hq
    by_cases hu : u = t
    · subst hu
      exact hon.slot q hq
    · rw [(hthread u hu).1] at hq
      rw [(hthread u hu).2, hleft' u hu]
      exact h.slot u q hq
  case bound =>
    intro u q hq
    by_cases hu : u = t
    · subst hu
      exact hon.bound q hq
    · rw [(hthread u hu).1] at hq
      rw [(hthread u hu).2]
      exact h.bound u q hq
  case mine =>
    intro u q k hrun
    by_cases hu : u = t
    · subst hu
      exact hon.mine q k hrun
    · rw [(hthread u hu).2] at hrun
      rw [(hthread u hu).1]
      exact h.mine u q k hrun
  case left =>
    intro u q hq
    by_cases hu : u = t
    · subst hu
      exact hon.left q hq
    · rw [hleft' u hu] at hq
      rw [(hthread u hu).1]
      exact h.left u q hq
  case entry =>
    intro u q k hrun
    by_cases hu : u = t
    · subst hu
      exact hon.fresh q _ k hrun (Or.inl rfl)
    · exact hfresh u hu q _ k hrun (Or.inl rfl)
  case working =>
    intro u q k hrun
    by_cases hu : u = t
    · subst hu
      exact hon.fresh q _ k hrun (Or.inr rfl)
    · exact hfresh u hu q _ k hrun (Or.inr rfl)
  case unborn =>
    intro q hq
    by_cases hqr : q = r
    · rw [hqr] at hq ⊢
      exact hborn hq
    · obtain ⟨hbusy, hdispatched, hhooked, hfinished, hclosedOn⟩ := hrequest q hqr
      rw [hdispatched] at hq
      rw [hbusy, hhooked, hfinished, hclosedOn]
      exact h.unborn q hq
  case closed =>
    intro q hq
    by_cases hqr : q = r
    · rw [hqr] at hq ⊢
      exact hclosed hq
    · obtain ⟨-, -, hhooked, hfinished, hclosedOn⟩ := hrequest q hqr
      rw [hhooked] at hq
      rw [hfinished, hclosedOn]
      exact h.closed q hq
  case busy =>
    intro u q stage hrun
    by_cases hu : u = t
    · subst hu
      exact hon.busy q stage hrun
    · rw [(hrequest q (hother u hu q stage hrun)).1]
      rw [(hthread u hu).2] at hrun
      exact h.busy u q stage hrun
  case clear =>
    intro u q stage hrun p hp
    by_cases hu : u = t
    · subst hu
      exact hon.clear q stage hrun p hp
    · have hq := hother u hu q stage hrun
      rw [(hthread u hu).2] at hrun
      rw [hleft' u hu] at hp
      obtain ⟨rfl, hnone⟩ := h.clear u q stage hrun p hp
      rw [(hrequest p hq).2.2.2.2]
      exact ⟨rfl, hnone⟩

/-- The slot of a thread that works on no context holds what is left on it. -/
theorem resting (h : Kept s) (hrest : ∀ q k, s.running t ≠ some (q, .working k)) :
    (∀ q, (s.thread t).ctx = some q ↔ s.Left t q) ∧ (s.thread t).bound = none := by
  refine ⟨fun q => ⟨fun hq => ?_, h.left t q⟩, ?_⟩
  · rcases h.slot t q hq with ⟨k, hrun⟩ | hleft
    · exact absurd hrun (hrest q k)
    · exact hleft
  · rcases hbound : (s.thread t).bound with _ | q
    · rfl
    · exact absurd (h.bound t q hbound) (hrest q _)

/-- A thread that runs no request. -/
theorem On.idle (hidle : s.running t = none) (hslot : ∀ q, (s.thread t).ctx = some q ↔ s.Left t q)
    (hbound : (s.thread t).bound = none) : On s t := by
  have hnone : ∀ q stage, s.running t ≠ some (q, stage) := by
    intro q stage hrun
    rw [hidle] at hrun
    cases hrun
  refine ⟨fun q hq => Or.inr ((hslot q).mp hq), fun q hq => ?_,
    fun q k hrun => absurd hrun (hnone q _), fun q => (hslot q).mpr,
    fun q stage _ hrun => absurd hrun (hnone q stage),
    fun q stage hrun => absurd hrun (hnone q stage),
    fun q stage hrun => absurd hrun (hnone q stage)⟩
  rw [hbound] at hq
  cases hq

/-- A thread that runs a request before or after the work on its context. -/
theorem On.around {stage : Stage} (hrun : s.running t = some (r, stage))
    (hstage : stage = .leaving ∨ stage = .hook ∨ stage = .sent)
    (hslot : ∀ q, (s.thread t).ctx = some q ↔ s.Left t q) (hbound : (s.thread t).bound = none)
    (hbusy : s.busy r = some t) (hclear : ∀ p, s.Left t p → p = r ∧ s.closedOn p = none) :
    On s t where
  slot q hq := Or.inr ((hslot q).mp hq)
  bound q hq := by
    rw [hbound] at hq
    cases hq
  mine q k hq := by
    rw [hrun] at hq
    cases hq
    rcases hstage with h | h | h <;> cases h
  left q := (hslot q).mpr
  fresh q stage' k hq hwork := by
    rw [hrun] at hq
    cases hq
    rcases hwork with rfl | rfl <;> rcases hstage with h | h | h <;> cases h
  busy q stage' hq := by
    rw [hrun] at hq
    cases hq
    exact hbusy
  clear q stage' hq := by
    rw [hrun] at hq
    cases hq
    exact hclear

/-- A thread that has just taken up a new request. -/
theorem On.entry {kind : RequestKind} (hrun : s.running t = some (r, .entry kind))
    (hctx : (s.thread t).ctx = none) (hbound : (s.thread t).bound = none)
    (hnone : ∀ q, ¬s.Left t q) (hbusy : s.busy r = some t)
    (hfresh : s.dispatched r = some t ∧ s.hooked r = false ∧ s.finished r = false ∧
      s.closedOn r = none) : On s t where
  slot q hq := by
    rw [hctx] at hq
    cases hq
  bound q hq := by
    rw [hbound] at hq
    cases hq
  mine q k hq := by
    rw [hrun] at hq
    cases hq
  left q hq := absurd hq (hnone q)
  fresh q stage k hq _ := by
    rw [hrun] at hq
    cases hq
    exact hfresh
  busy q stage hq := by
    rw [hrun] at hq
    cases hq
    exact hbusy
  clear _ _ _ p hp := absurd hp (hnone p)

/-- A thread that works on a context. -/
theorem On.working {kind : RequestKind} (hrun : s.running t = some (r, .working kind))
    (hctx : (s.thread t).ctx = some r)
    (hbound : ∀ q, (s.thread t).bound = some q → q = r ∧ kind = .engine)
    (hnone : ∀ q, ¬s.Left t q) (hbusy : s.busy r = some t)
    (hfresh : s.dispatched r = some t ∧ s.hooked r = false ∧ s.finished r = false ∧
      s.closedOn r = none) : On s t where
  slot q hq := by
    rw [hctx] at hq
    cases hq
    exact Or.inl ⟨kind, hrun⟩
  bound q hq := by
    obtain ⟨rfl, rfl⟩ := hbound q hq
    exact hrun
  mine q k hq := by
    rw [hrun] at hq
    cases hq
    exact hctx
  left q hq := absurd hq (hnone q)
  fresh q stage k hq _ := by
    rw [hrun] at hq
    cases hq
    exact hfresh
  busy q stage hq := by
    rw [hrun] at hq
    cases hq
    exact hbusy
  clear _ _ _ p hp := absurd hp (hnone p)

/-- A request that is run runs on one thread. -/
theorem free (h : Kept s) {stage : Stage} (hrun : s.running t = some (r, stage)) (u : ℕ)
    (hu : s.busy r = some u) : u = t :=
  Option.some.inj (hu.symm.trans (h.busy t r stage hrun))

/-! ## The steps -/

/-- Taking up a new request. -/
theorem dispatch {kind : RequestKind} (h : Kept s) (hidle : s.running t = none)
    (hr : s.dispatched r = none) (hturn : ∀ q, ¬s.Left t q) :
    Kept { s.goOn t r (.entry kind) with
      busy := Function.update s.busy r (some t)
      dispatched := Function.update s.dispatched r (some t) } := by
  obtain ⟨hhook, hfin, hclosed, hbusy⟩ := h.unborn r hr
  obtain ⟨hslot, hbound⟩ := h.resting (t := t) fun q k hrun => by
    rw [hidle] at hrun
    cases hrun
  have hctx : (s.thread t).ctx = none := by
    rcases hq : (s.thread t).ctx with _ | q
    · rfl
    · exact absurd ((hslot q).mp hq) (hturn q)
  refine h.of_on (t := t) (r := r) (fun u hu => ⟨rfl, Function.update_of_ne hu ..⟩)
    (fun q hq => ⟨Function.update_of_ne hq .., Function.update_of_ne hq .., rfl, rfl, rfl⟩)
    (fun u hu => ?_) (fun u _ => ?_) ?_ (fun hnone => ?_) fun hhook' => ?_
  · rw [hbusy] at hu
    cases hu
  · -- the response of a new request carries no hook
    refine iff_of_false (fun hleft => ?_) fun hleft => ?_
    · exact Bool.false_ne_true (hhook.symm.trans hleft.2.1)
    · exact Bool.false_ne_true (hhook.symm.trans hleft.2.1)
  · refine On.entry (Function.update_self ..) hctx hbound (fun q hleft => ?_)
      (Function.update_self ..) ⟨Function.update_self .., hhook, hfin, hclosed⟩
    obtain ⟨hdispatched, hhooked, hclosedOn⟩ := hleft
    by_cases hq : q = r
    · rw [hq] at hhooked
      exact Bool.false_ne_true (hhook.symm.trans hhooked)
    · dsimp only at hdispatched
      rw [Function.update_of_ne hq] at hdispatched
      exact hturn q ⟨hdispatched, hhooked, hclosedOn⟩
  · dsimp only at hnone
    rw [Function.update_self] at hnone
    cases hnone
  · exact absurd (hhook.symm.trans hhook') Bool.false_ne_true

/-- A request up to the end of the work on its context has nothing left anywhere. -/
theorem nothing_left (h : Kept s) {stage : Stage} (hrun : s.running t = some (r, stage))
    (hhook : s.hooked r = false) (q : ℕ) : ¬s.Left t q := by
  intro hq
  obtain ⟨rfl, -⟩ := h.clear t r stage hrun q hq
  exact Bool.false_ne_true (hhook.symm.trans hq.2.1)

/-- Starting a context. -/
theorem start {kind : RequestKind} (h : Kept s) (hrun : s.running t = some (r, .entry kind)) :
    Kept ((s.goOn t r (.working kind)).onThread t fun th =>
      if kind = .engine then (th.install r).bind (some r) else th.install r) := by
  obtain ⟨hdispatched, hhook, hfin, hclosed⟩ := h.entry t r kind hrun
  obtain ⟨-, hbound⟩ := h.resting (t := t) fun q k hworking => by
    rw [hrun] at hworking
    cases hworking
  refine h.of_on (t := t) (r := r)
    (fun u hu => ⟨Function.update_of_ne hu .., Function.update_of_ne hu ..⟩)
    (fun q _ => ⟨rfl, rfl, rfl, rfl, rfl⟩) (h.free hrun) (fun _ _ => Iff.rfl) ?_ (h.unborn r)
    (h.closed r)
  have hthread : ((s.goOn t r (.working kind)).onThread t fun th =>
      if kind = .engine then (th.install r).bind (some r) else th.install r).thread t =
        if kind = .engine then ((s.thread t).install r).bind (some r)
        else (s.thread t).install r := Function.update_self ..
  refine On.working (Function.update_self ..) ?_ (fun q hq => ?_) (h.nothing_left hrun hhook)
    (h.busy t r _ hrun) ⟨hdispatched, hhook, hfin, hclosed⟩
  · rw [hthread]
    split
    · rfl
    · rfl
  · rw [hthread] at hq
    split at hq
    · next hkind => exact ⟨(Option.some.inj hq).symm, hkind⟩
    · rw [Thread.install_bound, hbound] at hq
      cases hq

/-- Attaching the hook leaves the context in the slot. -/
theorem attach (h : Kept s) (hrun : s.running t = some (r, .working .engine)) :
    Kept { (s.goOn t r .leaving).onThread t (fun th => th.bind none) with
      hooked := Function.update s.hooked r true } := by
  obtain ⟨hdispatched, hhook, hfin, hclosed⟩ := h.working t r .engine hrun
  have hrun' : (s.goOn t r .leaving).running t = some (r, .leaving) := Function.update_self ..
  have hthread : ((s.goOn t r .leaving).onThread t fun th => th.bind none).thread t =
      (s.thread t).bind none := Function.update_self ..
  -- what is left on the thread is the request
  have hleft : ∀ q, Server.Left { (s.goOn t r .leaving).onThread t (fun th => th.bind none) with
      hooked := Function.update s.hooked r true } t q ↔ q = r := by
    intro q
    by_cases hq : q = r
    · rw [hq]
      refine iff_of_true ⟨hdispatched, Function.update_self .., fun hsome => ?_⟩ rfl
      exact Option.some_ne_none t (hsome.symm.trans hclosed)
    · refine iff_of_false (fun hold => ?_) hq
      have hhooked := hold.2.1
      dsimp only at hhooked
      rw [Function.update_of_ne hq] at hhooked
      exact h.nothing_left hrun hhook q ⟨hold.1, hhooked, hold.2.2⟩
  refine h.of_on (t := t) (r := r)
    (fun u hu => ⟨Function.update_of_ne hu .., Function.update_of_ne hu ..⟩)
    (fun q hq => ⟨rfl, rfl, Function.update_of_ne hq .., rfl, rfl⟩) (h.free hrun)
    (fun u hu => ?_) ?_ (fun hnone => ?_) fun _ => ?_
  · refine iff_of_false (fun hold => hu ?_) fun hold => hu ?_
    · exact Option.some.inj (hold.1.symm.trans hdispatched)
    · exact Option.some.inj (hold.1.symm.trans hdispatched)
  · refine On.around hrun' (Or.inl rfl) (fun q => ?_)
      ?_ (h.busy t r _ hrun) fun p hp => ?_
    · rw [hleft, hthread, Thread.bind_ctx, h.mine t r _ hrun]
      exact ⟨fun hq => (Option.some.inj hq).symm, fun hq => congrArg some hq.symm⟩
    · rw [hthread, Thread.bind_bound]
    · obtain rfl := (hleft p).mp hp
      exact ⟨rfl, hclosed⟩
  · exact absurd (hnone.symm.trans hdispatched) (Option.some_ne_none t).symm
  · exact iff_of_false (fun hfin' => Bool.false_ne_true (hfin.symm.trans hfin')) fun hne =>
      hne hclosed

/-- Finishing a context where it was started empties the slots. -/
theorem finish {kind : RequestKind} (h : Kept s) (hrun : s.running t = some (r, .working kind)) :
    Kept { (s.goOn t r .leaving).onThread t (fun th =>
        (if kind = .engine then th.bind none else th).release r) with
      finished := Function.update s.finished r true } := by
  obtain ⟨hdispatched, hhook, hfin, hclosed⟩ := h.working t r kind hrun
  have hthread : ((s.goOn t r .leaving).onThread t fun th =>
      (if kind = .engine then th.bind none else th).release r).thread t =
        (if kind = .engine then (s.thread t).bind none else s.thread t).release r :=
    Function.update_self ..
  have hctx : ((if kind = .engine then (s.thread t).bind none
      else s.thread t).release r).ctx = none := by
    unfold Thread.release
    split
    · exact if_pos (h.mine t r kind hrun)
    · exact if_pos (h.mine t r kind hrun)
  have hbound : ((if kind = .engine then (s.thread t).bind none
      else s.thread t).release r).bound = none := by
    rw [Thread.release_bound]
    split
    · rfl
    · next hkind =>
      -- only an engine path binds the proxy
      rcases hq : (s.thread t).bound with _ | q
      · rfl
      · have hengine := hrun.symm.trans (h.bound t q hq)
        cases hengine
        exact absurd rfl hkind
  refine h.of_on (t := t) (r := r)
    (fun u hu => ⟨Function.update_of_ne hu .., Function.update_of_ne hu ..⟩)
    (fun q hq => ⟨rfl, rfl, rfl, Function.update_of_ne hq .., rfl⟩) (h.free hrun)
    (fun _ _ => Iff.rfl) ?_ (fun hnone => ?_) fun hhook' => ?_
  · refine On.around (Function.update_self ..) (Or.inl rfl) (fun q => ?_) ?_ (h.busy t r _ hrun)
      fun p hp => absurd hp (h.nothing_left hrun hhook p)
    · rw [hthread, hctx]
      exact iff_of_false (fun hq => by cases hq) (h.nothing_left hrun hhook q)
    · rw [hthread, hbound]
  · exact absurd (hnone.symm.trans hdispatched) (Option.some_ne_none t).symm
  · exact absurd (hhook.symm.trans hhook') Bool.false_ne_true

/-- Leaving a request. -/
theorem leave {stage : Stage} (h : Kept s) (hrun : s.running t = some (r, stage))
    (hmay : stage.mayLeave = true) :
    Kept { s with
      running := Function.update s.running t none
      busy := Function.update s.busy r none } := by
  obtain ⟨hslot, hbound⟩ := h.resting (t := t) fun q k hworking => by
    rw [hrun] at hworking
    cases hworking
    cases hmay
  refine h.of_on (t := t) (r := r) (fun u hu => ⟨rfl, Function.update_of_ne hu ..⟩)
    (fun q hq => ⟨Function.update_of_ne hq .., rfl, rfl, rfl, rfl⟩) (h.free hrun)
    (fun _ _ => Iff.rfl) (On.idle (Function.update_self ..) hslot hbound) (fun hnone => ?_)
    (h.closed r)
  obtain ⟨hhook, hfin, hclosed, -⟩ := h.unborn r hnone
  exact ⟨hhook, hfin, hclosed, Function.update_self ..⟩

/-- Taking up a hook. -/
theorem fire (h : Kept s) (hidle : s.running t = none) (hhook : s.hooked r = true)
    (hfree : s.busy r = none) (hturn : ∀ q, s.Left t q → q = r ∧ s.closedOn q = none) :
    Kept { s.goOn t r .hook with busy := Function.update s.busy r (some t) } := by
  obtain ⟨hslot, hbound⟩ := h.resting (t := t) fun q k hrun => by
    rw [hidle] at hrun
    cases hrun
  refine h.of_on (t := t) (r := r) (fun u hu => ⟨rfl, Function.update_of_ne hu ..⟩)
    (fun q hq => ⟨Function.update_of_ne hq .., rfl, rfl, rfl, rfl⟩) (fun u hu => ?_)
    (fun _ _ => Iff.rfl) ?_ (fun hnone => ?_) (h.closed r)
  · rw [hfree] at hu
    cases hu
  · exact On.around (Function.update_self ..) (Or.inr (Or.inl rfl)) hslot hbound
      (Function.update_self ..) hturn
  · exact absurd ((h.unborn r hnone).1.symm.trans hhook) Bool.false_ne_true

/-- The hook of a finished trace. -/
theorem sentAgain (h : Kept s) (hrun : s.running t = some (r, .hook)) :
    Kept ((s.goOn t r .sent).onThread t fun th => th.bind none) := by
  obtain ⟨hslot, -⟩ := h.resting (t := t) fun q k hworking => by
    rw [hrun] at hworking
    cases hworking
  have hthread : ((s.goOn t r .sent).onThread t fun th => th.bind none).thread t =
      (s.thread t).bind none := Function.update_self ..
  refine h.of_on (t := t) (r := r)
    (fun u hu => ⟨Function.update_of_ne hu .., Function.update_of_ne hu ..⟩)
    (fun q _ => ⟨rfl, rfl, rfl, rfl, rfl⟩) (h.free hrun) (fun _ _ => Iff.rfl) ?_ (h.unborn r)
    (h.closed r)
  refine On.around (Function.update_self ..) (Or.inr (Or.inr rfl)) (fun q => ?_) ?_
    (h.busy t r _ hrun) (h.clear t r _ hrun)
  · rw [hthread, Thread.bind_ctx]
    exact hslot q
  · rw [hthread, Thread.bind_bound]

/-- The hook finishes its trace. -/
theorem sent (h : Kept s) (hrun : s.running t = some (r, .hook)) (hopen : s.finished r = false) :
    Kept { (s.goOn t r .sent).onThread t (fun th => (th.release r).bind none) with
      finished := Function.update s.finished r true
      closedOn := Function.update s.closedOn r (some t) } := by
  obtain ⟨hslot, -⟩ := h.resting (t := t) fun q k hworking => by
    rw [hrun] at hworking
    cases hworking
  have hthread : ((s.goOn t r .sent).onThread t fun th => (th.release r).bind none).thread t =
      ((s.thread t).release r).bind none := Function.update_self ..
  have hctx : ((s.thread t).release r).ctx = none := by
    unfold Thread.release
    dsimp only
    rcases hq : (s.thread t).ctx with _ | q
    · exact ite_self none
    · obtain ⟨rfl, -⟩ := h.clear t r _ hrun q ((hslot q).mp hq)
      exact if_pos rfl
  -- the request is no longer left on the thread, and nothing else was
  have hnone : ∀ q, ¬Server.Left { (s.goOn t r .sent).onThread t
      (fun th => (th.release r).bind none) with
        finished := Function.update s.finished r true
        closedOn := Function.update s.closedOn r (some t) } t q := by
    rintro q ⟨hdispatched, hhooked, hclosedOn⟩
    dsimp only at hclosedOn
    by_cases hq : q = r
    · rw [hq, Function.update_self] at hclosedOn
      exact hclosedOn rfl
    · rw [Function.update_of_ne hq] at hclosedOn
      exact hq (h.clear t r _ hrun q ⟨hdispatched, hhooked, hclosedOn⟩).1
  refine h.of_on (t := t) (r := r)
    (fun u hu => ⟨Function.update_of_ne hu .., Function.update_of_ne hu ..⟩)
    (fun q hq => ⟨rfl, rfl, rfl, Function.update_of_ne hq .., Function.update_of_ne hq ..⟩)
    (h.free hrun) (fun u hu => ?_) ?_ (fun hnew => ?_) fun _ => ?_
  · unfold Left
    dsimp only
    rw [Function.update_self]
    refine and_congr_right fun _ => and_congr_right fun hhooked => ?_
    have hclosed : s.closedOn r = none := by
      by_contra hsome
      exact Bool.false_ne_true (hopen.symm.trans ((h.closed r hhooked).mpr hsome))
    rw [hclosed]
    exact iff_of_true (fun hsame => hu (Option.some.inj hsame).symm) (Option.some_ne_none u).symm
  · refine On.around (Function.update_self ..) (Or.inr (Or.inr rfl)) (fun q => ?_) ?_
      (h.busy t r _ hrun) fun p hp => absurd hp (hnone p)
    · rw [hthread, Thread.bind_ctx, hctx]
      exact iff_of_false (fun hq => by cases hq) (hnone q)
    · rw [hthread, Thread.bind_bound]
  · exact absurd ((h.unborn r hnew).2.2.2.symm.trans (h.busy t r _ hrun))
      (Option.some_ne_none t).symm
  · dsimp only
    rw [Function.update_self, Function.update_self]
    exact iff_of_true rfl (Option.some_ne_none t)

/-- A step in turn keeps the invariant. -/
theorem step {a : ServerAct} (h : Kept s) (hturn : s.InTurn a) (hs : s.step a = some s') :
    Kept s' := by
  cases a with
  | dispatch t r kind =>
    obtain ⟨⟨hidle, hr⟩, hs⟩ := Option.ite_none_right_eq_some.mp hs
    exact Option.some.inj hs ▸ h.dispatch hidle hr hturn
  | start t =>
    simp only [Server.step] at hs
    split at hs
    next r kind hrun =>
      obtain ⟨-, hs⟩ := Option.ite_none_left_eq_some.mp hs
      exact Option.some.inj hs ▸ h.start hrun
    next => cases hs
  | attach t =>
    simp only [Server.step] at hs
    split at hs
    next r hrun => exact Option.some.inj hs ▸ h.attach hrun
    next => cases hs
  | finish t =>
    simp only [Server.step] at hs
    split at hs
    next r kind hrun => exact Option.some.inj hs ▸ h.finish hrun
    next => cases hs
  | leave t =>
    simp only [Server.step] at hs
    split at hs
    next r stage hrun =>
      obtain ⟨hmay, hs⟩ := Option.ite_none_right_eq_some.mp hs
      exact Option.some.inj hs ▸ h.leave hrun hmay
    next => cases hs
  | fire t r =>
    obtain ⟨⟨hidle, hhook, hfree⟩, hs⟩ := Option.ite_none_right_eq_some.mp hs
    exact Option.some.inj hs ▸ h.fire hidle hhook hfree hturn
  | sent t =>
    simp only [Server.step] at hs
    split at hs
    next r hrun =>
      by_cases hfin : s.finished r = true
      · rw [if_pos hfin] at hs
        exact Option.some.inj hs ▸ h.sentAgain hrun
      · rw [if_neg hfin] at hs
        exact Option.some.inj hs ▸ h.sent hrun (Bool.eq_false_iff.mpr hfin)
    next => cases hs

/-- A step after which every thread is attributed was in turn: what is left on a
thread is in its slot, so that a thread that takes up something else shows it. -/
theorem inTurn {a : ServerAct} (h : Kept s) (hs : s.step a = some s') (hafter : s'.Attributed) :
    s.InTurn a := by
  cases a with
  | dispatch t r kind =>
    obtain ⟨⟨hidle, hr⟩, hs⟩ := Option.ite_none_right_eq_some.mp hs
    obtain rfl := Option.some.inj hs
    intro q hq
    have hrun : (s.goOn t r (.entry kind)).running t = some (r, .entry kind) :=
      Function.update_self ..
    obtain ⟨rfl, -⟩ := hafter t r _ hrun q (Or.inl (h.left t q hq))
    have hhook := (h.unborn q hr).1
    rw [hq.2.1] at hhook
    cases hhook
  | fire t r =>
    obtain ⟨⟨hidle, hhook, hfree⟩, hs⟩ := Option.ite_none_right_eq_some.mp hs
    obtain rfl := Option.some.inj hs
    intro q hq
    have hrun : (s.goOn t r .hook).running t = some (r, .hook) := Function.update_self ..
    obtain ⟨rfl, hopen⟩ := hafter t r _ hrun q (Or.inl (h.left t q hq))
    refine ⟨rfl, not_not.mp fun hsome => ?_⟩
    have hfinished := (h.closed q hhook).mpr hsome
    have hunfinished : s.finished q = false := hopen
    rw [hfinished] at hunfinished
    cases hunfinished
  | _ => trivial

end Kept

/-- **Attribution.** Over a run of the pool, the contexts that running code sees are
its own, unfinished ones throughout exactly if threads take up requests and hooks in
turn. -/
theorem attribution {s : Server} {es : List (Machine.Event Server ServerAct)}
    (hrun : machine.Run {} es s) :
    (∀ e ∈ es, e.post.Attributed) ↔ ∀ e ∈ es, e.pre.InTurn e.act := by
  have hstep : ∀ s a t, Kept s → s.InTurn a → machine.step s a = some t → Kept t :=
    fun s a t hkept hturn hs => hkept.step hturn hs
  have hguard : ∀ s a t, Kept s → machine.step s a = some t → t.Attributed → s.InTurn a :=
    fun s a t hkept hs hlast => hkept.inTurn hs hlast
  exact hrun.forall_iff hstep (fun s hkept => hkept.attributed) hguard Kept.initial

/-- `POST /predict` is served on thread 0, where its hook runs too; then the thread takes
up another request. -/
def steadySchedule : List ServerAct :=
  [.dispatch 0 0 .engine, .start 0, .attach 0, .leave 0, .fire 0 0, .sent 0, .leave 0,
    .dispatch 0 1 .plain]

theorem attribution_steady : ∃ s es, machine.Run {} es s ∧
    es.map Machine.Event.act = steadySchedule ∧
    ((∀ e ∈ es, e.post.Attributed) ↔ ∀ e ∈ es, e.pre.InTurn e.act) := by
  obtain ⟨s, hs⟩ : ∃ s, machine.exec {} steadySchedule = some s := ⟨_, rfl⟩
  obtain ⟨es, hes, hacts⟩ := Machine.Run.of_exec hs
  exact ⟨s, es, hes, hacts, attribution hes⟩

/-- `POST /predict` is served on thread 0 and its hook runs on thread 1; then thread 0
takes up another request. -/
def staleSchedule : List ServerAct :=
  [.dispatch 0 0 .engine, .start 0, .attach 0, .leave 0, .fire 1 0, .sent 1, .leave 1,
    .dispatch 0 1 .plain]

/-- The second request runs under the trace id of the first, which is finished. -/
theorem stale_context : ∃ s, machine.Reachable s ∧ ¬s.Attributed := by
  obtain ⟨s, hs, hrun, hctx⟩ : ∃ s, machine.exec {} staleSchedule = some s ∧
      s.running 0 = some (1, .entry .plain) ∧ (s.thread 0).ctx = some 0 := ⟨_, rfl, rfl, rfl⟩
  obtain ⟨es, hes, -⟩ := Machine.Run.of_exec hs
  refine ⟨s, ⟨{}, es, rfl, hes⟩, fun hall => ?_⟩
  obtain ⟨hsame, -⟩ := hall 0 1 _ hrun 0 (Or.inl hctx)
  cases hsame

end Server

end LayaWatch
