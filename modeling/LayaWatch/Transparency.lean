import LayaWatch.Capture
import LayaWatch.Engine
import LayaWatch.Sampling
import LayaWatch.Lib.Refine

/-!
# Recording is transparent

An engine request is answered as it would be without a recorder (`Service.serve`): status,
headers and body, and what escapes, are the same whether the recorder is on or off, and
whatever its settings are (`recording_transparent`). What the recorder is asked for is
always in the vocabulary, and its trace is open on its thread until it is finished
(`Live`), so that no call of it raises. Only a sink that raises what is no `Exception`
comes through.
-/

namespace LayaWatch

namespace Engine

/-! ## A trace in flight -/

/-- The inputs of the payload events among some observations. -/
def payloads (l : List Observation) : List (Option PyStr) :=
  (l.filter fun o => o.name = py "payload").map Observation.input

/-- The recorder is `R` as before the request, the slots of the thread are `T`, and the
context, if recording is on, is open and theirs; `P` holds of the payloads so far. -/
structure Live (R : Recorder) (T : Thread) (P : List (Option PyStr) → Prop) (s : Recording) :
    Prop where
  /-- the recorder -/
  recorder : s.recorder = R
  /-- the thread -/
  thread : s.thread = T
  /-- there is no context -/
  off : R.enabled = false → s.ctx = none ∧ T.ctx = none
  /-- the context is open -/
  on : R.enabled = true → ∃ c, s.ctx = some c ∧ c.finished = false ∧ T.ctx = some c.ref ∧
    P (payloads c.observations)
  /-- the proxy reaches the same context -/
  resolve : T.resolve = T.ctx

/-- A program that returns, from `P` to `Q`. -/
abbrev Calls (R : Recorder) (T : Thread) (P : List (Option PyStr) → Prop) {ε α : Type}
    (x : Prog Recording ε α) (Q : List (Option PyStr) → Prop) : Prop :=
  Prog.Silent (fun _ => ()) (Live R T P) x (Live R T Q)

section

variable {R : Recorder} {T : Thread} {P Q : List (Option PyStr) → Prop} {A : Ambient}

theorem Live.mono {s : Recording} (h : Live R T P s) (hPQ : ∀ l, P l → Q l) : Live R T Q s where
  recorder := h.recorder
  thread := h.thread
  off := h.off
  on := fun hon => by
    obtain ⟨c, hc, hopen, hT, hP⟩ := h.on hon
    exact ⟨c, hc, hopen, hT, hPQ _ hP⟩
  resolve := h.resolve

/-- A method that returns for every open context and leaves it open. -/
theorem act_calls {α : Type} {inert : α} {f : Context → ℕ → Except Exc (α × Context)}
    (hf : ∀ c tick, c.finished = false → P (payloads c.observations) → ∃ a c',
      f c tick = .ok (a, c') ∧ c'.finished = false ∧ c'.ref = c.ref ∧
        Q (payloads c'.observations)) :
    Calls R T P (Context.act inert f) Q := by
  intro s hs
  cases hon : R.enabled with
  | false =>
    have hc := (hs.off hon).1
    refine ⟨inert, s, ?_, rfl, hs.recorder, hs.thread, hs.off, fun h => ?_, hs.resolve⟩
    · unfold Context.act
      rw [hc]
    · rw [hon] at h
      cases h
  | true =>
    obtain ⟨c, hc, hopen, hT, hP⟩ := hs.on hon
    obtain ⟨a, c', hfc, hopen', href, hQ⟩ := hf c s.tick hopen hP
    refine ⟨a, _, Context.act_ok hc hfc, rfl, hs.recorder, hs.thread, fun h => ?_, fun _ => ?_,
      hs.resolve⟩
    · rw [hon] at h
      cases h
    · exact ⟨c', rfl, hopen', href ▸ hT, hQ⟩

theorem payloads_append (l : List Observation) (o : Observation) :
    payloads (l ++ [o]) =
      if o.name = py "payload" then payloads l ++ [o.input] else payloads l := by
  unfold payloads
  rw [List.filter_append, List.map_append]
  by_cases h : o.name = py "payload"
  · rw [if_pos h, List.filter_cons_of_pos (by simpa using h)]
    rfl
  · rw [if_neg h, List.filter_cons_of_neg (by simpa using h)]
    exact List.append_nil _

theorem payloads_observe {c : Context} {tick : ℕ} {name : PyStr} {entry : SpanSpec}
    {attrs : Fields} {input output : Option PyStr} :
    payloads (c.observations ++ [c.observe A tick name entry attrs input output]) =
      if name = py "payload" then payloads c.observations ++ [input]
      else payloads c.observations :=
  payloads_append _ _

/-- What leaves names and inputs alone leaves the payloads alone. -/
theorem payloads_mapIdx {l : List Observation} : ∀ {g : ℕ → Observation → Observation},
    (∀ i o, (g i o).name = o.name ∧ (g i o).input = o.input) →
      payloads (l.mapIdx g) = payloads l := by
  induction l with
  | nil => exact fun _ => rfl
  | cons o l ih =>
    intro g hg
    obtain ⟨hname, hinput⟩ := hg 0 o
    have hrest : payloads (l.mapIdx fun i => g (i + 1)) = payloads l :=
      ih fun i o => hg (i + 1) o
    unfold payloads at hrest ⊢
    rw [List.mapIdx_cons]
    by_cases h : o.name = py "payload"
    · rw [List.filter_cons_of_pos (by simpa [hname] using h),
        List.filter_cons_of_pos (by simpa using h), List.map_cons, List.map_cons, hinput, hrest]
    · rw [List.filter_cons_of_neg (by simpa [hname] using h),
        List.filter_cons_of_neg (by simpa using h), hrest]

/-- A span is no payload. -/
theorem Timed.ne_payload {name : PyStr} {attrs : Fields} (h : Timed name attrs) :
    name ≠ py "payload" := by
  rintro rfl
  obtain ⟨entry, -, hspec, htype, -⟩ := h
  have hpayload : spec (py "payload") = .ok ⟨.event, [], true⟩ := rfl
  rw [hpayload] at hspec
  obtain rfl := Except.ok.inj hspec
  exact htype rfl

theorem enterSpan_calls {name : PyStr} {attrs : Fields} (h : Timed name attrs)
    (input output : Option PyStr) :
    Calls R T P (Context.enterSpan A name attrs input output) P := by
  have hname := Timed.ne_payload h
  obtain ⟨entry, valid, hspec, htype, hvalid⟩ := h
  refine act_calls fun c tick hopen hP => ?_
  simp only [Context.checkActive_open hopen, hspec, bind, Except.bind, if_neg htype, hvalid]
  refine ⟨_, _, rfl, hopen, rfl, ?_⟩
  rw [payloads_observe, if_neg hname]
  exact hP

theorem exitSpan_calls (span : Option ℕ) (raised : Bool) :
    Calls R T P (Context.exitSpan A span raised) P := by
  refine act_calls fun c tick hopen hP => ?_
  cases span with
  | none => exact ⟨_, _, rfl, hopen, rfl, hP⟩
  | some i =>
    refine ⟨_, _, rfl, hopen, rfl, ?_⟩
    unfold updateAt
    rw [payloads_mapIdx]
    · exact hP
    · intro j o
      split
      · exact ⟨rfl, rfl⟩
      · exact ⟨rfl, rfl⟩

/-- An event of the vocabulary returns; a payload is among the payloads from then on. -/
theorem event_calls {name : PyStr} {attrs : Fields} (h : Instant name attrs)
    (input output : Option PyStr)
    (hPQ : ∀ l, P l → Q (if name = py "payload" then l ++ [input] else l)) :
    Calls R T P (Context.event A name attrs input output) Q := by
  obtain ⟨entry, valid, hspec, htype, hvalid⟩ := h
  refine act_calls fun c tick hopen hP => ?_
  rw [Context.checkActive_open hopen, hspec]
  simp only [bind, Except.bind, if_neg (not_not.mpr htype), hvalid]
  refine ⟨_, _, rfl, hopen, rfl, ?_⟩
  rw [payloads_observe]
  exact hPQ _ hP

theorem set_calls (values : List FieldValue) : Calls R T P (Context.set values) P := by
  refine act_calls fun c tick hopen hP => ?_
  rw [Context.checkActive_open hopen]
  exact ⟨_, _, rfl, hopen, rfl, hP⟩

theorem setMeta_calls (entries : Fields) : Calls R T P (Context.setMeta entries) P := by
  refine act_calls fun c tick hopen hP => ?_
  rw [Context.checkActive_open hopen]
  exact ⟨_, _, rfl, hopen, rfl, hP⟩

/-- A span of the vocabulary has the outcome of its body. -/
theorem withSpan_yields {α : Type} {name : PyStr} {attrs : Fields} (h : Timed name attrs)
    {body : Traced α} {r : Except Exc α}
    (hbody : Prog.Yields (Live R T P) body r (Live R T Q)) :
    Prog.Yields (Live R T P) (Context.withSpan A name attrs body) r (Live R T Q) :=
  (enterSpan_calls h none none).bind_yields fun span =>
    hbody.ensure fun raised => (exitSpan_calls span raised).yields

theorem withSpan_calls {name : PyStr} {attrs : Fields} (h : Timed name attrs) :
    Calls R T P (Context.withSpan A name attrs (pure ())) P := by
  intro s hs
  obtain ⟨hr, ht⟩ := withSpan_yields (A := A) h (Prog.Yields.pure ()) s hs
  exact ⟨(), _, Prod.ext hr rfl, rfl, ht⟩

/-- A slot that names the context of the thread leads to it. -/
theorem onSlot_calls {α : Type} {slot : Thread → Option ℕ} {absent : α} {x : Traced α}
    (hslot : slot T = T.ctx) (hx : Calls R T P x Q) : Calls R T P (onSlot slot absent x) Q := by
  intro s hs
  cases hon : R.enabled with
  | false =>
    have hrun : onSlot slot absent x s = (.ok absent, s) := by
      unfold onSlot
      rw [hs.thread, hslot, (hs.off hon).2]
    refine ⟨absent, s, hrun, rfl, hs.recorder, hs.thread, hs.off, fun h => ?_, hs.resolve⟩
    rw [hon] at h
    cases h
  | true =>
    obtain ⟨c, hc, -, hT, -⟩ := hs.on hon
    have hrun : onSlot slot absent x s = x s := by
      unfold onSlot
      rw [hs.thread, hslot, hT]
      simp only [hc, Option.map_some, if_true]
    rw [hrun]
    exact hx s hs

theorem onCurrent_calls {x : Traced PUnit} (hx : Calls R T P x Q) : Calls R T P (onCurrent x) Q :=
  onSlot_calls rfl hx

theorem seam_calls {α : Type} {x : Traced α} (hx : Calls R T P x Q) : Calls R T P (seam x) Q := by
  intro s hs
  obtain ⟨a, t, hxs, -, ht⟩ := hx s hs
  refine ⟨a, t, ?_, rfl, ht⟩
  unfold seam
  rw [hxs]

end

/-! ## The adapter -/

mutual

/-- How one step of the adapter ends. -/
def Step.outcome : Step → Except Failure Unit
  | .span _ _ _ body => stepsOutcome body
  | .event .. => .ok ⟨⟩
  | .set _ => .ok ⟨⟩
  | .fail e => .error e

/-- How the steps of the adapter end. -/
def stepsOutcome : List Step → Except Failure Unit
  | [] => .ok ⟨⟩
  | step :: rest => step.outcome >>= fun _ => stepsOutcome rest

end

mutual

/-- The step records no payload. -/
def Step.Quiet : Step → Prop
  | .span _ _ _ body => QuietSteps body
  | .event name _ _ => name ≠ py "payload"
  | _ => True

/-- No step records a payload. -/
def QuietSteps : List Step → Prop
  | [] => True
  | step :: rest => step.Quiet ∧ QuietSteps rest

end

/-- What a call of the adapter returns or raises. -/
def Call.outcome {σ : Type} (c : Call σ) : Except Failure Result :=
  (stepsOutcome c.steps).map fun _ => c.result

section

variable {R : Recorder} {T : Thread} {P Q : List (Option PyStr) → Prop} {L : Library} {O : Observer}

mutual

/-- A step of the adapter ends as it would without a recorder. -/
theorem Step.run_yields : ∀ step : Step, (step.Quiet ∨ ∀ l, P l → P (l ++ [none])) →
    Prog.Yields (Live R T P) (step.run L O) step.outcome (Live R T P)
  | .span name attrs hname body, h => by
    have hbody : Prog.Yields (Live R T P) (runSteps L O body) (stepsOutcome body)
        (Live R T P) := by
      refine runSteps_yields body ?_
      rwa [Step.Quiet] at h
    rw [Step.run, Step.outcome]
    intro s hs
    have henter : Calls R T P (seam (onSlot Thread.resolve none
        (Context.enterSpan (O.ambient L) name attrs none none))) P :=
      seam_calls (onSlot_calls hs.resolve (enterSpan_calls hname none none))
    exact henter.bind_yields (fun span => hbody.ensure fun raised =>
      (seam_calls (exitSpan_calls span raised)).yields) s hs
  | .event name attrs hname, h => by
    rw [Step.run, Step.outcome]
    intro s hs
    refine (seam_calls (onSlot_calls hs.resolve (event_calls hname none none ?_))).yields s hs
    intro l hl
    split
    · rename_i hpayload
      rw [Step.Quiet] at h
      rcases h with hquiet | hclosed
      · exact absurd hpayload hquiet
      · exact hclosed l hl
    · exact hl
  | .set values, _ => by
    rw [Step.run, Step.outcome]
    intro s hs
    exact (seam_calls (onSlot_calls hs.resolve (set_calls values))).yields s hs
  | .fail e, _ => by
    rw [Step.run, Step.outcome]
    exact Prog.Yields.raise e

theorem runSteps_yields : ∀ steps : List Step, (QuietSteps steps ∨ ∀ l, P l → P (l ++ [none])) →
    Prog.Yields (Live R T P) (runSteps L O steps) (stepsOutcome steps) (Live R T P)
  | [], _ => by
    rw [runSteps, stepsOutcome]
    exact Prog.Yields.pure ()
  | step :: rest, h => by
    rw [QuietSteps] at h
    have hstep := Step.run_yields step (h.imp_left And.left)
    have hrest := runSteps_yields rest (h.imp_left And.right)
    rw [runSteps, stepsOutcome]
    cases hout : step.outcome with
    | error e =>
      rw [hout] at hstep
      exact hstep.bind_raise
    | ok a =>
      rw [hout] at hstep
      exact hstep.bind hrest

end

/-! ## What the handlers record -/

theorem payload_instant : Instant (py "payload") [] := ⟨_, _, rfl, rfl, rfl⟩

/-- The inputs of the payload events of `_record_payload`. -/
def recordedInputs (L : Library) (O : Observer) (R : Recorder) (p : Payload)
    (result : Option Result) : List (Option PyStr) :=
  if R.capture then
    match captured L O true (some p.request),
      captured L O true (result.map fun r => .obj r.fields) with
    | .ok input, .ok _ => [input]
    | _, _ => []
  else []

theorem captured_error {enabled : Bool} {value : Option Json} {e : Exc}
    (h : captured L O enabled value = .error e) : ∃ text, e = .exception text := by
  unfold captured at h
  split at h
  · cases h
  · split at h
    · cases h
    · exact ⟨_, (Except.error.inj h).symm⟩

/-- The payload event is recorded, unless something in it cannot be stored. -/
theorem payloadEvent_cases (p : Payload) (result : Option Result) {s : Recording}
    (hs : s.recorder = R) (hcapture : R.capture = true) :
    (∃ text, payloadEvent L O p.request (result.map fun r => .obj r.fields) s =
        (.error (.exception text), s) ∧ recordedInputs L O R p result = []) ∨
      ∃ input output, payloadEvent L O p.request (result.map fun r => .obj r.fields) s =
        Context.event (O.ambient L) (py "payload") [] input output s ∧
          recordedInputs L O R p result = [input] := by
  have hrun : payloadEvent L O p.request (result.map fun r => .obj r.fields) s =
      (Prog.lift (captured L O s.recorder.capture (some p.request)) >>= fun input =>
        Prog.lift (captured L O s.recorder.capture (result.map fun r => .obj r.fields)) >>=
          fun output => Context.event (O.ambient L) (py "payload") [] input output :
            Traced PUnit) s := rfl
  rw [hs, hcapture] at hrun
  rw [hrun, recordedInputs, hcapture, if_pos rfl]
  cases hinput : captured L O true (some p.request) with
  | error e =>
    obtain ⟨text, rfl⟩ := captured_error hinput
    exact Or.inl ⟨text, rfl, rfl⟩
  | ok input =>
    cases houtput : captured L O true (result.map fun r => .obj r.fields) with
    | error e =>
      obtain ⟨text, rfl⟩ := captured_error houtput
      exact Or.inl ⟨text, rfl, rfl⟩
    | ok output => exact Or.inr ⟨input, output, rfl, rfl⟩

/-- What `_record_payload` does not get recorded is dropped. -/
theorem recordPayload_calls {p : Payload} {result : Option Result}
    (hPQ : ∀ l, P l → Q (l ++ recordedInputs L O R p result)) :
    Calls R T P (recordPayload L O p result) Q := by
  refine onCurrent_calls fun s hs => ?_
  have hnothing : recordedInputs L O R p result = [] → Live R T Q s := by
    intro hnone
    refine hs.mono fun l hl => ?_
    have hQ := hPQ l hl
    rwa [hnone, List.append_nil] at hQ
  have hget : ∀ k : Bool → Traced PUnit,
      (Prog.get (fun s : Recording => s.recorder.capture) >>= k) s = k s.recorder.capture s :=
    fun _ => rfl
  rw [hget, hs.recorder]
  cases hcapture : R.capture with
  | false =>
    refine ⟨⟨⟩, s, rfl, rfl, hnothing ?_⟩
    rw [recordedInputs, hcapture, if_neg Bool.false_ne_true]
  | true =>
    rw [if_pos rfl]
    unfold Prog.rescue
    rcases payloadEvent_cases (L := L) (O := O) p result hs.recorder hcapture
      with ⟨text, hrun, hnone⟩ | ⟨input, output, hrun, hrecorded⟩
    · rw [hrun]
      exact ⟨⟨⟩, s, rfl, rfl, hnothing hnone⟩
    · have hevent : Calls R T P (Context.event (O.ambient L) (py "payload") [] input output) Q := by
        refine event_calls payload_instant input output fun l hl => ?_
        rw [if_pos rfl, ← hrecorded]
        exact hPQ l hl
      obtain ⟨a, t, ht, -, hlive⟩ := hevent s hs
      rw [hrun, ht]
      exact ⟨a, t, rfl, rfl, hlive⟩

theorem recordError_calls {A : Ambient} (phase : Phase) (code message text : PyStr) :
    Calls R T P (recordError A phase code message text) P := by
  refine Prog.Silent.bind (J := Live R T P) ?_ fun _ => set_calls _
  refine event_calls (error_instant code message phase.name) none none fun l hl => ?_
  rw [if_neg (by decide)]
  exact hl

theorem recordFailure_calls (r : Reply) : Calls R T P (recordFailure L O r) P := by
  unfold recordFailure
  split
  · exact recordError_calls _ _ _ _
  · exact Prog.Silent.pure _

end

/-! ## The service without a recorder -/

/-- The database and the adapter. -/
structure Service (σ : Type) where
  /-- the database -/
  db : Db
  /-- the state of the adapter -/
  engine : σ

/-- What an exchange has of them. -/
def Exchange.service {σ : Type} (s : Exchange σ) : Service σ := ⟨s.db, s.engine⟩

namespace Service

section

variable {σ : Type} (L : Library) (adapter : Adapter σ) (req : Request)

/-- A call of the adapter. -/
def call (c : σ → Call σ) : Prog (Service σ) Exc Result := fun s =>
  (((c s.engine).outcome).mapError guarded, { s with engine := (c s.engine).next })

/-- A credential is verified. -/
def verify : Prog (Service σ) Exc PUnit :=
  Prog.zoom Service.db (fun db s => { s with db := db }) (credential L req) >>= fun found =>
  Prog.raiseIf (refusal found.1 found.2)

/-- The call that a request asks for. -/
def calls (p : Payload) : σ → Call σ :=
  match req.route with
  | .predict => p.predicts adapter
  | .route => p.routes adapter

/-- A `POST`: the adapter's answer to a valid body. -/
def post (parsed : Json) : Prog (Service σ) Exc Reply :=
  Prog.lift ((validated parsed).mapError Exc.http) >>= fun p =>
  call (calls adapter req p) >>= fun result =>
  pure (jsonResponse L (.obj result.fields) 200 [])

/-- The methods of an engine path. -/
def routed (parsed : Json) : Prog (Service σ) Exc Reply :=
  if L.upper req.method = py "OPTIONS" then pure ⟨204, [(py "Allow", allow)], []⟩
  else if L.upper req.method = py "POST" then post L adapter req parsed
  else pure (notAllowed L req)

/-- An exception of a method is rendered; every response is stamped. -/
def dispatch (parsed : Json) : Prog (Service σ) Exc Reply :=
  Prog.rescue (routed L adapter req parsed) (fun e => Prog.lift (rendered L req e)) >>= fun r =>
  pure (stamp L req.requestId r)

/-- A request: its credential, its body, its answer. -/
def tried : Prog (Service σ) Exc Reply :=
  verify L req >>= fun _ =>
  Prog.lift (req.parsed.mapError Exc.http) >>= fun parsed =>
  dispatch L adapter req parsed

/-- The answer to a request. -/
def serve : Prog (Service σ) Exc Reply :=
  Prog.rescue (tried L adapter req) fun e => Prog.lift (rendered L req e)

end

end Service

/-! ## The phases -/

/-- Inside the outer `try`, before the hook is attached. -/
structure Serving {σ : Type} (R : Recorder) (T : Thread) (P : List (Option PyStr) → Prop)
    (s : Exchange σ) : Prop where
  /-- the trace is in flight -/
  live : Live R T P s.recording
  /-- nothing is attached -/
  attached : s.attached = false
  /-- the response carries no hook -/
  noHook : s.onSent = none

section

variable {σ : Type} {R : Recorder} {T : Thread} {P Q : List (Option PyStr) → Prop} {L : Library}
  {O : Observer} {adapter : Adapter σ} {req : Request}

/-- A program that the service does not notice. -/
abbrev Unseen (I : Exchange σ → Prop) {α : Type} (x : Exchanging σ α) (J : Exchange σ → Prop) :
    Prop :=
  Prog.Silent Exchange.service I x J

/-- A program that does what the service does. -/
abbrev Does (I : Exchange σ → Prop) {α : Type} (x : Exchanging σ α) (y : Prog (Service σ) Exc α)
    (J E : Exchange σ → Prop) : Prop :=
  Prog.Refines Exchange.service I x y J E

theorem traced_unseen {α : Type} {x : Traced α} (h : Calls R T P x Q) :
    Unseen (σ := σ) (Serving R T P) (traced x) (Serving R T Q) :=
  Prog.Silent.zoom (fun _ _ => rfl) h (fun _ hs => hs.live) fun _ _ hs hr =>
    ⟨hr, hs.attached, hs.noHook⟩

theorem traced_does {α : Type} {x : Traced α} {r : Except Exc α}
    (h : Prog.Yields (Live R T P) x r (Live R T Q)) :
    Does (σ := σ) (Serving R T P) (traced x) (Prog.lift r) (Serving R T Q) (Serving R T Q) :=
  Prog.Refines.zoom_yields (fun _ _ => rfl) h (fun _ hs => hs.live) fun _ _ hs hr =>
    ⟨hr, hs.attached, hs.noHook⟩

theorem setPhase_unseen (phase : Phase) :
    Unseen (σ := σ) (Serving R T P) (setPhase phase) (Serving R T P) :=
  Prog.Silent.modify fun _ hs => ⟨rfl, hs.live, hs.attached, hs.noHook⟩

theorem setReply_unseen (r : Reply) :
    Unseen (σ := σ) (Serving R T P) (setReply r) (Serving R T P) :=
  Prog.Silent.modify fun _ hs => ⟨rfl, hs.live, hs.attached, hs.noHook⟩

theorem lift_raising (o : Option Exc) :
    (Prog.raiseIf o : Prog (Service σ) Exc PUnit) = Prog.lift (Prog.Yields.raising o ⟨⟩) := by
  cases o with
  | none => rfl
  | some e => rfl

/-- `_verify_auth` verifies the credential. -/
theorem verifyAuth_does : Does (σ := σ) (Serving R T P) (verifyAuth L O req) (Service.verify L req)
    (Serving R T P) (Serving R T P) := by
  refine Prog.Refines.bind (J := Serving R T P)
    (Prog.Refines.zoom (fun _ => rfl) (fun _ _ => rfl) fun _ _ hs =>
      ⟨hs.live, hs.attached, hs.noHook⟩) fun found => ?_
  refine Prog.Refines.silent_bind (traced_unseen (setMeta_calls _)) fun _ => ?_
  refine Prog.Refines.silent_bind (traced_unseen (set_calls _)) fun _ => ?_
  rw [lift_raising]
  exact traced_does (withSpan_yields (auth_timed _ _ found.2) (Prog.Yields.raiseIf _))

/-- `_parse_body` parses the body. -/
theorem parseBody_does : Does (σ := σ) (Serving R T P) (parseBody L O req)
    (Prog.lift (req.parsed.mapError Exc.http)) (Serving R T P) (Serving R T P) := by
  unfold parseBody
  cases req.parsed with
  | error e => exact traced_does (withSpan_yields ⟨_, _, rfl, by decide, rfl⟩ (Prog.Yields.raise _))
  | ok parsed => exact traced_does (withSpan_yields (body_timed _ parsed) (Prog.Yields.pure _))

/-- A call of the adapter, whether it returns or raises. -/
theorem guardCall_run (c : σ → Call σ) {s : Exchange σ} (hs : Serving R T P s)
    (h : QuietSteps (c s.engine).steps ∨ ∀ l, P l → P (l ++ [none])) :
    ∃ t, guardCall L O c s = (((c s.engine).outcome).mapError guarded, t) ∧
      t.service = ⟨s.db, (c s.engine).next⟩ ∧ Serving R T P t := by
  obtain ⟨hr, hlive⟩ := runSteps_yields (L := L) (O := O) (c s.engine).steps h s.recording hs.live
  unfold guardCall Call.outcome
  rcases hrun : runSteps L O (c s.engine).steps s.recording with ⟨e | a, r⟩
  · rw [hrun] at hr hlive
    simp only [hrun, ← hr]
    exact ⟨_, rfl, rfl, hlive, hs.attached, hs.noHook⟩
  · rw [hrun] at hr hlive
    simp only [hrun, ← hr]
    exact ⟨_, rfl, rfl, hlive, hs.attached, hs.noHook⟩

theorem guardCall_does (c : σ → Call σ) (hP : ∀ l, P l → P (l ++ [none])) :
    Does (Serving R T P) (guardCall L O c) (Service.call c) (Serving R T P) (Serving R T P) := by
  intro s hs
  obtain ⟨t, hrun, hservice, ht⟩ := guardCall_run (L := L) (O := O) c hs (Or.inr hP)
  unfold Prog.Ends
  rw [hrun]
  refine ⟨congrArg (Prod.mk _) hservice.symm, ?_⟩
  cases ((c s.engine).outcome).mapError guarded with
  | error e => exact ht
  | ok r => exact ht

/-- Any payloads. -/
abbrev Any (_ : List (Option PyStr)) : Prop := True

theorem recordRequest_unseen (p : Payload) :
    Unseen (σ := σ) (Serving R T P) (traced (recordRequest req p)) (Serving R T P) :=
  traced_unseen (onCurrent_calls (set_calls _))

theorem recordResult_unseen (r : Result) :
    Unseen (σ := σ) (Serving R T P) (traced (recordResult r)) (Serving R T P) :=
  traced_unseen (onCurrent_calls (set_calls _))

theorem recordPayload_unseen (p : Payload) (result : Option Result) :
    Unseen (σ := σ) (Serving R T P) (traced (recordPayload L O p result)) (Serving R T Any) :=
  traced_unseen (recordPayload_calls fun _ _ => trivial)

theorem predictPayload_does (p : Payload) :
    Does (Serving R T Any) (predictPayload L O adapter req p)
      (Service.call (p.predicts adapter) >>= fun r => pure (jsonResponse L (.obj r.fields) 200 []))
      (Serving R T Any) (Serving R T Any) := by
  refine Prog.Refines.silent_bind (recordRequest_unseen p) fun _ => ?_
  refine Prog.Refines.bind (J := Serving R T Any) ?_ fun result => ?_
  · exact (guardCall_does _ fun _ _ => trivial).ensureWith
      (fun r => recordPayload_unseen p (some r)) (recordPayload_unseen p none)
  · exact Prog.Refines.silent_bind (recordResult_unseen result) fun _ => Prog.Refines.pure _

theorem routePayload_does (p : Payload) :
    Does (Serving R T Any) (routePayload L O adapter req p)
      (Service.call (p.routes adapter) >>= fun r => pure (jsonResponse L (.obj r.fields) 200 []))
      (Serving R T Any) (Serving R T Any) := by
  refine Prog.Refines.silent_bind (recordRequest_unseen p) fun _ => ?_
  refine Prog.Refines.bind (guardCall_does _ fun _ _ => trivial) fun decision => ?_
  exact Prog.Refines.silent_bind (recordResult_unseen decision) fun _ => Prog.Refines.pure _

theorem post_does (parsed : Json) :
    Does (Serving R T Any) (post L O adapter req parsed) (Service.post L adapter req parsed)
      (Serving R T Any) (Serving R T Any) := by
  refine Prog.Refines.bind (Prog.Refines.lift _) fun p => ?_
  unfold Service.calls
  cases req.route with
  | predict => exact predictPayload_does p
  | route => exact routePayload_does p

theorem routed_does (parsed : Json) :
    Does (Serving R T Any) (routed L O adapter req parsed) (Service.routed L adapter req parsed)
      (Serving R T Any) (Serving R T Any) := by
  unfold routed Service.routed
  split
  · exact Prog.Refines.pure _
  · split
    · exact post_does parsed
    · exact Prog.Refines.pure _

/-- `Router.dispatch` answers as the service does. -/
theorem dispatch_does (parsed : Json) :
    Does (Serving R T Any) (dispatch L O adapter req parsed) (Service.dispatch L adapter req parsed)
      (Serving R T Any) (Serving R T Any) :=
  Prog.Refines.bind ((routed_does parsed).rescue fun _ => Prog.Refines.lift _) fun _ =>
    Prog.Refines.pure _

theorem receive_unseen : Unseen (σ := σ) (Serving R T P)
    (traced (Context.withSpan (O.ambient L) (py "http.receive")
      [(py "method", .str req.method), (py "path", .str req.route.path),
        (py "remote", .str req.clientIp), (py "content_length", .int req.bytes)] (pure ())))
    (Serving R T P) :=
  traced_unseen (withSpan_calls (receive_timed _ _ _ _))

theorem recordFailure_unseen (r : Reply) : Unseen (σ := σ) (Serving R T P)
    (setReply r >>= fun _ => traced (recordFailure L O r)) (Serving R T P) :=
  (setReply_unseen r).bind fun _ => traced_unseen (recordFailure_calls r)

/-- The body of the inner `try` does what the service does. -/
theorem tryPhases_does :
    Does (Serving R T Any) (tryPhases L O adapter req) (Service.tried L adapter req)
      (Serving R T Any) (Serving R T Any) := by
  refine Prog.Refines.silent_bind (setPhase_unseen _) fun _ => ?_
  refine Prog.Refines.silent_bind receive_unseen fun _ => ?_
  refine Prog.Refines.silent_bind (setPhase_unseen _) fun _ => ?_
  refine Prog.Refines.bind verifyAuth_does fun _ => ?_
  refine Prog.Refines.silent_bind (setPhase_unseen _) fun _ => ?_
  refine Prog.Refines.bind parseBody_does fun parsed => ?_
  refine Prog.Refines.silent_bind (setPhase_unseen _) fun _ => ?_
  exact (dispatch_does parsed).bind_silent recordFailure_unseen

theorem onExc_does (e : Exc) :
    Does (σ := σ) (Serving R T P) (onExc L O req e) (Prog.lift (rendered L req e)) (Serving R T P)
      (Serving R T P) :=
  (Prog.Refines.lift _).bind_silent fun r =>
    (setReply_unseen r).bind fun _ => (Prog.Silent.get _).bind fun phase =>
      traced_unseen (recordError_calls phase _ _ _)

/-! ## The trace is closed -/

/-- The response waits for its hook. -/
structure Waiting {σ : Type} (R : Recorder) (T : Thread) (P : List (Option PyStr) → Prop)
    (s : Exchange σ) : Prop where
  /-- the trace is in flight -/
  live : Live R T P s.recording
  /-- the hook is attached -/
  attached : s.attached = true
  /-- the response carries it -/
  hook : ∃ hook, s.onSent = some hook

/-- The response is ready. -/
def Ready {σ : Type} (R : Recorder) (T : Thread) (P : List (Option PyStr) → Prop)
    (s : Exchange σ) : Prop :=
  Serving R T P s ∨ Waiting R T P s

theorem attachSendHook_unseen (r : Reply) : Unseen (σ := σ) (Serving R T P) (attachSendHook L O r)
    fun s => Live R T P s.recording ∧ ∃ hook, s.onSent = some hook :=
  (traced_unseen (enterSpan_calls (send_timed _ _) none none)).bind fun _ =>
    Prog.Silent.modify fun _ hs => ⟨rfl, hs.live, _, rfl⟩

theorem afterTry_unseen (cfg : Instrument) (r : Reply) :
    Unseen (σ := σ) (Serving R T P) (afterTry L O cfg r) (Ready R T P) := by
  refine Prog.Silent.bind (J := Serving R T P)
    (Prog.Silent.modify fun _ hs => ⟨rfl, hs.live, hs.attached, hs.noHook⟩) fun _ => ?_
  split
  · refine (attachSendHook_unseen r).bind fun _ => ?_
    exact Prog.Silent.modify fun _ hs => ⟨rfl, Or.inr ⟨hs.1, rfl, hs.2⟩⟩
  · exact (Prog.Silent.pure _).mono (fun _ hs => hs) fun _ hs => Or.inl hs

/-- From the inner `try` to the `return`, given what the `try` does. -/
theorem serve_does {cfg : Instrument} {y : Prog (Service σ) Exc Reply} {I : Exchange σ → Prop}
    (h : Does I (tryPhases L O adapter req) y (Serving R T Q) (Serving R T Q)) :
    Does I (serve L O adapter cfg req)
      (Prog.rescue y fun e => Prog.lift (rendered L req e)) (Ready R T Q) (Serving R T Q) :=
  (h.rescue onExc_does).bind_silent fun r => afterTry_unseen cfg r

/-- The sinks raise nothing that `except Exception` does not catch. -/
structure Observer.Contained (O : Observer) : Prop where
  /-- `on_trace` -/
  trace : ∀ n t, (O.onTrace n t).any exits = false
  /-- `on_log` -/
  log : ∀ n entry, (O.onLog n entry).any exits = false

/-- The trace is delivered, and the thread is free; if it was kept, `P` holds of its
payloads. -/
structure Finished (R : Recorder) (P : List (Option PyStr) → Prop) (s : Recording) : Prop where
  /-- the slots of the thread -/
  thread : s.thread = {}
  /-- the trace -/
  delivered : R.enabled = true → ∃ t : Trace, s.recorder.delivered = R.delivered ++ [t] ∧
    (isKept t = true → P (payloads t.observations))

/-- A kept trace has the payloads of its context. -/
theorem payloads_assemble {c : Context} {r : Recorder} {status : ℤ} {duration : ℚ} {keep : Bool}
    (h : isKept (c.assemble r status duration keep) = true) :
    payloads (c.assemble r status duration keep).observations = payloads c.observations := by
  have hkeep : keep = true := by
    unfold isKept Context.assemble at h
    rw [Fields.get_set] at h
    exact h
  subst hkeep
  refine payloads_mapIdx fun i o => ?_
  split
  · exact ⟨rfl, rfl⟩
  · exact ⟨rfl, rfl⟩

/-- What finishing an open context does. -/
theorem finish_open (A : Ambient) (status : ℤ) {s : Recording} {c : Context} (hc : s.ctx = some c)
    (hopen : c.finished = false) : ∃ duration keep,
      (Context.finish A status s).2.thread = s.thread.release c.ref ∧
        (Context.finish A status s).2.recorder.delivered =
          s.recorder.delivered ++ [c.assemble s.recorder status duration keep] := by
  refine ⟨max 0 ((A.clock s.tick - c.t0) * 1000),
    c.alwaysKeep status || decide (A.draw s.tick < s.recorder.sampleRate), ?_⟩
  unfold Context.finish Prog.modify
  simp only [hc, hopen, Bool.false_eq_true, if_false]
  exact ⟨trivial, trivial⟩

/-- With sinks that raise what is caught, `finish` returns. -/
theorem finish_run (hO : O.Contained) (status : ℤ) (s : Recording) :
    finish L O status s = (.ok ⟨⟩, (Context.finish (O.ambient L) status s).2) := by
  have hlogs : ∀ l : List LogEntry, (l.any fun entry => (O.onLog s.tick entry).any exits) = false :=
    fun l => List.any_eq_false.mpr fun entry _ => by rw [hO.log]; exact Bool.false_ne_true
  have htraces : ∀ l : List Trace, (l.any fun t => (O.onTrace s.tick t).any exits) = false :=
    fun l => List.any_eq_false.mpr fun t _ => by rw [hO.trace]; exact Bool.false_ne_true
  unfold finish
  simp only [hlogs, htraces, Bool.false_eq_true, if_false]

/-- Finishing delivers the trace and frees the thread. -/
theorem finish_finishes (hO : O.Contained) (hT : T.bound = none) (status : ℤ) :
    Prog.Silent (fun _ => ()) (Live R T P) (finish L O status) (Finished R P) := by
  intro s hs
  refine ⟨⟨⟩, _, finish_run hO status s, rfl, ?_⟩
  cases hon : R.enabled with
  | false =>
    obtain ⟨hc, hctx⟩ := hs.off hon
    have hsame : (Context.finish (O.ambient L) status s).2 = s := by
      unfold Context.finish Prog.modify
      simp only [hc]
    rw [hsame]
    refine ⟨?_, fun h => ?_⟩
    · rw [hs.thread]
      obtain ⟨ctx, bound⟩ := T
      simp only at hT hctx
      rw [hT, hctx]
    · rw [hon] at h
      cases h
  | true =>
    obtain ⟨c, hc, hopen, hctx, hP⟩ := hs.on hon
    obtain ⟨duration, keep, hthread, hdelivered⟩ := finish_open (O.ambient L) status hc hopen
    refine ⟨?_, fun _ => ⟨c.assemble s.recorder status duration keep, ?_, fun hkept => ?_⟩⟩
    · rw [hthread, hs.thread]
      obtain ⟨ctx, bound⟩ := T
      simp only at hT hctx
      rw [hT, hctx, Thread.release, if_pos rfl]
    · rw [hdelivered, hs.recorder]
    · rw [payloads_assemble hkept]
      exact hP

/-! ## The slots of the thread -/

/-- The slots once `spans.bind` was called. -/
def slots (cfg : Instrument) (t : Thread) (ref : Option ℕ) : Thread :=
  if cfg.spans then t.bind ref else t

/-- The slots once the recorder has started a trace on a free thread. -/
def started (R : Recorder) (ref : ℕ) : Thread := ⟨if R.enabled then some ref else none, none⟩

/-- The slots while the request is served. -/
def serving (cfg : Instrument) (R : Recorder) (ref : ℕ) : Thread :=
  slots cfg (started R ref) (started R ref).ctx

/-- The slots once the proxy is unbound. -/
def unbound (cfg : Instrument) (R : Recorder) (ref : ℕ) : Thread :=
  slots cfg (serving cfg R ref) none

theorem unbound_bound (cfg : Instrument) (R : Recorder) (ref : ℕ) :
    (unbound cfg R ref).bound = none := by
  unfold unbound serving slots
  cases cfg.spans with
  | false => rfl
  | true => rfl

/-- The proxy may be bound to the context of the thread, or to none. -/
theorem Live.bind {s : Recording} {cfg : Instrument} {ref : Option ℕ} (h : Live R T P s)
    (href : ref = none ∨ ref = T.ctx) :
    Live R (slots cfg T ref) P { s with thread := slots cfg s.thread ref } := by
  have hctx : (slots cfg T ref).ctx = T.ctx := by
    unfold slots
    split
    · exact Thread.bind_ctx ref T
    · rfl
  have hresolve : (slots cfg T ref).resolve = T.ctx := by
    unfold slots
    split
    · unfold Thread.resolve
      rw [Thread.bind_bound, Thread.bind_ctx]
      rcases href with rfl | rfl
      · exact Option.none_or
      · exact Option.or_self
    · exact h.resolve
  refine ⟨h.recorder, by rw [h.thread], fun hoff => ?_, fun hon => ?_, hresolve.trans hctx.symm⟩
  · rw [hctx]
    exact h.off hoff
  · rw [hctx]
    exact h.on hon

theorem bindSpans_eq (cfg : Instrument) (ref : Option ℕ) :
    (bindSpans cfg ref : Exchanging σ PUnit) = Prog.modify fun s => { s with
      recording := { s.recording with thread := slots cfg s.recording.thread ref } } := by
  unfold bindSpans slots
  congr 1
  funext s
  split
  · rfl
  · rfl

theorem bindSpans_serving {cfg : Instrument} {ref : Option ℕ} (href : ref = none ∨ ref = T.ctx) :
    Unseen (σ := σ) (Serving R T P) (bindSpans cfg ref) (Serving R (slots cfg T ref) P) := by
  rw [bindSpans_eq]
  exact Prog.Silent.modify fun s hs => ⟨rfl, hs.live.bind href, hs.attached, hs.noHook⟩

theorem bindSpans_waiting {cfg : Instrument} {ref : Option ℕ} (href : ref = none ∨ ref = T.ctx) :
    Unseen (σ := σ) (Waiting R T P) (bindSpans cfg ref) (Waiting R (slots cfg T ref) P) := by
  rw [bindSpans_eq]
  exact Prog.Silent.modify fun s hs => ⟨rfl, hs.live.bind href, hs.attached, hs.hook⟩

/-- The context that `start` returned is that of the thread. -/
theorem Live.ref {s : Recording} (h : Live R T P s) : s.ctx.map Context.ref = T.ctx := by
  cases hon : R.enabled with
  | false =>
    obtain ⟨hc, hctx⟩ := h.off hon
    rw [hc, hctx]
    rfl
  | true =>
    obtain ⟨c, hc, -, hctx, -⟩ := h.on hon
    rw [hc, hctx]
    rfl

/-! ## The `finally` clause and the hook -/

/-- The trace is closed, and nothing waits. -/
structure Closed {σ : Type} (R : Recorder) (P : List (Option PyStr) → Prop) (s : Exchange σ) :
    Prop where
  /-- the trace is delivered -/
  finished : Finished R P s.recording
  /-- the response carries no hook -/
  noHook : s.onSent = none

theorem finalize_closes {cfg : Instrument} (hO : O.Contained)
    (hT : (slots cfg T none).bound = none) :
    Unseen (σ := σ) (Serving R T P) (finalize L O cfg) (Closed R P) := by
  refine (bindSpans_serving (Or.inl rfl)).bind fun _ => Prog.Silent.get_bind fun v => ?_
  rintro s ⟨hs, rfl⟩
  simp only [hs.attached, Bool.false_eq_true, if_false]
  refine Prog.Silent.bind (traced_unseen (withSpan_calls (send_timed _ _))) (fun _ => ?_) s hs
  exact Prog.Silent.zoom (fun _ _ => rfl) (finish_finishes hO hT _) (fun _ hs => hs.live)
    fun _ _ hs hr => ⟨hr, hs.noHook⟩

theorem finalize_waits {cfg : Instrument} :
    Unseen (σ := σ) (Waiting R T P) (finalize L O cfg) (Waiting R (slots cfg T none) P) := by
  refine (bindSpans_waiting (Or.inl rfl)).bind fun _ => Prog.Silent.get_bind fun v => ?_
  rintro s ⟨hs, rfl⟩
  simp only [hs.attached, if_true]
  exact Prog.Silent.pure _ s hs

/-- What there is before `handle`: a free thread. -/
structure Starting {σ : Type} (R : Recorder) (s : Exchange σ) : Prop where
  /-- the recorder -/
  recorder : s.recording.recorder = R
  /-- the thread is free -/
  thread : s.recording.thread = {}
  /-- there is no context -/
  ctx : s.recording.ctx = none
  /-- nothing is attached -/
  attached : s.attached = false
  /-- the response carries no hook -/
  noHook : s.onSent = none

/-- A trace is started, if recording is on. -/
theorem start_calls {A : Ambient} {ref : ℕ} {route method requestId : PyStr} (hP : P []) :
    Prog.Silent (fun _ => ()) (fun s : Recording => s.recorder = R ∧ s.thread = {} ∧ s.ctx = none)
      (Recorder.start A ref route method requestId) (Live R (started R ref) P) := by
  refine Prog.Silent.modify fun s hs => ⟨rfl, ?_⟩
  obtain ⟨hrecorder, hthread, hctx⟩ := hs
  rw [hrecorder]
  unfold started
  cases hon : R.enabled with
  | false =>
    simp only [Bool.false_eq_true, if_false]
    refine ⟨hrecorder, hthread, fun _ => ⟨hctx, rfl⟩, fun h => ?_, rfl⟩
    rw [hon] at h
    cases h
  | true =>
    simp only [if_true]
    refine ⟨rfl, ?_, fun h => ?_, fun _ => ⟨_, rfl, rfl, rfl, hP⟩, rfl⟩
    · rw [hthread]
      rfl
    · rw [hon] at h
      cases h

theorem start_unseen (hP : P []) : Unseen (σ := σ) (Starting R)
    (traced (Recorder.start (O.ambient L) req.ref req.route.path req.method req.requestId))
    (Serving R (started R req.ref) P) :=
  Prog.Silent.zoom (fun _ _ => rfl) (start_calls hP)
    (fun _ hs => ⟨hs.recorder, hs.thread, hs.ctx⟩) fun _ _ hs hr => ⟨hr, hs.attached, hs.noHook⟩

/-- `handle` answers as the service does, given what the `try` does, and leaves the trace
closed or waiting for the hook. -/
theorem handle_does (cfg : Instrument) {y : Prog (Service σ) Exc Reply} {v : Service σ}
    (hO : O.Contained) (hP : P [])
    (h : Does (fun s => Serving R (serving cfg R req.ref) P s ∧ s.service = v)
      (tryPhases L O adapter req) y (Serving R (serving cfg R req.ref) Q)
      (Serving R (serving cfg R req.ref) Q)) :
    Does (fun s => Starting R s ∧ s.service = v) (handle L O adapter cfg req)
      (Prog.rescue y fun e => Prog.lift (rendered L req e))
      (fun s => Closed R Q s ∨ Waiting R (unbound cfg R req.ref) Q s) (Closed R Q) := by
  have hbound := unbound_bound cfg R req.ref
  refine Prog.Refines.silent_bind ((start_unseen hP).keeping v) fun _ =>
    Prog.Refines.get_bind fun ref => ?_
  rintro s ⟨⟨hs, hv⟩, rfl⟩
  have href := hs.live.ref
  refine Prog.Refines.silent_bind ((bindSpans_serving (Or.inr href)).keeping v) (fun _ => ?_) s
    ⟨hs, hv⟩
  rw [href]
  refine (serve_does h).ensure ?_ (finalize_closes hO hbound)
  intro t ht
  rcases ht with ht | ht
  · exact (finalize_closes hO hbound).mono (fun _ hs => hs) (fun _ => Or.inl) t ht
  · exact finalize_waits.mono (fun _ hs => hs) (fun _ => Or.inr) t ht

/-- The hook closes its span and the trace. -/
theorem sent_unseen (cfg : Instrument) (hO : O.Contained) (hT : T.bound = none) (hook : Hook) :
    Unseen (σ := σ) (fun s => Live R T P s.recording) (sent L O cfg hook)
      fun s => Finished R P s.recording := by
  refine Prog.Silent.bind (J := fun s => Live R T P s.recording) ?_ fun _ => ?_
  · cases hook.stack with
    | none => exact Prog.Silent.pure _
    | some span =>
      exact Prog.Silent.zoom (fun _ _ => rfl) (exitSpan_calls _ _) (fun _ hs => hs)
        fun _ _ _ hr => hr
  refine Prog.Silent.bind (J := fun s => Live R T P s.recording)
    (Prog.Silent.modify fun _ hs => ⟨rfl, hs⟩) fun _ => ?_
  refine Prog.Silent.bind (J := fun s => Finished R P s.recording)
    (Prog.Silent.zoom (fun _ _ => rfl) (finish_finishes hO hT _) (fun _ hs => hs)
      fun _ _ _ hr => hr) fun _ => ?_
  rw [bindSpans_eq]
  refine Prog.Silent.modify fun t ht => ⟨rfl, ?_, ht.delivered⟩
  rw [ht.thread]
  unfold slots
  split
  · rfl
  · rfl

/-- The hook is called, if there is one. -/
theorem fire_unseen (cfg : Instrument) (hO : O.Contained) (hT : T.bound = none) :
    Unseen (σ := σ) (fun s => Closed R P s ∨ Waiting R T P s) (fire L O cfg)
      fun s => Finished R P s.recording := by
  refine Prog.Silent.get_bind fun hook => ?_
  rintro s ⟨hs, rfl⟩
  rcases hs with hs | hs
  · rw [hs.noHook]
    exact ⟨⟨⟩, s, rfl, rfl, hs.finished⟩
  · obtain ⟨hook, hhook⟩ := hs.hook
    rw [hhook]
    exact sent_unseen cfg hO hT hook s hs.live

/-! ## What escapes -/

/-- The adapter raises a `BaseException` that is no `Exception`. -/
def Adapter.Exits (adapter : Adapter σ) : Prop :=
  ∃ (s : σ) (p : Payload), (p.predicts adapter s).outcome = .error (.other .exit) ∨
    (p.routes adapter s).outcome = .error (.other .exit)

theorem credential_ends (db : Db) :
    (credential L req).Ends db (fun _ _ => True) fun e _ => exits e = false := by
  refine Prog.Ends.bind (P := fun _ _ => True) ?_ fun _ opened _ => ?_
  · cases req.unopened with
    | none => exact trivial
    | some text => exact rfl
  · refine Prog.Ends.bind (P := fun _ _ => True) trivial fun armed read _ => ?_
    split
    · refine Prog.Ends.bind (P := fun _ _ => True) ?_ fun _ _ _ => trivial
      unfold Prog.Ends verifiedKey
      split
      · next h =>
        split at h
        · exact trivial
        · cases h
      · next h =>
        split at h
        · cases h
        · obtain rfl := Except.error.inj (congrArg Prod.fst h)
          exact rfl
    · exact trivial

/-- A call raises what is no `Exception` only if the adapter does. -/
theorem call_ends {c : σ → Call σ} {s : Service σ}
    (hc : (c s.engine).outcome = .error (.other .exit) → adapter.Exits) :
    (Service.call c).Ends s (fun _ _ => True) fun e _ => exits e = true → adapter.Exits := by
  unfold Prog.Ends Service.call
  rcases hout : (c s.engine).outcome with f | r
  · rw [hout] at hc
    change exits (guarded f) = true → adapter.Exits
    cases f with
    | englishOnly text detection => exact fun h => by cases h
    | value text => exact fun h => by cases h
    | other e =>
      cases e with
      | exit => exact fun _ => hc rfl
      | _ => exact fun h => by cases h
  · exact trivial

/-- An `HttpError` is an `Exception`. -/
theorem mapped_ends {α : Type} (r : Except HttpError α) (s : Service σ) :
    (Prog.lift (r.mapError Exc.http) : Prog (Service σ) Exc α).Ends s (fun _ _ => True)
      fun e _ => exits e = true → adapter.Exits := by
  cases r with
  | error e => exact fun h => by cases h
  | ok a => exact trivial

theorem post_ends (parsed : Json) (s : Service σ) :
    (Service.post L adapter req parsed).Ends s (fun _ _ => True)
      fun e _ => exits e = true → adapter.Exits := by
  refine Prog.Ends.bind (mapped_ends _ s) fun p t _ => ?_
  refine Prog.Ends.bind (P := fun _ _ => True) (call_ends fun hexit => ?_) fun _ _ _ => trivial
  unfold Service.calls at hexit
  cases hroute : req.route with
  | predict =>
    rw [hroute] at hexit
    exact ⟨_, p, Or.inl hexit⟩
  | route =>
    rw [hroute] at hexit
    exact ⟨_, p, Or.inr hexit⟩

/-- What is rendered is no exception. -/
theorem rendered_ends {Q' : Prop} (e : Exc) (s : Service σ) (h : exits e = true → Q') :
    (Prog.lift (rendered L req e) : Prog (Service σ) Exc Reply).Ends s (fun _ _ => True)
      fun e' _ => e' = .exit ∧ Q' := by
  cases e with
  | http e => exact trivial
  | exception text => exact trivial
  | exit => exact ⟨rfl, h rfl⟩

/-- What escapes the service was raised by the adapter. -/
theorem serve_ends (req : Request) (s : Service σ) :
    (Service.serve L adapter req).Ends s (fun _ _ => True)
      fun e _ => e = .exit ∧ adapter.Exits := by
  have hrescue : ∀ {x : Prog (Service σ) Exc Reply} {t : Service σ},
      x.Ends t (fun _ _ => True) (fun e _ => exits e = true → adapter.Exits) →
      (Prog.rescue x fun e => Prog.lift (rendered L req e)).Ends t (fun _ _ => True)
        fun e _ => e = .exit ∧ adapter.Exits := by
    intro x t hx
    exact hx.rescue fun e u h => rendered_ends e u h
  refine hrescue ?_
  refine Prog.Ends.bind (P := fun _ _ => True) ?_ fun _ t _ => ?_
  · refine Prog.Ends.bind (P := fun _ _ => True) ?_ fun found t _ => ?_
    · refine Prog.Ends.zoom ((credential_ends s.db).mono (fun _ _ _ => trivial) ?_)
      intro e db he hexits
      rw [he] at hexits
      cases hexits
    · unfold refusal
      split
      · exact trivial
      · exact fun h => by cases h
  · refine Prog.Ends.bind (mapped_ends _ t) fun parsed u _ => ?_
    refine Prog.Ends.bind (P := fun _ _ => True) ?_ fun _ _ _ => trivial
    refine (hrescue ?_).mono (fun _ _ _ => trivial) fun _ _ h _ => h.2
    unfold Service.routed
    split
    · exact trivial
    · split
      · exact post_ends parsed u
      · exact trivial

/-! ## One request after the other -/

/-- What a server has of the service. -/
def Server.service (s : Server σ) : Service σ := ⟨s.db, s.engine⟩

/-- The threads are free. -/
def Server.Free (s : Server σ) : Prop := ∀ i, s.threads i = {}

theorem Server.Free.starting {s : Server σ} (h : s.Free) (worker : ℕ) :
    Starting s.recorder (s.exchange worker) :=
  ⟨rfl, h worker, rfl, rfl, rfl⟩

/-- **A request is answered as it would be without a recorder**, its hook returns, and it
leaves the thread free; the trace is finished, and if it was kept, it has the payloads that
the `try` leaves. -/
theorem served_does (cfg : Instrument) {s : Server σ} (hO : O.Contained) (hfree : s.Free)
    (hP : P [])
    (h : Does
      (fun t => Serving s.recorder (serving cfg s.recorder req.ref) P t ∧ t.service = s.service)
      (tryPhases L O adapter req) (Service.tried L adapter req)
      (Serving s.recorder (serving cfg s.recorder req.ref) Q)
      (Serving s.recorder (serving cfg s.recorder req.ref) Q)) :
    answer L O adapter cfg req s = ⟨(Service.serve L adapter req s.service).1, .ok ⟨⟩⟩ ∧
      (served L O adapter cfg req s).service = (Service.serve L adapter req s.service).2 ∧
        Finished s.recorder Q (served L O adapter cfg req s).recording := by
  obtain ⟨hsame, hends⟩ :=
    handle_does cfg hO hP h _ ⟨hfree.starting req.worker, rfl⟩
  have hdone : Closed s.recorder Q (handle L O adapter cfg req (s.exchange req.worker)).2 ∨
      Waiting s.recorder (unbound cfg s.recorder req.ref) Q
        (handle L O adapter cfg req (s.exchange req.worker)).2 := by
    rcases hrun : handle L O adapter cfg req (s.exchange req.worker) with ⟨e | r, t⟩
    · exact Or.inl (hends.error hrun)
    · exact hends.ok hrun
  obtain ⟨a, t, hfire, hservice, hfinished⟩ :=
    fire_unseen (L := L) cfg hO (unbound_bound cfg s.recorder req.ref) _ hdone
  have hserve : Service.serve L adapter req s.service = _ := hsame
  unfold answer served
  rw [hserve, hfire]
  exact ⟨rfl, hservice, hfinished⟩

/-- A thread that has served a request is free again. -/
theorem Finished.after {s : Server σ} {worker : ℕ} {t : Exchange σ} (h : Finished R P t.recording)
    (hfree : s.Free) : (s.after worker t).Free := by
  intro i
  change Function.update s.threads worker _ i = _
  by_cases hi : i = worker
  · subst hi
    rw [Function.update_self]
    exact h.thread
  · rw [Function.update_of_ne hi]
    exact hfree i

/-- A request that is served among others. -/
theorem served_any (adapter : Adapter σ) (cfg : Instrument) (req : Request) {s : Server σ}
    (hO : O.Contained) (hfree : s.Free) :
    answer L O adapter cfg req s = ⟨(Service.serve L adapter req s.service).1, .ok ⟨⟩⟩ ∧
      (served L O adapter cfg req s).service = (Service.serve L adapter req s.service).2 ∧
        Finished s.recorder Any (served L O adapter cfg req s).recording :=
  served_does cfg hO hfree trivial
    (tryPhases_does.mono (fun _ h => h.1) (fun _ h => h) fun _ h => h)

/-- The threads are free after any requests. -/
theorem afterwards_free {cfg : Instrument} (hO : O.Contained) (requests : List Request) :
    ∀ s : Server σ, s.Free → (afterwards L O adapter cfg requests s).Free := by
  induction requests with
  | nil => exact fun _ h => h
  | cons req rest ih =>
    intro s hfree
    obtain ⟨-, -, hfinished⟩ := served_any (L := L) adapter cfg req hO hfree
    exact ih _ (hfinished.after hfree)

/-- The answers of the service alone. -/
def Service.answers (L : Library) (adapter : Adapter σ) : List Request → Service σ → List Answer
  | [], _ => []
  | req :: rest, s => ⟨(Service.serve L adapter req s).1, .ok ⟨⟩⟩ ::
      Service.answers L adapter rest (Service.serve L adapter req s).2

/-- A server answers as its service does. -/
theorem answers_eq (adapter : Adapter σ) (cfg : Instrument) (hO : O.Contained)
    (requests : List Request) :
    ∀ s : Server σ, s.Free →
      answers L O adapter cfg requests s = Service.answers L adapter requests s.service := by
  induction requests with
  | nil => exact fun _ _ => rfl
  | cons req rest ih =>
    intro s hfree
    obtain ⟨hanswer, hservice, hfinished⟩ := served_any (L := L) adapter cfg req hO hfree
    rw [answers, Service.answers, hanswer, ih _ (hfinished.after hfree), ← hservice]
    rfl

/-- What escapes one of the answers was raised by the adapter. -/
theorem answers_escape (requests : List Request) : ∀ s : Service σ,
    ∀ a ∈ Service.answers L adapter requests s,
      a.hook = .ok ⟨⟩ ∧ ∀ e, a.reply = .error e → e = .exit ∧ adapter.Exits := by
  induction requests with
  | nil => exact fun _ _ h => by cases h
  | cons req rest ih =>
    intro s a ha
    rw [Service.answers] at ha
    rcases List.mem_cons.mp ha with rfl | ha
    · refine ⟨rfl, fun e he => ?_⟩
      exact (serve_ends (L := L) req s).error (Prod.ext he rfl)
    · exact ih _ a ha

end

/-- **Recording is transparent.** Requests that are served one after the other from the
same database are answered alike whatever the recorder is, if its sinks raise nothing but
`Exception`s; and what escapes was raised by the adapter. -/
theorem recording_transparent {σ : Type} (L : Library) (adapter : Adapter σ) (cfg : Instrument)
    (O O' : Observer) (hO : O.Contained) (hO' : O'.Contained) (r r' : Recorder) (tick tick' : ℕ)
    (db : Db) (engine : σ) (requests : List Request) :
    answers L O adapter cfg requests ⟨r, fun _ => {}, tick, db, engine⟩ =
        answers L O' adapter cfg requests ⟨r', fun _ => {}, tick', db, engine⟩ ∧
      ∀ a ∈ answers L O adapter cfg requests ⟨r, fun _ => {}, tick, db, engine⟩,
        a.hook = .ok ⟨⟩ ∧ ∀ e, a.reply = .error e → e = .exit ∧ adapter.Exits := by
  have hsame := answers_eq (L := L) adapter cfg hO requests
    ⟨r, fun _ => {}, tick, db, engine⟩ fun _ => rfl
  have hsame' := answers_eq (L := L) adapter cfg hO' requests
    ⟨r', fun _ => {}, tick', db, engine⟩ fun _ => rfl
  refine ⟨hsame.trans hsame'.symm, fun a ha => ?_⟩
  rw [hsame] at ha
  exact answers_escape requests _ a ha

/-! ## A sink that raises -/

/-- Text that is ASCII. -/
def plainLibrary : Library where
  keys := ⟨id, id, fun _ => [], fun _ => none⟩
  text := Redact.asciiText
  lower := List.map CodePoint.fold
  upper := id
  shown := fun l => l.flatMap fun
    | .text s | .str s | .repr s => s
  encodeFailure := fun _ => []

/-- An adapter that has one answer. -/
def oneAnswer : Adapter PUnit where
  predict := fun _ _ _ _ _ _ => ⟨[.span (py "queue.wait") [] ⟨_, _, rfl, by decide, rfl⟩ []],
    ⟨[], fun _ _ _ h => by cases h⟩, ⟨⟩⟩
  route := fun _ _ _ => ⟨[], ⟨[], fun _ _ _ h => by cases h⟩, ⟨⟩⟩

/-- A recorder whose `on_trace` raises. -/
def sinkRaises (e : Option Exc) : Observer where
  clock := fun _ => 0
  wall := fun _ => 0
  token := fun _ => py "0badf00d"
  draw := fun _ => 0
  payloadMax := 2048
  onTrace := fun _ _ => e
  onLog := fun _ _ => none

/-- `POST /predict` with an empty state and no questions. -/
def askPredict : Request where
  worker := 0
  ref := 0
  route := .predict
  method := py "POST"
  headers := []
  bytes := 27
  parsed := .ok (.obj [(py "state", .obj []), (py "questions", .obj [])])
  requestId := py "00000001"
  clientIp := py "127.0.0.1"
  now := 0

/-- A server with this recorder. -/
def serverWith (r : Recorder) : Server PUnit := ⟨r, fun _ => {}, 0, Db.fresh, ⟨⟩⟩

/-- A sink that raises an `Exception` does not show. -/
theorem raising_sink_hidden : ((sinkRaises (some (.exception []))).Contained ∧
      (sinkRaises none).Contained) ∧
    answers plainLibrary (sinkRaises (some (.exception []))) oneAnswer {} [askPredict]
        (serverWith { capture := true }) =
      answers plainLibrary (sinkRaises none) oneAnswer {} [askPredict]
        (serverWith { enabled := false }) := by
  have hraises : (sinkRaises (some (.exception []))).Contained := ⟨fun _ _ => rfl, fun _ _ => rfl⟩
  have hquiet : (sinkRaises none).Contained := ⟨fun _ _ => rfl, fun _ _ => rfl⟩
  exact ⟨⟨hraises, hquiet⟩, (recording_transparent plainLibrary oneAnswer {} _ _ hraises hquiet
    { capture := true } { enabled := false } 0 0 Db.fresh ⟨⟩ [askPredict]).1⟩

/-- One that raises `SystemExit` takes the response with it. -/
theorem exiting_sink_escapes : ¬∀ (O O' : Observer) (r r' : Recorder),
    answers plainLibrary O oneAnswer {} [askPredict] (serverWith r) =
      answers plainLibrary O' oneAnswer {} [askPredict] (serverWith r') := by
  intro h
  have hsame := congrArg (List.map fun a : Answer => a.reply.isOk)
    (h (sinkRaises (some .exit)) (sinkRaises none) {} { enabled := false })
  exact absurd hsame (by decide +kernel)

end Engine

end LayaWatch
