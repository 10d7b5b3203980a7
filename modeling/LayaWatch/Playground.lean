import LayaWatch.Lib.Machine
import LayaWatch.Transparency

/-!
# The playground

`POST /api/v1/playground/run` of `api/playground.py` starts and finishes a trace of its own.
Behind its gate it answers a body as `POST /predict` does, as if there were no recorder, and
it leaves one trace, which is kept whatever the sample rate is (`playground_mirrors`). Runs
and engine requests may come in any order.
-/

namespace LayaWatch

namespace Engine

/-! ## The handler -/

section

variable {σ : Type} (L : Library) (O : Observer) (adapter : Adapter σ)

/-- The path of the run. -/
def playgroundPath : PyStr := py "/api/v1/playground/run"

/-- `_probe`. -/
def probe (req : Request) : Exchanging σ Payload :=
  Prog.lift (req.parsed.mapError Exc.http) >>= fun parsed =>
  traced (Context.withSpan (O.ambient L) (py "body.parse")
    (bodyAttrs (O.ambient L) req.bytes parsed)
    (Prog.lift ((validated parsed).mapError Exc.http)))

/-- The body of the `try`, up to the response. -/
def runBody (req : Request) : Exchanging σ Reply :=
  traced (Context.withSpan (O.ambient L) (py "http.receive")
    [(py "method", .str req.method), (py "path", .str playgroundPath),
      (py "remote", .str req.clientIp), (py "content_length", .int req.bytes)]
    (pure ())) >>= fun _ =>
  probe L O req >>= fun p =>
  traced (Context.set [.stateBytes (some req.bytes),
    .questionCount (some p.questions.length)]) >>= fun _ =>
  guardCall L O (p.predicts adapter) >>= fun result =>
  traced (Context.set [.model (result.text (py "model")),
    .routeReason (if PyStr.truthy (result.text (py "route_reason"))
      then result.text (py "route_reason") else result.text (py "reason")),
    .lang (result.text (py "lang"))]) >>= fun _ =>
  pure (jsonResponse L (.obj result.fields) 200 [])

/-- `status = ..`. -/
def setStatus (status : ℤ) : Exchanging σ PUnit :=
  Prog.modify fun s => { s with status := status }

/-- The `except` clauses, before they raise again. -/
def recordRaised : Exc → Exchanging σ PUnit
  | .http e =>
    traced (recordError (O.ambient L) .handler e.code (L.shown e.message)
      (L.shown e.message)) >>= fun _ => setStatus e.status
  | .exception _ =>
    traced (Context.event (O.ambient L) (py "error")
      [(py "code", .str internalError.code), (py "message", .str (L.shown internalError.message)),
        (py "where", .str Phase.handler.name)] none none) >>= fun _ => setStatus 500
  | .exit => pure ⟨⟩

/-- The `try`, with its `except` clauses. -/
def runTry (req : Request) : Exchanging σ Reply :=
  Prog.rescue
    (runBody L O adapter req >>= fun r => setReply r >>= fun _ => setStatus 200 >>= fun _ => pure r)
    fun e => recordRaised L O e >>= fun _ => Prog.raise e

/-- The `finally` clause. -/
def runFinally : Exchanging σ PUnit :=
  Prog.get (fun s : Exchange σ => (s.status, s.bytes)) >>= fun v =>
  traced (Context.withSpan (O.ambient L) (py "response.send")
    [(py "status", .int v.1), (py "bytes", .int v.2)] (pure ())) >>= fun _ =>
  traced (finish L O v.1)

/-- `run`, behind its gate. -/
def run (req : Request) : Exchanging σ Reply :=
  traced (Recorder.start (O.ambient L) req.ref playgroundPath req.method req.requestId) >>= fun _ =>
  traced (Context.setMeta [(py "source", .str (py "playground"))]) >>= fun _ =>
  Prog.ensure (runTry L O adapter req) fun _ => runFinally L O

variable (gate : Prog Db Exc PUnit)

/-- `dispatch` of the request: the gate, the run, and what is rendered. -/
def playground (req : Request) : Exchanging σ Reply :=
  Prog.rescue
    (Prog.zoom Exchange.db (fun db s => { s with db := db }) gate >>= fun _ => run L O adapter req)
    (fun e => Prog.lift (rendered L req e)) >>= fun r => pure (stamp L req.requestId r)

/-! ## Without a recorder -/

/-- What a `POST /predict` does with the body. -/
def Service.run (req : Request) : Prog (Service σ) Exc Reply :=
  Prog.lift (req.parsed.mapError Exc.http) >>= fun parsed =>
  Service.post L adapter { req with route := .predict } parsed

/-- That, behind the gate. -/
def Service.playground (req : Request) : Prog (Service σ) Exc Reply :=
  Prog.rescue
    (Prog.zoom Service.db (fun db s => { s with db := db }) gate >>= fun _ =>
      Service.run L adapter req)
    (fun e => Prog.lift (rendered L req e)) >>= fun r => pure (stamp L req.requestId r)

/-- The status of an outcome. -/
def runStatus : Except Exc Reply → ℤ
  | .ok _ => 200
  | .error (.http e) => e.status
  | .error _ => 500

/-! ## Requests and runs -/

/-- A request of either kind. -/
inductive Ask where
  /-- of an engine path -/
  | engine (req : Request)
  /-- of the playground, with what its gate does -/
  | playground (gate : Prog Db Exc PUnit) (req : Request)

variable (cfg : Instrument)

/-- What it comes to. -/
def Ask.answer (s : Server σ) : Ask → Answer
  | .engine req => Engine.answer L O adapter cfg req s
  | .playground gate req =>
    ⟨(Engine.playground L O adapter gate req (s.exchange req.worker)).1, .ok ⟨⟩⟩

/-- What there is after it. -/
def Ask.after (s : Server σ) : Ask → Server σ
  | .engine req => s.after req.worker (served L O adapter cfg req s)
  | .playground gate req =>
    s.after req.worker (Engine.playground L O adapter gate req (s.exchange req.worker)).2

/-- The service without a recorder. -/
def Ask.serve : Ask → Prog (Service σ) Exc Reply
  | .engine req => Service.serve L adapter req
  | .playground gate req => Service.playground L adapter gate req

/-- A server that gets requests of both kinds. -/
def console : Machine (Server σ) Ask where
  init := Server.Free
  step s a := some (a.after L O adapter cfg s)

end

/-! ## What the recorder is told -/

/-- The id and the meta of the trace. -/
def traceMark (s : Recording) : Option (PyStr × Fields) :=
  s.ctx.map fun c => (c.traceId, c.fields.metadata)

/-- The variable `status`, with them. -/
def runMark {σ : Type} (s : Exchange σ) : ℤ × Option (PyStr × Fields) :=
  (s.status, traceMark s.recording)

mutual

/-- The step does not replace the meta of the trace. -/
def Step.LeavesMeta : Step → Prop
  | .span _ _ _ body => StepsLeaveMeta body
  | .set values => ∀ v ∈ values, ∀ fields, v ≠ .metadata fields
  | _ => True

/-- No step does. -/
def StepsLeaveMeta : List Step → Prop
  | [] => True
  | step :: rest => step.LeavesMeta ∧ StepsLeaveMeta rest

end

/-- The adapter leaves the meta of the trace to the handler. -/
def Adapter.LeavesMeta {σ : Type} (adapter : Adapter σ) : Prop :=
  ∀ (s : σ) (p : Payload), StepsLeaveMeta (p.predicts adapter s).steps

section

variable {σ : Type} {L : Library} {O : Observer} {A : Ambient}

theorem act_keeps {α : Type} {inert : α} {f : Context → ℕ → Except Exc (α × Context)}
    (h : ∀ c n a c', f c n = .ok (a, c') →
      c'.traceId = c.traceId ∧ c'.fields.metadata = c.fields.metadata) :
    (Context.act inert f).Keeps traceMark := by
  intro s
  unfold Context.act traceMark
  rcases hc : s.ctx with - | c
  · simp only [hc]
  · rcases hf : f c s.tick with e | ⟨a, c'⟩
    · simp only [hf]
    · obtain ⟨hid, hmeta⟩ := h c s.tick a c' hf
      simp only [hf, Option.map_some, hid, hmeta]

/-- A method that looks its name up and checks its attributes first. -/
theorem observed_keeps {α : Type} {inert : α} {name : PyStr} {attrs : Fields}
    {p : SpanSpec → Prop} [DecidablePred p] {e : Exc}
    {g : Context → ℕ → SpanSpec → Fields → α × Context}
    (h : ∀ c n entry valid, (g c n entry valid).2.traceId = c.traceId ∧
      (g c n entry valid).2.fields.metadata = c.fields.metadata) :
    (Context.act inert fun c n => do
      c.checkActive
      let entry ← spec name
      if p entry then .error e
      else
        let valid ← validate name attrs
        .ok (g c n entry valid)).Keeps traceMark := by
  refine act_keeps fun c n a c' hrun => ?_
  obtain ⟨_, -, hrun⟩ := bind_eq_ok.mp hrun
  obtain ⟨entry, -, hrun⟩ := bind_eq_ok.mp hrun
  split at hrun
  · cases hrun
  · obtain ⟨valid, -, hrun⟩ := bind_eq_ok.mp hrun
    have hsame := h c n entry valid
    rw [Except.ok.inj hrun] at hsame
    exact hsame

theorem enterSpan_keeps (name : PyStr) (attrs : Fields) (input output : Option PyStr) :
    (Context.enterSpan A name attrs input output).Keeps traceMark :=
  observed_keeps fun _ _ _ _ => ⟨rfl, rfl⟩

theorem exitSpan_keeps (span : Option ℕ) (raised : Bool) :
    (Context.exitSpan A span raised).Keeps traceMark := by
  refine act_keeps fun c n a c' h => ?_
  cases span with
  | none =>
    obtain ⟨-, rfl⟩ := Prod.mk.inj (Except.ok.inj h)
    exact ⟨rfl, rfl⟩
  | some i =>
    obtain ⟨-, rfl⟩ := Prod.mk.inj (Except.ok.inj h)
    exact ⟨rfl, rfl⟩

theorem event_keeps (name : PyStr) (attrs : Fields) (input output : Option PyStr) :
    (Context.event A name attrs input output).Keeps traceMark :=
  observed_keeps fun _ _ _ _ => ⟨rfl, rfl⟩

theorem setField_metadata {values : List FieldValue}
    (h : ∀ v ∈ values, ∀ fields, v ≠ .metadata fields) (fields : TraceFields) :
    (values.foldl TraceFields.setField fields).metadata = fields.metadata := by
  induction values generalizing fields with
  | nil => rfl
  | cons v values ih =>
    rw [List.foldl_cons, ih fun w hw => h w (List.mem_cons_of_mem v hw)]
    cases v with
    | metadata m => exact absurd rfl (h _ List.mem_cons_self m)
    | _ => rfl

theorem set_keeps {values : List FieldValue} (h : ∀ v ∈ values, ∀ fields, v ≠ .metadata fields) :
    (Context.set values).Keeps traceMark := by
  refine act_keeps fun c n a c' hset => ?_
  obtain ⟨_, -, hset⟩ := bind_eq_ok.mp hset
  obtain ⟨-, rfl⟩ := Prod.mk.inj (Except.ok.inj hset)
  exact ⟨rfl, setField_metadata h c.fields⟩

theorem withSpan_keeps {α : Type} (name : PyStr) (attrs : Fields) {body : Traced α}
    (h : body.Keeps traceMark) : (Context.withSpan A name attrs body).Keeps traceMark :=
  (enterSpan_keeps name attrs none none).bind fun span => h.ensure fun raised =>
    exitSpan_keeps span raised

theorem onSlot_keeps {α : Type} {slot : Thread → Option ℕ} {absent : α} {x : Traced α}
    (h : x.Keeps traceMark) : (onSlot slot absent x).Keeps traceMark := by
  intro s
  unfold onSlot
  split
  · rfl
  · split
    · exact h s
    · rfl

theorem seam_keeps {α : Type} {x : Traced α} (h : x.Keeps traceMark) :
    (seam x).Keeps traceMark := by
  intro s
  have hx := h s
  unfold seam
  rcases hxs : x s with ⟨e | a, t⟩ <;> rw [hxs] at hx <;> exact hx

end

section

variable {σ : Type} {L : Library} {O : Observer}

mutual

theorem Step.run_keeps : ∀ step : Step, step.LeavesMeta → (step.run L O).Keeps traceMark
  | .span name attrs _ body, h => by
    rw [Step.LeavesMeta] at h
    rw [Step.run]
    exact (seam_keeps (onSlot_keeps (enterSpan_keeps name attrs none none))).bind fun span =>
      (runSteps_keeps body h).ensure fun raised => seam_keeps (exitSpan_keeps span raised)
  | .event name attrs _, _ => by
    rw [Step.run]
    exact seam_keeps (onSlot_keeps (event_keeps name attrs none none))
  | .set values, h => by
    rw [Step.LeavesMeta] at h
    rw [Step.run]
    exact seam_keeps (onSlot_keeps (set_keeps h))
  | .fail e, _ => by
    rw [Step.run]
    exact Prog.Keeps.raise e

theorem runSteps_keeps : ∀ steps : List Step, StepsLeaveMeta steps →
    (runSteps L O steps).Keeps traceMark
  | [], _ => by
    rw [runSteps]
    exact Prog.Keeps.pure _
  | step :: rest, h => by
    rw [StepsLeaveMeta] at h
    rw [runSteps]
    exact (Step.run_keeps step h.1).bind fun _ => runSteps_keeps rest h.2

end

theorem traced_keeps {α : Type} {x : Traced α} (h : x.Keeps traceMark) :
    (traced x : Exchanging σ α).Keeps runMark :=
  h.zoom fun s _ hr => congrArg (Prod.mk s.status) hr

theorem guardCall_keeps {call : σ → Call σ} (h : ∀ s, StepsLeaveMeta (call s).steps) :
    (guardCall L O call).Keeps runMark := by
  intro s
  have hkept := runSteps_keeps (L := L) (O := O) _ (h s.engine) s.recording
  unfold guardCall runMark
  rcases hrun : runSteps L O (call s.engine).steps s.recording with ⟨e | a, r⟩
  · rw [hrun] at hkept
    simp only [hrun, hkept]
  · rw [hrun] at hkept
    simp only [hrun, hkept]

end

section

variable {σ : Type} {R : Recorder} {T : Thread} {L : Library} {O : Observer} {adapter : Adapter σ}
  {req : Request}

/-! ## The body of the `try` -/

/-- Up to the response, a run does what a `POST /predict` does with the body. -/
theorem runBody_does :
    Does (Serving R T Any) (runBody L O adapter req) (Service.run L adapter req)
      (Serving R T Any) (Serving R T Any) := by
  refine Prog.Refines.silent_bind
    (traced_unseen (withSpan_calls (receive_timed _ _ _ _))) fun _ => ?_
  rw [probe, Prog.bind_bind]
  refine Prog.Refines.bind (Prog.Refines.lift _) fun parsed => ?_
  refine Prog.Refines.bind (J := Serving R T Any)
    (traced_does (withSpan_yields (body_timed _ parsed) fun _ hs => ⟨rfl, hs⟩)) fun p => ?_
  refine Prog.Refines.silent_bind (traced_unseen (set_calls _)) fun _ => ?_
  refine Prog.Refines.bind (guardCall_does _ fun _ _ => trivial) fun result => ?_
  exact Prog.Refines.silent_bind (traced_unseen (set_calls _)) fun _ => Prog.Refines.pure _

theorem emptySpan_keeps (name : PyStr) (attrs : Fields) :
    (traced (Context.withSpan (O.ambient L) name attrs (pure ())) : Exchanging σ Unit).Keeps
      runMark :=
  traced_keeps (withSpan_keeps name attrs (Prog.Keeps.pure ()))

/-- It leaves the status, the id and the meta of the trace alone. -/
theorem runBody_keeps (h : adapter.LeavesMeta) : (runBody L O adapter req).Keeps runMark := by
  refine (emptySpan_keeps _ _).bind fun _ => ?_
  refine Prog.Keeps.bind ?_ fun p => ?_
  · exact (Prog.Keeps.lift _).bind fun parsed =>
      traced_keeps (withSpan_keeps _ _ (Prog.Keeps.lift _))
  refine (traced_keeps (set_keeps (by simp))).bind fun _ => ?_
  refine (guardCall_keeps fun s => h s p).bind fun result => ?_
  exact (traced_keeps (set_keeps (by simp))).bind fun _ => Prog.Keeps.pure _

/-! ## The `try` -/

/-- Where the run is, with the status, the id and the meta of its trace. -/
def Running (R : Recorder) (T : Thread) (status : ℤ) (mark : Option (PyStr × Fields))
    (s : Exchange σ) : Prop :=
  Serving R T Any s ∧ runMark s = (status, mark)

theorem setReply_running {status : ℤ} {mark : Option (PyStr × Fields)} (r : Reply) :
    Unseen (Running (σ := σ) R T status mark) (setReply r) (Running R T status mark) :=
  (setReply_unseen r).frame (fun _ => rfl) _

theorem setStatus_running {status : ℤ} {mark : Option (PyStr × Fields)} (status' : ℤ) :
    Unseen (Running (σ := σ) R T status mark) (setStatus status') (Running R T status' mark) :=
  Prog.Silent.modify fun _ hs => ⟨rfl, ⟨hs.1.live, hs.1.attached, hs.1.noHook⟩,
    congrArg (Prod.mk status') (congrArg Prod.snd hs.2)⟩

theorem traced_running {α : Type} {x : Traced α} (h : Calls R T Any x Any)
    (hk : x.Keeps traceMark) {status : ℤ} {mark : Option (PyStr × Fields)} :
    Unseen (Running (σ := σ) R T status mark) (traced x) (Running R T status mark) :=
  (traced_unseen h).frame (traced_keeps hk) _

/-- What an `except` clause records raises nothing. -/
theorem recordRaised_running {mark : Option (PyStr × Fields)} (e : Exc) :
    Unseen (Running (σ := σ) R T 500 mark) (recordRaised L O e)
      (Running R T (runStatus (.error e)) mark) := by
  cases e with
  | http e =>
    refine (traced_running (recordError_calls _ _ _ _) ?_).bind fun _ => setStatus_running _
    exact (event_keeps _ _ _ _).bind fun _ => set_keeps (by simp)
  | exception text =>
    refine (traced_running ?_ (event_keeps _ _ _ _)).bind fun _ => setStatus_running _
    exact event_calls (error_instant _ _ _) none none fun _ _ => trivial
  | exit => exact Prog.Silent.pure _

/-- The `try` has the outcome of a `POST /predict`, and leaves its status. -/
theorem runTry_runs (hleaves : adapter.LeavesMeta) {mark : Option (PyStr × Fields)}
    {s : Exchange σ} (hs : Running R T 500 mark s) :
    ∃ t, runTry L O adapter req s = ((Service.run L adapter req s.service).1, t) ∧
      t.service = (Service.run L adapter req s.service).2 ∧
        Running R T (runStatus (Service.run L adapter req s.service).1) mark t := by
  obtain ⟨hsame, hends⟩ := runBody_does.frame (runBody_keeps (L := L) (O := O) hleaves) _ s hs
  rcases hbody : runBody L O adapter req s with ⟨e | r, t⟩
  · rw [hbody] at hsame
    obtain ⟨_, u, hu, hservice, hrunning⟩ := recordRaised_running (L := L) (O := O) e t
      (hends.error hbody)
    refine ⟨u, ?_, ?_, ?_⟩
    · rw [hsame, runTry, Prog.rescue, Prog.run_bind_error hbody]
      exact Prog.run_bind_ok hu
    · rw [hsame]
      exact hservice
    · rw [hsame]
      exact hrunning
  · rw [hbody] at hsame
    obtain ⟨_, u, hu, hservice, hrunning⟩ :=
      ((setReply_running r).bind fun _ => setStatus_running (T := T) 200) t (hends.ok hbody)
    refine ⟨u, ?_, ?_, ?_⟩
    · rw [hsame, runTry, Prog.rescue, Prog.run_bind_ok hbody, ← Prog.bind_bind,
        Prog.run_bind_ok hu]
      rfl
    · rw [hsame]
      exact hservice
    · rw [hsame]
      exact hrunning

/-! ## The trace of a run -/

/-- The mark of a run's trace, if recording is on. -/
def Marked (R : Recorder) (requestId : PyStr) (mark : Option (PyStr × Fields)) : Prop :=
  R.enabled = true → ∃ traceId fields, mark = some (traceId, fields) ∧
    (requestId ≠ [] → traceId = requestId) ∧
      Fields.get (py "source") fields = some (.str (py "playground"))

/-- The thread is free; if recording is on, one more trace was delivered, which is kept, and
has this status. -/
structure Recorded (R : Recorder) (requestId : PyStr) (status : ℤ) (s : Recording) : Prop where
  /-- the slots of the thread -/
  thread : s.thread = {}
  /-- recording is off -/
  off : R.enabled = false → s.recorder = R
  /-- the trace -/
  on : R.enabled = true → ∃ t : Trace, s.recorder.delivered = R.delivered ++ [t] ∧
    isKept t = true ∧ t.status = status ∧ (requestId ≠ [] → t.id = requestId) ∧
      Fields.get (py "source") t.metadata = some (.str (py "playground"))

/-- Finishing an open context that is always kept. -/
theorem finish_always (A : Ambient) (status : ℤ) {s : Recording} {c : Context}
    (hc : s.ctx = some c) (hopen : c.finished = false) (hkeep : c.alwaysKeep status = true) :
    ∃ duration, (Context.finish A status s).2.thread = s.thread.release c.ref ∧
      (Context.finish A status s).2.recorder.delivered =
        s.recorder.delivered ++ [c.assemble s.recorder status duration true] := by
  refine ⟨max 0 ((A.clock s.tick - c.t0) * 1000), ?_⟩
  unfold Context.finish Prog.modify
  simp only [hc, hopen, hkeep, Bool.true_or, Bool.false_eq_true, if_false, if_true]
  exact ⟨trivial, trivial⟩

/-- The trace of a playground run is kept. -/
theorem alwaysKeep_playground {c : Context} (status : ℤ)
    (h : Fields.get (py "source") c.fields.metadata = some (.str (py "playground"))) :
    c.alwaysKeep status = true := by
  unfold Context.alwaysKeep
  rw [h]
  exact Bool.or_true _

/-- What a kept trace has of its context. -/
theorem assemble_kept (c : Context) (r : Recorder) (status : ℤ) (duration : ℚ) :
    isKept (c.assemble r status duration true) = true ∧
      Fields.get (py "source") (c.assemble r status duration true).metadata =
        Fields.get (py "source") c.fields.metadata := by
  unfold isKept Context.assemble
  constructor
  · rw [Fields.get_set]
    rfl
  · rw [Fields.get_set_ne _ (by decide), Fields.get_set_ne _ (by decide),
      Fields.get_set_ne _ (by decide)]

/-- Finishing delivers the trace of a run, and frees the thread. -/
theorem finish_records (hO : O.Contained) (hT : T.bound = none) {requestId : PyStr}
    {mark : Option (PyStr × Fields)} (hmark : Marked R requestId mark) (status : ℤ) :
    Prog.Silent (fun _ => ()) (fun s => Live R T Any s ∧ traceMark s = mark) (finish L O status)
      (Recorded R requestId status) := by
  rintro s ⟨hs, rfl⟩
  obtain ⟨_, t, ht, -, hfinished⟩ := finish_finishes (L := L) hO hT status s hs
  refine ⟨_, t, ht, rfl, hfinished.thread, fun hoff => ?_, fun hon => ?_⟩
  · obtain ⟨hc, -⟩ := hs.off hoff
    rw [finish_run hO] at ht
    obtain rfl := (Prod.mk.inj ht).2
    unfold Context.finish Prog.modify
    simp only [hc]
    exact hs.recorder
  · obtain ⟨c, hc, hopen, -, -⟩ := hs.on hon
    obtain ⟨traceId, fields, hmarked, hid, hsource⟩ := hmark hon
    unfold traceMark at hmarked
    rw [hc] at hmarked
    obtain ⟨rfl, rfl⟩ := Prod.mk.inj (Option.some.inj hmarked)
    obtain ⟨duration, -, hdelivered⟩ := finish_always (O.ambient L) status hc hopen
      (alwaysKeep_playground status hsource)
    obtain ⟨hkept, hsame⟩ := assemble_kept c s.recorder status duration
    rw [finish_run hO] at ht
    obtain rfl := (Prod.mk.inj ht).2
    refine ⟨_, ?_, hkept, rfl, hid, hsame.trans hsource⟩
    rw [hdelivered, hs.recorder]

/-- The `finally` clause leaves the run recorded. -/
theorem runFinally_records (hO : O.Contained) (hT : T.bound = none) {requestId : PyStr}
    {mark : Option (PyStr × Fields)} (hmark : Marked R requestId mark) {status : ℤ} :
    Unseen (Running (σ := σ) R T status mark) (runFinally L O)
      fun s => Recorded R requestId status s.recording := by
  refine Prog.Silent.get_bind fun v => ?_
  rintro s ⟨hs, rfl⟩
  obtain rfl : s.status = status := congrArg Prod.fst hs.2
  refine Prog.Silent.bind (traced_running (withSpan_calls (send_timed _ _))
    (withSpan_keeps _ _ (Prog.Keeps.pure ()))) (fun _ => ?_) s hs
  exact Prog.Silent.zoom (fun _ _ => rfl) (finish_records hO hT hmark _)
    (fun _ ht => ⟨ht.1.live, congrArg Prod.snd ht.2⟩) fun _ _ _ hr => hr

/-! ## The run -/

/-- A trace that is started is open, under the id of its request. -/
theorem start_context (A : Ambient) (ref : ℕ) (route method requestId : PyStr) {s : Recording}
    (hon : s.recorder.enabled = true) :
    ∃ c, (Recorder.start A ref route method requestId s).2.ctx = some c ∧ c.finished = false ∧
      (requestId ≠ [] → c.traceId = requestId) := by
  unfold Recorder.start Prog.modify
  simp only [hon, if_true]
  refine ⟨_, rfl, rfl, fun hne => if_neg ?_⟩
  rw [List.isEmpty_iff]
  exact hne

/-- What `set_meta` adds to. -/
theorem setMeta_mark (entries : Fields) {s : Recording} {c : Context} (hc : s.ctx = some c)
    (hopen : c.finished = false) : traceMark (Context.setMeta entries s).2 =
      some (c.traceId, entries.foldl (fun m e => Fields.set e.1 e.2 m) c.fields.metadata) := by
  unfold Context.setMeta Context.act traceMark
  simp only [hc, Context.checkActive_open hopen]
  rfl

/-- The start of a run. -/
theorem start_marks (A : Ambient) (ref : ℕ) (route method requestId : PyStr) {s : Recording}
    (hs : s.recorder = R ∧ s.thread = {} ∧ s.ctx = none) :
    ∃ t u, Recorder.start A ref route method requestId s = (.ok ⟨⟩, t) ∧
      Context.setMeta [(py "source", .str (py "playground"))] t = (.ok ⟨⟩, u) ∧
        Live R (started R ref) Any u ∧ Marked R requestId (traceMark u) := by
  have hstart : Prog.Silent (fun _ => ())
      (fun s : Recording => s.recorder = R ∧ s.thread = {} ∧ s.ctx = none)
      (Recorder.start A ref route method requestId) (Live R (started R ref) Any) :=
    start_calls trivial
  obtain ⟨_, t, ht, -, hlive⟩ := hstart s hs
  obtain ⟨_, u, hu, -, hlive'⟩ := setMeta_calls [(py "source", .str (py "playground"))] t hlive
  refine ⟨t, u, ht, hu, hlive', fun hon => ?_⟩
  have hon' : s.recorder.enabled = true := by rw [hs.1, hon]
  obtain ⟨c, hc, hopen, hid⟩ := start_context A ref route method requestId hon'
  rw [ht] at hc
  have hmark := setMeta_mark [(py "source", .str (py "playground"))] hc hopen
  rw [hu] at hmark
  exact ⟨_, _, hmark, hid, Fields.get_set _⟩

theorem traced_run {α : Type} {x : Traced α} {s : Exchange σ} {a : α} {r : Recording}
    (h : x s.recording = (.ok a, r)) : traced x s = (.ok a, { s with recording := r }) := by
  unfold traced Prog.zoom
  rw [h]

/-- **A run is answered as a `POST /predict` would be**, and is recorded. -/
theorem run_runs (L : Library) (req : Request) (hO : O.Contained) (hleaves : adapter.LeavesMeta)
    {s : Exchange σ} (hs : Starting R s) (hstatus : s.status = 500) :
    ∃ t, run L O adapter req s = ((Service.run L adapter req s.service).1, t) ∧
      t.service = (Service.run L adapter req s.service).2 ∧
        Recorded R req.requestId (runStatus (Service.run L adapter req s.service).1)
          t.recording := by
  obtain ⟨r, u, hr, hu, hlive, hmark⟩ := start_marks (O.ambient L) req.ref playgroundPath
    req.method req.requestId ⟨hs.recorder, hs.thread, hs.ctx⟩
  obtain ⟨v, hv, hservice, hrunning⟩ : ∃ v, runTry L O adapter req { s with recording := u } =
      ((Service.run L adapter req s.service).1, v) ∧
        v.service = (Service.run L adapter req s.service).2 ∧
          Running R (started R req.ref) (runStatus (Service.run L adapter req s.service).1)
            (traceMark u) v :=
    runTry_runs hleaves ⟨⟨hlive, hs.attached, hs.noHook⟩, Prod.ext hstatus rfl⟩
  obtain ⟨_, w, hw, hsame, hrecorded⟩ := runFinally_records (L := L) hO rfl hmark v hrunning
  refine ⟨w, ?_, hsame.trans hservice, hrecorded⟩
  have hstart : run L O adapter req s =
      Prog.ensure (runTry L O adapter req) (fun _ => runFinally L O) { s with recording := u } :=
    (Prog.run_bind_ok (traced_run hr)).trans (Prog.run_bind_ok (traced_run hu))
  rw [hstart, Prog.ensure, hv]
  rcases (Service.run L adapter req s.service).1 with e | reply
  · exact Prog.run_bind_ok hw
  · exact Prog.run_bind_ok hw

/-- What is rendered and stamped is the same if the outcome is. -/
theorem rendered_runs (L : Library) (req : Request) {x : Exchanging σ Reply}
    {y : Prog (Service σ) Exc Reply} {s t : Exchange σ} {out : Except Exc Reply}
    (hx : x s = (out, t)) (hy : y s.service = (out, t.service)) :
    ∃ answer, (Prog.rescue x (fun e => Prog.lift (rendered L req e)) >>= fun r =>
        pure (stamp L req.requestId r)) s = (answer, t) ∧
      (Prog.rescue y (fun e => Prog.lift (rendered L req e)) >>= fun r =>
        pure (stamp L req.requestId r)) s.service = (answer, t.service) := by
  cases out with
  | ok r =>
    have hx' : Prog.rescue x (fun e => Prog.lift (rendered L req e)) s = (.ok r, t) := by
      rw [Prog.rescue, hx]
    have hy' : Prog.rescue y (fun e => Prog.lift (rendered L req e)) s.service =
        (.ok r, t.service) := by rw [Prog.rescue, hy]
    exact ⟨_, Prog.run_bind_ok hx', Prog.run_bind_ok hy'⟩
  | error e =>
    have hx' : Prog.rescue x (fun e => Prog.lift (rendered L req e)) s =
        (rendered L req e, t) := by
      rw [Prog.rescue, hx]
      rfl
    have hy' : Prog.rescue y (fun e => Prog.lift (rendered L req e)) s.service =
        (rendered L req e, t.service) := by
      rw [Prog.rescue, hy]
      rfl
    cases hr : rendered L req e with
    | error e =>
      rw [hr] at hx' hy'
      exact ⟨_, Prog.run_bind_error hx', Prog.run_bind_error hy'⟩
    | ok r =>
      rw [hr] at hx' hy'
      exact ⟨_, Prog.run_bind_ok hx', Prog.run_bind_ok hy'⟩

variable {gate : Prog Db Exc PUnit}

/-- The gate reads and changes the database alone. -/
theorem gate_runs {s : Exchange σ} {out : Except Exc PUnit} {db : Db}
    (h : gate s.db = (out, db)) :
    (Prog.zoom Exchange.db (fun db s => { s with db := db }) gate : Exchanging σ PUnit) s =
        (out, { s with db := db }) ∧
      (Prog.zoom Service.db (fun db s => { s with db := db }) gate : Prog (Service σ) Exc PUnit)
        s.service = (out, ⟨db, s.engine⟩) := by
  have hservice : gate s.service.db = (out, db) := h
  unfold Prog.zoom
  rw [h, hservice]
  exact ⟨rfl, rfl⟩

/-- A request past its gate, or refused by it. -/
theorem playground_runs (L : Library) (gate : Prog Db Exc PUnit) (req : Request)
    (hO : O.Contained) (hleaves : adapter.LeavesMeta) {s : Exchange σ}
    (hs : Starting R s) (hstatus : s.status = 500) :
    ∃ answer t, playground L O adapter gate req s = (answer, t) ∧
      Service.playground L adapter gate req s.service = (answer, t.service) ∧
        ((∃ e db, gate s.db = (.error e, db) ∧ t.recording = s.recording) ∨
          ∃ db, gate s.db = (.ok ⟨⟩, db) ∧ Recorded R req.requestId
            (runStatus (Service.run L adapter req ⟨db, s.engine⟩).1) t.recording) := by
  rcases hgate : gate s.db with ⟨e | u, db⟩
  · obtain ⟨hx, hy⟩ := gate_runs hgate
    have hrun : (Prog.zoom Exchange.db (fun db s => { s with db := db }) gate >>= fun _ =>
        run L O adapter req) s = (.error e, { s with db := db }) := Prog.run_bind_error hx
    have hserve : (Prog.zoom Service.db (fun db s => { s with db := db }) gate >>= fun _ =>
        Service.run L adapter req) s.service = (.error e, ⟨db, s.engine⟩) :=
      Prog.run_bind_error hy
    obtain ⟨answer, hanswer, hsame⟩ := rendered_runs L req hrun hserve
    exact ⟨answer, _, hanswer, hsame, Or.inl ⟨e, db, rfl, rfl⟩⟩
  · obtain ⟨hx, hy⟩ := gate_runs hgate
    have hs' : Starting R { s with db := db } :=
      ⟨hs.recorder, hs.thread, hs.ctx, hs.attached, hs.noHook⟩
    obtain ⟨t, ht, hservice, hrecorded⟩ := run_runs L req hO hleaves hs' hstatus
    have hrun : (Prog.zoom Exchange.db (fun db s => { s with db := db }) gate >>= fun _ =>
        run L O adapter req) s = ((Service.run L adapter req ⟨db, s.engine⟩).1, t) :=
      (Prog.run_bind_ok hx).trans ht
    have hserve : (Prog.zoom Service.db (fun db s => { s with db := db }) gate >>= fun _ =>
        Service.run L adapter req) s.service =
          ((Service.run L adapter req ⟨db, s.engine⟩).1, t.service) :=
      (Prog.run_bind_ok hy).trans (Prod.ext rfl hservice.symm)
    obtain ⟨answer, hanswer, hsame⟩ := rendered_runs L req hrun hserve
    exact ⟨answer, t, hanswer, hsame, Or.inr ⟨db, rfl, hrecorded⟩⟩

end

/-! ## Any requests in any order -/

section

variable {σ : Type} (L : Library) (O : Observer) (adapter : Adapter σ) (cfg : Instrument)

/-- What a request comes to, with a recorder. -/
structure AskKept (e : Machine.Event (Server σ) Ask) : Prop where
  /-- it is answered as it would be without one -/
  answered : e.act.answer L O adapter cfg e.pre =
    ⟨(e.act.serve L adapter e.pre.service).1, .ok ⟨⟩⟩
  /-- so are the database and the adapter -/
  service : e.post.service = (e.act.serve L adapter e.pre.service).2
  /-- a run that its gate refuses is not recorded -/
  refused : ∀ gate req failure db, e.act = .playground gate req →
    gate e.pre.db = (.error failure, db) → e.post.recorder = e.pre.recorder
  /-- nor is any where recording is off -/
  off : ∀ gate req, e.act = .playground gate req → e.pre.recorder.enabled = false →
    e.post.recorder = e.pre.recorder
  /-- one past its gate leaves a trace, which is kept, with its id and status -/
  recorded : ∀ gate req db, e.act = .playground gate req → gate e.pre.db = (.ok ⟨⟩, db) →
    e.pre.recorder.enabled = true →
      ∃ t : Trace, e.post.recorder.delivered = e.pre.recorder.delivered ++ [t] ∧
        isKept t = true ∧
          t.status = runStatus (Service.run L adapter req ⟨db, e.pre.engine⟩).1 ∧
            (req.requestId ≠ [] → t.id = req.requestId) ∧
              Fields.get (py "source") t.metadata = some (.str (py "playground"))

end

section

variable {σ : Type} {L : Library} {O : Observer} {adapter : Adapter σ} {cfg : Instrument}

/-- A thread that is free after a request leaves all of them free. -/
theorem Server.Free.after {s : Server σ} {worker : ℕ} {t : Exchange σ} (h : s.Free)
    (ht : t.recording.thread = {}) : (s.after worker t).Free := by
  intro i
  change Function.update s.threads worker t.recording.thread i = _
  by_cases hi : i = worker
  · rw [hi, Function.update_self, ht]
  · rw [Function.update_of_ne hi]
    exact h i

/-- One request, on a server whose threads are free. -/
theorem ask_kept (hO : O.Contained) (hleaves : adapter.LeavesMeta) (a : Ask) {s : Server σ}
    (hfree : s.Free) : AskKept L O adapter cfg ⟨s, a, a.after L O adapter cfg s⟩ ∧
      (a.after L O adapter cfg s).Free := by
  cases a with
  | engine req =>
    obtain ⟨hanswer, hservice, hfinished⟩ := served_any (L := L) adapter cfg req hO hfree
    exact ⟨⟨hanswer, hservice, nofun, nofun, nofun⟩, hfinished.after hfree⟩
  | playground gate req =>
    obtain ⟨answer, t, hrun, hserve, hgate⟩ := playground_runs L gate req hO hleaves
      (hfree.starting req.worker) rfl
    have hserve' : Service.playground L adapter gate req s.service = (answer, t.service) := hserve
    -- it is free again either way
    have hthread : t.recording.thread = {} := by
      rcases hgate with ⟨_, _, -, hsame⟩ | ⟨_, -, hrecorded⟩
      · rw [hsame]
        exact hfree req.worker
      · exact hrecorded.thread
    refine ⟨⟨?_, ?_, ?_, ?_, ?_⟩, ?_⟩
    · rw [Ask.answer, Ask.serve, hrun, hserve']
    · rw [Ask.after, Ask.serve, hrun, hserve']
      rfl
    · intro gate' req' failure db hact hfailure
      cases hact
      rcases hgate with ⟨_, _, -, hsame⟩ | ⟨_, hpassed, -⟩
      · rw [Ask.after, hrun]
        exact congrArg Recording.recorder hsame
      · cases hpassed.symm.trans hfailure
    · intro gate' req' hact hoff
      cases hact
      rw [Ask.after, hrun]
      rcases hgate with ⟨_, _, -, hsame⟩ | ⟨_, -, hrecorded⟩
      · exact congrArg Recording.recorder hsame
      · exact hrecorded.off hoff
    · intro gate' req' db hact hpass hon
      cases hact
      rcases hgate with ⟨_, _, hfailed, -⟩ | ⟨db', hpassed, hrecorded⟩
      · cases hfailed.symm.trans hpass
      · obtain rfl : db' = db := congrArg Prod.snd (hpassed.symm.trans hpass)
        rw [Ask.after, hrun]
        exact hrecorded.on hon
    · rw [Ask.after, hrun]
      exact hfree.after hthread

/-- **A playground run mirrors the engine.** Whatever requests come in whatever order, a run
that its gate lets through is answered as a `POST /predict` of its body would be, recorder or
none, and leaves one trace, which is kept whatever the sample rate is. -/
theorem playground_mirrors (hO : O.Contained) (hleaves : adapter.LeavesMeta) {o s : Server σ}
    {es : List (Machine.Event (Server σ) Ask)} (hfree : o.Free)
    (hrun : (console L O adapter cfg).Run o es s) : ∀ e ∈ es, AskKept L O adapter cfg e := by
  intro e he
  obtain ⟨-, hkept⟩ := hrun.invariant (G := fun _ _ => True) (I := Server.Free)
    (fun s a t hs _ hstep => Option.some.inj hstep ▸ (ask_kept hO hleaves a hs).2) hfree
    fun _ _ => trivial
  have hpost : e.act.after L O adapter cfg e.pre = e.post :=
    Option.some.inj (hrun.step_of_mem e he)
  have hone : AskKept L O adapter cfg ⟨e.pre, e.act, e.act.after L O adapter cfg e.pre⟩ :=
    (ask_kept hO hleaves e.act (hkept e he).1).1
  rwa [hpost] at hone

end

/-- A recorder that keeps nothing of its own accord. -/
def keepsNone : Server PUnit := serverWith { sampleRate := 0 }

/-- A `POST /predict`, then a run with its body. -/
def predictThenRun : List Ask := [.engine askPredict, .playground (pure ⟨⟩) askPredict]

theorem oneAnswer_leaves : oneAnswer.LeavesMeta := by
  intro _ _
  change StepsLeaveMeta [.span (py "queue.wait") [] _ []]
  simp only [StepsLeaveMeta, Step.LeavesMeta, and_self]

theorem playground_mirrors_keepsNone :
    ((console plainLibrary (sinkRaises none) oneAnswer {}).final keepsNone
        predictThenRun).recorder.delivered.map isKept = [false, true] ∧
      ∀ e ∈ (console plainLibrary (sinkRaises none) oneAnswer {}).events keepsNone predictThenRun,
        AskKept plainLibrary (sinkRaises none) oneAnswer {} e :=
  ⟨by decide +kernel, playground_mirrors ⟨fun _ _ => rfl, fun _ _ => rfl⟩
    oneAnswer_leaves (fun _ => rfl) (Machine.Run.of_final rfl)⟩

end Engine

end LayaWatch
