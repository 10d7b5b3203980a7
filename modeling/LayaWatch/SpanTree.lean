import LayaWatch.Sampling

/-!
# The tree of spans

Any sequence of calls on one trace before it is finished: spans are entered, and exited
in whatever order or never, and events are recorded. What is still on the stack when the
trace is finished closes with it, so an exit out of order never breaks the tree:
`SpanInv` is kept by every call, and `finish` reads the tree off it (`span_tree`).
-/

namespace LayaWatch

/-- A call on the context. -/
inductive SpanOp where
  /-- a span is entered -/
  | enter (name : PyStr) (attrs : Fields) (input output : Option PyStr)
  /-- the `k`-th span is exited -/
  | exit (k : ℕ) (raised : Bool)
  /-- an event is recorded -/
  | event (name : PyStr) (attrs : Fields) (input output : Option PyStr)
  /-- `set` -/
  | set (values : List FieldValue)
  /-- `set_meta` -/
  | setMeta (entries : Fields)

/-- The span that a call exits. -/
def SpanOp.exits : SpanOp → Option ℕ
  | exit k _ => some k
  | _ => none

/-- One trace, with the spans that were entered. -/
structure Tracing where
  /-- the recorder, the thread and the context -/
  recording : Recording
  /-- the observations of the `_Span`s, in the order in which they were entered -/
  spans : List ℕ := []

section

variable (A : Ambient)

/-- One call; where it raises, the caller goes on. -/
def Tracing.call (t : Tracing) : SpanOp → Tracing
  | .enter name attrs input output =>
    match Context.enterSpan A name attrs input output t.recording with
    | (.ok (some i), s) => ⟨s, t.spans ++ [i]⟩
    | (_, s) => { t with recording := s }
  | .exit k raised =>
    match t.spans[k]? with
    | some i => { t with recording := (Context.exitSpan A (some i) raised t.recording).2 }
    | none => t
  | .event name attrs input output =>
    { t with recording := (Context.event A name attrs input output t.recording).2 }
  | .set values => { t with recording := (Context.set values t.recording).2 }
  | .setMeta entries => { t with recording := (Context.setMeta entries t.recording).2 }

/-- `start`, the calls, and `finish`. -/
def traceOf (ref : ℕ) (route method requestId : PyStr) (ops : List SpanOp) (status : ℤ)
    (s : Recording) : Recording :=
  (Context.finish A status
    (ops.foldl (Tracing.call A)
      ⟨(Recorder.start A ref route method requestId s).2, []⟩).recording).2

end

/-- Where an observation ends. -/
def Observation.endMs (o : Observation) : ℚ := o.startMs + o.durationMs

/-- The interval of an observation lies within that of another one. -/
def Observation.Within (o p : Observation) : Prop := p.startMs ≤ o.startMs ∧ o.endMs ≤ p.endMs

/-- The observations without a parent. -/
def Trace.topLevel (t : Trace) : List Observation :=
  t.observations.filter fun o => o.parentId.isNone

/-- The observations of a trace are a tree, and the totals agree. -/
structure SpanTree (t : Trace) : Prop where
  /-- a parent was entered before, and lasts at least as long -/
  parents : ∀ (i : ℕ) o, t.observations[i]? = some o → ∀ id, o.parentId = some id →
    ∃ (j : ℕ) (p : Observation), j < i ∧ t.observations[j]? = some p ∧ p.id = id ∧ o.Within p
  /-- all lie within the trace -/
  within : ∀ o ∈ t.observations, 0 ≤ o.startMs ∧ 0 ≤ o.durationMs ∧ o.endMs ≤ t.durationMs
  /-- those without a parent come one after the other -/
  topLevel : t.topLevel.Pairwise fun o p => o.endMs ≤ p.startMs
  /-- what they leave over is the framework's -/
  totals : ∃ framework, 0 ≤ framework ∧
    Fields.get (py "framework_ms") t.metadata = some (.float framework) ∧
    framework + (t.topLevel.map Observation.durationMs).sum = t.durationMs

/-! ## The invariant -/

/-- The time since the trace began, at a reading of the clock. -/
def Context.elapsed (A : Ambient) (c : Context) (tick : ℕ) : ℚ := (A.clock tick - c.t0) * 1000

/-- What holds of an open context between two calls, with the spans entered and the numbers
of those exited. -/
structure SpanInv (A : Ambient) (tick : ℕ) (c : Context) (entered exited : List ℕ) : Prop where
  /-- the trace is open -/
  unfinished : c.finished = false
  /-- it has begun -/
  began : c.t0 ≤ A.clock tick
  /-- the stack names observations -/
  stack : ∀ i ∈ c.stack, i < c.observations.length
  /-- the innermost one is the latest -/
  sorted : c.stack.Pairwise (· > ·)
  /-- all have begun since -/
  started : ∀ o ∈ c.observations, 0 ≤ o.startMs ∧ o.startMs ≤ c.elapsed A tick
  /-- what is off the stack is over -/
  settled : ∀ (i : ℕ) o, c.observations[i]? = some o → i ∉ c.stack →
    0 ≤ o.durationMs ∧ o.endMs ≤ c.elapsed A tick
  /-- a parent was entered before, and leaves the stack later -/
  parents : ∀ (i : ℕ) o, c.observations[i]? = some o → ∀ id, o.parentId = some id →
    ∃ (j : ℕ) (p : Observation), j < i ∧ c.observations[j]? = some p ∧ p.id = id ∧
      p.startMs ≤ o.startMs ∧ (i ∈ c.stack → j ∈ c.stack) ∧ (j ∉ c.stack → o.endMs ≤ p.endMs)
  /-- without a parent, one is over before the next one begins -/
  topLevel : ∀ (i j : ℕ) o p, i < j → c.observations[i]? = some o →
    c.observations[j]? = some p → o.parentId = none → p.parentId = none →
    i ∉ c.stack ∧ o.endMs ≤ p.startMs
  /-- each span is entered once -/
  distinct : entered.Nodup
  /-- the spans are observations -/
  known : ∀ i ∈ entered, i < c.observations.length
  /-- a span that was not exited is on the stack -/
  running : ∀ (k i : ℕ), entered[k]? = some i → k ∉ exited → i ∈ c.stack

section

variable {A : Ambient} {r : Recorder} {tick n k : ℕ} {c : Context} {entered exited : List ℕ}
  {o : Observation}

theorem Context.elapsed_mono (hclock : Monotone A.clock) (h : tick ≤ n) :
    c.elapsed A tick ≤ c.elapsed A n := by
  unfold Context.elapsed
  have hle := hclock h
  linarith

/-- Time passes. -/
theorem SpanInv.later (hclock : Monotone A.clock) (h : SpanInv A tick c entered exited) :
    SpanInv A (tick + 1) c entered exited := by
  have hle : c.elapsed A tick ≤ c.elapsed A (tick + 1) :=
    Context.elapsed_mono hclock (Nat.le_succ tick)
  refine { h with
    began := h.began.trans (hclock (Nat.le_succ tick))
    started := fun o ho => ?_
    settled := fun i o ho hi => ?_ }
  · exact ⟨(h.started o ho).1, (h.started o ho).2.trans hle⟩
  · exact ⟨(h.settled i o ho hi).1, (h.settled i o ho hi).2.trans hle⟩

/-- A span's number may be used up. -/
theorem SpanInv.spent (h : SpanInv A tick c entered exited) :
    SpanInv A tick c entered (exited ++ [k]) where
  unfinished := h.unfinished
  began := h.began
  stack := h.stack
  sorted := h.sorted
  started := h.started
  settled := h.settled
  parents := h.parents
  topLevel := h.topLevel
  distinct := h.distinct
  known := h.known
  running := fun k i hi hk => h.running k i hi fun hmem => hk (List.mem_append_left _ hmem)

/-- The innermost open observation, as a new one sees it. -/
theorem SpanInv.head (h : SpanInv A tick c entered exited) :
    c.stack = [] ∧ (c.stack.head?.bind fun i => c.observations[i]?) = none ∨
      ∃ (j : ℕ) (p : Observation), j ∈ c.stack ∧ c.observations[j]? = some p ∧
        (c.stack.head?.bind fun i => c.observations[i]?) = some p := by
  rcases hs : c.stack with _ | ⟨j, rest⟩
  · exact Or.inl ⟨rfl, rfl⟩
  · have hj := h.stack j (by rw [hs]; exact List.mem_cons_self)
    exact Or.inr ⟨j, _, List.mem_cons_self, List.getElem?_eq_getElem hj,
      List.getElem?_eq_getElem hj⟩

theorem getElem?_snoc {α : Type} {l : List α} {a b : α} {i : ℕ} :
    (l ++ [a])[i]? = some b ↔ l[i]? = some b ∨ i = l.length ∧ b = a := by
  rw [List.getElem?_append]
  split
  · next hlt =>
    constructor
    · exact Or.inl
    · rintro (h | ⟨rfl, -⟩)
      · exact h
      · exact absurd hlt (Nat.lt_irrefl _)
  · next hge =>
    have hnone : l[i]? = none := List.getElem?_eq_none (Nat.le_of_not_lt hge)
    rw [hnone, List.getElem?_singleton]
    constructor
    · intro h
      split at h
      · next hz =>
        refine Or.inr ⟨?_, (Option.some.inj h).symm⟩
        omega
      · cases h
    · rintro (h | ⟨rfl, rfl⟩)
      · cases h
      · rw [if_pos (Nat.sub_self _)]

/-- A new observation begins now, below the innermost open one; a span is pushed. -/
theorem SpanInv.observe (h : SpanInv A tick c entered exited) (pushed : Bool)
    (hparent : o.parentId =
      (c.stack.head?.bind fun i => c.observations[i]?).map Observation.id)
    (hstart : o.startMs = c.elapsed A tick) (hduration : o.durationMs = 0) :
    SpanInv A tick
      { c with
        observations := c.observations ++ [o]
        stack := if pushed then c.observations.length :: c.stack else c.stack }
      (if pushed then entered ++ [c.observations.length] else entered) exited := by
  -- the stack is the same below the new observation
  have hmem : ∀ i < c.observations.length,
      (i ∈ (if pushed then c.observations.length :: c.stack else c.stack)) ↔ i ∈ c.stack := by
    intro i hi
    cases pushed with
    | false => rfl
    | true => simp [Nat.ne_of_lt hi]
  have hlt : ∀ (i : ℕ) p, c.observations[i]? = some p → i < c.observations.length :=
    fun i p hp => (List.getElem?_eq_some_iff.mp hp).1
  have hnow : 0 ≤ c.elapsed A tick := by
    have hbegan := h.began
    unfold Context.elapsed
    linarith
  refine ⟨h.unfinished, h.began, ?_, ?_, ?_, ?_, ?_, ?_, ?_, ?_, ?_⟩
  · intro i hi
    simp only [List.length_append, List.length_singleton]
    cases pushed with
    | false => exact Nat.lt_succ_of_lt (h.stack i hi)
    | true =>
      rcases List.mem_cons.mp hi with rfl | hi
      · exact Nat.lt_succ_self _
      · exact Nat.lt_succ_of_lt (h.stack i hi)
  · cases pushed with
    | false => exact h.sorted
    | true => exact List.pairwise_cons.mpr ⟨fun i hi => h.stack i hi, h.sorted⟩
  · intro p hp
    rcases List.mem_append.mp hp with hp | hp
    · exact h.started p hp
    · obtain rfl := List.mem_singleton.mp hp
      rw [hstart]
      exact ⟨hnow, le_refl _⟩
  · intro i p hp hi
    rcases getElem?_snoc.mp hp with hp | ⟨rfl, rfl⟩
    · exact h.settled i p hp (mt (hmem i (hlt i p hp)).mpr hi)
    · unfold Observation.endMs
      rw [hduration, hstart, add_zero]
      exact ⟨le_refl _, le_refl _⟩
  · intro i p hp id hid
    rcases getElem?_snoc.mp hp with hp | ⟨rfl, rfl⟩
    · obtain ⟨j, q, hj, hq, hqid, hle, hin, hout⟩ := h.parents i p hp id hid
      have hi := hlt i p hp
      refine ⟨j, q, hj, getElem?_snoc.mpr (Or.inl hq), hqid, hle, ?_, ?_⟩
      · rw [hmem i hi, hmem j (hj.trans hi)]
        exact hin
      · rw [hmem j (hj.trans hi)]
        exact hout
    · rcases h.head with ⟨-, hnone⟩ | ⟨j, q, hj, hq, hhead⟩
      · rw [hparent, hnone] at hid
        cases hid
      · rw [hparent, hhead] at hid
        have hjlt := hlt j q hq
        have hjmem := (hmem j hjlt).mpr hj
        refine ⟨j, q, hjlt, getElem?_snoc.mpr (Or.inl hq), Option.some.inj hid, ?_,
          fun _ => hjmem, fun hno => absurd hjmem hno⟩
        rw [hstart]
        exact (h.started q (List.mem_of_getElem? hq)).2
  · intro i j p q hij hp hq hptop hqtop
    rcases getElem?_snoc.mp hq with hq | ⟨rfl, rfl⟩
    · have hi := hij.trans (hlt j q hq)
      rcases getElem?_snoc.mp hp with hp | ⟨rfl, -⟩
      · rw [hmem i hi]
        exact h.topLevel i j p q hij hp hq hptop hqtop
      · exact absurd hi (Nat.lt_irrefl _)
    · rcases getElem?_snoc.mp hp with hp | ⟨rfl, -⟩
      · -- a new observation without a parent finds the stack empty
        rcases h.head with ⟨hempty, -⟩ | ⟨_, _, -, -, hhead⟩
        · have hi : i ∉ c.stack := by
            rw [hempty]
            exact List.not_mem_nil
          rw [hmem i hij, hstart]
          exact ⟨hi, (h.settled i p hp hi).2⟩
        · rw [hparent, hhead] at hqtop
          cases hqtop
      · exact absurd hij (Nat.lt_irrefl _)
  · cases pushed with
    | false => exact h.distinct
    | true =>
      refine List.nodup_append.mpr ⟨h.distinct, List.nodup_singleton _, ?_⟩
      intro i hi j hj
      rw [List.mem_singleton.mp hj]
      exact Nat.ne_of_lt (h.known i hi)
  · intro i hi
    simp only [List.length_append, List.length_singleton]
    cases pushed with
    | false => exact Nat.lt_succ_of_lt (h.known i hi)
    | true =>
      rcases List.mem_append.mp hi with hi | hi
      · exact Nat.lt_succ_of_lt (h.known i hi)
      · rw [List.mem_singleton.mp hi]
        exact Nat.lt_succ_self _
  · intro k i hi hk
    cases pushed with
    | false => exact h.running k i hi hk
    | true =>
      rcases getElem?_snoc.mp hi with hi | ⟨-, rfl⟩
      · exact List.mem_cons_of_mem _ (h.running k i hi hk)
      · exact List.mem_cons_self

theorem getElem?_updateAt {α : Type} {i j : ℕ} {f : α → α} {l : List α} :
    (updateAt i f l)[j]? = l[j]?.map fun a => if j = i then f a else a := List.getElem?_mapIdx

/-- What `__exit__` writes into an observation. -/
def Observation.exit (now : ℚ) (raised : Bool) (o : Observation) : Observation :=
  { o with
    durationMs := now - o.startMs
    status := if raised then py "error" else o.status }

theorem Observation.endMs_exit (now : ℚ) (raised : Bool) (o : Observation) :
    (o.exit now raised).endMs = now := by
  unfold Observation.endMs Observation.exit
  dsimp only
  linarith

/-- Who is on the stack after an exit: the innermost one is popped. -/
theorem SpanInv.mem_exit (h : SpanInv A tick c entered exited) {i j : ℕ} :
    j ∈ (if c.stack.head? = some i then c.stack.tail else c.stack) ↔
      j ∈ c.stack ∧ (c.stack.head? = some i → j < i) := by
  split
  · next hhead =>
    obtain ⟨rest, hrest⟩ := List.head?_eq_some_iff.mp hhead
    have hsorted := h.sorted
    rw [hrest] at hsorted ⊢
    rw [List.tail_cons, List.head?_cons]
    have hless := (List.pairwise_cons.mp hsorted).1
    constructor
    · intro hj
      exact ⟨List.mem_cons_of_mem _ hj, fun _ => hless j hj⟩
    · rintro ⟨hj, hlt⟩
      exact (List.mem_cons.mp hj).resolve_left (Nat.ne_of_lt (hlt rfl))
  · next hhead => exact ⟨fun hj => ⟨hj, fun h => absurd h hhead⟩, fun hj => hj.1⟩

/-- An exit closes its span, and pops it if it is the innermost one. -/
theorem SpanInv.exit (h : SpanInv A tick c entered exited) {i : ℕ} (hk : entered[k]? = some i)
    (hnew : k ∉ exited) (raised : Bool) :
    SpanInv A tick
      { c with
        observations := updateAt i (Observation.exit (c.elapsed A tick) raised) c.observations
        stack := if c.stack.head? = some i then c.stack.tail else c.stack }
      entered (exited ++ [k]) := by
  have hi : i ∈ c.stack := h.running k i hk hnew
  -- the innermost one is the latest
  have hmax : c.stack.head? = some i → ∀ j ∈ c.stack, j ≤ i := by
    intro hhead j hj
    obtain ⟨rest, hrest⟩ := List.head?_eq_some_iff.mp hhead
    have hsorted := h.sorted
    rw [hrest] at hsorted hj
    rcases List.mem_cons.mp hj with rfl | hj
    · exact le_refl _
    · exact Nat.le_of_lt ((List.pairwise_cons.mp hsorted).1 j hj)
  have hold : ∀ (j : ℕ) p', (updateAt i (Observation.exit (c.elapsed A tick) raised)
      c.observations)[j]? = some p' → ∃ p, c.observations[j]? = some p ∧
        p'.parentId = p.parentId ∧ p'.startMs = p.startMs ∧
        p' = if j = i then p.exit (c.elapsed A tick) raised else p := by
    intro j p' hp'
    rw [getElem?_updateAt] at hp'
    obtain ⟨p, hp, rfl⟩ := Option.map_eq_some_iff.mp hp'
    refine ⟨p, hp, ?_, ?_, rfl⟩ <;> split <;> rfl
  have hnow : c.elapsed A tick ≤ c.elapsed A tick := le_refl _
  refine ⟨h.unfinished, h.began, ?_, ?_, ?_, ?_, ?_, ?_, h.distinct, ?_, ?_⟩
  · intro j hj
    unfold updateAt
    rw [List.length_mapIdx]
    exact h.stack j (h.mem_exit.mp hj).1
  · dsimp only
    split
    · exact h.sorted.tail
    · exact h.sorted
  · intro p' hp'
    obtain ⟨j, hj⟩ := List.mem_iff_getElem?.mp hp'
    obtain ⟨p, hp, -, hstart, -⟩ := hold j p' hj
    rw [hstart]
    exact h.started p (List.mem_of_getElem? hp)
  · intro j p' hp' hj
    obtain ⟨p, hp, -, -, rfl⟩ := hold j p' hp'
    split
    · rw [Observation.endMs_exit]
      exact ⟨sub_nonneg.mpr (h.started p (List.mem_of_getElem? hp)).2, hnow⟩
    · next hne =>
      refine h.settled j p hp fun hmem => hj (h.mem_exit.mpr ⟨hmem, fun hhead => ?_⟩)
      exact Nat.lt_of_le_of_ne (hmax hhead j hmem) hne
  · intro j p' hp' id hid
    obtain ⟨p, hp, hparent, hstart, rfl⟩ := hold j p' hp'
    obtain ⟨w, q, hw, hq, hqid, hle, hin, hout⟩ := h.parents j p hp id (hparent.symm.trans hid)
    refine ⟨w, if w = i then q.exit (c.elapsed A tick) raised else q, hw, ?_, ?_, ?_, ?_, ?_⟩
    · rw [getElem?_updateAt, hq]
      rfl
    · rw [← hqid]
      split <;> rfl
    · rw [hstart]
      refine le_trans (le_of_eq ?_) hle
      split <;> rfl
    · intro hj
      obtain ⟨hj, hlt⟩ := h.mem_exit.mp hj
      exact h.mem_exit.mpr ⟨hin hj, fun hhead => hw.trans (hlt hhead)⟩
    · intro hwout
      by_cases hwin : w ∈ c.stack
      · -- it is the parent that leaves the stack
        have hpop : c.stack.head? = some i ∧ ¬w < i := by
          by_contra hno
          exact hwout (h.mem_exit.mpr ⟨hwin, fun hhead => by_contra fun hge => hno ⟨hhead, hge⟩⟩)
        obtain rfl : w = i := Nat.le_antisymm (hmax hpop.1 w hwin) (Nat.le_of_not_lt hpop.2)
        rw [if_pos rfl, Observation.endMs_exit, if_neg (Nat.ne_of_gt hw)]
        exact (h.settled j p hp fun hj => absurd (hmax hpop.1 j hj) (Nat.not_le_of_lt hw)).2
      · have hjout : j ∉ c.stack := fun hj => hwin (hin hj)
        have hji : j ≠ i := fun heq => hjout (heq ▸ hi)
        have hwi : w ≠ i := fun heq => hwin (heq ▸ hi)
        rw [if_neg hji, if_neg hwi]
        exact hout hwin
  · intro j l p' q' hjl hp' hq' hptop hqtop
    obtain ⟨p, hp, hparent, -, rfl⟩ := hold j p' hp'
    obtain ⟨q, hq, hqparent, hqstart, -⟩ := hold l q' hq'
    obtain ⟨hjout, hle⟩ := h.topLevel j l p q hjl hp hq (hparent.symm.trans hptop)
      (hqparent.symm.trans hqtop)
    refine ⟨fun hj => hjout (h.mem_exit.mp hj).1, ?_⟩
    have hji : j ≠ i := fun heq => hjout (heq ▸ hi)
    rw [hqstart, if_neg hji]
    exact hle
  · intro j hj
    unfold updateAt
    rw [List.length_mapIdx]
    exact h.known j hj
  · intro l j hj hl
    have hold : l ∉ exited := fun hmem => hl (List.mem_append_left _ hmem)
    refine h.mem_exit.mpr ⟨h.running l j hj hold, fun hhead => ?_⟩
    refine Nat.lt_of_le_of_ne (hmax hhead j (h.running l j hj hold)) ?_
    rintro rfl
    -- the same observation would be two spans
    obtain ⟨hlk, hlj⟩ := List.getElem?_eq_some_iff.mp hj
    obtain ⟨hkk, hkj⟩ := List.getElem?_eq_some_iff.mp hk
    have heq := (h.distinct.getElem_inj_iff).mp (hlj.trans hkj.symm)
    exact hl (heq ▸ List.mem_append_right _ (List.mem_singleton_self _))

/-! ## The finished trace -/

/-- Intervals one after the other are not longer than what they lie in. -/
theorem sum_durations_le {hi : ℚ} : ∀ {l : List Observation} {lo : ℚ}, lo ≤ hi →
    (∀ o ∈ l, lo ≤ o.startMs ∧ o.endMs ≤ hi) →
    (l.Pairwise fun o p => o.endMs ≤ p.startMs) →
    (l.map Observation.durationMs).sum ≤ hi - lo := by
  intro l
  induction l with
  | nil =>
    intro lo hle _ _
    simpa using hle
  | cons o l ih =>
    intro lo hle hin hpair
    obtain ⟨hnext, hpair⟩ := List.pairwise_cons.mp hpair
    obtain ⟨hstart, hend⟩ := hin o List.mem_cons_self
    have hrest := ih hend (fun p hp => ⟨hnext p hp, (hin p (List.mem_cons_of_mem _ hp)).2⟩) hpair
    rw [List.map_cons, List.sum_cons]
    unfold Observation.endMs at hrest
    linarith

theorem SpanInv.elapsed_nonneg (h : SpanInv A tick c entered exited) :
    0 ≤ c.elapsed A tick := by
  have hbegan := h.began
  unfold Context.elapsed
  linarith

/-- An observation of the finished trace: what was still open ends with the trace. -/
theorem SpanInv.getElem?_closed (h : SpanInv A tick c entered exited) {i : ℕ}
    {o' : Observation} (ho : (c.closed (c.elapsed A tick))[i]? = some o') :
    ∃ o, c.observations[i]? = some o ∧ o'.id = o.id ∧ o'.parentId = o.parentId ∧
      o'.startMs = o.startMs ∧ 0 ≤ o'.durationMs ∧
      o'.endMs = if i ∈ c.stack then c.elapsed A tick else o.endMs := by
  unfold Context.closed at ho
  rw [List.getElem?_mapIdx] at ho
  obtain ⟨o, hold, rfl⟩ := Option.map_eq_some_iff.mp ho
  refine ⟨o, hold, ?_⟩
  by_cases hi : i ∈ c.stack
  · have hlong := sub_nonneg.mpr (h.started o (List.mem_of_getElem? hold)).2
    rw [if_pos hi, if_pos hi, max_eq_right hlong]
    refine ⟨rfl, rfl, rfl, hlong, ?_⟩
    unfold Observation.endMs
    dsimp only
    linarith
  · rw [if_neg hi, if_neg hi]
    exact ⟨rfl, rfl, rfl, (h.settled i o hold hi).1, rfl⟩

theorem SpanInv.endMs_closed (h : SpanInv A tick c entered exited) {i : ℕ}
    {o' : Observation} (ho : (c.closed (c.elapsed A tick))[i]? = some o') :
    o'.endMs ≤ c.elapsed A tick := by
  obtain ⟨o, hold, -, -, -, -, hend⟩ := h.getElem?_closed ho
  rw [hend]
  split
  · exact le_refl _
  · next hi => exact (h.settled i o hold hi).2

theorem Context.closed_exists (duration : ℚ) {i : ℕ} (ho : c.observations[i]? = some o) :
    ∃ o', (c.closed duration)[i]? = some o' := by
  unfold Context.closed
  rw [List.getElem?_mapIdx, ho]
  exact ⟨_, rfl⟩

theorem get_framework (c : Context) (r : Recorder) (status : ℤ) (duration : ℚ) :
    Fields.get (py "framework_ms") (c.assemble r status duration true).metadata =
      some (.float (c.framework duration)) := by
  unfold Context.assemble
  dsimp only
  rw [Fields.get_set_ne _ (by decide), Fields.get_set_ne _ (by decide), Fields.get_set]
  rfl

/-- What `finish` assembles of a kept trace is a tree. -/
theorem SpanInv.tree (h : SpanInv A tick c entered exited) (r : Recorder) (status : ℤ) :
    SpanTree (c.assemble r status (max 0 (c.elapsed A tick)) true) := by
  rw [max_eq_right h.elapsed_nonneg]
  have hpair : ((c.closed (c.elapsed A tick)).filter fun o => o.parentId.isNone).Pairwise
      fun o p => o.endMs ≤ p.startMs := by
    rw [List.pairwise_filter, List.pairwise_iff_getElem]
    intro i j hi hj hij htop htop'
    obtain ⟨o, ho, -, hparent, -, -, hend⟩ := h.getElem?_closed (List.getElem?_eq_getElem hi)
    obtain ⟨p, hp, -, hparent', hstart, -, -⟩ := h.getElem?_closed (List.getElem?_eq_getElem hj)
    obtain ⟨hout, hle⟩ := h.topLevel i j o p hij ho hp
      (hparent.symm.trans (Option.isNone_iff_eq_none.mp htop))
      (hparent'.symm.trans (Option.isNone_iff_eq_none.mp htop'))
    rw [hend, hstart, if_neg hout]
    exact hle
  have hin : ∀ o ∈ c.closed (c.elapsed A tick),
      0 ≤ o.startMs ∧ 0 ≤ o.durationMs ∧ o.endMs ≤ c.elapsed A tick := by
    intro o' ho'
    obtain ⟨i, hi⟩ := List.mem_iff_getElem?.mp ho'
    obtain ⟨o, ho, -, -, hstart, hduration, -⟩ := h.getElem?_closed hi
    refine ⟨?_, hduration, h.endMs_closed hi⟩
    rw [hstart]
    exact (h.started o (List.mem_of_getElem? ho)).1
  have hsum := sum_durations_le h.elapsed_nonneg
    (fun o ho => ⟨(hin o (List.mem_of_mem_filter ho)).1, (hin o (List.mem_of_mem_filter ho)).2.2⟩)
    hpair
  rw [sub_zero] at hsum
  refine ⟨?_, hin, hpair, c.framework (c.elapsed A tick), le_max_left _ _, ?_, ?_⟩
  · intro i o' ho' id hid
    obtain ⟨o, ho, -, hparent, hstart, -, hend⟩ := h.getElem?_closed ho'
    obtain ⟨j, p, hj, hp, hpid, hle, hin, hout⟩ := h.parents i o ho id (hparent.symm.trans hid)
    obtain ⟨p', hp'⟩ := Context.closed_exists (c.elapsed A tick) hp
    obtain ⟨q, hq, hqid, -, hqstart, -, hqend⟩ := h.getElem?_closed hp'
    obtain rfl := Option.some.inj (hp.symm.trans hq)
    refine ⟨j, p', hj, hp', hqid.trans hpid, ?_, ?_⟩
    · rw [hqstart, hstart]
      exact hle
    · by_cases hjin : j ∈ c.stack
      · rw [hqend, if_pos hjin]
        exact h.endMs_closed ho'
      · rw [hqend, hend, if_neg hjin, if_neg fun hi => hjin (hin hi)]
        exact hout hjin
  · exact get_framework _ _ _ _
  · unfold Context.framework
    rw [max_eq_right (sub_nonneg.mpr hsum)]
    exact sub_add_cancel _ _

/-! ## The calls -/

/-- A trace is in flight, and the recorder is as it was. -/
def Tracing.Keeps (A : Ambient) (r : Recorder) (exited : List ℕ) (t : Tracing) : Prop :=
  t.recording.recorder = r ∧
    ∃ c, t.recording.ctx = some c ∧ SpanInv A t.recording.tick c t.spans exited

/-- A method raises, or it does what it says; either way the clock was read. -/
theorem Context.act_cases {α : Type} {inert : α} {f : Context → ℕ → Except Exc (α × Context)}
    {x : Traced α} (hx : x = act inert f) {s : Recording} (hc : s.ctx = some c) :
    (∃ e, x s = (.error e, { s with tick := s.tick + 1 })) ∨
      ∃ p, f c s.tick = .ok p ∧
        x s = (.ok p.1, { s with ctx := some p.2, tick := s.tick + 1 }) := by
  subst hx
  rcases hfc : f c s.tick with e | p
  · exact Or.inl ⟨e, act_error hc hfc⟩
  · exact Or.inr ⟨p, rfl, act_ok hc hfc⟩

/-- The fields of a trace are not its observations. -/
theorem SpanInv.fields (h : SpanInv A tick c entered exited) (fields : TraceFields) :
    SpanInv A tick { c with fields := fields } entered exited where
  unfinished := h.unfinished
  began := h.began
  stack := h.stack
  sorted := h.sorted
  started := h.started
  settled := h.settled
  parents := h.parents
  topLevel := h.topLevel
  distinct := h.distinct
  known := h.known
  running := h.running

theorem Context.observe_parentId (c : Context) (name : PyStr) (entry : SpanSpec) (attrs : Fields)
    (input output : Option PyStr) :
    (c.observe A tick name entry attrs input output).parentId =
      (c.stack.head?.bind fun i => c.observations[i]?).map Observation.id := rfl

theorem Tracing.keeps_enter (hclock : Monotone A.clock) {t : Tracing} (h : t.Keeps A r exited)
    (name : PyStr) (attrs : Fields) (input output : Option PyStr) :
    (t.call A (.enter name attrs input output)).Keeps A r exited := by
  obtain ⟨hr, c, hc, hinv⟩ := h
  unfold Tracing.call
  dsimp only
  obtain ⟨e, he⟩ | ⟨p, hp, he⟩ :=
    Context.act_cases (x := Context.enterSpan A name attrs input output) rfl hc
  · rw [he]
    exact ⟨hr, c, hc, hinv.later hclock⟩
  · obtain ⟨entry, valid, rfl⟩ := Context.observed_ok hp
    rw [he]
    exact ⟨hr, _, rfl, (hinv.observe true (Context.observe_parentId ..) rfl rfl).later hclock⟩

theorem Tracing.keeps_event (hclock : Monotone A.clock) {t : Tracing} (h : t.Keeps A r exited)
    (name : PyStr) (attrs : Fields) (input output : Option PyStr) :
    (t.call A (.event name attrs input output)).Keeps A r exited := by
  obtain ⟨hr, c, hc, hinv⟩ := h
  unfold Tracing.call
  dsimp only
  obtain ⟨e, he⟩ | ⟨p, hp, he⟩ :=
    Context.act_cases (x := Context.event A name attrs input output) rfl hc
  · rw [he]
    exact ⟨hr, c, hc, hinv.later hclock⟩
  · obtain ⟨entry, valid, rfl⟩ := Context.observed_ok hp
    rw [he]
    exact ⟨hr, _, rfl, (hinv.observe false (Context.observe_parentId ..) rfl rfl).later hclock⟩

theorem Tracing.keeps_exit (hclock : Monotone A.clock) {t : Tracing} (h : t.Keeps A r exited)
    (hnew : k ∉ exited) (raised : Bool) :
    (t.call A (.exit k raised)).Keeps A r (exited ++ [k]) := by
  obtain ⟨hr, c, hc, hinv⟩ := h
  unfold Tracing.call
  dsimp only
  split
  · next i hi =>
    unfold Context.exitSpan
    rw [Context.act_ok hc rfl]
    exact ⟨hr, _, rfl, (hinv.exit hi hnew raised).later hclock⟩
  · exact ⟨hr, c, hc, hinv.spent⟩

theorem Tracing.keeps_set (hclock : Monotone A.clock) {t : Tracing} (h : t.Keeps A r exited)
    (values : List FieldValue) : (t.call A (.set values)).Keeps A r exited := by
  obtain ⟨hr, c, hc, hinv⟩ := h
  unfold Tracing.call Context.set
  dsimp only
  rw [Context.act_ok hc (by rw [Context.checkActive_open hinv.unfinished]; rfl)]
  exact ⟨hr, _, rfl, (hinv.fields _).later hclock⟩

theorem Tracing.keeps_setMeta (hclock : Monotone A.clock) {t : Tracing} (h : t.Keeps A r exited)
    (entries : Fields) : (t.call A (.setMeta entries)).Keeps A r exited := by
  obtain ⟨hr, c, hc, hinv⟩ := h
  unfold Tracing.call Context.setMeta
  dsimp only
  rw [Context.act_ok hc (by rw [Context.checkActive_open hinv.unfinished]; rfl)]
  exact ⟨hr, _, rfl, (hinv.fields _).later hclock⟩

/-- **The step lemma.** -/
theorem Tracing.keeps_call (hclock : Monotone A.clock) {t : Tracing} (h : t.Keeps A r exited)
    (op : SpanOp) (hnew : ∀ k, op.exits = some k → k ∉ exited) :
    (t.call A op).Keeps A r (exited ++ op.exits.toList) := by
  cases op with
  | exit k raised => exact Tracing.keeps_exit hclock h (hnew k rfl) raised
  | enter name attrs input output =>
    simp only [SpanOp.exits, Option.toList_none, List.append_nil]
    exact Tracing.keeps_enter hclock h name attrs input output
  | event name attrs input output =>
    simp only [SpanOp.exits, Option.toList_none, List.append_nil]
    exact Tracing.keeps_event hclock h name attrs input output
  | set values =>
    simp only [SpanOp.exits, Option.toList_none, List.append_nil]
    exact Tracing.keeps_set hclock h values
  | setMeta entries =>
    simp only [SpanOp.exits, Option.toList_none, List.append_nil]
    exact Tracing.keeps_setMeta hclock h entries

/-- **The run lemma.** -/
theorem Tracing.keeps_calls (hclock : Monotone A.clock) {ops : List SpanOp} :
    ∀ {t : Tracing} {exited : List ℕ}, t.Keeps A r exited →
      (exited ++ ops.filterMap SpanOp.exits).Nodup →
      ∃ exited', (ops.foldl (Tracing.call A) t).Keeps A r exited' := by
  induction ops with
  | nil => exact fun {t exited} h _ => ⟨exited, h⟩
  | cons op ops ih =>
    intro t exited h hnodup
    have hsplit : (op :: ops).filterMap SpanOp.exits =
        op.exits.toList ++ ops.filterMap SpanOp.exits := by
      rw [List.filterMap_cons]
      cases op.exits <;> rfl
    rw [hsplit, ← List.append_assoc] at hnodup
    refine ih (Tracing.keeps_call hclock h op fun k hk hmem => ?_) hnodup
    rw [hk] at hnodup
    have hfirst := (List.nodup_append.mp hnodup).1
    exact (List.nodup_append.mp hfirst).2.2 k hmem k (List.mem_singleton_self k) rfl

theorem SpanInv.start (hclock : Monotone A.clock) {traceId route method : PyStr} {ref : ℕ}
    {tsStart : ℚ} : SpanInv A (tick + 1)
      { ref := ref, traceId := traceId, route := route, method := method, t0 := A.clock tick,
        tsStart := tsStart } [] [] where
  unfinished := rfl
  began := hclock (Nat.le_succ tick)
  stack _ hi := by cases hi
  sorted := .nil
  started _ ho := by cases ho
  settled _ _ ho := by cases ho
  parents _ _ ho := by cases ho
  topLevel _ _ _ _ _ ho := by cases ho
  distinct := .nil
  known _ hi := by cases hi
  running _ _ hi := by cases hi

theorem Tracing.keeps_start (hclock : Monotone A.clock) (ref : ℕ)
    (route method requestId : PyStr) {s : Recording} (hon : s.recorder.enabled = true) :
    Tracing.Keeps A s.recorder [] ⟨(Recorder.start A ref route method requestId s).2, []⟩ := by
  unfold Recorder.start Prog.modify
  dsimp only
  rw [if_pos hon]
  exact ⟨rfl, _, rfl, SpanInv.start hclock⟩

/-- `finish` flags what it keeps. -/
theorem isKept_assemble (c : Context) (r : Recorder) (status : ℤ) (duration : ℚ) (keep : Bool) :
    isKept (c.assemble r status duration keep) = keep := by
  unfold isKept Context.assemble
  dsimp only
  rw [Fields.get_set]
  rfl

/-- What `finish` delivers. -/
theorem Tracing.Keeps.finish {t : Tracing} (h : t.Keeps A r exited) (status : ℤ) :
    ∃ trace, (Context.finish A status t.recording).2.recorder.delivered = r.delivered ++ [trace] ∧
      (isKept trace = true → SpanTree trace) := by
  obtain ⟨hr, c, hc, hinv⟩ := h
  unfold Context.finish Prog.modify
  simp only [hc, hinv.unfinished, hr, Bool.false_eq_true, if_false]
  refine ⟨_, rfl, fun hkept => ?_⟩
  rw [isKept_assemble] at hkept
  rw [hkept]
  exact hinv.tree r status

/-- **The observations of a kept trace are a tree, and the totals agree**, whatever spans
were entered and exited, and in whatever order. -/
theorem span_tree (hclock : Monotone A.clock) (ref : ℕ) (route method requestId : PyStr)
    {ops : List SpanOp} (honce : (ops.filterMap SpanOp.exits).Nodup) (status : ℤ) {s : Recording}
    (hon : s.recorder.enabled = true) :
    ∃ trace, (traceOf A ref route method requestId ops status s).recorder.delivered =
        s.recorder.delivered ++ [trace] ∧ (isKept trace = true → SpanTree trace) := by
  obtain ⟨exited, hkeeps⟩ := Tracing.keeps_calls hclock
    (Tracing.keeps_start hclock ref route method requestId hon) honce
  exact Tracing.Keeps.finish hkeeps status

end

/-- The clock is read once a second. -/
def tickingAmbient : Ambient where
  clock n := n
  wall n := n
  token n := JsonText.dumpsNat n
  draw _ := 0
  shown _ := []
  str _ := []
  floats := wholeText.toFloatText

/-- A span is exited before the one that was entered in it, and another one never. -/
def crossedSpans : List SpanOp :=
  [.enter (py "http.receive") [] none none, .exit 0 false, .enter (py "auth.verify") [] none none,
    .enter (py "body.parse") [] none none, .exit 1 false, .event (py "payload") [] none none,
    .exit 2 true, .enter (py "serialize") [] none none]

/-- All five of them are in the tree. -/
theorem span_tree_crossed : ∃ trace,
    (traceOf tickingAmbient 0 (py "/v1/predict") (py "POST") [] crossedSpans 200
      { recorder := {} }).recorder.delivered = [trace] ∧
    trace.observations.length = 5 ∧ SpanTree trace := by
  have hclock : Monotone tickingAmbient.clock := fun m n h => Nat.cast_le.mpr h
  have honce : (crossedSpans.filterMap SpanOp.exits).Nodup := by decide +kernel
  obtain ⟨trace, hdelivered, htree⟩ := span_tree (s := { recorder := {} }) hclock 0
    (py "/v1/predict") (py "POST") [] honce 200 rfl
  have hcheck : ((traceOf tickingAmbient 0 (py "/v1/predict") (py "POST") [] crossedSpans 200
      { recorder := {} }).recorder.delivered.all fun trace =>
        isKept trace && decide (trace.observations.length = 5)) = true := by decide +kernel
  rw [hdelivered] at hcheck
  obtain ⟨hkept, hlength⟩ := Bool.and_eq_true_iff.mp (List.all_eq_true.mp hcheck trace
    (List.mem_singleton_self trace))
  exact ⟨trace, hdelivered, of_decide_eq_true hlength, htree hkept⟩

end LayaWatch
