import LayaWatch.WriterSteps

/-!
# The drop counter

`obs_dropped_total` against the traces it is about. A sampled-out trace is
counted when it is handed in, and goes on through the queue for its rollups. An
eviction takes a kept trace, so it counts a new one; but a wait that is given up
and a batch that is dropped count every trace they lose, the sampled-out ones
once more.

So the counter is the number of traces that were decided against, plus the
number of sampled-out traces among those given up or dropped
(`Fates.obsDropped_eq`).
-/

namespace LayaWatch

open Writer

variable {cfg : WriterConfig} {s t : WriterSys}

/-! ## What was handed in and what was lost -/

/-- The trace was left out by sampling. -/
def Item.sampledOut (item : Item) : Bool :=
  match item.load with
  | .trace t => !isKept t
  | .log _ => false

/-- The trace that a step hands to `enqueue`, past the `RuntimeError`. -/
def handsIn (s : WriterSys) : WriterAct → List Item
  | .enqueue trace => if s.writer.stopping then [] else [⟨s.hist.calls, .trace trace⟩]
  | _ => []

/-- The trace whose producer gives up waiting for room. -/
def givesUp (cfg : WriterConfig) (s : WriterSys) : WriterAct → List Item
  | .wake i expired =>
    if cfg.queueMax ≤ s.writer.queue.length ∧ (s.writer.stopping || expired) = true then
      s.waiting[i]?.toList
    else []
  | _ => []

/-- The batch that a step drops. -/
def dropsBatch (s : WriterSys) : WriterAct → List Item
  | .commit .failed => s.inFlight
  | .commit .busy => if s.writer.retried then s.inFlight else []
  | _ => []

/-- The traces a run hands to `enqueue`. -/
def handedIn (es : List (Machine.Event WriterSys WriterAct)) : List Item :=
  Machine.outputs handsIn es

/-- The traces a run gives up for want of room. -/
def givenUp (cfg : WriterConfig) (es : List (Machine.Event WriterSys WriterAct)) : List Item :=
  Machine.outputs (givesUp cfg) es

/-- The traces that were lost after they were handed in: evicted, given up, or
part of a dropped batch. -/
def lostTraces (cfg : WriterConfig) (es : List (Machine.Event WriterSys WriterAct))
    (t : WriterSys) : List Item :=
  t.hist.evicted ++ givenUp cfg es ++ t.hist.dropped.filter Item.isTrace

/-- It has been decided that the trace will not be stored. -/
def decidedAgainst (cfg : WriterConfig) (es : List (Machine.Event WriterSys WriterAct))
    (t : WriterSys) (item : Item) : Bool :=
  item.sampledOut || decide (item.call ∈ (lostTraces cfg es t).map Item.call)

/-- `obs_dropped_total` is the number of traces decided against. -/
def CounterExact (cfg : WriterConfig) (es : List (Machine.Event WriterSys WriterAct))
    (t : WriterSys) : Prop :=
  t.writer.obsDropped = (handedIn es).countP (decidedAgainst cfg es t)

/-- The step gives up or drops a sampled-out trace, which has been counted. -/
def CountsAgain (cfg : WriterConfig) (s : WriterSys) (a : WriterAct) : Prop :=
  ∃ item ∈ givesUp cfg s a ++ dropsBatch s a, item.sampledOut = true

instance (cfg : WriterConfig) (s : WriterSys) (a : WriterAct) : Decidable (CountsAgain cfg s a) :=
  inferInstanceAs (Decidable (∃ _ ∈ _, _))

/-! ## One step -/

/-- What a step does to the traces and to the counter. -/
structure Counts (cfg : WriterConfig) (s : WriterSys) (a : WriterAct) (t : WriterSys) : Prop where
  /-- a trace that is handed in or that waited now waits, is given up, or is
  appended -/
  fate : ∀ p : Item → Bool, s.waiting.countP p + (handsIn s a).countP p +
      (s.hist.appended.filter Item.isTrace).countP p =
    t.waiting.countP p + (givesUp cfg s a).countP p +
      (t.hist.appended.filter Item.isTrace).countP p
  /-- a call hands in one trace, and has a number of its own -/
  calls : s.hist.calls ≤ t.hist.calls ∧ (handsIn s a = [] ∨ ∃ trace,
    handsIn s a = [⟨s.hist.calls, .trace trace⟩] ∧ t.hist.calls = s.hist.calls + 1)
  /-- each loss is counted, and each trace left out by sampling -/
  counter : t.writer.obsDropped + s.hist.evicted.length =
    s.writer.obsDropped + t.hist.evicted.length + (handsIn s a).countP Item.sampledOut +
      (givesUp cfg s a).length + ((dropsBatch s a).filter Item.isTrace).length
  /-- what is evicted may be -/
  evicted : ∀ item ∈ t.hist.evicted, item ∈ s.hist.evicted ∨ item.evictable = true
  /-- dropped batches are recorded -/
  dropped : t.hist.dropped = s.hist.dropped ++ dropsBatch s a

/-- A step that touches none of it. -/
theorem Counts.idle {a : WriterAct} (hin : handsIn s a = []) (hup : givesUp cfg s a = [])
    (hbatch : dropsBatch s a = []) (hwaiting : t.waiting = s.waiting)
    (happended : t.hist.appended.filter Item.isTrace = s.hist.appended.filter Item.isTrace)
    (hcalls : s.hist.calls ≤ t.hist.calls) (hevicted : t.hist.evicted = s.hist.evicted)
    (hdropped : t.hist.dropped = s.hist.dropped)
    (hobs : t.writer.obsDropped = s.writer.obsDropped) : Counts cfg s a t where
  fate p := by rw [hin, hup, hwaiting, happended]
  calls := ⟨hcalls, Or.inl hin⟩
  counter := by rw [hin, hup, hbatch, hevicted, hobs]; rfl
  evicted item hi := Or.inl (by rwa [hevicted] at hi)
  dropped := by rw [hdropped, hbatch, List.append_nil]

theorem Counts.enqueue (cfg : WriterConfig) (s : WriterSys) (trace : Trace) :
    Counts cfg s (.enqueue trace) (s.enqueue cfg trace) := by
  have hsampled : [(⟨s.hist.calls, .trace trace⟩ : Item)].countP Item.sampledOut =
      if isKept trace = true then 0 else 1 := by
    cases hk : isKept trace <;> simp [Item.sampledOut, hk]
  have htrace : ∀ p : Item → Bool, ([(⟨s.hist.calls, .trace trace⟩ : Item)].filter
      Item.isTrace).countP p = [(⟨s.hist.calls, .trace trace⟩ : Item)].countP p := fun _ => rfl
  rcases WriterSys.enqueue_cases cfg trace s with
    ⟨hstop, h⟩ | ⟨hgo, -, h⟩ | ⟨hgo, -, hk, -, gone, left, hev, h⟩ | ⟨hgo, -, -, h⟩
  · -- rejected
    have hin : handsIn s (.enqueue trace) = [] := by rw [handsIn, if_pos hstop]
    rw [h]
    exact Counts.idle hin rfl rfl rfl rfl (Nat.le_succ _) rfl rfl rfl
  all_goals
    have hin : handsIn s (.enqueue trace) = [⟨s.hist.calls, .trace trace⟩] := by
      rw [handsIn, hgo]
      rfl
    rw [h]
  · -- appended
    refine ⟨fun p => ?_, ⟨Nat.le_succ _, Or.inr ⟨trace, hin, rfl⟩⟩, ?_, fun item hi => Or.inl hi,
      (List.append_nil _).symm⟩
    · rw [hin, List.filter_append, List.countP_append, htrace]
      simp only [givesUp, List.countP_nil]
      omega
    · rw [hin, hsampled]
      simp only [givesUp, dropsBatch, List.filter_nil, List.length_nil]
      omega
  · -- appended after an eviction
    refine ⟨fun p => ?_, ⟨Nat.le_succ _, Or.inr ⟨trace, hin, rfl⟩⟩, ?_, fun item hi => ?_,
      (List.append_nil _).symm⟩
    · rw [hin, List.filter_append, List.countP_append, htrace]
      simp only [givesUp, List.countP_nil]
      omega
    · rw [hin, hsampled, if_pos hk]
      simp only [givesUp, dropsBatch, List.filter_nil, List.length_nil, List.length_append,
        List.length_singleton]
      omega
    · obtain ⟨-, -, -, -, hgone, -⟩ := evictKeptNonError_spec hev
      rcases List.mem_append.mp hi with hi | hi
      · exact Or.inl hi
      · rw [List.mem_singleton.mp hi]
        exact Or.inr hgone
  · -- waiting
    refine ⟨fun p => ?_, ⟨Nat.le_succ _, Or.inr ⟨trace, hin, rfl⟩⟩, ?_, fun item hi => Or.inl hi,
      (List.append_nil _).symm⟩
    · rw [hin, List.countP_append]
      simp only [givesUp, List.countP_nil]
      omega
    · rw [hin, hsampled]
      simp only [givesUp, dropsBatch, List.filter_nil, List.length_nil]
      omega

theorem Counts.wake {i : ℕ} {expired : Bool} (hl : Ledger s)
    (ht : s.wake cfg i expired = some t) : Counts cfg s (.wake i expired) t := by
  obtain ⟨item, hi, h⟩ := WriterSys.wake_cases ht
  have htrace := hl.waiting item (List.mem_of_getElem? hi)
  rcases h with ⟨hfull, hend, rfl⟩ | ⟨hfull, hgo, hgo', rfl⟩ | ⟨hroom, rfl⟩
  · -- given up
    have hup : givesUp cfg s (.wake i expired) = [item] := by
      rw [givesUp, if_pos ⟨hfull, Bool.or_eq_true_iff.mpr hend⟩, hi]
      rfl
    refine ⟨fun p => ?_, ⟨le_rfl, Or.inl rfl⟩, ?_, fun x hx => Or.inl hx,
      (List.append_nil _).symm⟩
    · have := countP_eraseIdx hi p
      rw [hup]
      simp only [handsIn, List.countP_nil]
      omega
    · rw [hup]
      simp only [handsIn, dropsBatch, List.countP_nil, List.filter_nil, List.length_nil,
        List.length_singleton]
      omega
  · have hup : givesUp cfg t (.wake i expired) = [] := by
      rw [givesUp, hgo, hgo', if_neg (by simp)]
    exact Counts.idle rfl hup rfl rfl rfl le_rfl rfl rfl rfl
  · -- appended
    have hup : givesUp cfg s (.wake i expired) = [] := by
      rw [givesUp, if_neg fun hfull => absurd hfull.1 (Nat.not_le_of_lt hroom)]
    refine ⟨fun p => ?_, ⟨le_rfl, Or.inl rfl⟩, ?_, fun x hx => Or.inl hx,
      (List.append_nil _).symm⟩
    · have := countP_eraseIdx hi p
      rw [hup, List.filter_append, List.countP_append, List.filter_singleton, htrace]
      simp only [handsIn, List.countP_nil, cond_true]
      omega
    · rw [hup]
      rfl

/-- Every step counts so. -/
theorem Counts.of_step {a : WriterAct} (hl : Ledger s) (ht : WriterSys.step cfg s a = some t) :
    Counts cfg s a t := by
  cases a with
  | enqueue trace => exact Option.some.inj ht ▸ Counts.enqueue cfg s trace
  | wake i expired => exact Counts.wake hl ht
  | enqueueLog entry =>
    obtain rfl := Option.some.inj ht
    rcases WriterSys.enqueueLog_cases cfg entry s with ⟨-, h⟩ | ⟨-, h⟩ | ⟨-, -, h⟩ <;> rw [h]
    · exact Counts.idle rfl rfl rfl rfl rfl (Nat.le_succ _) rfl rfl rfl
    · exact Counts.idle rfl rfl rfl rfl rfl (Nat.le_succ _) rfl rfl rfl
    · refine Counts.idle rfl rfl rfl rfl ?_ (Nat.le_succ _) rfl rfl rfl
      dsimp only
      rw [List.filter_append]
      exact List.append_nil _
  | commit outcome =>
    obtain ⟨batch, flush, stopping, hloop, h⟩ := WriterSys.commit_cases ht
    have hs : s.inFlight = batch := by rw [WriterSys.inFlight, hloop]
    rcases h with ⟨rfl, -, rfl⟩ | ⟨rfl, rfl⟩ | ⟨rfl, hretried, rfl⟩ | ⟨hfail, rfl⟩
    · exact Counts.idle rfl rfl rfl rfl rfl le_rfl rfl rfl rfl
    · exact Counts.idle rfl rfl rfl rfl rfl le_rfl rfl rfl rfl
    · have hbatch : dropsBatch s (.commit .busy) = [] := by
        rw [dropsBatch, hretried]
        rfl
      exact Counts.idle rfl rfl hbatch rfl rfl le_rfl rfl rfl rfl
    · -- the batch is dropped
      have hbatch : dropsBatch s (.commit outcome) = batch := by
        rcases hfail with rfl | ⟨rfl, hretried⟩
        · exact hs
        · rw [dropsBatch, if_pos hretried, hs]
      refine ⟨fun p => rfl, ⟨le_rfl, Or.inl rfl⟩, ?_, fun x hx => Or.inl hx, by rw [hbatch]⟩
      rw [hbatch]
      simp only [handsIn, givesUp, dropBatch, List.countP_nil, List.length_nil]
      omega
  | collect elapsed due =>
    obtain ⟨_, _, _, _, -, -, -, rfl⟩ := WriterSys.collect_cases ht
    exact Counts.idle rfl rfl rfl rfl rfl le_rfl rfl rfl rfl
  | readFlags due =>
    obtain ⟨_, -, rfl | ⟨-, -, -, -, rfl⟩⟩ := WriterSys.readFlags_cases ht
    · exact Counts.idle rfl rfl rfl rfl rfl le_rfl rfl rfl rfl
    · exact Counts.idle rfl rfl rfl rfl rfl le_rfl rfl rfl rfl
  | recheck =>
    obtain ⟨_, _, _, _, _, -, rfl, hw, -⟩ := WriterSys.recheck_cases ht
    refine Counts.idle rfl rfl rfl rfl rfl le_rfl rfl rfl ?_
    rcases hw with rfl | ⟨-, -, -, rfl⟩ <;> rfl
  | finish =>
    obtain ⟨-, rfl⟩ := WriterSys.finish_cases ht
    exact Counts.idle rfl rfl rfl rfl rfl le_rfl rfl rfl rfl
  | stop =>
    obtain rfl := Option.some.inj ht
    exact Counts.idle rfl rfl rfl rfl rfl le_rfl rfl rfl rfl
  | flushNow =>
    obtain rfl := Option.some.inj ht
    exact Counts.idle rfl rfl rfl rfl rfl le_rfl rfl rfl rfl

/-! ## A run -/

/-- What every run satisfies. -/
structure Fates (cfg : WriterConfig) (es : List (Machine.Event WriterSys WriterAct))
    (t : WriterSys) : Prop where
  /-- the ledger -/
  ledger : Ledger t
  /-- a trace that was handed in waits, was given up, or was appended -/
  fate : ∀ p : Item → Bool, (handedIn es).countP p = t.waiting.countP p +
    (givenUp cfg es).countP p + (t.hist.appended.filter Item.isTrace).countP p
  /-- a call hands in one trace -/
  once : ∀ call, callCount call (handedIn es) ≤ if call < t.hist.calls then 1 else 0
  /-- the counter is the number of traces left out by sampling, and of losses -/
  counter : t.writer.obsDropped = (handedIn es).countP Item.sampledOut +
    (lostTraces cfg es t).length
  /-- what was evicted might be -/
  evicted : ∀ item ∈ t.hist.evicted, item.evictable = true
  /-- the dropped items are those of the dropped batches -/
  dropped : t.hist.dropped = Machine.outputs dropsBatch es

theorem Fates.init : Fates cfg [] {} where
  ledger := Ledger.init
  fate p := rfl
  once call := Nat.zero_le _
  counter := rfl
  evicted item hi := by cases hi
  dropped := rfl

theorem Fates.step {es : List (Machine.Event WriterSys WriterAct)} {a : WriterAct}
    (h : Fates cfg es s) (ht : WriterSys.step cfg s a = some t) :
    Fates cfg (es ++ [⟨s, a, t⟩]) t := by
  have hc := Counts.of_step h.ledger ht
  have hin : handedIn (es ++ [⟨s, a, t⟩]) = handedIn es ++ handsIn s a :=
    Machine.outputs_snoc handsIn es _
  have hup : givenUp cfg (es ++ [⟨s, a, t⟩]) = givenUp cfg es ++ givesUp cfg s a :=
    Machine.outputs_snoc (givesUp cfg) es _
  refine ⟨h.ledger.step ht, fun p => ?_, fun call => ?_, ?_, fun item hi => ?_, ?_⟩
  · have := h.fate p
    have := hc.fate p
    rw [hin, hup, List.countP_append, List.countP_append]
    omega
  · obtain ⟨hle, hcalls⟩ := hc.calls
    have := h.once call
    rw [hin, callCount_append]
    rcases hcalls with hnone | ⟨trace, hone, hnext⟩
    · rw [hnone]
      change callCount call _ + 0 ≤ _
      split at this <;> split <;> omega
    · rw [hone, callCount_singleton, hnext]
      dsimp only
      split at this <;> split <;> split <;> omega
  · have hbefore := h.counter
    have hstep := hc.counter
    rw [lostTraces, hin, hup, hc.dropped]
    simp only [lostTraces, List.filter_append, List.length_append, List.countP_append] at hbefore ⊢
    omega
  · rcases hc.evicted item hi with hi | hi
    · exact h.evicted item hi
    · exact hi
  · rw [hc.dropped, h.dropped, Machine.outputs_snoc]

theorem Fates.of_run {es : List (Machine.Event WriterSys WriterAct)}
    (h : (WriterSys.machine cfg).Run {} es t) : Fates cfg es t :=
  h.history (G := fun _ _ => True) (fun _ _ _ _ h _ hstep => h.step hstep) Fates.init
    fun _ _ => trivial

/-! ## The counter -/

/-- Where no call hands in two items, the items decided against are the lost ones
and those of the rest that were left out by sampling. -/
theorem countP_decided {rest lost : List Item}
    (honce : ∀ call, callCount call rest + callCount call lost ≤ 1) :
    rest.countP (fun item => item.sampledOut || decide (item.call ∈ lost.map Item.call)) +
      lost.countP (fun item => item.sampledOut || decide (item.call ∈ lost.map Item.call)) =
    rest.countP Item.sampledOut + lost.length := by
  have hrest : rest.countP (fun item => item.sampledOut ||
      decide (item.call ∈ lost.map Item.call)) = rest.countP Item.sampledOut := by
    refine List.countP_congr fun item hitem => ?_
    have hnot : item.call ∉ lost.map Item.call := by
      intro hmem
      obtain ⟨other, hother, hcall⟩ := List.mem_map.mp hmem
      have hone : 0 < callCount item.call rest :=
        List.countP_pos_iff.mpr ⟨item, hitem, beq_self_eq_true _⟩
      have htwo : 0 < callCount item.call lost :=
        List.countP_pos_iff.mpr ⟨other, hother, beq_iff_eq.mpr hcall⟩
      have := honce item.call
      omega
    rw [decide_eq_false hnot, Bool.or_false]
  have hlost : lost.countP (fun item => item.sampledOut ||
      decide (item.call ∈ lost.map Item.call)) = lost.length := by
    refine List.countP_eq_length.mpr fun item hitem => ?_
    rw [decide_eq_true (List.mem_map_of_mem hitem), Bool.or_true]
  rw [hrest, hlost]

namespace Fates

variable {es : List (Machine.Event WriterSys WriterAct)}

/-- The handed-in traces that have not been lost. -/
def remaining (t : WriterSys) : List Item :=
  t.waiting ++ (t.hist.committed ++ t.inFlight ++ t.writer.queue).filter Item.isTrace

/-- A trace that was handed in is lost or remains. -/
theorem handedIn_eq (h : Fates cfg es t) (p : Item → Bool) : (handedIn es).countP p =
    (remaining t).countP p + (lostTraces cfg es t).countP p := by
  have hfate := h.fate p
  have hbalance := h.ledger.balance fun item => p item && item.isTrace
  have hevicted : t.hist.evicted.countP (fun item => p item && item.isTrace) =
      t.hist.evicted.countP p := by
    refine List.countP_congr fun item hi => ?_
    rw [Item.isTrace_of_evictable (h.evicted item hi), Bool.and_true]
  rw [hevicted] at hbalance
  rw [List.countP_filter] at hfate
  simp only [remaining, lostTraces, List.countP_append, List.filter_append, List.countP_filter]
  omega

/-- **What the counter counts.** The traces decided against, and once more those
of the lost ones that had been left out by sampling. -/
theorem obsDropped_eq (h : Fates cfg es t) : t.writer.obsDropped =
    (handedIn es).countP (decidedAgainst cfg es t) +
      (lostTraces cfg es t).countP Item.sampledOut := by
  have honce : ∀ call, callCount call (remaining t) + callCount call (lostTraces cfg es t) ≤ 1 := by
    intro call
    have hall := h.handedIn_eq fun item => item.call == call
    have := h.once call
    change callCount _ _ = callCount _ _ + callCount _ _ at hall
    split at this <;> omega
  have hdecided := countP_decided honce
  have hsampled := h.handedIn_eq Item.sampledOut
  have hcount := h.handedIn_eq (decidedAgainst cfg es t)
  have := h.counter
  change (remaining t).countP (decidedAgainst cfg es t) +
    (lostTraces cfg es t).countP (decidedAgainst cfg es t) = _ at hdecided
  omega

/-- The lost traces that had been left out by sampling are those that some step
counts again. -/
theorem countsAgain_iff (h : Fates cfg es t) :
    (∃ item ∈ lostTraces cfg es t, item.sampledOut = true) ↔
      ∃ e ∈ es, CountsAgain cfg e.pre e.act := by
  have hkept : ∀ item ∈ t.hist.evicted, item.sampledOut ≠ true := by
    intro item hi hsampled
    have hev := h.evicted item hi
    unfold Item.evictable at hev
    unfold Item.sampledOut at hsampled
    cases hl : item.load with
    | trace t => simp_all
    | log entry => simp_all
  have htrace : ∀ item : Item, item.sampledOut = true → item.isTrace = true := by
    intro item hsampled
    unfold Item.sampledOut at hsampled
    unfold Item.isTrace
    cases hl : item.load <;> simp_all
  constructor
  · rintro ⟨item, hitem, hsampled⟩
    rw [lostTraces, List.mem_append, List.mem_append] at hitem
    rcases hitem with (hitem | hitem) | hitem
    · exact absurd hsampled (hkept item hitem)
    · obtain ⟨e, he, hup⟩ := Machine.mem_outputs.mp hitem
      exact ⟨e, he, item, List.mem_append_left _ hup, hsampled⟩
    · rw [h.dropped] at hitem
      obtain ⟨e, he, hbatch⟩ := Machine.mem_outputs.mp (List.mem_filter.mp hitem).1
      exact ⟨e, he, item, List.mem_append_right _ hbatch, hsampled⟩
  · rintro ⟨e, he, item, hitem, hsampled⟩
    refine ⟨item, ?_, hsampled⟩
    rw [lostTraces, List.mem_append, List.mem_append]
    rcases List.mem_append.mp hitem with hup | hbatch
    · exact Or.inl (Or.inr (Machine.mem_outputs.mpr ⟨e, he, hup⟩))
    · refine Or.inr (List.mem_filter.mpr ⟨?_, htrace item hsampled⟩)
      rw [h.dropped]
      exact Machine.mem_outputs.mpr ⟨e, he, hbatch⟩

end Fates

/-- **The drop counter.** Over every run: `obs_dropped_total` is the number of
traces that it has been decided not to store, if and only if no trace left out by
sampling is given up for want of room or dropped with its batch. -/
theorem counter_exact_iff {es : List (Machine.Event WriterSys WriterAct)}
    (h : (WriterSys.machine cfg).Run {} es t) :
    CounterExact cfg es t ↔ ∀ e ∈ es, ¬CountsAgain cfg e.pre e.act := by
  have hfates := Fates.of_run h
  have heq := hfates.obsDropped_eq
  have hagain := hfates.countsAgain_iff
  -- the counter is off by the lost traces that sampling had left out
  have hzero : CounterExact cfg es t ↔ (lostTraces cfg es t).countP Item.sampledOut = 0 := by
    unfold CounterExact
    omega
  rw [hzero, List.countP_eq_zero]
  constructor
  · intro hnone e he hca
    obtain ⟨item, hitem, hsampled⟩ := hagain.mpr ⟨e, he, hca⟩
    exact hnone item hitem hsampled
  · intro hnone item hitem hsampled
    obtain ⟨e, he, hca⟩ := hagain.mp ⟨item, hitem, hsampled⟩
    exact hnone e he hca

/-- A trace left out by sampling. -/
def sampledOutTrace : Trace :=
  { sampleTrace 200 with metadata := [(py "sampled", .bool false)] }

/-- It is handed in, and its batch fails. -/
def sampledOutBatchFails : List WriterAct :=
  [.enqueue sampledOutTrace, .collect (fun _ => false) false, .readFlags false, .commit .failed]

/-- One trace, counted twice. -/
theorem sampledOut_counted_twice : ∃ es t, (WriterSys.machine oneSlot).Run {} es t ∧
    es.map Machine.Event.act = sampledOutBatchFails ∧ (handedIn es).length = 1 ∧
    t.writer.obsDropped = 2 ∧ ¬CounterExact oneSlot es t := by
  obtain ⟨hrun, hacts⟩ := Machine.Run.of_events (M := WriterSys.machine oneSlot) (s := {})
    (l := sampledOutBatchFails) rfl
  refine ⟨_, _, hrun, hacts, rfl, rfl, ?_⟩
  unfold CounterExact
  decide

/-- The same for a trace that is kept. -/
theorem counter_exact_failed_batch : ∃ es t, (WriterSys.machine oneSlot).Run {} es t ∧
    t.writer.obsDropped = 1 ∧ CounterExact oneSlot es t := by
  obtain ⟨hrun, -⟩ := Machine.Run.of_events (M := WriterSys.machine oneSlot) (s := {})
    (l := [.enqueue (sampleTrace 200), .collect (fun _ => false) false, .readFlags false,
      .commit .failed]) rfl
  exact ⟨_, _, hrun, rfl, (counter_exact_iff hrun).mpr (by decide)⟩

end LayaWatch
