import LayaWatch.Order

/-!
# The second chance

A batch whose transaction stays busy is put back once, and dropped if that
happens again. The writer has one flag for it, `_retried`, and not one a batch:
the batch that is taken next may hold newer items behind those that were put
back, and a commit that had only buckets to close sets the flag too. Whatever is
in the batch then is dropped at its first failure.

The items that were put back are in front of the others (`secondChance_step`). So
the rule is kept just as long as no batch that fails so is longer than what is
left of them in the line (`second_chance_iff`).
-/

namespace LayaWatch

open Writer

variable {cfg : WriterConfig} {s t : WriterSys}
  {es : List (Machine.Event WriterSys WriterAct)}

/-- The batch that a step puts back after a busy database. -/
def putsBack (s : WriterSys) : WriterAct → List Item
  | .commit .busy => if s.writer.retried then [] else s.inFlight
  | _ => []

/-- The batch that a step drops because of a busy database. -/
def dropsBusy (s : WriterSys) : WriterAct → List Item
  | .commit .busy => if s.writer.retried then s.inFlight else []
  | _ => []

/-- The item was part of a batch that the run put back. -/
def wasPutBack (es : List (Machine.Event WriterSys WriterAct)) (item : Item) : Bool :=
  decide (item.call ∈ (Machine.outputs putsBack es).map Item.call)

/-- What a run loses to a busy database had been put back before. -/
def SecondChance (es : List (Machine.Event WriterSys WriterAct)) : Prop :=
  ∀ before e after, es = before ++ e :: after →
    ∀ item ∈ dropsBusy e.pre e.act, wasPutBack before item = true

/-- The step is a busy commit with `_retried` set, and its batch is longer than
what is left in the line of the items that were put back. -/
def OutrunsPutBack (before : List (Machine.Event WriterSys WriterAct))
    (e : Machine.Event WriterSys WriterAct) : Prop :=
  e.act.busyCommit = true ∧ e.pre.writer.retried = true ∧
    e.pre.line.countP (wasPutBack before) < e.pre.inFlight.length

/-! ## What was put back is in front -/

/-- What every run satisfies: whatever is in line in front of an item that was
put back was put back too. -/
structure PutBackFirst (es : List (Machine.Event WriterSys WriterAct)) (t : WriterSys) :
    Prop extends InOrder t where
  /-- what was put back had been appended -/
  appended : ∀ item ∈ Machine.outputs putsBack es, item ∈ t.hist.appended
  /-- it is in front -/
  first : t.line.Pairwise fun a b => wasPutBack es b = true → wasPutBack es a = true

theorem PutBackFirst.init : PutBackFirst [] {} where
  toInOrder := InOrder.init
  appended item hi := by cases hi
  first := List.Pairwise.nil

/-- No call has two items in the line. -/
theorem InOrder.line_nodup (h : InOrder s) : (s.line.map Item.call).Nodup :=
  h.calls_nodup.sublist (((List.sublist_append_right _ _).trans h.ordered.sublist).map _)

/-- The line is made of appended items. -/
theorem InOrder.appended_of_mem_line (h : InOrder s) {item : Item} (hi : item ∈ s.line) :
    item ∈ s.hist.appended :=
  h.ordered.sublist.subset (List.mem_append_right _ hi)

/-- Only a busy commit puts a batch back, and it leaves the line as it is. -/
theorem putsBack_cases {a : WriterAct} (ht : WriterSys.step cfg s a = some t) :
    putsBack s a = [] ∨ ∃ batch, s.line = batch ++ s.writer.queue ∧ putsBack s a = batch ∧
      t.line = s.line ∧ t.hist.appended = s.hist.appended := by
  cases a with
  | commit outcome =>
    obtain ⟨batch, flush, stopping, hloop, h⟩ := WriterSys.commit_cases ht
    have hs : s.inFlight = batch := by rw [WriterSys.inFlight, hloop]
    rcases h with ⟨rfl, -, rfl⟩ | ⟨rfl, rfl⟩ | ⟨rfl, hretried, rfl⟩ | ⟨rfl | ⟨rfl, hretried⟩, rfl⟩
    · exact Or.inl rfl
    · exact Or.inl rfl
    · refine Or.inr ⟨batch, by rw [WriterSys.line, hs], ?_,
        by rw [WriterSys.line, WriterSys.line, hs]; rfl, rfl⟩
      rw [putsBack, hretried, hs]
      rfl
    · exact Or.inl rfl
    · left
      rw [putsBack, if_pos hretried]
  | _ => exact Or.inl rfl

/-- The items of a batch that is put back join those in front. -/
theorem wasPutBack_snoc (es : List (Machine.Event WriterSys WriterAct))
    (e : Machine.Event WriterSys WriterAct) (item : Item) :
    wasPutBack (es ++ [e]) item = true ↔
      wasPutBack es item = true ∨ item.call ∈ (putsBack e.pre e.act).map Item.call := by
  simp only [wasPutBack, decide_eq_true_eq, Machine.outputs_snoc, List.map_append, List.mem_append]

theorem PutBackFirst.step {a : WriterAct} (h : PutBackFirst es s)
    (ht : WriterSys.step cfg s a = some t) : PutBackFirst (es ++ [⟨s, a, t⟩]) t := by
  have ht' := h.toInOrder.step ht
  rcases putsBack_cases ht with hnone | ⟨batch, hline, hback, hsame, happended⟩
  · -- nothing is put back: the line changes, the items of interest do not
    have hsteps := WriterSys.line_steps ht
    have hput : wasPutBack (es ++ [⟨s, a, t⟩]) = wasPutBack es := by
      funext item
      rw [wasPutBack, Machine.outputs_snoc, hnone, List.append_nil]
      rfl
    refine ⟨ht', fun item hi => ?_, ?_⟩
    · rw [Machine.outputs_snoc, hnone, List.append_nil] at hi
      exact hsteps.appended_grows.subset (h.appended item hi)
    · rw [hput]
      refine hsteps.pairwise Item.call ht'.calls_nodup (fun b item hnew hold => ?_) h.first
      -- a new item has not been put back
      refine absurd ?_ hnew
      obtain ⟨other, hother, hcall⟩ := List.mem_map.mp (of_decide_eq_true hold)
      exact List.mem_map.mpr ⟨other, h.appended other hother, hcall⟩
  · -- a batch is put back: it is the front of the line
    refine ⟨ht', fun item hi => ?_, ?_⟩
    · rw [Machine.outputs_snoc, hback] at hi
      rw [happended]
      rcases List.mem_append.mp hi with hi | hi
      · exact h.appended item hi
      · exact h.toInOrder.appended_of_mem_line (by rw [hline]; exact List.mem_append_left _ hi)
    · have hnodup := h.toInOrder.line_nodup
      have hfirst := h.first
      have hbatch : ∀ b ∈ batch, wasPutBack (es ++ [⟨s, a, t⟩]) b = true := by
        intro b hb
        refine (wasPutBack_snoc es _ b).mpr (Or.inr ?_)
        rw [hback]
        exact List.mem_map_of_mem hb
      rw [hsame, hline]
      rw [hline, List.map_append] at hnodup
      rw [hline] at hfirst
      refine List.pairwise_append.mpr ⟨?_, ?_, fun b hb _ _ _ => hbatch b hb⟩
      · exact List.pairwise_of_forall_mem_list fun b hb _ _ _ => hbatch b hb
      · refine (List.pairwise_append.mp hfirst).2.1.imp_of_mem fun {b c} _ hc hbc hput => ?_
        refine (wasPutBack_snoc es _ b).mpr (Or.inl (hbc ?_))
        rcases (wasPutBack_snoc es _ c).mp hput with hold | hnew
        · exact hold
        · -- an item of the queue is not in the batch too
          rw [hback] at hnew
          exact absurd (List.mem_map_of_mem hc) (List.disjoint_of_nodup_append hnodup hnew)

theorem PutBackFirst.of_run (h : (WriterSys.machine cfg).Run {} es t) : PutBackFirst es t :=
  h.history (G := fun _ _ => True) (fun _ _ _ _ h _ hstep => h.step hstep) PutBackFirst.init
    fun _ _ => trivial

/-! ## The rule -/

/-- One busy commit: its items had all been put back just if the batch does not
outrun them. -/
theorem secondChance_step {before : List (Machine.Event WriterSys WriterAct)} {a : WriterAct}
    (h : PutBackFirst before s) :
    (∀ item ∈ dropsBusy s a, wasPutBack before item = true) ↔
      ¬OutrunsPutBack before ⟨s, a, t⟩ := by
  have hfront : (∀ item ∈ s.inFlight, wasPutBack before item = true) ↔
      s.inFlight.length ≤ (s.inFlight ++ s.writer.queue).countP (wasPutBack before) :=
    Line.forall_front_iff h.first
  unfold OutrunsPutBack
  dsimp only
  by_cases hdrops : a.busyCommit = true ∧ s.writer.retried = true
  · obtain ⟨hbusy, hretried⟩ := hdrops
    have hbatch : dropsBusy s a = s.inFlight := by
      unfold WriterAct.busyCommit at hbusy
      split at hbusy
      · rw [dropsBusy, if_pos hretried]
      · cases hbusy
    rw [hbatch, hfront]
    simp only [hbusy, hretried, true_and, Nat.not_lt]
    rfl
  · have hnone : dropsBusy s a = [] := by
      unfold dropsBusy
      split
      · exact if_neg fun hretried => hdrops ⟨rfl, hretried⟩
      · rfl
    rw [hnone]
    exact iff_of_true (fun item hi => by cases hi) fun hout => hdrops ⟨hout.1, hout.2.1⟩

/-- **The second chance.** Over every run: everything that is lost to a busy
database had been put back before, if and only if no busy batch with `_retried`
set is longer than what is left in the line of the items put back. -/
theorem second_chance_iff (h : (WriterSys.machine cfg).Run {} es t) :
    SecondChance es ↔
      ∀ before e after, es = before ++ e :: after → ¬OutrunsPutBack before e := by
  have hstep : ∀ before e after, es = before ++ e :: after →
      ((∀ item ∈ dropsBusy e.pre e.act, wasPutBack before item = true) ↔
        ¬OutrunsPutBack before e) := by
    intro before e after heq
    rw [heq] at h
    obtain ⟨u, hbefore, hafter⟩ := Machine.Run.of_append h
    obtain ⟨hpre, -, -⟩ := hafter.of_cons
    have hfirst := PutBackFirst.of_run hbefore
    rw [← hpre] at hfirst
    exact secondChance_step hfirst
  constructor
  · intro hall before e after heq
    exact (hstep before e after heq).mp (hall before e after heq)
  · intro hall before e after heq
    exact (hstep before e after heq).mpr (hall before e after heq)

/-- Two slots in the queue, two rows a batch. -/
def twoSlots : WriterConfig := ⟨2, 2, by decide, by decide⟩

/-- A batch of one is put back; then another trace comes in and is taken with it. -/
def toppedUp : List WriterAct :=
  [.enqueue (sampleTrace 200), .collect (fun _ => true) false, .readFlags false, .commit .busy,
    .recheck, .enqueue (sampleTrace 200), .collect (fun _ => false) false, .readFlags false,
    .commit .busy]

/-- The other trace is dropped at its first failure. -/
theorem dropped_without_second_chance : ∃ es t, (WriterSys.machine twoSlots).Run {} es t ∧
    es.map Machine.Event.act = toppedUp ∧ t.hist.dropped.map Item.call = [0, 1] ∧
    ¬SecondChance es := by
  obtain ⟨hrun, hacts⟩ := Machine.Run.of_events (M := WriterSys.machine twoSlots) (s := {})
    (l := toppedUp) rfl
  refine ⟨_, _, hrun, hacts, by decide +kernel, fun hall => ?_⟩
  have hlast := Machine.forall_split_iff.mp hall 8 (by decide +kernel)
  exact absurd hlast (by decide +kernel)

/-- A batch that nothing joins has its second chance before it is dropped. -/
theorem dropped_after_second_chance : ∃ es t, (WriterSys.machine oneSlot).Run {} es t ∧
    t.hist.dropped.map Item.call = [0] ∧ SecondChance es := by
  obtain ⟨hrun, -⟩ := Machine.Run.of_events (M := WriterSys.machine oneSlot) (s := {})
    (l := [.enqueue (sampleTrace 200), .collect (fun _ => true) false, .readFlags false,
      .commit .busy, .recheck, .collect (fun _ => true) false, .readFlags false, .commit .busy]) rfl
  refine ⟨_, _, hrun, by decide +kernel, (second_chance_iff hrun).mpr ?_⟩
  refine Machine.forall_split_iff.mpr ?_
  unfold OutrunsPutBack
  decide +kernel

end LayaWatch
