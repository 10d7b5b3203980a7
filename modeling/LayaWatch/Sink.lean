import LayaWatch.Lib.Fair
import Mathlib.Data.List.Basic
import Mathlib.Tactic.Common

/-!
# The stream sink

`app.py`'s `_Writer` between the producer thread of a stream and the generator on the
event loop. The producer puts chunks into a bounded queue and has the loop run
`wake.set`; the generator polls the queue and parks on the event when it is empty.

A chunk is what `write` has turned its argument into. The steps are as fine as the
threads can interleave: each `put`, each poll, each look at `done` and at the event.

No wake is lost (`wake_delivered`): the event is cleared only behind a failed poll, on
the loop, and whatever is put from then on schedules a callback behind it. The end of
the stream may come too early (`eof_complete_iff`): `read` looks at `done` behind its
poll, and chunks that were put between the two are never read.
-/

namespace LayaWatch

variable {α : Type}

/-- Where the producer thread is. -/
inductive ProducerAt where
  /-- in the stream callable: at the top of `write`, or, with nothing left, at its end -/
  | write
  /-- past the look at `_stop`, before the `put` -/
  | put
  /-- behind the `put`, before `_signal` -/
  | signal
  /-- in `finish`, before `done.set` -/
  | finish
  /-- in `finish`, before `_signal` -/
  | wake
  /-- the thread has ended -/
  | exited
deriving DecidableEq

/-- Where the generator is. -/
inductive ConsumerAt where
  /-- outside `read`: before the first chunk, or at a `yield` -/
  | idle
  /-- before `get_nowait` -/
  | poll
  /-- behind `queue.Empty`, before the look at `done` -/
  | check
  /-- before `wake.clear` -/
  | clear
  /-- before `wake.wait` -/
  | wait
  /-- suspended in `wake.wait` -/
  | parked
  /-- `read` has returned the end marker -/
  | ended
  /-- in `close`, past `_stop.set` -/
  | closing
  /-- past `close`: it waits for the thread to end -/
  | closed
deriving DecidableEq

/-- The loop may run callbacks: the generator is suspended. -/
def ConsumerAt.suspended : ConsumerAt → Bool
  | idle | parked | closed => true
  | _ => false

/-- The sink, its two users, and what the loop still has to run. -/
structure Sink (α : Type) where
  /-- `_q` -/
  queue : List α
  /-- `_stop` -/
  stop : Bool
  /-- `done` -/
  done : Bool
  /-- `_wake` is set -/
  event : Bool
  /-- how many `wake.set` are scheduled -/
  scheduled : ℕ
  /-- the producer thread -/
  producer : ProducerAt
  /-- the chunks it has not put yet -/
  pending : List α
  /-- the generator -/
  consumer : ConsumerAt
  /-- the chunks that `read` has returned -/
  received : List α

/-- `queue.Queue(maxsize=64)` -/
def sinkMax : ℕ := 64

namespace Sink

/-- `bind` is done, and the thread is started on these chunks. -/
def start (chunks : List α) : Sink α where
  queue := []
  stop := false
  done := false
  event := false
  scheduled := 0
  producer := .write
  pending := chunks
  consumer := .idle
  received := []

/-- The producer's next step. -/
def produce (s : Sink α) : Option (Sink α) :=
  match s.producer with
  | .write =>
    if s.pending.isEmpty || s.stop then some { s with producer := .finish }
    else some { s with producer := .put }
  | .put =>
    match s.pending with
    | [] => none
    | chunk :: rest =>
      if s.queue.length < sinkMax then
        some { s with queue := s.queue ++ [chunk], pending := rest, producer := .signal }
      else none
  | .signal => some { s with scheduled := s.scheduled + 1, producer := .write }
  | .finish => some { s with done := true, producer := .wake }
  | .wake => some { s with scheduled := s.scheduled + 1, producer := .exited }
  | .exited => none

/-- The `put` has waited long enough: `queue.Full`. -/
def putTimeout (s : Sink α) : Option (Sink α) :=
  if s.producer = .put ∧ sinkMax ≤ s.queue.length then some { s with producer := .write }
  else none

/-- The loop runs a `wake.set`. -/
def callback (s : Sink α) : Option (Sink α) :=
  if s.consumer.suspended = true ∧ 0 < s.scheduled then
    some { s with event := true, scheduled := s.scheduled - 1 }
  else none

/-- The generator's next step. -/
def consume (s : Sink α) : Option (Sink α) :=
  match s.consumer with
  | .idle => some { s with consumer := .poll }
  | .poll =>
    match s.queue with
    | [] => some { s with consumer := .check }
    | chunk :: rest =>
      some { s with queue := rest, received := s.received ++ [chunk], consumer := .idle }
  | .check => some { s with consumer := if s.done then .ended else .clear }
  | .clear => some { s with event := false, consumer := .wait }
  | .wait => some { s with consumer := if s.event then .poll else .parked }
  | .parked => if s.event then some { s with consumer := .poll } else none
  | .ended => some { s with stop := true, consumer := .closing }
  | .closing =>
    match s.queue with
    | [] => some { s with consumer := .closed }
    | _ :: rest => some { s with queue := rest }
  | .closed => none

/-- The client is gone: the generator is closed where it is suspended. -/
def abandon (s : Sink α) : Option (Sink α) :=
  if s.consumer = .idle ∨ s.consumer = .parked then
    some { s with stop := true, consumer := .closing }
  else none

end Sink

/-- Who moves. -/
inductive SinkAct where
  /-- the producer thread -/
  | produce
  /-- the producer thread, out of a `put` that found no room -/
  | putTimeout
  /-- the loop -/
  | callback
  /-- the generator -/
  | consume
  /-- the client, away -/
  | abandon
deriving DecidableEq

/-- One step. -/
def Sink.step (s : Sink α) : SinkAct → Option (Sink α)
  | .produce => s.produce
  | .putTimeout => s.putTimeout
  | .callback => s.callback
  | .consume => s.consume
  | .abandon => s.abandon

/-- A stream and its consumer. -/
def sink (α : Type) : Machine (Sink α) SinkAct where
  init s := ∃ chunks, s = Sink.start chunks
  step := Sink.step

/-! ## What a step can do -/

namespace Sink

/-- What one step does to a sink. -/
inductive Moves (s : Sink α) : SinkAct → Sink α → Prop
  /-- `write` is entered -/
  | enter (hat : s.producer = .write) (hmore : s.pending ≠ []) (hopen : s.stop = false) :
      Moves s .produce { s with producer := .put }
  /-- the callable is at its end, or breaks off -/
  | leave (hat : s.producer = .write) (hend : s.pending = [] ∨ s.stop = true) :
      Moves s .produce { s with producer := .finish }
  /-- a chunk is put -/
  | put {chunk : α} {rest : List α} (hat : s.producer = .put) (hin : s.pending = chunk :: rest) :
      Moves s .produce
        { s with queue := s.queue ++ [chunk], pending := rest, producer := .signal }
  /-- a wake is scheduled behind a chunk -/
  | signal (hat : s.producer = .signal) :
      Moves s .produce { s with scheduled := s.scheduled + 1, producer := .write }
  /-- the end is marked -/
  | finish (hat : s.producer = .finish) :
      Moves s .produce { s with done := true, producer := .wake }
  /-- a wake is scheduled behind the end -/
  | wake (hat : s.producer = .wake) :
      Moves s .produce { s with scheduled := s.scheduled + 1, producer := .exited }
  /-- the queue is full -/
  | full (hat : s.producer = .put) : Moves s .putTimeout { s with producer := .write }
  /-- the event is set -/
  | callback (hat : s.consumer.suspended = true) (hmore : 0 < s.scheduled) :
      Moves s .callback { s with event := true, scheduled := s.scheduled - 1 }
  /-- `read` is called -/
  | call (hat : s.consumer = .idle) : Moves s .consume { s with consumer := .poll }
  /-- the poll finds a chunk -/
  | take {chunk : α} {rest : List α} (hat : s.consumer = .poll) (hin : s.queue = chunk :: rest) :
      Moves s .consume
        { s with queue := rest, received := s.received ++ [chunk], consumer := .idle }
  /-- the poll finds nothing -/
  | empty (hat : s.consumer = .poll) (hin : s.queue = []) :
      Moves s .consume { s with consumer := .check }
  /-- the end marker is returned -/
  | eof (hat : s.consumer = .check) (hdone : s.done = true) :
      Moves s .consume { s with consumer := .ended }
  /-- there is more to come -/
  | goOn (hat : s.consumer = .check) (hdone : s.done = false) :
      Moves s .consume { s with consumer := .clear }
  /-- the event is cleared -/
  | clear (hat : s.consumer = .clear) :
      Moves s .consume { s with event := false, consumer := .wait }
  /-- the generator is suspended -/
  | park (hat : s.consumer = .wait) (hevent : s.event = false) :
      Moves s .consume { s with consumer := .parked }
  /-- the event is set, or was -/
  | resume (hat : s.consumer = .wait ∨ s.consumer = .parked) (hevent : s.event = true) :
      Moves s .consume { s with consumer := .poll }
  /-- the generator is left at the end of the stream -/
  | close (hat : s.consumer = .ended) :
      Moves s .consume { s with stop := true, consumer := .closing }
  /-- a chunk is thrown away -/
  | drop {chunk : α} {rest : List α} (hat : s.consumer = .closing) (hin : s.queue = chunk :: rest) :
      Moves s .consume { s with queue := rest }
  /-- there is nothing left to throw away -/
  | closed (hat : s.consumer = .closing) (hin : s.queue = []) :
      Moves s .consume { s with consumer := .closed }
  /-- the client is gone -/
  | abandon (hat : s.consumer = .idle ∨ s.consumer = .parked) :
      Moves s .abandon { s with stop := true, consumer := .closing }

theorem moves_produce {s t : Sink α} (h : s.produce = some t) : Moves s .produce t := by
  obtain ⟨queue, stop, done, event, scheduled, producer, pending, consumer, received⟩ := s
  cases producer with
  | write =>
    cases pending with
    | nil =>
      obtain rfl := Option.some.inj h
      exact .leave rfl (Or.inl rfl)
    | cons chunk rest =>
      cases stop with
      | true =>
        obtain rfl := Option.some.inj h
        exact .leave rfl (Or.inr rfl)
      | false =>
        obtain rfl := Option.some.inj h
        exact .enter rfl (List.cons_ne_nil _ _) rfl
  | put =>
    cases pending with
    | nil => cases h
    | cons chunk rest =>
      obtain ⟨-, heq⟩ := Option.ite_none_right_eq_some.mp h
      obtain rfl := Option.some.inj heq
      exact .put rfl rfl
  | signal =>
    obtain rfl := Option.some.inj h
    exact .signal rfl
  | finish =>
    obtain rfl := Option.some.inj h
    exact .finish rfl
  | wake =>
    obtain rfl := Option.some.inj h
    exact .wake rfl
  | exited => cases h

theorem moves_consume {s t : Sink α} (h : s.consume = some t) : Moves s .consume t := by
  obtain ⟨queue, stop, done, event, scheduled, producer, pending, consumer, received⟩ := s
  cases consumer with
  | idle =>
    obtain rfl := Option.some.inj h
    exact .call rfl
  | poll =>
    cases queue with
    | nil =>
      obtain rfl := Option.some.inj h
      exact .empty rfl rfl
    | cons chunk rest =>
      obtain rfl := Option.some.inj h
      exact .take rfl rfl
  | check =>
    cases done with
    | true =>
      obtain rfl := Option.some.inj h
      exact .eof rfl rfl
    | false =>
      obtain rfl := Option.some.inj h
      exact .goOn rfl rfl
  | clear =>
    obtain rfl := Option.some.inj h
    exact .clear rfl
  | wait =>
    cases event with
    | true =>
      obtain rfl := Option.some.inj h
      exact .resume (Or.inl rfl) rfl
    | false =>
      obtain rfl := Option.some.inj h
      exact .park rfl rfl
  | parked =>
    cases event with
    | true =>
      obtain rfl := Option.some.inj h
      exact .resume (Or.inr rfl) rfl
    | false => cases h
  | ended =>
    obtain rfl := Option.some.inj h
    exact .close rfl
  | closing =>
    cases queue with
    | nil =>
      obtain rfl := Option.some.inj h
      exact .closed rfl rfl
    | cons chunk rest =>
      obtain rfl := Option.some.inj h
      exact .drop rfl rfl
  | closed => cases h

/-- A step is one of these. -/
theorem moves {s t : Sink α} {a : SinkAct} (h : (sink α).step s a = some t) : Moves s a t := by
  cases a with
  | produce => exact moves_produce h
  | consume => exact moves_consume h
  | putTimeout =>
    obtain ⟨hfull, heq⟩ := Option.ite_none_right_eq_some.mp h
    obtain rfl := Option.some.inj heq
    exact .full hfull.1
  | callback =>
    obtain ⟨hcan, heq⟩ := Option.ite_none_right_eq_some.mp h
    obtain rfl := Option.some.inj heq
    exact .callback hcan.1 hcan.2
  | abandon =>
    obtain ⟨hcan, heq⟩ := Option.ite_none_right_eq_some.mp h
    obtain rfl := Option.some.inj heq
    exact .abandon hcan

/-! ## Nothing is lost inside -/

/-- Where the chunks of a stream are. -/
structure Kept (chunks : List α) (s : Sink α) : Prop where
  /-- until the sink is closed, each chunk is read, queued or to come, in order -/
  chunks : s.stop = false → s.received ++ s.queue ++ s.pending = chunks
  /-- only the generator closes it -/
  closed : s.stop = true ↔ s.consumer = .closing ∨ s.consumer = .closed
  /-- until then the producer comes to its end with nothing left -/
  finished : s.stop = false →
    s.producer = .finish ∨ s.producer = .wake ∨ s.producer = .exited → s.pending = []
  /-- `done` is set on the way out -/
  done : s.done = true ↔ s.producer = .wake ∨ s.producer = .exited
  /-- the end marker is returned behind it -/
  ended : s.consumer = .ended → s.done = true

theorem kept_start (chunks : List α) : Kept chunks (start chunks) := by
  constructor <;> simp [start]

theorem Kept.step {chunks : List α} {s t : Sink α} {a : SinkAct} (h : Kept chunks s)
    (hm : Moves s a t) : Kept chunks t := by
  obtain ⟨hchunks, hclosed, hfinished, hdone, hended⟩ := h
  cases hm with
  | leave hat hend =>
    refine ⟨hchunks, hclosed, fun hopen _ => ?_, by simp_all, hended⟩
    exact hend.resolve_right (Bool.eq_false_iff.mp hopen)
  | resume hat hevent => rcases hat with hat | hat <;> constructor <;> simp_all
  | _ => constructor <;> simp_all

/-! ## No wake is lost -/

/-- There is a chunk or the end for the generator. -/
def Ready (s : Sink α) : Prop := s.queue ≠ [] ∨ s.done = true

/-- A wake is scheduled, or the producer is about to schedule one. -/
def Coming (s : Sink α) : Prop :=
  0 < s.scheduled ∨ s.producer = .signal ∨ s.producer = .wake

/-- Behind a failed poll, what is ready has a wake coming. -/
structure Woken (s : Sink α) : Prop where
  /-- a chunk that was put since the poll -/
  checking : s.consumer = .check → s.queue ≠ [] → s.Coming
  /-- a chunk or the end, since the look at `done` -/
  parking : s.consumer = .clear ∨ s.consumer = .wait → s.Ready → s.Coming
  /-- the wake may have come since the generator is suspended -/
  parked : s.consumer = .parked → s.Ready → s.event = true ∨ s.Coming

theorem Woken.of_coming {s : Sink α} (h : s.Coming) : Woken s :=
  ⟨fun _ _ => h, fun _ _ => h, fun _ _ => Or.inr h⟩

theorem Woken.of_away {s : Sink α} (hcheck : s.consumer ≠ .check) (hclear : s.consumer ≠ .clear)
    (hwait : s.consumer ≠ .wait) (hparked : s.consumer ≠ .parked) : Woken s :=
  ⟨fun h => absurd h hcheck, fun h => absurd h (not_or.mpr ⟨hclear, hwait⟩),
    fun h => absurd h hparked⟩

/-- The producer goes on, with no wake in hand. -/
theorem Woken.producer {s : Sink α} (h : Woken s) (hsignal : s.producer ≠ .signal)
    (hwake : s.producer ≠ .wake) (next : ProducerAt) : Woken { s with producer := next } := by
  have hcoming : s.Coming → Coming { s with producer := next } := by
    rintro (hmore | hat | hat)
    · exact Or.inl hmore
    · exact absurd hat hsignal
    · exact absurd hat hwake
  exact ⟨fun hat hin => hcoming (h.checking hat hin), fun hat hr => hcoming (h.parking hat hr),
    fun hat hr => (h.parked hat hr).imp_right hcoming⟩

theorem Woken.step {s t : Sink α} {a : SinkAct} (h : Woken s) (hm : Moves s a t) : Woken t := by
  cases hm with
  | put _ _ => exact .of_coming (Or.inr (Or.inl rfl))
  | finish _ => exact .of_coming (Or.inr (Or.inr rfl))
  | signal _ | wake _ => exact .of_coming (Or.inl (Nat.succ_pos _))
  | enter hat _ _ | leave hat _ | full hat => exact h.producer (by simp [hat]) (by simp [hat]) _
  | callback hat hmore =>
    -- the generator is suspended, so what it waits for is the event
    rcases hc : s.consumer with _ | _ | _ | _ | _ | _ | _ | _ | _
    case parked => exact ⟨fun _ => by simp_all, fun _ => by simp_all, fun _ _ => Or.inl rfl⟩
    case idle | closed => exact .of_away (by simp) (by simp) (by simp) (by simp)
    all_goals
      rw [hc] at hat
      cases hat
  | empty _ hin =>
    exact ⟨fun _ hne => absurd hin hne, fun hc => by simp at hc, fun hc => by cases hc⟩
  | goOn hat hdone =>
    refine ⟨fun hc => (by cases hc), fun _ hr => ?_, fun hc => by cases hc⟩
    -- the end is not there, so it is a chunk
    exact h.checking hat (hr.resolve_right (Bool.eq_false_iff.mp hdone))
  | clear hat =>
    exact ⟨fun hc => (by cases hc), fun _ hr => h.parking (Or.inl hat) hr, fun hc => by cases hc⟩
  | park hat _ =>
    exact ⟨fun hc => (by cases hc), fun hc => (by simp at hc),
      fun _ hr => Or.inr (h.parking (Or.inr hat) hr)⟩
  | drop hat _ => exact .of_away (by simp [hat]) (by simp [hat]) (by simp [hat]) (by simp [hat])
  | call _ | take _ _ | eof _ _ | resume _ _ | close _ | closed _ _ | abandon _ =>
    exact .of_away (by simp) (by simp) (by simp) (by simp)

theorem reachable_woken {s : Sink α} (h : (sink α).Reachable s) : Woken s := by
  refine h.invariant ?_ fun _ _ _ hs hstep => hs.step (moves hstep)
  rintro _ ⟨chunks, rfl⟩
  exact .of_away (by simp [start]) (by simp [start]) (by simp [start]) (by simp [start])

theorem run_kept {chunks : List α} {es : List (Machine.Event (Sink α) SinkAct)} {t : Sink α}
    (h : (sink α).Run (start chunks) es t) : Kept chunks t :=
  (h.invariant (I := Kept chunks) (G := fun _ _ => True)
    (fun _ _ _ hs _ hstep => hs.step (moves hstep)) (kept_start chunks) fun _ _ => trivial).1

/-! ## The end of the stream -/

/-- The step sets `done` between a failed poll and the look at `done`, with chunks that
were put since the poll. -/
def FinishesUnseen (s : Sink α) (a : SinkAct) : Prop :=
  a = .produce ∧ s.producer = .finish ∧ s.consumer = .check ∧ s.queue ≠ []

instance [DecidableEq α] (s : Sink α) (a : SinkAct) : Decidable (s.FinishesUnseen a) :=
  inferInstanceAs (Decidable (_ ∧ _))

/-- `read` will return the end marker, or has, and there are chunks in the queue. -/
def Overlooks (s : Sink α) : Prop :=
  (s.consumer = .check ∧ s.done = true ∨ s.consumer = .ended) ∧ s.queue ≠ []

/-- Once chunks are overlooked, they are until the sink is closed. -/
theorem Overlooks.step {chunks : List α} {s t : Sink α} {a : SinkAct} (hkept : Kept chunks s)
    (h : s.Overlooks ∨ s.stop = true) (hm : Moves s a t) : t.Overlooks ∨ t.stop = true := by
  obtain ⟨-, hclosed, -, hdone, hended⟩ := hkept
  unfold Overlooks at *
  cases hm with
  | resume hat hevent => rcases hat with hat | hat <;> simp_all
  | _ => simp_all [ConsumerAt.suspended]

/-- Chunks are overlooked only behind a step that marks the end unseen. -/
theorem not_overlooks_step {chunks : List α} {s t : Sink α} {a : SinkAct} (hkept : Kept chunks s)
    (h : ¬s.Overlooks) (hseen : ¬s.FinishesUnseen a) (hm : Moves s a t) : ¬t.Overlooks := by
  obtain ⟨-, -, -, hdone, hended⟩ := hkept
  unfold Overlooks FinishesUnseen at *
  cases hm <;> simp_all

/-- Where the end marker was returned, nothing is to come. -/
theorem Kept.at_end {chunks : List α} {s : Sink α} (h : Kept chunks s)
    (hend : s.consumer = .ended) : s.received ++ s.queue = chunks ∧ s.stop = false := by
  have hopen : s.stop = false := by
    refine Bool.eq_false_iff.mpr fun hstop => ?_
    rcases h.closed.mp hstop with hc | hc <;> rw [hend] at hc <;> cases hc
  have hout := h.done.mp (h.ended hend)
  have hall := h.chunks hopen
  rw [h.finished hopen (Or.inr hout), List.append_nil] at hall
  exact ⟨hall, hopen⟩

theorem received_eq_iff {chunks : List α} {s : Sink α} (h : Kept chunks s)
    (hend : s.consumer = .ended) : s.received = chunks ↔ ¬s.Overlooks := by
  obtain ⟨hall, -⟩ := h.at_end hend
  constructor
  · rintro hreceived ⟨-, hqueue⟩
    rw [hreceived] at hall
    exact hqueue (List.append_right_eq_self.mp hall)
  · intro hnot
    have hqueue : s.queue = [] := by
      by_contra hne
      exact hnot ⟨Or.inr hend, hne⟩
    rwa [hqueue, List.append_nil] at hall

end Sink

open Sink

/-- When `read` returns the end marker, the chunks it has returned are the chunks that
were written, unless the end was marked between a failed poll and the look at `done`,
with chunks put since the poll. -/
theorem eof_complete_iff {chunks : List α} {es : List (Machine.Event (Sink α) SinkAct)}
    {t : Sink α} (h : (sink α).Run (start chunks) es t) (hend : t.consumer = .ended) :
    t.received = chunks ↔ ∀ e ∈ es, ¬e.pre.FinishesUnseen e.act := by
  rw [received_eq_iff (run_kept h) hend]
  constructor
  · intro hnot e he hunseen
    -- from that step on, the chunks are overlooked
    obtain ⟨before, after, rfl⟩ := List.append_of_mem he
    obtain ⟨s, hbefore, hrest⟩ := h.of_append
    obtain ⟨rfl, hstep, hafter⟩ := hrest.of_cons
    have hkept := (run_kept hbefore).step (moves hstep)
    have hover : e.post.Overlooks := by
      obtain ⟨hact, hat, hcheck, hqueue⟩ := hunseen
      rw [hact] at hstep
      have hpost : e.post = { e.pre with done := true, producer := .wake } := by
        have hproduce : e.pre.produce = some { e.pre with done := true, producer := .wake } := by
          unfold produce
          rw [hat]
        exact Option.some.inj (hstep.symm.trans hproduce)
      rw [hpost]
      exact ⟨Or.inl ⟨hcheck, rfl⟩, hqueue⟩
    have hlast := (hafter.invariant (I := fun s => Kept chunks s ∧ (s.Overlooks ∨ s.stop = true))
      (G := fun _ _ => True) (fun _ _ _ hs _ hstep =>
        ⟨hs.1.step (moves hstep), Overlooks.step hs.1 hs.2 (moves hstep)⟩)
      ⟨hkept, Or.inl hover⟩ fun _ _ => trivial).1
    rcases hlast.2 with hover | hstop
    · exact hnot hover
    · rw [((run_kept h).at_end hend).2] at hstop
      cases hstop
  · intro hseen
    -- nothing is overlooked at the start, and only an unseen finish can begin it
    refine (h.invariant (I := fun s => Kept chunks s ∧ ¬s.Overlooks)
      (G := fun s a => ¬s.FinishesUnseen a) (fun _ _ _ hs hG hstep =>
        ⟨hs.1.step (moves hstep), not_overlooks_step hs.1 hs.2 hG (moves hstep)⟩)
      ⟨kept_start chunks, ?_⟩ hseen).1.2
    rintro ⟨-, hqueue⟩
    exact hqueue rfl

/-- A chunk that is read, then the end. -/
def readToEnd : List SinkAct :=
  [.produce, .produce, .produce, .consume, .consume, .consume, .produce, .produce, .consume,
    .consume]

/-- One chunk is written and read. -/
theorem readToEnd_complete : ((sink ℕ).final (start [7]) readToEnd).received = [7] :=
  (eof_complete_iff (.of_final (by decide +kernel)) (by decide +kernel)).mpr (by
    decide +kernel)

/-- The generator polls; a chunk is put and the end marked; then it looks at `done`. -/
def endUnseen : List SinkAct :=
  [.consume, .consume, .produce, .produce, .produce, .produce, .produce, .consume]

/-- The chunk is never read. -/
theorem not_eof_complete : ¬∀ (chunks : List ℕ) (es : List (Machine.Event (Sink ℕ) SinkAct))
    (t : Sink ℕ), (sink ℕ).Run (start chunks) es t → t.consumer = .ended →
      t.received = chunks := by
  intro h
  have hread := h [7] _ _ (.of_final (l := endUnseen) (by decide +kernel)) (by decide +kernel)
  revert hread
  decide +kernel

/-! ## A parked generator is woken -/

/-- The producer, the loop and the generator all have their turns. -/
structure TakesTurns (b : Machine.Behaviour (sink α)) : Prop where
  /-- the thread is scheduled -/
  producer : b.FairFor (· = .produce)
  /-- the loop runs its callbacks -/
  loop : b.FairFor (· = .callback)
  /-- the loop resumes the generator -/
  generator : b.FairFor (· = .consume)

namespace TakesTurns

variable {b : Machine.Behaviour (sink α)} {i : ℕ}

/-- Once the event is set, the generator goes on. -/
theorem resumes (h : TakesTurns b)
    (hi : (b.state i).consumer = .parked ∧ (b.state i).event = true) :
    ∃ j, i ≤ j ∧ (b.state j).consumer ≠ .parked := by
  refine h.generator.leadsTo (P := fun s => s.consumer = .parked ∧ s.event = true)
    (Q := fun s => s.consumer ≠ .parked) ?_ ?_ ?_ hi
  · rintro s a t ⟨hat, hevent⟩ hstep
    rcases moves hstep <;> simp_all
  · rintro s a t ⟨hat, hevent⟩ rfl hstep
    rcases moves hstep <;> simp_all
  · rintro s ⟨hat, hevent⟩
    refine ⟨.consume, { s with consumer := .poll }, rfl, ?_⟩
    simp only [sink, Sink.step, consume, hat, hevent, if_true]

/-- A scheduled wake sets the event. -/
theorem wakes (h : TakesTurns b)
    (hi : (b.state i).consumer = .parked ∧ 0 < (b.state i).scheduled) :
    ∃ j, i ≤ j ∧ (b.state j).consumer ≠ .parked := by
  obtain ⟨j, hij, hj⟩ := h.loop.leadsTo (P := fun s => s.consumer = .parked ∧ 0 < s.scheduled)
    (Q := fun s => s.consumer = .parked → s.event = true) (by
      rintro s a t ⟨hat, hmore⟩ hstep
      rcases moves hstep <;> simp_all) (by
      rintro s a t ⟨hat, hmore⟩ rfl hstep
      cases moves hstep
      simp_all) (by
      rintro s ⟨hat, hmore⟩
      refine ⟨.callback, { s with event := true, scheduled := s.scheduled - 1 }, rfl, ?_⟩
      exact if_pos ⟨by rw [hat]; rfl, hmore⟩) hi
  by_cases hat : (b.state j).consumer = .parked
  · obtain ⟨k, hjk, hk⟩ := h.resumes ⟨hat, hj hat⟩
    exact ⟨k, hij.trans hjk, hk⟩
  · exact ⟨j, hij, hat⟩

/-- A producer that is about to schedule a wake does. -/
theorem signals (h : TakesTurns b) (hi : (b.state i).consumer = .parked ∧
    ((b.state i).producer = .signal ∨ (b.state i).producer = .wake)) :
    ∃ j, i ≤ j ∧ (b.state j).consumer ≠ .parked := by
  obtain ⟨j, hij, hj⟩ := h.producer.leadsTo
    (P := fun s => s.consumer = .parked ∧ (s.producer = .signal ∨ s.producer = .wake))
    (Q := fun s => s.consumer = .parked → 0 < s.scheduled) (by
      rintro s a t ⟨hat, hnext⟩ hstep
      rcases moves hstep <;> simp_all) (by
      rintro s a t ⟨hat, hnext⟩ rfl hstep
      rcases moves hstep <;> simp_all) (by
      rintro s ⟨hat, hnext | hnext⟩
      · refine ⟨.produce, { s with scheduled := s.scheduled + 1, producer := .write }, rfl, ?_⟩
        simp only [sink, Sink.step, produce, hnext]
      · refine ⟨.produce, { s with scheduled := s.scheduled + 1, producer := .exited }, rfl, ?_⟩
        simp only [sink, Sink.step, produce, hnext]) hi
  by_cases hat : (b.state j).consumer = .parked
  · obtain ⟨k, hjk, hk⟩ := h.wakes ⟨hat, hj hat⟩
    exact ⟨k, hij.trans hjk, hk⟩
  · exact ⟨j, hij, hat⟩

end TakesTurns

/-- A parked generator for which there is a chunk or the end has the event set, or a wake
scheduled, or the producer about to schedule one; so it does not stay parked. -/
theorem wake_delivered {s : Sink α} (h : (sink α).Reachable s) (hparked : s.consumer = .parked)
    (hready : s.Ready) :
    (s.event = true ∨ s.Coming) ∧
      ∀ (b : Machine.Behaviour (sink α)) (i : ℕ), TakesTurns b → b.state i = s →
        ∃ j, i ≤ j ∧ (b.state j).consumer ≠ .parked := by
  have hwoken : s.event = true ∨ s.Coming := (reachable_woken h).parked hparked hready
  refine ⟨hwoken, ?_⟩
  rintro b i hturns rfl
  rcases hwoken with hevent | hmore | hnext
  · exact hturns.resumes ⟨hparked, hevent⟩
  · exact hturns.wakes ⟨hparked, hmore⟩
  · exact hturns.signals ⟨hparked, hnext⟩

/-- A chunk is put while the generator is parked, and the stream goes on to its end. -/
def wokenStream : List SinkAct :=
  [.consume, .consume, .consume, .consume, .consume, .produce, .produce, .produce, .callback,
    .consume, .consume, .produce, .produce, .produce, .consume, .consume, .consume, .consume,
    .consume, .callback]

theorem wokenStream_runs : ((sink ℕ).exec (start [7]) wokenStream).isSome = true := by
  decide +kernel

theorem wokenStream_rests {a : SinkAct}
    (h : ((sink ℕ).step ((sink ℕ).final (start [7]) wokenStream) a).isNone = true) :
    (Machine.resting wokenStream_runs).FairFor (· = a) := by
  refine Machine.resting_fairFor _ ?_
  rintro ⟨_, t, rfl, hstep⟩
  rw [hstep] at h
  cases h

/-- It is woken. -/
theorem wokenStream_delivered :
    (((sink ℕ).stateAt (start [7]) wokenStream 7).event = true ∨
      ((sink ℕ).stateAt (start [7]) wokenStream 7).Coming) ∧
      ∃ j, 7 ≤ j ∧ ((sink ℕ).stateAt (start [7]) wokenStream j).consumer ≠ .parked := by
  obtain ⟨hwoken, hgoes⟩ := wake_delivered (s := (sink ℕ).stateAt (start [7]) wokenStream 7)
    ⟨_, _, ⟨[7], rfl⟩, .of_final (Machine.exec_take wokenStream_runs 7)⟩ (by decide +kernel)
    (Or.inl (by decide +kernel))
  refine ⟨hwoken, hgoes (Machine.resting wokenStream_runs) 7 ⟨?_, ?_, ?_⟩ rfl⟩
  · exact wokenStream_rests (by decide +kernel)
  · exact wokenStream_rests (by decide +kernel)
  · exact wokenStream_rests (by decide +kernel)

end LayaWatch
