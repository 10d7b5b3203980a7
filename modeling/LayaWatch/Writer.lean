import LayaWatch.Schema
import LayaWatch.Lib.Machine

/-!
# The writer's queue

`store/writer.py` up to the transaction: the queue and the counters that
`Writer._cond` guards, what the producers do to them, and the loop of the writer
thread. A step of the system is one stay of one thread in the critical section,
so a wait on the condition ends a step and the wakening starts another; the
clock readings that decide a wait are in the labels. What a transaction does to
the database is in `Commit`; here its outcome is part of the label.

Every call of `enqueue` and `enqueue_log` has a number, and `History` records
what became of it. Nothing the program does depends on either.
-/

namespace LayaWatch

/-- `_is_kept`. -/
def isKept (trace : Trace) : Bool :=
  match trace.metadata.get (py "sampled") with
  | none => true
  | some value => value.truthy

/-- `_is_error`. -/
def isError (trace : Trace) : Bool := decide (400 ≤ trace.status) || PyStr.truthy trace.errorCode

/-- The constructor's arguments that steer the queue, past its checks. -/
structure WriterConfig where
  /-- `batch_rows` -/
  batchRows : ℕ
  /-- `queue_max` -/
  queueMax : ℕ
  /-- `batch_rows must be >= 1` -/
  batchRows_pos : 1 ≤ batchRows
  /-- `queue_max must be >= 1` -/
  queueMax_pos : 1 ≤ queueMax

/-- What is queued: `("trace", trace)` or `("log", entry)`. -/
inductive Load where
  /-- a finished trace -/
  | trace (t : Trace)
  /-- a log entry -/
  | log (entry : LogEntry)

/-- A queued item, with the number of the call that handed it in. -/
structure Item where
  /-- the number of the call -/
  call : ℕ
  /-- the item itself -/
  load : Load

namespace Item

/-- `kind == "trace"`. -/
def isTrace (item : Item) : Bool :=
  match item.load with
  | .trace _ => true
  | .log _ => false

/-- A kept trace that is no error: what backpressure may evict. -/
def evictable (item : Item) : Bool :=
  match item.load with
  | .trace t => isKept t && !isError t
  | .log _ => false

/-- `traces` of a batch. -/
def traces : List Item → List Trace :=
  List.filterMap fun item => match item.load with
    | .trace t => some t
    | .log _ => none

/-- `logs` of a batch. -/
def logs : List Item → List LogEntry :=
  List.filterMap fun item => match item.load with
    | .trace _ => none
    | .log entry => some entry

/-- The calls that handed in the traces of a batch. -/
def traceCalls (items : List Item) : List ℕ := (items.filter isTrace).map call

/-- The calls that handed in the logs of a batch. -/
def logCalls (items : List Item) : List ℕ := (items.filter fun item => !item.isTrace).map call

end Item

/-- The fields of `Writer` that `_cond` guards, and `_retried`. -/
structure Writer where
  /-- `_queue`, oldest first -/
  queue : List Item := []
  /-- `_flush_wanted` -/
  flushWanted : Bool := false
  /-- `_flush_ack` -/
  flushAck : Bool := false
  /-- `_stopping` -/
  stopping : Bool := false
  /-- `_retried` -/
  retried : Bool := false
  /-- `_obs_dropped` -/
  obsDropped : ℕ := 0
  /-- `_logs_dropped` -/
  logsDropped : ℕ := 0
  /-- `_writes` -/
  writes : ℕ := 0

/-! ## Producers -/

/-- How a stay of a producer in the critical section ends. -/
inductive Admission where
  /-- `RuntimeError`: the writer is stopping -/
  | rejected
  /-- appended, with what was evicted for it -/
  | queued (evicted : Option Item)
  /-- waiting for room -/
  | waits
  /-- dropped and counted -/
  | dropped

/-- `_evict_kept_non_error`: what was removed and what is left. -/
def evictKeptNonError : List Item → Option (Item × List Item)
  | [] => none
  | item :: rest =>
    if item.evictable then some (item, rest)
    else (evictKeptNonError rest).map fun r => (r.1, item :: r.2)

namespace Writer

/-- `enqueue`, up to its end or its wait in `_wait_for_room`. -/
def enqueue (cfg : WriterConfig) (call : ℕ) (trace : Trace) (w : Writer) : Writer × Admission :=
  if w.stopping then (w, .rejected)
  else
    -- a sampled-out trace is counted here and queued all the same, for its rollups
    let w := if isKept trace then w else { w with obsDropped := w.obsDropped + 1 }
    if cfg.queueMax ≤ w.queue.length then
      if isKept trace && !isError trace then
        match evictKeptNonError w.queue with
        | some (gone, queue) =>
          ({ w with
              obsDropped := w.obsDropped + 1
              queue := queue ++ [⟨call, .trace trace⟩] }, .queued (some gone))
        | none => (w, .waits)
      else (w, .waits)
    else ({ w with queue := w.queue ++ [⟨call, .trace trace⟩] }, .queued none)

/-- A wakening in `_wait_for_room`, and the rest of `enqueue` when the wait is
over; `expired` is `remaining <= 0`. -/
def waitForRoom (cfg : WriterConfig) (expired : Bool) (item : Item) (w : Writer) :
    Writer × Admission :=
  if cfg.queueMax ≤ w.queue.length then
    if w.stopping || expired then ({ w with obsDropped := w.obsDropped + 1 }, .dropped)
    else (w, .waits)
  else ({ w with queue := w.queue ++ [item] }, .queued none)

/-- `enqueue_log`. -/
def enqueueLog (cfg : WriterConfig) (call : ℕ) (entry : LogEntry) (w : Writer) :
    Writer × Admission :=
  if w.stopping then (w, .rejected)
  else if cfg.queueMax ≤ w.queue.length then
    ({ w with logsDropped := w.logsDropped + 1 }, .dropped)
  else ({ w with queue := w.queue ++ [⟨call, .log entry⟩] }, .queued none)

/-! ## The writer thread -/

/-- The loop of `_collect` in one stay in the critical section, on the queue and
the batch so far: what is left of the queue, the batch, and whether `_collect`
returns or waits. `elapsed n` is the clock reading taken with `n` items in the
batch (`time.monotonic() - t0 >= batch_ms`), `due` that of an empty batch and
queue (a bucket is open and already due). -/
def gather (cfg : WriterConfig) (draining : Bool) (elapsed : ℕ → Bool) (due : Bool) :
    List Item → List Item → List Item × List Item × Bool
  | [], batch =>
    if batch.isEmpty then ([], [], draining || due)
    else ([], batch, draining || elapsed batch.length)
  | item :: rest, batch =>
    if !batch.isEmpty && !draining && elapsed batch.length then (item :: rest, batch, true)
    else if cfg.batchRows ≤ batch.length + 1 then (rest, batch ++ [item], true)
    else gather cfg draining elapsed due rest (batch ++ [item])

/-- What `_commit` returns. -/
inductive Status where
  /-- committed, or nothing to do -/
  | ok
  /-- back in the queue -/
  | requeued
  /-- dropped and counted -/
  | dropped
  deriving DecidableEq, Repr

/-- Where the writer thread is. -/
inductive Loop where
  /-- in `_collect`, before a stay in its critical section -/
  | collecting (batch : List Item)
  /-- `_collect` has returned -/
  | collected (batch : List Item)
  /-- the flags are read, `_commit` comes next -/
  | committing (batch : List Item) (flush stopping : Bool)
  /-- `_commit` has returned -/
  | recheck (status : Status) (flush stopping : Bool)
  /-- out of the loop, before the `finally` -/
  | left
  /-- the thread has ended -/
  | ended
  /-- the thread has ended through an exception -/
  | crashed

/-- How the transaction of `_commit` ends. -/
inductive Outcome where
  /-- there was neither a batch nor a bucket to close -/
  | nothing
  /-- committed -/
  | committed
  /-- busy, also after the last backoff -/
  | busy
  /-- another `sqlite3.Error` -/
  | failed
  deriving DecidableEq, Repr

/-- `_drop_batch`. -/
def dropBatch (batch : List Item) (w : Writer) : Writer :=
  { w with
    obsDropped := w.obsDropped + (batch.filter Item.isTrace).length
    logsDropped := w.logsDropped + (batch.filter fun item => !item.isTrace).length
    retried := false }

/-- What `_commit` does to the queue and the counters once the transaction has
ended, and what it returns. -/
def commit (batch : List Item) (w : Writer) : Outcome → Writer × Status
  | .nothing => (w, .ok)
  | .committed => ({ w with retried := false, writes := w.writes + 1 }, .ok)
  | .busy =>
    if w.retried then (w.dropBatch batch, .dropped)
    else ({ w with queue := batch ++ w.queue, retried := true }, .requeued)
  | .failed => (w.dropBatch batch, .dropped)

/-- The check after `_commit`; `true` leaves the loop. -/
def recheck (status : Status) (flush stopping : Bool) (w : Writer) : Writer × Bool :=
  let done := decide (status ≠ .requeued) && w.queue.isEmpty
  (if flush && done then { w with flushWanted := false, flushAck := true } else w,
    stopping && done)

/-- `stop`, its critical section. -/
def stop (w : Writer) : Writer := { w with stopping := true }

/-- `flush_now`, its critical section. -/
def flushNow (w : Writer) : Writer := { w with flushWanted := true, flushAck := false }

/-- The critical section of the `finally` of `_run`. -/
def finish (w : Writer) : Writer := { w with flushWanted := false, flushAck := true }

end Writer

/-! ## The system -/

/-- What became of the calls. -/
structure History where
  /-- how many calls there were -/
  calls : ℕ := 0
  /-- the calls of `enqueue` that returned normally -/
  returned : List ℕ := []
  /-- the calls of `enqueue` counted in `obs_dropped_total`, once per count -/
  counted : List ℕ := []
  /-- the calls of `enqueue_log` counted in `logs_dropped_total` -/
  logsCounted : List ℕ := []
  /-- the items appended to the queue, in that order -/
  appended : List Item := []
  /-- the items of committed batches, in that order -/
  committed : List Item := []
  /-- the items evicted from the queue -/
  evicted : List Item := []
  /-- the items of dropped batches -/
  dropped : List Item := []

/-- The call of `item` is in the counter of its kind. -/
def History.Counted (hist : History) (item : Item) : Prop :=
  item.call ∈ if item.isTrace then hist.counted else hist.logsCounted

/-- The writer, its thread and the producers that wait in `_wait_for_room`. -/
structure WriterSys where
  /-- the shared fields -/
  writer : Writer := {}
  /-- the writer thread -/
  loop : Writer.Loop := .collecting []
  /-- what the waiting producers want to append -/
  waiting : List Item := []
  /-- what became of the calls -/
  hist : History := {}

/-- Whose step it is, and what the clock and the database say. -/
inductive WriterAct where
  /-- a call of `enqueue` -/
  | enqueue (trace : Trace)
  /-- a call of `enqueue_log` -/
  | enqueueLog (entry : LogEntry)
  /-- the `i`-th waiting producer wakes -/
  | wake (i : ℕ) (expired : Bool)
  /-- a stay of `_collect` in its critical section -/
  | collect (elapsed : ℕ → Bool) (due : Bool)
  /-- the flags are read; `due` is `_due_buckets` -/
  | readFlags (due : Bool)
  /-- `_commit` -/
  | commit (outcome : Writer.Outcome)
  /-- the check after `_commit` -/
  | recheck
  /-- the `finally` of `_run` -/
  | finish
  /-- a call of `stop` -/
  | stop
  /-- a call of `flush_now` -/
  | flushNow

namespace WriterSys

open Writer

/-- `enqueue` of call `s.hist.calls`. -/
def enqueue (cfg : WriterConfig) (trace : Trace) (s : WriterSys) : WriterSys :=
  let call := s.hist.calls
  let item : Item := ⟨call, .trace trace⟩
  let sampledOut := if isKept trace then [] else [call]
  let (w, admission) := s.writer.enqueue cfg call trace
  match admission with
  | .queued evicted =>
    { s with
      writer := w
      hist := { s.hist with
        calls := call + 1
        returned := s.hist.returned ++ [call]
        counted := s.hist.counted ++ sampledOut ++ evicted.toList.map Item.call
        appended := s.hist.appended ++ [item]
        evicted := s.hist.evicted ++ evicted.toList } }
  | .waits =>
    { s with
      writer := w
      waiting := s.waiting ++ [item]
      hist := { s.hist with calls := call + 1, counted := s.hist.counted ++ sampledOut } }
  | .rejected | .dropped => { s with writer := w, hist := { s.hist with calls := call + 1 } }

/-- A wakening of the `i`-th waiting producer. -/
def wake (cfg : WriterConfig) (i : ℕ) (expired : Bool) (s : WriterSys) : Option WriterSys :=
  s.waiting[i]?.map fun item =>
    let (w, admission) := s.writer.waitForRoom cfg expired item
    match admission with
    | .queued _ =>
      { s with
        writer := w
        waiting := s.waiting.eraseIdx i
        hist := { s.hist with
          returned := s.hist.returned ++ [item.call]
          appended := s.hist.appended ++ [item] } }
    | .dropped =>
      { s with
        writer := w
        waiting := s.waiting.eraseIdx i
        hist := { s.hist with
          returned := s.hist.returned ++ [item.call]
          counted := s.hist.counted ++ [item.call] } }
    | .waits | .rejected => { s with writer := w }

/-- `enqueue_log`. -/
def enqueueLog (cfg : WriterConfig) (entry : LogEntry) (s : WriterSys) : WriterSys :=
  let call := s.hist.calls
  let (w, admission) := s.writer.enqueueLog cfg call entry
  match admission with
  | .queued _ =>
    { s with
      writer := w
      hist := { s.hist with
        calls := call + 1
        appended := s.hist.appended ++ [⟨call, .log entry⟩] } }
  | .dropped =>
    { s with
      writer := w
      hist := { s.hist with calls := call + 1, logsCounted := s.hist.logsCounted ++ [call] } }
  | .waits | .rejected => { s with writer := w, hist := { s.hist with calls := call + 1 } }

/-- A stay of `_collect` in its critical section. -/
def collect (cfg : WriterConfig) (elapsed : ℕ → Bool) (due : Bool) (s : WriterSys) :
    Option WriterSys :=
  match s.loop with
  | .collecting batch =>
    let draining := s.writer.flushWanted || s.writer.stopping
    let (queue, batch, returns) := gather cfg draining elapsed due s.writer.queue batch
    some { s with
      writer := { s.writer with queue := queue }
      loop := if returns then .collected batch else .collecting batch }
  | _ => none

/-- The flags are read, and an idle wakening goes back to `_collect`. -/
def readFlags (due : Bool) (s : WriterSys) : Option WriterSys :=
  match s.loop with
  | .collected batch =>
    let stopping := s.writer.stopping
    let flush := s.writer.flushWanted
    let idle := batch.isEmpty && !(flush || stopping) && !due
    some { s with loop := if idle then .collecting [] else .committing batch flush stopping }
  | _ => none

/-- `_commit`, its transaction ending with `outcome`. An outcome `nothing` is
one of an empty batch. -/
def commit (outcome : Outcome) (s : WriterSys) : Option WriterSys :=
  match s.loop with
  | .committing batch flush stopping =>
    if outcome = .nothing ∧ batch ≠ [] then none
    else
      let (w, status) := s.writer.commit batch outcome
      let hist := match outcome, status with
        | .committed, _ => { s.hist with committed := s.hist.committed ++ batch }
        | _, .dropped =>
          { s.hist with
            dropped := s.hist.dropped ++ batch
            counted := s.hist.counted ++ Item.traceCalls batch
            logsCounted := s.hist.logsCounted ++ Item.logCalls batch }
        | _, _ => s.hist
      some { s with writer := w, loop := .recheck status flush stopping, hist := hist }
  | _ => none

/-- The check after `_commit`. -/
def recheck (s : WriterSys) : Option WriterSys :=
  match s.loop with
  | .recheck status flush stopping =>
    let (w, leaves) := s.writer.recheck status flush stopping
    some { s with writer := w, loop := if leaves then .left else .collecting [] }
  | _ => none

/-- The `finally` after the loop was left. -/
def finish (s : WriterSys) : Option WriterSys :=
  match s.loop with
  | .left => some { s with writer := s.writer.finish, loop := .ended }
  | _ => none

/-- An exception escapes `_commit`: it is logged, and the `finally` runs. -/
def crash (s : WriterSys) : WriterSys :=
  { s with writer := s.writer.finish, loop := .crashed }

/-- One step of the system. -/
def step (cfg : WriterConfig) (s : WriterSys) : WriterAct → Option WriterSys
  | .enqueue trace => some (s.enqueue cfg trace)
  | .enqueueLog entry => some (s.enqueueLog cfg entry)
  | .wake i expired => s.wake cfg i expired
  | .collect elapsed due => s.collect cfg elapsed due
  | .readFlags due => s.readFlags due
  | .commit outcome => s.commit outcome
  | .recheck => s.recheck
  | .finish => s.finish
  | .stop => some { s with writer := s.writer.stop }
  | .flushNow => some { s with writer := s.writer.flushNow }

/-- The writer as a machine; it starts with an empty queue. -/
def machine (cfg : WriterConfig) : Machine WriterSys WriterAct := ⟨fun s => s = {}, step cfg⟩

/-- The items in the hands of the writer thread. -/
def inFlight (s : WriterSys) : List Item :=
  match s.loop with
  | .collecting batch | .collected batch | .committing batch _ _ => batch
  | _ => []

/-- The writer thread has left its loop. -/
def HasLeft (s : WriterSys) : Prop := s.loop = .left ∨ s.loop = .ended

end WriterSys

end LayaWatch
