import LayaWatch.Http
import LayaWatch.Query
import LayaWatch.Lib.Machine

/-!
# The live stream

`StreamHub` of `api/stream.py`: the registry of connected clients, the replay ring
and the fan-out of events. Each lock section of the source is one step, and so is each
write to a socket; a step says which thread takes it, and what the clock, the pulse
provider or the socket do there.

A connection is a handler thread. Between its lock sections it holds what it took out
of the hub in its phase: the replay window it was registered with, the events it has
drained, or the batch it is about to write. Frames are values here (`_encode` makes
the bytes of one).
-/

namespace LayaWatch

/-- What a client's queue holds: `(name, payload, event_id)`. -/
inductive StreamEvent where
  /-- `("trace", summary, event_id)` -/
  | trace (summary : Fields) (eventId : ℕ)
  /-- `("log", entry, None)` -/
  | log (entry : Fields)
  /-- `("model", payload, None)` -/
  | model (payload : Fields)

/-- One SSE frame. -/
inductive Frame where
  /-- `hello` -/
  | hello (serverTime tick : ℚ) (ringSize : ℕ)
  /-- `trace`, `log` or `model` -/
  | event (e : StreamEvent)
  /-- `pulse` -/
  | pulse (payload : Fields)
  /-- `ping` -/
  | ping

namespace StreamEvent

/-- The ring entry of a trace event. -/
def ringEntry : StreamEvent → Option (ℕ × Fields)
  | trace summary eventId => some (eventId, summary)
  | _ => none

end StreamEvent

namespace Frame

/-- The event a frame carries. -/
def carries : Frame → Option StreamEvent
  | event e => some e
  | _ => none

/-- The frame of a ring entry. -/
def ofRing (entry : ℕ × Fields) : Frame := event (.trace entry.2 entry.1)

end Frame

/-- Where a handler thread is. -/
inductive StreamPhase where
  /-- it is registered and has not written yet; `replay` is its snapshot -/
  | opening (replay : List (ℕ × Fields))
  /-- it waits for its next tick -/
  | serving
  /-- it has drained its queue and waits for the pulse another thread computes -/
  | waiting (pending : List StreamEvent) (pingDue : Bool)
  /-- it has drained its queue and runs the pulse provider -/
  | computing (pending : List StreamEvent) (pingDue : Bool)
  /-- it is about to arm the refresh timer -/
  | arming (pending : List StreamEvent) (pingDue : Bool) (pulse : Fields)
  /-- it is about to write a batch -/
  | writing (batch : List Frame)
  /-- its loop is over; it is still registered -/
  | leaving
  /-- it is no longer registered -/
  | gone

/-- A connection: a `_Client` and the thread that serves it. -/
structure StreamClient where
  /-- `queue` -/
  queue : List StreamEvent := []
  /-- `last_pulse` -/
  lastPulse : ℚ
  /-- `last_ping` -/
  lastPing : ℚ
  /-- where its thread is -/
  phase : StreamPhase
  /-- the frames written to its socket -/
  written : List Frame := []

namespace StreamClient

/-- It is in `_clients`. -/
def registered (c : StreamClient) : Bool :=
  match c.phase with
  | .gone => false
  | _ => true

end StreamClient

/-- `StreamHub`. -/
structure StreamHub where
  /-- every connection so far; those that are `registered` are `_clients` -/
  clients : List StreamClient := []
  /-- `_ring` -/
  ring : List (ℕ × Fields) := []
  /-- its `maxlen` -/
  replay : ℕ
  /-- `_next_id` -/
  nextId : ℕ := 1
  /-- `_stopping` -/
  stopping : Bool := false
  /-- `_tick_s` -/
  tickS : ℚ
  /-- `_ring_size` -/
  ringSize : ℕ
  /-- `_max_clients` -/
  maxClients : ℕ
  /-- the payload of `_pulse_frame` -/
  pulseFrame : Option Fields := none
  /-- `_pulse_frame_at` -/
  pulseFrameAt : ℚ := 0
  /-- `_pulse_computing` -/
  pulseComputing : Bool := false
  /-- `_prefetch_timer` -/
  prefetchTimer : Option ℕ := none
  /-- the number of timers made so far -/
  timers : ℕ := 0
  /-- the timer threads that run the provider -/
  refreshing : ℕ := 0
  /-- the timer threads that are about to arm the next timer -/
  rearming : ℕ := 0

/-- `_PING_S`. -/
def pingS : ℚ := 15

namespace StreamHub

/-- `attach`, on a hub without clients. -/
def attach (tickS : ℚ) (ringSize replay maxClients : ℕ) : StreamHub where
  replay := replay
  tickS := tickS
  ringSize := ringSize
  maxClients := maxClients

/-- `client_count`. -/
def clientCount (hub : StreamHub) : ℕ := (hub.clients.filter StreamClient.registered).length

/-- `for client in self._clients: client.queue.append(..)`. -/
def fanOut (e : StreamEvent) (hub : StreamHub) : StreamHub :=
  { hub with clients := hub.clients.map fun c =>
      if c.registered then { c with queue := c.queue ++ [e] } else c }

/-- `deque(maxlen=..).append`. -/
def pushRing (maxlen : ℕ) (ring : List (ℕ × Fields)) (entry : ℕ × Fields) : List (ℕ × Fields) :=
  (ring ++ [entry]).drop (ring.length + 1 - maxlen)

/-- `publish_trace`. -/
def publishTrace (summary : Fields) (hub : StreamHub) : StreamHub :=
  { hub with
    nextId := hub.nextId + 1
    ring := pushRing hub.replay hub.ring (hub.nextId, summary) }.fanOut
    (.trace summary hub.nextId)

/-- `publish_log`. -/
def publishLog (entry : Fields) (hub : StreamHub) : StreamHub := hub.fanOut (.log entry)

/-- `publish_model`. -/
def publishModel (payload : Fields) (hub : StreamHub) : StreamHub := hub.fanOut (.model payload)

/-- `stop`. -/
def stop (hub : StreamHub) : StreamHub := { hub with stopping := true, prefetchTimer := none }

/-- `_parse_last_event_id`, of the header or else the query parameter. -/
def parseLastEventId (T : PyText) (header param : Option PyStr) : Option ℤ :=
  match header with
  | some (c :: raw) => T.int (c :: raw)
  | _ => param.bind T.int

/-- The replay window of a last id. -/
def missed (lastId : Option ℤ) (ring : List (ℕ × Fields)) : List (ℕ × Fields) :=
  match lastId with
  | some lastId => ring.filter fun entry => decide (lastId < (entry.1 : ℤ))
  | none => []

/-- A new connection, with its replay window. -/
def register (lastId : Option ℤ) (now : ℚ) (hub : StreamHub) : StreamHub :=
  { hub with clients := hub.clients ++
      [{ lastPulse := now, lastPing := now, phase := .opening (missed lastId hub.ring) }] }

/-- `_handle`: registration and snapshot in one lock section. -/
def handle (lastId : Option ℤ) (now : ℚ) (hub : StreamHub) : Except HttpError StreamHub :=
  if hub.maxClients ≤ hub.clientCount then
    .error ⟨503, py "sse_unavailable",
      [.text (py "stream client capacity reached ("), .text (JsonText.dumpsNat hub.maxClients),
        .text (py ")")], none⟩
  else .ok (hub.register lastId now)

/-- Put connection `i`. -/
def setClient (i : ℕ) (c : StreamClient) (hub : StreamHub) : StreamHub :=
  { hub with clients := hub.clients.set i c }

/-- The batch of a tick. -/
def batchOf (pending : List StreamEvent) (pulse : Option Fields) (pingDue : Bool) : List Frame :=
  pending.map Frame.event ++ (pulse.map Frame.pulse).toList ++ (if pingDue then [.ping] else [])

/-- `stream`: `hello` and the replay window in one write. -/
def writeHead (serverTime : ℚ) (c : StreamClient) (hub : StreamHub) : Option StreamClient :=
  match c.phase with
  | .opening replay => some { c with
      phase := .serving
      written := c.written ++ .hello serverTime hub.tickS hub.ringSize :: replay.map Frame.ofRing }
  | _ => none

/-- The lock section of `_tick_batch` in which the cadence is due, at the time
`now`, or the hub is stopping. The second component says that it claims the pulse. -/
def tick (now : ℚ) (c : StreamClient) (hub : StreamHub) : Option (StreamClient × Bool) :=
  match c.phase with
  | .serving =>
    if hub.stopping then some ({ c with phase := .leaving }, false)
    else
      let pulseDue := decide (hub.tickS ≤ now - c.lastPulse)
      let pingDue := decide (pingS ≤ now - c.lastPing)
      if pulseDue || pingDue then
        let pending := c.queue
        let c := { c with
          queue := []
          lastPulse := if pulseDue then now else c.lastPulse
          lastPing := if pingDue then now else c.lastPing }
        if pulseDue then
          if hub.pulseFrame.isSome && decide (now - hub.pulseFrameAt < hub.tickS) then
            some ({ c with phase := .writing (batchOf pending hub.pulseFrame pingDue) }, false)
          else if hub.pulseComputing then
            some ({ c with phase := .waiting pending pingDue }, false)
          else some ({ c with phase := .computing pending pingDue }, true)
        else some ({ c with phase := .writing (batchOf pending none pingDue) }, false)
      else none
  | _ => none

/-- The wait for another thread's pulse is over. -/
def wake (c : StreamClient) (hub : StreamHub) : Option StreamClient :=
  match c.phase with
  | .waiting pending pingDue =>
    if hub.stopping then some { c with phase := .leaving }
    else if hub.pulseComputing then none
    else some { c with phase := .writing (batchOf pending hub.pulseFrame pingDue) }
  | _ => none

/-- What the provider returned, or what stands in for it when it failed. -/
def pulseOf (result : Option Fields) : Fields := result.getD []

/-- `_compute_pulse` stores the frame. -/
def storePulse (pulse : Fields) (now : ℚ) (hub : StreamHub) : StreamHub :=
  { hub with pulseFrame := some pulse, pulseFrameAt := now, pulseComputing := false }

/-- `_arm_prefetch`. -/
def armPrefetch (hub : StreamHub) : StreamHub :=
  if hub.stopping || hub.clientCount = 0 || hub.prefetchTimer.isSome then hub
  else { hub with prefetchTimer := some hub.timers, timers := hub.timers + 1 }

/-- The lock section of `_prefetch`, in the thread of a timer. -/
def prefetch (timer : ℕ) (hub : StreamHub) : StreamHub :=
  if hub.prefetchTimer = some timer then
    if hub.stopping || hub.clientCount = 0 || hub.pulseComputing then
      { hub with prefetchTimer := none }
    else { hub with
      prefetchTimer := none, pulseComputing := true, refreshing := hub.refreshing + 1 }
  else hub

/-- What is to be written where a thread may fail: its head or its batch; nothing
where it starts the timer's thread. -/
def outgoing (serverTime : ℚ) (c : StreamClient) (hub : StreamHub) : Option (List Frame) :=
  match c.phase with
  | .opening replay =>
    some (.hello serverTime hub.tickS hub.ringSize :: replay.map Frame.ofRing)
  | .writing batch => some batch
  | .arming .. => some []
  | _ => none

/-- It fails when `n` of the frames are out: the loop ends. -/
def failWrite (n : ℕ) (serverTime : ℚ) (c : StreamClient) (hub : StreamHub) :
    Option StreamClient :=
  (hub.outgoing serverTime c).map fun frames =>
    { c with phase := .leaving, written := c.written ++ frames.take n }

end StreamHub

/-- Who moves. -/
inductive StreamAct where
  /-- `publish_trace` -/
  | publishTrace (summary : Fields)
  /-- `publish_log` -/
  | publishLog (entry : Fields)
  /-- `publish_model` -/
  | publishModel (payload : Fields)
  /-- a client connects -/
  | connect (header param : Option PyStr) (now : ℚ)
  /-- its head is written -/
  | head (i : ℕ) (serverTime : ℚ)
  /-- its tick takes the lock -/
  | tick (i : ℕ) (now : ℚ)
  /-- its wait for the pulse ends -/
  | wake (i : ℕ)
  /-- it has computed the pulse and stores it -/
  | provide (i : ℕ) (result : Option Fields) (now : ℚ)
  /-- it arms the refresh timer -/
  | arm (i : ℕ)
  /-- its batch is written -/
  | write (i : ℕ)
  /-- a write of it fails, with some frames out -/
  | fail (i n : ℕ) (serverTime : ℚ)
  /-- it leaves the registry -/
  | leave (i : ℕ)
  /-- a timer fires -/
  | prefetch (timer : ℕ)
  /-- a timer thread has computed the pulse and stores it -/
  | refresh (result : Option Fields) (now : ℚ)
  /-- a timer thread arms the next timer -/
  | rearm
  /-- `stop` -/
  | stop

namespace StreamHub

/-- One step of the thread of connection `i`. -/
def clientStep (hub : StreamHub) (i : ℕ) (f : StreamClient → Option StreamClient) :
    Option StreamHub := do
  let c ← hub.clients[i]?
  let c ← f c
  return hub.setClient i c

/-- The steps of the hub. -/
def step (T : PyText) (hub : StreamHub) : StreamAct → Option StreamHub
  | .publishTrace summary => some (hub.publishTrace summary)
  | .publishLog entry => some (hub.publishLog entry)
  | .publishModel payload => some (hub.publishModel payload)
  | .connect header param now =>
    match hub.handle (parseLastEventId T header param) now with
    | .ok hub => some hub
    | .error _ => some hub
  | .head i serverTime => hub.clientStep i fun c => hub.writeHead serverTime c
  | .tick i now => do
    let c ← hub.clients[i]?
    let (c, claim) ← hub.tick now c
    return { hub.setClient i c with pulseComputing := hub.pulseComputing || claim }
  | .wake i => hub.clientStep i fun c => hub.wake c
  | .provide i result now => do
    let c ← hub.clients[i]?
    match c.phase with
    | .computing pending pingDue =>
      let pulse := pulseOf result
      return (hub.setClient i { c with phase := .arming pending pingDue pulse }).storePulse
        pulse now
    | _ => none
  | .arm i => do
    let c ← hub.clients[i]?
    match c.phase with
    | .arming pending pingDue pulse =>
      return (hub.setClient i
        { c with phase := .writing (batchOf pending (some pulse) pingDue) }).armPrefetch
    | _ => none
  | .write i => hub.clientStep i fun c =>
    match c.phase with
    | .writing batch => some { c with phase := .serving, written := c.written ++ batch }
    | _ => none
  | .fail i n serverTime => hub.clientStep i fun c => hub.failWrite n serverTime c
  | .leave i => hub.clientStep i fun c =>
    match c.phase with
    | .leaving => some { c with phase := .gone }
    | _ => none
  | .prefetch timer => some (hub.prefetch timer)
  | .refresh result now =>
    if 0 < hub.refreshing then
      some { hub.storePulse (pulseOf result) now with
        refreshing := hub.refreshing - 1, rearming := hub.rearming + 1 }
    else none
  | .rearm =>
    if 0 < hub.rearming then some { hub.armPrefetch with rearming := hub.rearming - 1 } else none
  | .stop => some hub.stop

/-- The hub, from its attachment on. -/
def machine (T : PyText) : Machine StreamHub StreamAct where
  init hub := ∃ tickS ringSize replay maxClients, hub = attach tickS ringSize replay maxClients
  step := step T

end StreamHub

end LayaWatch
