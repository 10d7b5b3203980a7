import LayaWatch.EventFrames
import LayaWatch.StreamCadence
import LayaWatch.StreamDelivery
import LayaWatch.Lib.Feed
import LayaWatch.Lib.Projection

/-!
# The browser's end of the live stream

`useStream` of `web/src/lib/stream.ts`, next to the hub that serves it. A page remembers the
id of the last trace it was sent, closes its `EventSource` at the first error, and comes back
with that id after a backoff. What its handlers are called with, over all the connections it
ever made, is in order and has no trace twice (`handed_once`); nothing is missing after the
first trace, as long as no more traces are published while it is away than the ring holds
(`handed_whole`). After two failures in a row it polls until the stream is back
(`polling_iff`).

The page reads the frames that the hub has written to its connection (`written_read_back`
says that their bytes are read back as these). What is polled is not here.
-/

namespace LayaWatch

open StreamHub

/-! ## The page -/

/-- `StreamStatus`. -/
inductive StreamStatus where
  | connecting
  | connected
  | reconnecting
  | polling
  | offline
  deriving DecidableEq

/-- The `EventSource` of a page. -/
inductive EventSource where
  /-- there is none, or it is closed -/
  | closed
  /-- its request is under way -/
  | requested
  /-- its request was answered with an error -/
  | refused
  /-- connection `i` of the hub answers it; `read` of its frames have been dispatched, and
  `lastEventId` is the id of the last that had one -/
  | answered (i : ℕ) (opened : Bool) (read : ℕ) (lastEventId : PyStr)

/-- What `useStream` keeps. -/
structure Page where
  /-- `enabled` -/
  enabled : Bool := true
  /-- `status` -/
  status : StreamStatus := .connecting
  /-- `lastId.current` -/
  lastId : Option PyStr := none
  /-- `attempts.current` -/
  attempts : ℕ := 0
  /-- `tickS.current` -/
  tickS : ℚ := 3
  /-- `polling` -/
  polling : Bool := false
  /-- the period of `pollTimer` -/
  pollMs : Option ℚ := none
  /-- the delay of `backoffTimer` -/
  backoffMs : Option ℕ := none
  /-- `source` -/
  source : EventSource := .requested
  /-- the events that its handlers were called with -/
  handed : List StreamEvent := []

/-- `MAX_BACKOFF_MS`. -/
def maxBackoffMs : ℕ := 5000

/-- `FALLBACK_AFTER_FAILURES`. -/
def fallbackAfterFailures : ℕ := 2

/-- The `id:` line of a frame. -/
def Frame.id : Frame → Option PyStr
  | event (.trace _ eventId) => some (JsonText.dumpsInt eventId)
  | _ => none

namespace Page

/-- `connect`. -/
def connect (p : Page) : Page :=
  { p with
    status := if p.attempts = 0 then .connecting else .reconnecting
    backoffMs := none
    source := .requested }

/-- `startPolling`; `onPoll` says that a consumer registered it. -/
def startPolling (onPoll : Bool) (p : Page) : Page :=
  if p.polling then p
  else { p with
    polling := true
    status := .polling
    pollMs := if onPoll then some (p.tickS * 1000) else none }

/-- `stopPolling`. -/
def stopPolling (p : Page) : Page := { p with polling := false, pollMs := none }

/-- `next.onopen`. -/
def onopen (p : Page) : Page := { p.stopPolling with attempts := 0, status := .connected }

/-- `next.onerror`. -/
def onerror (onPoll : Bool) (p : Page) : Page :=
  let p := { p with source := .closed, attempts := p.attempts + 1 }
  let p := if fallbackAfterFailures ≤ p.attempts then p.startPolling onPoll
    else { p with status := .reconnecting }
  { p with backoffMs := some (min (1000 * 2 ^ (p.attempts - 1)) maxBackoffMs) }

/-- The handler of a frame. -/
def handle (frame : Frame) (p : Page) : Page :=
  match frame with
  | .hello _ tick _ => if 0 < tick then { p with tickS := tick } else p
  | .event e => { p with handed := p.handed ++ [e] }
  | _ => p

/-- The listener of a frame, with the `lastEventId` of its event. -/
def listen (lastEventId : PyStr) (frame : Frame) (p : Page) : Page :=
  Page.handle frame (if lastEventId.isEmpty then p else { p with lastId := some lastEventId })

/-- The cleanup of the effect, and the next effect while `enabled` is off. -/
def disable (p : Page) : Page :=
  { p.stopPolling with enabled := false, status := .offline, backoffMs := none, source := .closed }

/-- The effect, when `enabled` is on again. -/
def enable (p : Page) : Page := { p.connect with enabled := true }

end Page

/-! ## The page and the hub -/

/-- A page and the hub it talks to. -/
structure Live where
  /-- the hub -/
  hub : StreamHub
  /-- the page -/
  page : Page := {}

/-- What happens. -/
inductive LiveAct where
  /-- the hub and its other clients -/
  | server (a : StreamAct)
  /-- the request of the page arrives -/
  | arrive (now : ℚ)
  /-- its answer arrives -/
  | opened
  /-- a frame arrives -/
  | receive
  /-- the connection fails -/
  | failed (onPoll : Bool)
  /-- the backoff is over -/
  | retry
  /-- the stream is switched off -/
  | disable
  /-- the stream is switched on -/
  | enable

namespace Live

/-- What the request of the page asks for. -/
def lastId (T : PyText) (live : Live) : Option ℤ := parseLastEventId T none live.page.lastId

/-- The steps of the page and the hub. -/
def step (T : PyText) (live : Live) : LiveAct → Option Live
  | .server a => (StreamHub.step T live.hub a).map fun hub => { live with hub := hub }
  | .arrive now =>
    match live.page.source with
    | .requested =>
      match live.hub.handle (live.lastId T) now with
      | .ok hub =>
        some ⟨hub, { live.page with source := .answered live.hub.clients.length false 0 [] }⟩
      | .error _ => some { live with page := { live.page with source := .refused } }
    | _ => none
  | .opened =>
    match live.page.source with
    | .answered i false read lastEventId => some { live with
        page := { live.page.onopen with source := .answered i true read lastEventId } }
    | _ => none
  | .receive =>
    match live.page.source with
    | .answered i true read lastEventId => do
      let c ← live.hub.clients[i]?
      let frame ← c.written[read]?
      let lastEventId := frame.id.getD lastEventId
      return { live with page := { live.page.listen lastEventId frame with
        source := .answered i true (read + 1) lastEventId } }
    | _ => none
  | .failed onPoll =>
    match live.page.source with
    | .closed => none
    | _ => some { live with page := live.page.onerror onPoll }
  | .retry =>
    if live.page.backoffMs.isSome then some { live with page := live.page.connect } else none
  | .disable => if live.page.enabled then some { live with page := live.page.disable } else none
  | .enable => if live.page.enabled then none else some { live with page := live.page.enable }

/-- A hub from its attachment on, and a page from its start on. -/
def machine (T : PyText) : Machine Live LiveAct where
  init live := (StreamHub.machine T).init live.hub ∧ live.page = {}
  step := step T

/-- The step of the hub in a step. -/
def hubStep (live : Live) : LiveAct → Option StreamAct
  | .server a => some a
  | .arrive now =>
    match live.page.source with
    | .requested => some (.connect none live.page.lastId now)
    | _ => none
  | _ => none

end Live

/-- The traces that a run publishes. -/
def tracesIn (es : List (Machine.Event Live LiveAct)) : List (ℕ × Fields) :=
  tracesOf (publishedIn (Machine.partEvents Live.hub Live.hubStep es))

/-- The traces that the handlers of a page were called with, with their ids. -/
def Page.traces (p : Page) : List (ℕ × Fields) := tracesOf p.handed

/-! ## The steps, one by one -/

/-- What a step does. -/
inductive Live.Moves (T : PyText) (live : Live) : LiveAct → Live → Prop
  /-- the hub or another client of it moves -/
  | server {a : StreamAct} {hub : StreamHub} : StreamHub.step T live.hub a = some hub →
      Moves T live (.server a) { live with hub := hub }
  /-- the hub registers the page -/
  | answered {now : ℚ} : live.page.source = .requested →
      live.hub.handle (live.lastId T) now = .ok (live.hub.register (live.lastId T) now) →
      Moves T live (.arrive now) ⟨live.hub.register (live.lastId T) now,
        { live.page with source := .answered live.hub.clients.length false 0 [] }⟩
  /-- it has no room -/
  | refused {now : ℚ} {e : HttpError} : live.page.source = .requested →
      live.hub.handle (live.lastId T) now = .error e →
      Moves T live (.arrive now) { live with page := { live.page with source := .refused } }
  /-- the answer opens the stream -/
  | opened {i read : ℕ} {lastEventId : PyStr} :
      live.page.source = .answered i false read lastEventId →
      Moves T live .opened { live with
        page := { live.page.onopen with source := .answered i true read lastEventId } }
  /-- a frame is dispatched -/
  | receive {i read : ℕ} {lastEventId : PyStr} {c : StreamClient} {frame : Frame} :
      live.page.source = .answered i true read lastEventId → live.hub.clients[i]? = some c →
      c.written[read]? = some frame →
      Moves T live .receive { live with
        page := { live.page.listen (frame.id.getD lastEventId) frame with
          source := .answered i true (read + 1) (frame.id.getD lastEventId) } }
  /-- the connection fails -/
  | failed {onPoll : Bool} : live.page.source ≠ .closed →
      Moves T live (.failed onPoll) { live with page := live.page.onerror onPoll }
  /-- the page tries again -/
  | retry {ms : ℕ} : live.page.backoffMs = some ms →
      Moves T live .retry { live with page := live.page.connect }
  /-- the page is switched off -/
  | disable : live.page.enabled = true →
      Moves T live .disable { live with page := live.page.disable }
  /-- the page is switched on -/
  | enable : live.page.enabled = false →
      Moves T live .enable { live with page := live.page.enable }

section

variable {T : PyText} {hub hub' : StreamHub} {c c' : StreamClient} {live live' : Live}
  {a : LiveAct} {es : List (Machine.Event Live LiveAct)}

theorem handle_ok {lastId : Option ℤ} {now : ℚ} (h : hub.handle lastId now = .ok hub') :
    hub' = hub.register lastId now := by
  unfold StreamHub.handle at h
  split at h
  · cases h
  · exact (Except.ok.inj h).symm

theorem Live.moves (h : (Live.machine T).step live a = some live') :
    Live.Moves T live a live' := by
  change Live.step T live a = some live' at h
  unfold Live.step at h
  cases a with
  | server a =>
    obtain ⟨hub, hhub, rfl⟩ := Option.map_eq_some_iff.mp h
    exact .server hhub
  | arrive now =>
    dsimp only at h
    split at h
    · rename_i hsource
      split at h
      · rename_i hub hok
        obtain rfl := handle_ok hok
        obtain rfl := Option.some.inj h
        exact .answered hsource hok
      · rename_i e herror
        obtain rfl := Option.some.inj h
        exact .refused hsource herror
    · cases h
  | opened =>
    dsimp only at h
    split at h
    · rename_i hsource
      obtain rfl := Option.some.inj h
      exact .opened hsource
    · cases h
  | receive =>
    dsimp only at h
    split at h
    · rename_i hsource
      obtain ⟨c, hc, h⟩ := Option.bind_eq_some_iff.mp h
      obtain ⟨frame, hframe, h⟩ := Option.bind_eq_some_iff.mp h
      obtain rfl := Option.some.inj h
      exact .receive hsource hc hframe
    · cases h
  | failed onPoll =>
    dsimp only at h
    split at h
    · cases h
    · rename_i hopen
      obtain rfl := Option.some.inj h
      exact .failed hopen
  | retry =>
    dsimp only at h
    split at h
    · rename_i hbackoff
      obtain ⟨ms, hms⟩ := Option.isSome_iff_exists.mp hbackoff
      obtain rfl := Option.some.inj h
      exact .retry hms
    · cases h
  | disable =>
    dsimp only at h
    split at h
    · rename_i henabled
      obtain rfl := Option.some.inj h
      exact .disable henabled
    · cases h
  | enable =>
    dsimp only at h
    split at h
    · cases h
    · rename_i henabled
      obtain rfl := Option.some.inj h
      exact .enable (Bool.eq_false_iff.mpr henabled)

/-! ## The hub's part of a run -/

/-- The hub's part of a run is a run of the hub. -/
theorem feed_run (hrun : (Live.machine T).Run live es live') :
    (StreamHub.machine T).Run live.hub (Machine.partEvents Live.hub Live.hubStep es)
      live'.hub := by
  refine hrun.part fun s a t hstep => ?_
  have hconnect : ∀ {now : ℚ} {result : Except HttpError StreamHub},
      s.hub.handle (s.lastId T) now = result →
      StreamHub.step T s.hub (.connect none s.page.lastId now) =
        match result with
        | .ok hub => some hub
        | .error _ => some s.hub := by
    rintro now result rfl
    rfl
  cases Live.moves hstep with
  | server hhub => exact hhub
  | answered hsource hok =>
    simp only [Live.hubStep, hsource]
    exact hconnect hok
  | refused hsource herror =>
    simp only [Live.hubStep, hsource]
    exact hconnect herror
  | _ => rfl

/-! ## What a connection is sent -/

/-- What was written stays, frame by frame. -/
theorem written_of_threadStep {a : StreamAct} (h : hub.threadStep c a = some c') :
    c.written <+: c'.written := by
  cases a with
  | head j serverTime =>
    change hub.writeHead serverTime c = some c' at h
    unfold writeHead at h
    split at h
    · obtain rfl := Option.some.inj h
      exact List.prefix_append _ _
    · cases h
  | tick j now =>
    obtain ⟨⟨d, claim⟩, htick, rfl⟩ := Option.map_eq_some_iff.mp h
    exact (tick_due htick).2.1 ▸ List.prefix_refl _
  | wake j =>
    change hub.wake c = some c' at h
    unfold StreamHub.wake at h
    split at h
    · split at h
      · obtain rfl := Option.some.inj h
        exact List.prefix_refl _
      · split at h
        · cases h
        · obtain rfl := Option.some.inj h
          exact List.prefix_refl _
    · cases h
  | fail j n serverTime =>
    obtain ⟨frames, -, rfl⟩ := Option.map_eq_some_iff.mp h
    exact List.prefix_append _ _
  | provide _ _ _ | arm _ | leave _ =>
    rw [StreamHub.threadStep] at h
    split at h
    · obtain rfl := Option.some.inj h
      exact List.prefix_refl _
    · cases h
  | write j =>
    rw [StreamHub.threadStep] at h
    split at h
    · obtain rfl := Option.some.inj h
      exact List.prefix_append _ _
    · cases h
  | _ => cases h

/-- A step of the hub adds what it publishes to what a client is owed, and takes back
nothing it was written. -/
theorem owed_of_step {a : StreamAct} (h : StreamHub.step T hub a = some hub') {i : ℕ}
    (hc : hub.clients[i]? = some c) {owed : List StreamEvent} (howed : Owed owed c) :
    ∃ c', hub'.clients[i]? = some c' ∧ Owed (owed ++ (published hub a).toList) c' ∧
      c.written <+: c'.written := by
  obtain ⟨c', hc', hmove⟩ := client_of_step h hc
  obtain ⟨c'', hc'', howed'⟩ := client_step h hc
  obtain rfl := Option.some.inj (hc'.symm.trans hc'')
  refine ⟨c', hc', ?_, ?_⟩
  · cases hpublished : published hub a with
    | none =>
      rw [hpublished] at howed'
      rw [Option.toList_none, List.append_nil]
      exact howed.turn howed'
    | some e =>
      rw [hpublished] at howed'
      rw [Option.toList_some, howed']
      exact howed.push e
  · rcases hmove with ⟨-, hmove⟩ | ⟨-, queue, rfl⟩
    · exact written_of_threadStep hmove
    · exact List.prefix_refl _

/-! ## What a page is handed -/

theorem handle_handed (frame : Frame) (p : Page) :
    (p.handle frame).handed = p.handed ++ eventsOf [frame] := by
  cases frame with
  | hello serverTime tick ringSize =>
    unfold Page.handle
    dsimp only
    split <;> exact (List.append_nil _).symm
  | event e => rfl
  | pulse _ | ping => exact (List.append_nil _).symm

theorem handle_lastId (frame : Frame) (p : Page) : (p.handle frame).lastId = p.lastId := by
  cases frame with
  | hello serverTime tick ringSize =>
    unfold Page.handle
    dsimp only
    split <;> rfl
  | _ => rfl

/-- The listener hands on the trace of the frame. -/
theorem listen_traces (lastEventId : PyStr) (frame : Frame) (p : Page) :
    (p.listen lastEventId frame).traces = p.traces ++ tracesOf (eventsOf [frame]) := by
  rw [Page.traces, Page.listen, handle_handed, tracesOf_append]
  split <;> rfl

/-- And it remembers the last id there was. -/
theorem listen_lastId (lastEventId : PyStr) (frame : Frame) (p : Page) :
    (p.listen lastEventId frame).lastId =
      if lastEventId = [] then p.lastId else some lastEventId := by
  rw [Page.listen, handle_lastId]
  cases lastEventId <;> rfl

theorem dumpsInt_ne_nil (n : ℕ) : JsonText.dumpsInt n ≠ [] := by
  intro hnil
  have hread := JsonText.readInt_dumpsInt n
  rw [hnil] at hread
  cases hread

/-- A frame has an id exactly if it has a trace. -/
theorem id_eq_traces (frame : Frame) :
    frame.id = (tracesOf (eventsOf [frame])).getLast?.map fun e => JsonText.dumpsInt e.1 := by
  rcases frame with _ | ⟨_ | _ | _⟩ | _ | _ <;> rfl

end

/-- What a page has been handed, against the feed of the traces published so far: with what
it is still owed, or could still be given, it is `R` of the feed. -/
structure Following (R : List (ℕ × Fields) → List (ℕ × Fields) → Prop)
    (feed : List (ℕ × Fields)) (live : Live) : Prop where
  /-- the page remembers its last trace -/
  lastId : live.page.lastId = live.page.traces.getLast?.map fun e => JsonText.dumpsInt e.1
  /-- its connection goes on where it was -/
  source : match live.page.source with
    | .answered i _ read lastEventId => ∃ (c : StreamClient) (owed : List StreamEvent)
        (before : List (ℕ × Fields)), live.hub.clients[i]? = some c ∧ Owed owed c ∧
        read ≤ c.written.length ∧
        live.page.traces = before ++ tracesOf (eventsOf (c.written.take read)) ∧
        R (before ++ tracesOf owed) feed ∧
        (lastEventId = [] ∨ live.page.lastId = some lastEventId)
    | _ => ∃ rest, R (live.page.traces ++ rest) feed

section

variable {T : PyText} {R : List (ℕ × Fields) → List (ℕ × Fields) → Prop}
  {feed : List (ℕ × Fields)} {live live' : Live} {a : LiveAct}

/-- Whatever its connection is, a page has a part of the feed and could have a rest. -/
theorem Following.rest (h : Following R feed live) : ∃ rest, R (live.page.traces ++ rest) feed := by
  have hsource := h.source
  split at hsource
  · rename_i i opened read lastEventId _
    obtain ⟨c, owed, before, -, howed, -, htraces, hR, -⟩ := hsource
    have htake : eventsOf (c.written.take read) <+: owed :=
      ((List.take_prefix read c.written).filterMap _).trans howed.1
    obtain ⟨rest, rfl⟩ := htake
    refine ⟨tracesOf rest, ?_⟩
    rw [htraces, List.append_assoc, ← tracesOf_append]
    exact hR
  · exact hsource

theorem startPolling_keeps (onPoll : Bool) (p : Page) :
    (p.startPolling onPoll).lastId = p.lastId ∧ (p.startPolling onPoll).handed = p.handed ∧
      (p.startPolling onPoll).source = p.source := by
  unfold Page.startPolling
  split <;> exact ⟨rfl, rfl, rfl⟩

/-- A failure closes the connection and forgets nothing. -/
theorem onerror_keeps (onPoll : Bool) (p : Page) : (p.onerror onPoll).lastId = p.lastId ∧
    (p.onerror onPoll).handed = p.handed ∧ (p.onerror onPoll).source = .closed := by
  unfold Page.onerror
  dsimp only
  split
  · exact startPolling_keeps onPoll _
  · exact ⟨rfl, rfl, rfl⟩

/-- After a frame, the page remembers its last trace. -/
theorem listen_follows {p : Page} {lastEventId : PyStr} (frame : Frame)
    (hlast : p.lastId = p.traces.getLast?.map fun e => JsonText.dumpsInt e.1)
    (hid : lastEventId = [] ∨ p.lastId = some lastEventId) :
    let id := frame.id.getD lastEventId
    (p.listen id frame).lastId =
        ((p.listen id frame).traces.getLast?.map fun e => JsonText.dumpsInt e.1) ∧
      (id = [] ∨ (p.listen id frame).lastId = some id) := by
  dsimp only
  rw [listen_lastId, listen_traces]
  have htraces := id_eq_traces frame
  cases hframe : frame.id with
  | none =>
    rw [hframe] at htraces
    have hnone : tracesOf (eventsOf [frame]) = [] :=
      List.getLast?_eq_none_iff.mp (Option.map_eq_none_iff.mp htraces.symm)
    rw [hnone, List.append_nil, Option.getD_none]
    rcases hid with rfl | hid
    · exact ⟨hlast, Or.inl rfl⟩
    · split
      · rename_i hnil
        exact ⟨hlast, Or.inl hnil⟩
      · rw [← hid]
        exact ⟨hlast, Or.inr rfl⟩
  | some text =>
    rw [hframe] at htraces
    obtain ⟨e, he, rfl⟩ := Option.map_eq_some_iff.mp htraces.symm
    rw [Option.getD_some, if_neg (dumpsInt_ne_nil e.1), List.getLast?_append, he]
    exact ⟨rfl, Or.inr rfl⟩

/-- A page without a connection. -/
theorem Following.away (h : Following R feed live) (hlastId : live'.page.lastId = live.page.lastId)
    (hhanded : live'.page.handed = live.page.handed)
    (haway : ∀ i opened read last, live'.page.source ≠ .answered i opened read last) :
    Following R feed live' where
  lastId := by
    rw [hlastId, Page.traces, hhanded]
    exact h.lastId
  source := by
    split
    · rename_i hsource
      exact absurd hsource (haway _ _ _ _)
    · rw [Page.traces, hhanded]
      exact h.rest

/-- **A step keeps a page on the feed.** -/
theorem Following.step (hpush : ∀ {l feed x}, R l feed → R (l ++ x) (feed ++ x))
    (h : Following R feed live) (hmoves : Live.Moves T live a live')
    (hresume : ∀ now, a = .arrive now →
      R (live.page.traces ++ missed (live.lastId T) live.hub.ring) feed) :
    Following R (feed ++ (((Live.hubStep live a).bind (published live.hub)).bind
      StreamEvent.ringEntry).toList) live' := by
  have hquiet : feed ++ (none : Option (ℕ × Fields)).toList = feed := List.append_nil _
  cases hmoves with
  | @server b hub hhub =>
    simp only [Live.hubStep, Option.bind_some]
    refine ⟨h.lastId, ?_⟩
    have hsource := h.source
    cases hs : live.page.source with
    | answered i opened read lastEventId =>
      simp only [hs] at hsource ⊢
      obtain ⟨c, owed, before, hc, howed, hread, htraces, hR, hid⟩ := hsource
      obtain ⟨c', hc', howed', written, hwritten⟩ := owed_of_step hhub hc howed
      refine ⟨c', _, before, hc', howed', ?_, ?_, ?_, hid⟩
      · rw [← hwritten, List.length_append]
        omega
      · rw [← hwritten, List.take_append_of_le_length hread]
        exact htraces
      · rw [tracesOf_append, tracesOf_toList, ← List.append_assoc]
        exact hpush hR
    | _ =>
      simp only [hs] at hsource ⊢
      obtain ⟨rest, hR⟩ := hsource
      refine ⟨rest ++ ((published live.hub b).bind StreamEvent.ringEntry).toList, ?_⟩
      rw [← List.append_assoc]
      exact hpush hR
  | @answered now hsource hok =>
    simp only [Live.hubStep, hsource, Option.bind_some, published, Option.bind_none, hquiet]
    obtain ⟨c, hc, howed⟩ := owed_register (s := live.hub) (live.lastId T) now
    refine ⟨h.lastId, c, _, live.page.traces, hc, howed, Nat.zero_le _, ?_, ?_, Or.inl rfl⟩
    · exact (List.append_nil _).symm
    · rw [tracesOf_ringEvents]
      exact hresume now rfl
  | refused hsource herror =>
    simp only [Live.hubStep, hsource, Option.bind_some, published, Option.bind_none, hquiet]
    exact h.away rfl rfl nofun
  | opened hsource =>
    simp only [Live.hubStep, Option.bind_none, hquiet]
    have hfollows := h.source
    rw [hsource] at hfollows
    exact ⟨h.lastId, hfollows⟩
  | @receive i read lastEventId c frame hsource hc hframe =>
    simp only [Live.hubStep, Option.bind_none, hquiet]
    have hfollows := h.source
    rw [hsource] at hfollows
    obtain ⟨d, owed, before, hd, howed, hread, htraces, hR, hid⟩ := hfollows
    obtain rfl := Option.some.inj (hd.symm.trans hc)
    obtain ⟨hlastId, hid'⟩ := listen_follows frame h.lastId hid
    refine ⟨hlastId, d, owed, before, hd, howed, ?_, ?_, hR, hid'⟩
    · exact (List.getElem?_eq_some_iff.mp hframe).1
    · change (live.page.listen _ frame).traces = _
      rw [listen_traces, htraces, List.append_assoc, ← tracesOf_append, ← eventsOf_append,
        List.take_add_one, hframe]
      rfl
  | failed hopen =>
    simp only [Live.hubStep, Option.bind_none, hquiet]
    obtain ⟨hlastId, hhanded, hclosed⟩ := onerror_keeps _ live.page
    exact h.away hlastId hhanded fun i opened read last hsource => by
      rw [hclosed] at hsource
      cases hsource
  | retry hbackoff =>
    simp only [Live.hubStep, Option.bind_none, hquiet]
    exact h.away rfl rfl nofun
  | disable henabled =>
    simp only [Live.hubStep, Option.bind_none, hquiet]
    exact h.away rfl rfl nofun
  | enable henabled =>
    simp only [Live.hubStep, Option.bind_none, hquiet]
    exact h.away rfl rfl nofun

end

/-! ## Runs -/

/-- What the ring and the ids of a hub have to do with the traces published so far. -/
structure FeedOf (hub : StreamHub) (feed : List (ℕ × Fields)) : Prop where
  /-- the ids increase -/
  ordered : Feed.Ordered feed
  /-- the ring has the newest traces -/
  ring : hub.ring <:+ feed
  /-- as many as it can hold -/
  length : hub.ring.length = min feed.length hub.replay
  /-- the ids are those from 1 on -/
  ids : feed.map Prod.fst = List.range' 1 feed.length
  /-- the next id is the next number -/
  nextId : hub.nextId = 1 + feed.length

section

variable {T : PyText} {live₀ live live' : Live} {es : List (Machine.Event Live LiveAct)}
  {feed rest : List (ℕ × Fields)}

theorem tracesIn_snoc (e : Machine.Event Live LiveAct) : tracesIn (es ++ [e]) = tracesIn es ++
    (((Live.hubStep e.pre e.act).bind (published e.pre.hub)).bind
      StreamEvent.ringEntry).toList := by
  rw [tracesIn, Machine.partEvents_snoc]
  cases Live.hubStep e.pre e.act with
  | none =>
    rw [Option.map_none, Option.toList_none, List.append_nil, Option.bind_none, Option.bind_none,
      Option.toList_none, List.append_nil]
    rfl
  | some a =>
    rw [Option.map_some, Option.toList_some, publishedIn_snoc, tracesOf_append, tracesOf_toList]
    rfl

/-- In a run, the ring and the ids are those of the feed. -/
theorem feedOf_run (hstart : (Live.machine T).init live₀)
    (hrun : (Live.machine T).Run live₀ es live) : FeedOf live.hub (tracesIn es) := by
  obtain ⟨⟨tickS, ringSize, replay, maxClients, hhub⟩, -⟩ := hstart
  have hpart := feed_run hrun
  rw [hhub] at hpart
  obtain ⟨-, hring, hlength⟩ := ring_run hpart rfl
  obtain ⟨hnext, hids⟩ := ids_range hpart
  obtain ⟨-, hincr, -⟩ := ids_run hpart
  exact ⟨List.pairwise_map.mp hincr, hring, hlength, hids, hnext⟩

/-- A page that follows the feed before each of its requests follows it throughout. -/
theorem following_run {R : List (ℕ × Fields) → List (ℕ × Fields) → Prop} (hnil : R [] [])
    (hpush : ∀ {l feed x}, R l feed → R (l ++ x) (feed ++ x)) {G : Live → Prop}
    (hresume : ∀ {live feed}, G live → FeedOf live.hub feed → Following R feed live →
      R (live.page.traces ++ missed (live.lastId T) live.hub.ring) feed)
    (hstart : (Live.machine T).init live₀) (hrun : (Live.machine T).Run live₀ es live)
    (hG : ∀ e ∈ es, ∀ now, e.act = .arrive now → G e.pre) :
    Following R (tracesIn es) live := by
  induction hrun with
  | refl =>
    obtain ⟨-, hpage⟩ := hstart
    refine ⟨by rw [hpage]; rfl, ?_⟩
    rw [hpage]
    exact ⟨[], hnil⟩
  | @snoc u v es a hrun hstep ih =>
    have hfollows := ih fun e he => hG e (List.mem_append_left _ he)
    rw [tracesIn_snoc]
    refine hfollows.step hpush (Live.moves hstep) fun now hact => ?_
    have hguard := hG _ (List.mem_append_right es (List.mem_singleton_self _)) now hact
    exact hresume hguard (feedOf_run hstart hrun) hfollows

/-! ## Coming back -/

/-- `int` reads the numbers that `str` writes. -/
abbrev ReadsIds (T : PyText) : Prop := ∀ n : ℕ, T.int (JsonText.dumpsInt n) = some (n : ℤ)

theorem missed_eq_after (n : ℕ) (ring : List (ℕ × Fields)) :
    missed (some (n : ℤ)) ring = Feed.after n ring :=
  List.filter_congr fun _ _ => decide_eq_decide.mpr Int.ofNat_lt

/-- A page asks for what comes after its last trace. -/
theorem lastId_eq (hids : ReadsIds T)
    (h : live.page.lastId = live.page.traces.getLast?.map fun e => JsonText.dumpsInt e.1) :
    live.lastId T = live.page.traces.getLast?.map fun e => (e.1 : ℤ) := by
  have hparam : live.lastId T = live.page.lastId.bind T.int := rfl
  rw [hparam, h]
  cases live.page.traces.getLast? with
  | none => rfl
  | some e => exact hids e.1

/-- What a page gets that comes back keeps the order of the feed. -/
theorem resume_sublist (hids : ReadsIds T) (hfeed : FeedOf live.hub feed)
    (h : Following List.Sublist feed live) :
    (live.page.traces ++ missed (live.lastId T) live.hub.ring).Sublist feed := by
  obtain ⟨rest, hrest⟩ := h.rest
  have hread : live.page.traces.Sublist feed := (List.sublist_append_left _ rest).trans hrest
  rw [lastId_eq hids h.lastId]
  cases hlast : live.page.traces.getLast? with
  | none => rwa [Option.map_none, missed, List.append_nil]
  | some e =>
    rw [Option.map_some, missed_eq_after]
    exact Feed.append_after_sublist hfeed.ordered hread hlast hfeed.ring.sublist

/-- At most as many traces as the ring holds were published after the last one that the page
has seen. -/
def Live.Covered (live : Live) : Prop :=
  ∀ e, live.page.traces.getLast? = some e → live.hub.nextId ≤ e.1 + 1 + live.hub.replay

/-- The id of a trace is its number in the feed. -/
theorem id_of_last {older read : List (ℕ × Fields)} {e : ℕ × Fields}
    (h : (older ++ read ++ rest).map Prod.fst = List.range' 1 (older ++ read ++ rest).length)
    (hlast : read.getLast? = some e) : e.1 = older.length + read.length := by
  obtain ⟨front, rfl⟩ := List.getLast?_eq_some_iff.mp hlast
  have hget := congrArg (fun ids => ids[older.length + front.length]?) h
  simp at hget
  simp
  omega

/-- What a page gets that comes back in time goes on where it was. -/
theorem resume_suffix (hids : ReadsIds T) (hcovered : live.Covered) (hfeed : FeedOf live.hub feed)
    (h : Following List.IsSuffix feed live) :
    live.page.traces ++ missed (live.lastId T) live.hub.ring <:+ feed := by
  obtain ⟨rest, older, hall⟩ := h.rest
  rw [lastId_eq hids h.lastId]
  cases hlast : live.page.traces.getLast? with
  | none =>
    rw [List.getLast?_eq_none_iff.mp hlast, Option.map_none, missed]
    exact List.nil_suffix
  | some e =>
    rw [Option.map_some, missed_eq_after]
    have hsplit : older ++ live.page.traces ++ rest = feed := by rw [List.append_assoc, hall]
    have hid := id_of_last (hsplit ▸ hfeed.ids) hlast
    have hlong : rest.length ≤ live.hub.ring.length := by
      have hnext := hcovered e hlast
      have htotal : feed.length = older.length + live.page.traces.length + rest.length := by
        rw [← hsplit, List.length_append, List.length_append]
      rw [hfeed.length]
      rw [hfeed.nextId] at hnext
      omega
    rw [Feed.after_window (hsplit ▸ hfeed.ordered) hlast (hsplit ▸ hfeed.ring) hlong]
    exact ⟨older, hall⟩

/-- What a page is handed is a part of the feed. -/
theorem traces_sublist (hids : ReadsIds T) (hstart : (Live.machine T).init live₀)
    (hrun : (Live.machine T).Run live₀ es live) : live.page.traces.Sublist (tracesIn es) := by
  have hfollows := following_run (R := List.Sublist) (G := fun _ => True) List.Sublist.slnil
    (fun h => h.append_right _) (fun _ => resume_sublist hids) hstart hrun fun _ _ _ _ => trivial
  obtain ⟨rest, hrest⟩ := hfollows.rest
  exact (List.sublist_append_left _ rest).trans hrest

/-- **A page is handed every trace at most once, in the order of publication**, over all the
connections it ever makes, whatever the hub, its other clients and the network do. -/
theorem handed_once (hids : ReadsIds T) (hstart : (Live.machine T).init live₀)
    (hrun : (Live.machine T).Run live₀ es live) :
    live.page.traces.Sublist (tracesIn es) ∧
      (live.page.traces.map Prod.fst).Pairwise (· < ·) := by
  have hsub := traces_sublist hids hstart hrun
  exact ⟨hsub, List.pairwise_map.mpr ((feedOf_run hstart hrun).ordered.sublist hsub)⟩

/-- The page has read what its connection was written, and nothing is left for it. -/
def Live.CaughtUp (live : Live) : Prop :=
  ∃ (i : ℕ) (c : StreamClient) (lastEventId : PyStr),
    live.page.source = .answered i true c.written.length lastEventId ∧
    live.hub.clients[i]? = some c ∧ c.phase = .serving ∧ c.queue = []

/-- A page that always comes back in time follows the feed without a gap. -/
theorem following_suffix (hids : ReadsIds T) (hstart : (Live.machine T).init live₀)
    (hrun : (Live.machine T).Run live₀ es live)
    (hcovered : ∀ e ∈ es, ∀ now, e.act = .arrive now → e.pre.Covered) :
    Following List.IsSuffix (tracesIn es) live :=
  following_run (G := Live.Covered) (List.suffix_refl [])
    (fun ⟨older, h⟩ => ⟨older, by rw [← List.append_assoc, h]⟩) (resume_suffix hids) hstart hrun
    hcovered

/-- Once it has caught up, its last trace is the newest. -/
theorem traces_suffix (hids : ReadsIds T) (hstart : (Live.machine T).init live₀)
    (hrun : (Live.machine T).Run live₀ es live)
    (hcovered : ∀ e ∈ es, ∀ now, e.act = .arrive now → e.pre.Covered) (hcaught : live.CaughtUp) :
    live.page.traces <:+ tracesIn es := by
  obtain ⟨i, c, lastEventId, hsource, hc, hserving, hqueue⟩ := hcaught
  have hconnection := (following_suffix hids hstart hrun hcovered).source
  rw [hsource] at hconnection
  obtain ⟨d, owed, before, hd, howed, -, htraces, hR, -⟩ := hconnection
  obtain rfl := Option.some.inj (hc.symm.trans hd)
  have haccount : eventsOf c.written = owed := by
    change c.delivered = owed
    rw [← howed.2 (by rw [hserving]; trivial), StreamClient.account, serving_holds hserving,
      hqueue, List.append_nil, List.append_nil]
  rw [List.take_length] at htraces
  rw [htraces, haccount]
  exact hR

/-- **Nothing is missing** between the first and the last trace that a page is handed, as long
as it always comes back before more traces are published than the ring holds; and once it has
caught up, its last trace is the newest. -/
theorem handed_whole (hids : ReadsIds T) (hstart : (Live.machine T).init live₀)
    (hrun : (Live.machine T).Run live₀ es live)
    (hcovered : ∀ e ∈ es, ∀ now, e.act = .arrive now → e.pre.Covered) :
    live.page.traces <:+: tracesIn es ∧ (live.CaughtUp → live.page.traces <:+ tracesIn es) := by
  refine ⟨?_, traces_suffix hids hstart hrun hcovered⟩
  obtain ⟨rest, older, hall⟩ := (following_suffix hids hstart hrun hcovered).rest
  exact ⟨older, rest, by rw [List.append_assoc, hall]⟩

end

/-! ## Polling -/

/-- What holds of a page, whatever its network does. -/
structure Page.Kept (p : Page) : Prop where
  /-- the page that is on has a connection, a request or a timer -/
  alive : p.enabled = true → (p.source = .closed ↔ p.backoffMs.isSome = true)
  /-- the page that is off has nothing -/
  off : p.enabled = false → p.source = .closed ∧ p.backoffMs = none ∧ p.polling = false ∧
    p.status = .offline
  /-- it waits one second, then two, then four, and five from then on -/
  backoff : ∀ ms, p.backoffMs = some ms → ms = min (1000 * 2 ^ (p.attempts - 1)) maxBackoffMs ∧
    0 < p.attempts ∧ (p.polling = true ↔ fallbackAfterFailures ≤ p.attempts)
  /-- while it polls, it has failed twice in a row -/
  polls : p.polling = true → fallbackAfterFailures ≤ p.attempts
  /-- an open stream is connected and does not poll -/
  opened : ∀ i read lastEventId, p.source = .answered i true read lastEventId →
    p.status = .connected ∧ p.polling = false ∧ p.attempts = 0
  /-- a request that is not answered yet is shown as one -/
  asking : (p.source = .requested ∨ p.source = .refused ∨
      ∃ i read lastEventId, p.source = .answered i false read lastEventId) →
    p.status = if p.attempts = 0 then .connecting else .reconnecting

section

variable {T : PyText} {live₀ live live' : Live} {a : LiveAct} {p : Page}
  {es : List (Machine.Event Live LiveAct)}

theorem Page.Kept.start : ({} : Page).Kept where
  alive _ := ⟨nofun, nofun⟩
  off := nofun
  backoff := nofun
  polls := nofun
  opened := nofun
  asking _ := rfl

/-- A page with a connection is on. -/
theorem Page.Kept.enabled (h : p.Kept) (hopen : p.source ≠ .closed) : p.enabled = true := by
  by_contra hoff
  exact hopen (h.off (Bool.eq_false_iff.mpr hoff)).1

/-- While a page has a connection it does not show that it polls. -/
theorem Page.Kept.not_polling (h : p.Kept) (hopen : p.source ≠ .closed) : p.status ≠ .polling := by
  have hasking : p.source = .requested ∨ p.source = .refused ∨
      (∃ i read lastEventId, p.source = .answered i false read lastEventId) →
      p.status ≠ .polling := by
    intro hsource
    rw [h.asking hsource]
    split <;> nofun
  cases hsource : p.source with
  | closed => exact absurd hsource hopen
  | requested => exact hasking (Or.inl hsource)
  | refused => exact hasking (Or.inr (Or.inl hsource))
  | answered i opened read lastEventId =>
    cases opened with
    | true =>
      rw [(h.opened i read lastEventId hsource).1]
      nofun
    | false => exact hasking (Or.inr (Or.inr ⟨i, read, lastEventId, hsource⟩))

/-- What a failure does: the page polls from the second one in a row on, and shows it when it
begins to. -/
theorem onerror_spec (onPoll : Bool) (p : Page) :
    (p.onerror onPoll).enabled = p.enabled ∧ (p.onerror onPoll).attempts = p.attempts + 1 ∧
    (p.onerror onPoll).backoffMs = some (min (1000 * 2 ^ p.attempts) maxBackoffMs) ∧
    (p.onerror onPoll).polling = (p.polling || decide (fallbackAfterFailures ≤ p.attempts + 1)) ∧
    (p.onerror onPoll).status =
      if fallbackAfterFailures ≤ p.attempts + 1 then
        if p.polling then p.status else .polling
      else .reconnecting := by
  unfold Page.onerror Page.startPolling
  dsimp only
  by_cases hfallback : fallbackAfterFailures ≤ p.attempts + 1
  · rw [if_pos hfallback]
    cases hpolling : p.polling <;> simp [hfallback]
  · rw [if_neg hfallback]
    simp [hfallback]

theorem Page.Kept.onerror (h : p.Kept) (hopen : p.source ≠ .closed) (onPoll : Bool) :
    (p.onerror onPoll).Kept := by
  obtain ⟨henabled, hattempts, hbackoff, hpolling, -⟩ := onerror_spec onPoll p
  have hclosed := (onerror_keeps onPoll p).2.2
  have hpolls : (p.onerror onPoll).polling = true ↔
      fallbackAfterFailures ≤ (p.onerror onPoll).attempts := by
    rw [hpolling, hattempts, Bool.or_eq_true, decide_eq_true_iff]
    refine ⟨fun hor => hor.elim (fun hp => ?_) id, Or.inr⟩
    exact (h.polls hp).trans (Nat.le_add_right _ _)
  exact
    { alive := fun _ => by simp [hclosed, hbackoff]
      off := fun hoff => by simp [henabled, h.enabled hopen] at hoff
      backoff := fun ms hms => by
        rw [hbackoff] at hms
        refine ⟨?_, ?_, hpolls⟩
        · rw [hattempts, Nat.add_sub_cancel]
          exact (Option.some.inj hms).symm
        · rw [hattempts]
          exact Nat.succ_pos _
      polls := hpolls.mp
      opened := fun i read lastEventId hsource => by simp [hclosed] at hsource
      asking := fun hsource => by simp [hclosed] at hsource }

/-- A frame changes nothing of this. -/
theorem listen_keeps (lastEventId : PyStr) (frame : Frame) (p : Page) :
    (p.listen lastEventId frame).enabled = p.enabled ∧
    (p.listen lastEventId frame).status = p.status ∧
    (p.listen lastEventId frame).attempts = p.attempts ∧
    (p.listen lastEventId frame).polling = p.polling ∧
    (p.listen lastEventId frame).backoffMs = p.backoffMs := by
  unfold Page.listen Page.handle
  cases frame with
  | hello serverTime tick ringSize =>
    dsimp only
    split <;> split <;> exact ⟨rfl, rfl, rfl, rfl, rfl⟩
  | event _ | pulse _ | ping =>
    dsimp only
    split <;> exact ⟨rfl, rfl, rfl, rfl, rfl⟩

/-- **Every step keeps the page.** -/
theorem kept_step (h : live.page.Kept) (hmoves : Live.Moves T live a live') :
    live'.page.Kept := by
  have hnone : live.page.source ≠ .closed → live.page.backoffMs = none := fun hopen =>
    Option.not_isSome_iff_eq_none.mp fun hsome =>
      hopen ((h.alive (h.enabled hopen)).mpr hsome)
  cases hmoves with
  | server hhub => exact h
  | answered hsource hok =>
    have hopen : live.page.source ≠ .closed := by rw [hsource]; nofun
    exact
      { alive := fun _ => by simp [hnone hopen]
        off := fun hoff => by simp [h.enabled hopen] at hoff
        backoff := fun ms hms => by simp [hnone hopen] at hms
        polls := h.polls
        opened := nofun
        asking := fun _ => h.asking (Or.inl hsource) }
  | refused hsource herror =>
    have hopen : live.page.source ≠ .closed := by rw [hsource]; nofun
    exact
      { alive := fun _ => by simp [hnone hopen]
        off := fun hoff => by simp [h.enabled hopen] at hoff
        backoff := fun ms hms => by simp [hnone hopen] at hms
        polls := h.polls
        opened := nofun
        asking := fun _ => h.asking (Or.inl hsource) }
  | opened hsource =>
    have hopen : live.page.source ≠ .closed := by rw [hsource]; nofun
    exact
      { alive := fun _ => by simp [Page.onopen, Page.stopPolling, hnone hopen]
        off := fun hoff => by simp [Page.onopen, Page.stopPolling, h.enabled hopen] at hoff
        backoff := fun ms hms => by simp [Page.onopen, Page.stopPolling, hnone hopen] at hms
        polls := nofun
        opened := fun _ _ _ _ => ⟨rfl, rfl, rfl⟩
        asking := by simp }
  | @receive i read lastEventId c frame hsource hc hframe =>
    have hopen : live.page.source ≠ .closed := by rw [hsource]; nofun
    obtain ⟨henabled, hstatus, hattempts, hpolling, hbackoff⟩ :=
      listen_keeps (frame.id.getD lastEventId) frame live.page
    obtain ⟨hconnected, hquiet, hzero⟩ := h.opened i read lastEventId hsource
    exact
      { alive := fun _ => by simp [hbackoff, hnone hopen]
        off := fun hoff => by simp [henabled, h.enabled hopen] at hoff
        backoff := fun ms hms => by simp [hbackoff, hnone hopen] at hms
        polls := fun hpolls => by simp [hpolling, hquiet] at hpolls
        opened := fun _ _ _ _ => by simp [hstatus, hpolling, hattempts, hconnected, hquiet, hzero]
        asking := by simp }
  | failed hopen => exact h.onerror hopen _
  | retry hbackoff =>
    exact
      { alive := fun _ => ⟨nofun, nofun⟩
        off := fun hoff => by
          have hwaiting := (h.off hoff).2.1
          rw [hbackoff] at hwaiting
          cases hwaiting
        backoff := nofun
        polls := h.polls
        opened := nofun
        asking := fun _ => rfl }
  | disable henabled =>
    exact
      { alive := nofun
        off := fun _ => ⟨rfl, rfl, rfl, rfl⟩
        backoff := nofun
        polls := nofun
        opened := nofun
        asking := by simp [Page.disable] }
  | enable henabled =>
    exact
      { alive := fun _ => ⟨nofun, nofun⟩
        off := nofun
        backoff := nofun
        polls := h.polls
        opened := nofun
        asking := fun _ => rfl }

end

/-! ## A page that is away for a while -/

/-- A page and a hub that have just started. -/
def justStarted : Live := { hub := attach 3 1000 200 20 }

/-- The page is sent a trace, fails, misses one, and comes back. -/
def awayAndBack : List LiveAct :=
  [.arrive 0, .opened, .server (.head 0 0), .server (.publishTrace []), .server (.tick 0 15),
    .server (.provide 0 none 15), .server (.arm 0), .server (.write 0), .receive, .receive,
    .failed true, .server (.publishTrace []), .retry, .arrive 16, .opened, .server (.head 1 16),
    .receive, .receive]

theorem justStarted_init : (Live.machine wholeText).init justStarted :=
  ⟨⟨3, 1000, 200, 20, rfl⟩, rfl⟩

theorem wholeText_readsIds : ReadsIds wholeText := fun n => JsonText.readInt_dumpsInt n

theorem awayAndBack_computed :
    ((Live.machine wholeText).exec justStarted awayAndBack).isSome = true := by decide +kernel

/-- It was handed both traces, each once. -/
theorem handed_once_awayAndBack :
    let live := (Live.machine wholeText).final justStarted awayAndBack
    live.page.traces.length = 2 ∧
      live.page.traces.Sublist
        (tracesIn ((Live.machine wholeText).events justStarted awayAndBack)) ∧
      (live.page.traces.map Prod.fst).Pairwise (· < ·) :=
  ⟨by decide +kernel, handed_once wholeText_readsIds justStarted_init
    (Machine.Run.of_final awayAndBack_computed)⟩

instance (live : Live) : Decidable live.Covered :=
  inferInstanceAs (Decidable (∀ e ∈ live.page.traces.getLast?, _))

/-- What a step must meet for the page to miss nothing. -/
def LiveAct.inTime (live : Live) : LiveAct → Prop
  | arrive _ => live.Covered
  | _ => True

instance (live : Live) (a : LiveAct) : Decidable (a.inTime live) :=
  match a with
  | .arrive _ => inferInstanceAs (Decidable live.Covered)
  | .server _ | .opened | .receive | .failed _ | .retry | .disable | .enable => isTrue trivial

/-- And it missed none. -/
theorem handed_whole_awayAndBack : ∃ es live,
    (Live.machine wholeText).Run justStarted es live ∧ live.page.traces.length = 2 ∧
    live.page.traces <:+: tracesIn es := by
  have hcomputed : ((Live.machine wholeText).execOk (fun live a => a.inTime live) justStarted
      awayAndBack).any (fun live => decide (live.page.traces.length = 2)) = true := by
    decide +kernel
  obtain ⟨live, hexec, hlength⟩ := (Option.any_eq_true _ _).mp hcomputed
  obtain ⟨es, hrun, hinTime⟩ := Machine.Run.of_execOk hexec
  refine ⟨es, live, hrun, of_decide_eq_true hlength, ?_⟩
  refine (handed_whole wholeText_readsIds justStarted_init hrun fun e he now hact => ?_).1
  have hcovered := hinTime e he
  rw [hact] at hcovered
  exact hcovered

end LayaWatch
