import LayaWatch.Stream

/-!
# Delivery of the live stream

What a client is owed is the replay window of its registration and every event
published since. While it is connected, what it has been written, what its thread
holds and what is queued for it make up exactly that (`StreamClient.account`), so what
has been written is always a prefix of it. A tick takes the whole queue; the next
batch that is written ends it.
-/

namespace LayaWatch

open StreamHub

/-! ## What is published, and what a client has of it -/

/-- The events of some frames. -/
def eventsOf (frames : List Frame) : List StreamEvent := frames.filterMap Frame.carries

/-- The events of a part of the ring. -/
def ringEvents (entries : List (ℕ × Fields)) : List StreamEvent :=
  entries.map fun entry => .trace entry.2 entry.1

/-- The event a step publishes. -/
def published (hub : StreamHub) : StreamAct → Option StreamEvent
  | .publishTrace summary => some (.trace summary hub.nextId)
  | .publishLog entry => some (.log entry)
  | .publishModel payload => some (.model payload)
  | _ => none

/-- The events that a run publishes, in order. -/
def publishedIn (es : List (Machine.Event StreamHub StreamAct)) : List StreamEvent :=
  es.filterMap fun e => published e.pre e.act

namespace StreamPhase

/-- The events a thread holds. -/
def holds : StreamPhase → List StreamEvent
  | opening replay => ringEvents replay
  | waiting pending _ => pending
  | computing pending _ => pending
  | arming pending _ _ => pending
  | writing batch => eventsOf batch
  | _ => []

/-- It will write what it holds, unless it fails. -/
def Live : StreamPhase → Prop
  | leaving => False
  | gone => False
  | _ => True

/-- It is between the drain of a tick and the write of its batch. -/
def InTick : StreamPhase → Prop
  | waiting _ _ => True
  | computing _ _ => True
  | arming _ _ _ => True
  | writing _ => True
  | _ => False

theorem InTick.live {p : StreamPhase} (h : p.InTick) : p.Live := by
  cases p <;> first | exact trivial | exact h

end StreamPhase

namespace StreamClient

/-- The events written to it. -/
def delivered (c : StreamClient) : List StreamEvent := eventsOf c.written

/-- What is written, what its thread holds and what is queued. -/
def account (c : StreamClient) : List StreamEvent := c.delivered ++ c.phase.holds ++ c.queue

end StreamClient

theorem eventsOf_append (a b : List Frame) : eventsOf (a ++ b) = eventsOf a ++ eventsOf b :=
  List.filterMap_append

theorem eventsOf_ofRing (entries : List (ℕ × Fields)) :
    eventsOf (entries.map Frame.ofRing) = ringEvents entries := by
  unfold eventsOf ringEvents
  rw [List.filterMap_map]
  exact List.filterMap_eq_map_iff_forall_eq_some.mpr fun entry _ => rfl

theorem eventsOf_batch (pending : List StreamEvent) (pulse : Option Fields) (pingDue : Bool) :
    eventsOf (batchOf pending pulse pingDue) = pending := by
  have hpending : eventsOf (pending.map Frame.event) = pending := by
    unfold eventsOf
    rw [List.filterMap_map]
    exact List.filterMap_some
  have hpulse : eventsOf (pulse.map Frame.pulse).toList = [] := by
    cases pulse <;> rfl
  have hping : eventsOf (if pingDue then [.ping] else []) = [] := by
    cases pingDue <;> rfl
  unfold batchOf
  rw [eventsOf_append, eventsOf_append, hpending, hpulse, hping, List.append_nil, List.append_nil]

/-! ## The turns of a client -/

/-- What a step of the hub does to one connection, where it publishes nothing. -/
inductive Turn (c : StreamClient) : StreamClient → Prop
  /-- nothing -/
  | same : Turn c c
  /-- its head is written -/
  | opened {c' : StreamClient} : c.phase.Live → c'.phase = .serving → c'.queue = c.queue →
      c'.delivered = c.delivered ++ c.phase.holds → Turn c c'
  /-- its tick drains the queue -/
  | drained {c' : StreamClient} : c.phase = .serving → c'.phase.InTick → c'.queue = [] →
      c'.phase.holds = c.queue → c'.delivered = c.delivered → Turn c c'
  /-- its tick goes on -/
  | onward {c' : StreamClient} : c.phase.InTick → c'.phase.InTick → c'.queue = c.queue →
      c'.phase.holds = c.phase.holds → c'.delivered = c.delivered → Turn c c'
  /-- its batch is written -/
  | wrote {c' : StreamClient} : c.phase.InTick → c'.phase = .serving → c'.queue = c.queue →
      c'.delivered = c.delivered ++ c.phase.holds → Turn c c'
  /-- its loop ends, or has ended -/
  | left {c' : StreamClient} : ¬c'.phase.Live → c.delivered <+: c'.delivered →
      c'.delivered <+: c.delivered ++ c.phase.holds → Turn c c'

section

variable {T : PyText} {hub hub' : StreamHub} {c c' : StreamClient}

theorem turn_writeHead {serverTime : ℚ} (h : hub.writeHead serverTime c = some c') : Turn c c' := by
  unfold writeHead at h
  split at h
  · rename_i replay hphase
    obtain rfl := Option.some.inj h
    refine .opened (by rw [hphase]; trivial) rfl rfl ?_
    rw [StreamClient.delivered, eventsOf_append, StreamClient.delivered, hphase]
    exact congrArg _ (eventsOf_ofRing replay)
  · cases h

/-- A tick drains the queue, or the hub is stopping and the loop ends. -/
theorem tick_spec {now : ℚ} {claim : Bool}
    (h : hub.tick now c = some (c', claim)) : c.phase = .serving ∧ c'.delivered = c.delivered ∧
      (c'.phase.InTick ∧ c'.queue = [] ∧ c'.phase.holds = c.queue ∨ c'.phase = .leaving) := by
  unfold StreamHub.tick at h
  split at h
  · rename_i hphase
    refine ⟨hphase, ?_⟩
    split at h
    · obtain ⟨rfl, -⟩ := Prod.mk.inj (Option.some.inj h)
      exact ⟨rfl, Or.inr rfl⟩
    · dsimp only at h
      split at h
      · split at h
        · split at h
          · obtain ⟨rfl, -⟩ := Prod.mk.inj (Option.some.inj h)
            exact ⟨rfl, Or.inl ⟨trivial, rfl, eventsOf_batch c.queue _ _⟩⟩
          · split at h
            · obtain ⟨rfl, -⟩ := Prod.mk.inj (Option.some.inj h)
              exact ⟨rfl, Or.inl ⟨trivial, rfl, rfl⟩⟩
            · obtain ⟨rfl, -⟩ := Prod.mk.inj (Option.some.inj h)
              exact ⟨rfl, Or.inl ⟨trivial, rfl, rfl⟩⟩
        · obtain ⟨rfl, -⟩ := Prod.mk.inj (Option.some.inj h)
          exact ⟨rfl, Or.inl ⟨trivial, rfl, eventsOf_batch c.queue _ _⟩⟩
      · cases h
  · cases h

theorem turn_tick {now : ℚ} {claim : Bool}
    (h : hub.tick now c = some (c', claim)) : Turn c c' := by
  obtain ⟨hphase, hdelivered, ⟨htick, hqueue, hholds⟩ | hleaving⟩ := tick_spec h
  · exact .drained hphase htick hqueue hholds hdelivered
  · refine .left (by rw [hleaving]; exact id) ?_ ?_
    · rw [hdelivered]
    · rw [hdelivered]
      exact List.prefix_append _ _

theorem turn_wake (h : hub.wake c = some c') : Turn c c' := by
  unfold StreamHub.wake at h
  split at h
  · rename_i pending pingDue hphase
    split at h
    · obtain rfl := Option.some.inj h
      exact .left id (List.prefix_refl _) (List.prefix_append _ _)
    · split at h
      · cases h
      · obtain rfl := Option.some.inj h
        refine .onward (by rw [hphase]; trivial) trivial rfl ?_ rfl
        rw [hphase]
        exact eventsOf_batch pending _ _
  · cases h

theorem turn_fail {n : ℕ} {serverTime : ℚ} (h : hub.failWrite n serverTime c = some c') :
    Turn c c' := by
  obtain ⟨frames, hframes, rfl⟩ := Option.map_eq_some_iff.mp h
  refine .left id ?_ ?_
  · rw [StreamClient.delivered, StreamClient.delivered, eventsOf_append]
    exact List.prefix_append _ _
  · have hholds : eventsOf frames <+: c.phase.holds := by
      unfold outgoing at hframes
      split at hframes
      · rename_i replay hphase
        obtain rfl := Option.some.inj hframes
        rw [hphase]
        have hreplay : eventsOf (.hello serverTime hub.tickS hub.ringSize ::
            replay.map Frame.ofRing) = ringEvents replay := eventsOf_ofRing replay
        rw [hreplay]
        exact List.prefix_refl _
      · rename_i batch hphase
        obtain rfl := Option.some.inj hframes
        rw [hphase]
        exact List.prefix_refl _
      · obtain rfl := Option.some.inj hframes
        exact List.nil_prefix
      · cases hframes
    rw [StreamClient.delivered, StreamClient.delivered, eventsOf_append]
    refine (List.prefix_append_right_inj _).mpr (List.IsPrefix.trans ?_ hholds)
    exact (List.take_prefix n frames).filterMap _

/-! ## The steps of the hub -/

theorem getElem?_setClient {i j : ℕ} (hc : hub.clients[i]? = some c) :
    (hub.setClient j c').clients[i]? = some (if j = i then c' else c) := by
  unfold setClient
  rw [List.getElem?_set]
  split
  · rename_i hij
    subst hij
    rw [if_pos (List.getElem?_eq_some_iff.mp hc).1]
  · exact hc

theorem clientStep_eq {j : ℕ} {f : StreamClient → Option StreamClient}
    (h : hub.clientStep j f = some hub') : ∃ d d', hub.clients[j]? = some d ∧ f d = some d' ∧
      hub' = hub.setClient j d' := by
  obtain ⟨d, hd, h⟩ := Option.bind_eq_some_iff.mp h
  obtain ⟨d', hd', h⟩ := Option.bind_eq_some_iff.mp h
  exact ⟨d, d', hd, hd', (Option.some.inj h).symm⟩

/-- A step of the thread of `j` is a turn of every connection. -/
theorem turn_setClient {i j : ℕ} {d d' : StreamClient} (hd : hub.clients[j]? = some d)
    (hturn : Turn d d') (hc : hub.clients[i]? = some c) :
    ∃ c', (hub.setClient j d').clients[i]? = some c' ∧ Turn c c' := by
  refine ⟨_, getElem?_setClient hc, ?_⟩
  split
  · rename_i hij
    subst hij
    obtain rfl := Option.some.inj (hd.symm.trans hc)
    exact hturn
  · exact .same

theorem getElem?_fanOut {i : ℕ} (e : StreamEvent) (hc : hub.clients[i]? = some c) :
    (hub.fanOut e).clients[i]? =
      some (if c.registered then { c with queue := c.queue ++ [e] } else c) := by
  unfold fanOut
  rw [List.getElem?_map, hc]
  rfl

/-- A connection is refused, or registered with its replay window. -/
theorem connect_spec {header param : Option PyStr} {now : ℚ}
    (h : step T hub (.connect header param now) = some hub') :
    (hub.maxClients ≤ hub.clientCount ∧ hub' = hub) ∨ (¬hub.maxClients ≤ hub.clientCount ∧
      hub' = hub.register (parseLastEventId T header param) now) := by
  rw [StreamHub.step, handle] at h
  by_cases hfull : hub.maxClients ≤ hub.clientCount
  · rw [if_pos hfull] at h
    exact Or.inl ⟨hfull, (Option.some.inj h).symm⟩
  · rw [if_neg hfull] at h
    exact Or.inr ⟨hfull, (Option.some.inj h).symm⟩

/-- What a step does to a connection: its turn, or the event that is published is
queued for it while it is registered. -/
theorem client_step {a : StreamAct} (h : step T hub a = some hub') {i : ℕ}
    (hc : hub.clients[i]? = some c) : ∃ c', hub'.clients[i]? = some c' ∧
      match published hub a with
      | none => Turn c c'
      | some e => c' = if c.registered then { c with queue := c.queue ++ [e] } else c := by
  cases a with
  | publishTrace summary =>
    obtain rfl := Option.some.inj h
    exact ⟨_, getElem?_fanOut _ hc, rfl⟩
  | publishLog entry =>
    obtain rfl := Option.some.inj h
    exact ⟨_, getElem?_fanOut _ hc, rfl⟩
  | publishModel payload =>
    obtain rfl := Option.some.inj h
    exact ⟨_, getElem?_fanOut _ hc, rfl⟩
  | connect header param now =>
    have hsame : hub'.clients[i]? = some c := by
      rcases connect_spec h with ⟨-, rfl⟩ | ⟨-, rfl⟩
      · exact hc
      · exact (List.getElem?_append_left (List.getElem?_eq_some_iff.mp hc).1).trans hc
    exact ⟨c, hsame, .same⟩
  | head j serverTime =>
    obtain ⟨d, d', hd, hd', rfl⟩ := clientStep_eq h
    exact turn_setClient hd (turn_writeHead hd') hc
  | tick j now =>
    obtain ⟨d, hd, h⟩ := Option.bind_eq_some_iff.mp h
    obtain ⟨⟨d', claim⟩, hd', h⟩ := Option.bind_eq_some_iff.mp h
    obtain rfl := Option.some.inj h
    exact turn_setClient hd (turn_tick hd') hc
  | wake j =>
    obtain ⟨d, d', hd, hd', rfl⟩ := clientStep_eq h
    exact turn_setClient hd (turn_wake hd') hc
  | provide j result now =>
    obtain ⟨d, hd, h⟩ := Option.bind_eq_some_iff.mp h
    split at h
    · rename_i pending pingDue hphase
      obtain rfl := Option.some.inj h
      refine turn_setClient hd (.onward ?_ trivial rfl ?_ rfl) hc
      · rw [hphase]
        trivial
      · rw [hphase]
        rfl
    · cases h
  | arm j =>
    obtain ⟨d, hd, h⟩ := Option.bind_eq_some_iff.mp h
    split at h
    · rename_i pending pingDue pulse hphase
      obtain rfl := Option.some.inj h
      have hturn : Turn d { d with phase := .writing (batchOf pending (some pulse) pingDue) } := by
        refine .onward ?_ trivial rfl ?_ rfl
        · rw [hphase]
          trivial
        · rw [hphase]
          exact eventsOf_batch pending _ _
      obtain ⟨c', hc', hturn'⟩ := turn_setClient hd hturn hc
      refine ⟨c', ?_, hturn'⟩
      unfold armPrefetch
      split
      · exact hc'
      · exact hc'
    · cases h
  | write j =>
    obtain ⟨d, d', hd, hd', rfl⟩ := clientStep_eq h
    refine turn_setClient hd ?_ hc
    split at hd'
    · rename_i batch hphase
      obtain rfl := Option.some.inj hd'
      refine .wrote (by rw [hphase]; trivial) rfl rfl ?_
      rw [StreamClient.delivered, eventsOf_append, StreamClient.delivered, hphase]
      rfl
    · cases hd'
  | fail j n serverTime =>
    obtain ⟨d, d', hd, hd', rfl⟩ := clientStep_eq h
    exact turn_setClient hd (turn_fail hd') hc
  | leave j =>
    obtain ⟨d, d', hd, hd', rfl⟩ := clientStep_eq h
    refine turn_setClient hd ?_ hc
    split at hd'
    · obtain rfl := Option.some.inj hd'
      exact .left id (List.prefix_refl _) (List.prefix_append _ _)
    · cases hd'
  | prefetch timer =>
    obtain rfl := Option.some.inj h
    refine ⟨c, ?_, .same⟩
    unfold StreamHub.prefetch
    split
    · split <;> exact hc
    · exact hc
  | refresh result now =>
    rw [StreamHub.step] at h
    split at h
    · obtain rfl := Option.some.inj h
      exact ⟨c, hc, .same⟩
    · cases h
  | rearm =>
    rw [StreamHub.step] at h
    split at h
    · obtain rfl := Option.some.inj h
      refine ⟨c, ?_, .same⟩
      unfold armPrefetch
      split <;> exact hc
    · cases h
  | stop =>
    obtain rfl := Option.some.inj h
    exact ⟨c, hc, .same⟩

/-- What a step does to the ring and the ids. -/
theorem ring_step {a : StreamAct} (h : step T hub a = some hub') : hub'.replay = hub.replay ∧
    match (published hub a).bind StreamEvent.ringEntry with
    | some entry => entry.1 = hub.nextId ∧ hub'.nextId = hub.nextId + 1 ∧
        hub'.ring = pushRing hub.replay hub.ring entry
    | none => hub'.nextId = hub.nextId ∧ hub'.ring = hub.ring := by
  have hset : ∀ {j : ℕ} {f : StreamClient → Option StreamClient},
      hub.clientStep j f = some hub' →
        hub'.replay = hub.replay ∧ hub'.nextId = hub.nextId ∧ hub'.ring = hub.ring := by
    intro j f hf
    obtain ⟨d, d', -, -, rfl⟩ := clientStep_eq hf
    exact ⟨rfl, rfl, rfl⟩
  have harm : ∀ hub : StreamHub, hub.armPrefetch.replay = hub.replay ∧
      hub.armPrefetch.nextId = hub.nextId ∧ hub.armPrefetch.ring = hub.ring := by
    intro hub
    unfold armPrefetch
    split <;> exact ⟨rfl, rfl, rfl⟩
  cases a with
  | publishTrace summary =>
    obtain rfl := Option.some.inj h
    exact ⟨rfl, rfl, rfl, rfl⟩
  | publishLog _ | publishModel _ | stop =>
    obtain rfl := Option.some.inj h
    exact ⟨rfl, rfl, rfl⟩
  | connect header param now =>
    rcases connect_spec h with ⟨-, rfl⟩ | ⟨-, rfl⟩ <;> exact ⟨rfl, rfl, rfl⟩
  | head _ _ | wake _ | write _ | fail _ _ _ | leave _ => exact hset h
  | tick j now =>
    obtain ⟨d, hd, h⟩ := Option.bind_eq_some_iff.mp h
    obtain ⟨⟨d', claim⟩, hd', h⟩ := Option.bind_eq_some_iff.mp h
    obtain rfl := Option.some.inj h
    exact ⟨rfl, rfl, rfl⟩
  | provide j result now =>
    obtain ⟨d, hd, h⟩ := Option.bind_eq_some_iff.mp h
    split at h
    · obtain rfl := Option.some.inj h
      exact ⟨rfl, rfl, rfl⟩
    · cases h
  | arm j =>
    obtain ⟨d, hd, h⟩ := Option.bind_eq_some_iff.mp h
    split at h
    · obtain rfl := Option.some.inj h
      exact harm _
    · cases h
  | prefetch timer =>
    obtain rfl := Option.some.inj h
    unfold StreamHub.prefetch
    split
    · split <;> exact ⟨rfl, rfl, rfl⟩
    · exact ⟨rfl, rfl, rfl⟩
  | refresh result now =>
    rw [StreamHub.step] at h
    split at h
    · obtain rfl := Option.some.inj h
      exact ⟨rfl, rfl, rfl⟩
    · cases h
  | rearm =>
    rw [StreamHub.step] at h
    split at h
    · obtain rfl := Option.some.inj h
      exact harm hub
    · cases h

end

/-! ## What a client is owed -/

/-- `owed` is what the client is owed so far: what has been written is a prefix of
it, and while the client is served its account is exactly it. -/
def Owed (owed : List StreamEvent) (c : StreamClient) : Prop :=
  c.delivered <+: owed ∧ (c.phase.Live → c.account = owed)

/-- The next batch that is written makes `due` delivered, if there is one. -/
def Due (due : List StreamEvent) (c : StreamClient) : Prop :=
  due <+: c.delivered ∨ (c.phase.InTick ∧ c.delivered ++ c.phase.holds = due) ∨ ¬c.phase.Live

section

variable {c c' : StreamClient} {owed due : List StreamEvent}

theorem serving_holds (h : c.phase = .serving) : c.phase.holds = [] := by
  rw [h]
  rfl

theorem Owed.turn (h : Owed owed c) (hturn : Turn c c') : Owed owed c' := by
  obtain ⟨hpre, haccount⟩ := h
  have hstep : ∀ {d : List StreamEvent}, c.phase.Live → d = c.delivered ++ c.phase.holds →
      d <+: owed := by
    rintro d hlive rfl
    rw [← haccount hlive]
    exact List.prefix_append _ _
  cases hturn with
  | same => exact ⟨hpre, haccount⟩
  | opened hlive hphase hqueue hdelivered =>
    refine ⟨hstep hlive hdelivered, fun _ => ?_⟩
    rw [StreamClient.account, serving_holds hphase, hqueue, hdelivered, List.append_nil]
    exact haccount hlive
  | drained hphase _ hqueue hholds hdelivered =>
    refine ⟨hdelivered ▸ hpre, fun _ => ?_⟩
    have hbefore := haccount (by rw [hphase]; trivial)
    rw [StreamClient.account, serving_holds hphase, List.append_nil] at hbefore
    rw [StreamClient.account, hqueue, hholds, hdelivered, List.append_nil]
    exact hbefore
  | onward htick _ hqueue hholds hdelivered =>
    refine ⟨hdelivered ▸ hpre, fun _ => ?_⟩
    rw [StreamClient.account, hqueue, hholds, hdelivered]
    exact haccount htick.live
  | wrote htick hphase hqueue hdelivered =>
    refine ⟨hstep htick.live hdelivered, fun _ => ?_⟩
    rw [StreamClient.account, serving_holds hphase, hqueue, hdelivered, List.append_nil]
    exact haccount htick.live
  | left hdead _ hwritten =>
    refine ⟨?_, fun hlive => absurd hlive hdead⟩
    by_cases hlive : c.phase.Live
    · exact hwritten.trans (hstep hlive rfl)
    · -- a thread whose loop is over holds nothing
      have hnone : c.phase.holds = [] := by
        revert hlive
        cases c.phase <;> first | exact fun h => absurd trivial h | exact fun _ => rfl
      rw [hnone, List.append_nil] at hwritten
      exact hwritten.trans hpre

theorem Owed.push (h : Owed owed c) (e : StreamEvent) :
    Owed (owed ++ [e]) (if c.registered then { c with queue := c.queue ++ [e] } else c) := by
  obtain ⟨hpre, haccount⟩ := h
  split
  · refine ⟨hpre.trans (List.prefix_append _ _), fun hlive => ?_⟩
    rw [← haccount hlive]
    exact (List.append_assoc _ _ _).symm
  · rename_i hgone
    refine ⟨hpre.trans (List.prefix_append _ _), fun hlive => absurd ?_ hgone⟩
    unfold StreamClient.registered
    revert hlive
    cases c.phase <;> first | exact fun _ => rfl | exact fun h => absurd h id

/-- What has been written stays written. -/
theorem Turn.grows (hturn : Turn c c') : c.delivered <+: c'.delivered := by
  cases hturn with
  | same => exact List.prefix_refl _
  | opened _ _ _ hdelivered => exact hdelivered ▸ List.prefix_append _ _
  | drained _ _ _ _ hdelivered => exact hdelivered ▸ List.prefix_refl _
  | onward _ _ _ _ hdelivered => exact hdelivered ▸ List.prefix_refl _
  | wrote _ _ _ hdelivered => exact hdelivered ▸ List.prefix_append _ _
  | left _ hwritten _ => exact hwritten

theorem Due.turn (h : Due due c) (hturn : Turn c c') : Due due c' := by
  rcases h with h | ⟨htick, hholds⟩ | hdead
  · exact Or.inl (h.trans hturn.grows)
  · cases hturn with
    | same => exact Or.inr (Or.inl ⟨htick, hholds⟩)
    | opened _ _ _ hdelivered => exact Or.inl (by rw [hdelivered, hholds])
    | drained hphase =>
      rw [hphase] at htick
      exact htick.elim
    | onward _ htick' _ hholds' hdelivered =>
      exact Or.inr (Or.inl ⟨htick', by rw [hdelivered, hholds', hholds]⟩)
    | wrote _ _ _ hdelivered => exact Or.inl (by rw [hdelivered, hholds])
    | left hdead => exact Or.inr (Or.inr hdead)
  · cases hturn with
    | same => exact Or.inr (Or.inr hdead)
    | opened hlive => exact absurd hlive hdead
    | drained hphase => exact absurd (by rw [hphase]; trivial) hdead
    | onward htick => exact absurd htick.live hdead
    | wrote htick => exact absurd htick.live hdead
    | left hdead' => exact Or.inr (Or.inr hdead')

end

/-! ## Runs -/

section

variable {T : PyText} {s t : StreamHub} {es : List (Machine.Event StreamHub StreamAct)}

theorem publishedIn_snoc (e : Machine.Event StreamHub StreamAct) :
    publishedIn (es ++ [e]) = publishedIn es ++ (published e.pre e.act).toList := by
  unfold publishedIn
  rw [List.filterMap_append, List.filterMap_cons, List.filterMap_nil]
  cases published e.pre e.act <;> rfl

/-- A run adds to what a client is owed what it publishes. -/
theorem owed_run (hrun : (machine T).Run s es t) {i : ℕ} {c : StreamClient}
    {owed : List StreamEvent} (hc : s.clients[i]? = some c) (h : Owed owed c) :
    ∃ c', t.clients[i]? = some c' ∧ Owed (owed ++ publishedIn es) c' := by
  induction hrun with
  | refl => exact ⟨c, hc, by rwa [publishedIn, List.filterMap_nil, List.append_nil]⟩
  | @snoc u v es a _ hstep ih =>
    obtain ⟨d, hd, howed⟩ := ih
    obtain ⟨d', hd', hmove⟩ := client_step hstep hd
    refine ⟨d', hd', ?_⟩
    rw [publishedIn_snoc, ← List.append_assoc]
    dsimp only
    cases hpub : published u a with
    | none =>
      rw [hpub] at hmove
      rw [Option.toList_none, List.append_nil]
      exact howed.turn hmove
    | some e =>
      rw [hpub] at hmove
      rw [Option.toList_some, hmove]
      exact howed.push e

/-- What every turn keeps, and what is queued does not change, a run keeps. -/
theorem client_run {P : StreamClient → Prop} (hturn : ∀ {c c'}, P c → Turn c c' → P c')
    (hpush : ∀ {c : StreamClient} {queue}, P c → P { c with queue := queue })
    (hrun : (machine T).Run s es t) {i : ℕ} {c : StreamClient} (hc : s.clients[i]? = some c)
    (h : P c) : ∃ c', t.clients[i]? = some c' ∧ P c' := by
  induction hrun with
  | refl => exact ⟨c, hc, h⟩
  | @snoc u v es a _ hstep ih =>
    obtain ⟨d, hd, hP⟩ := ih
    obtain ⟨d', hd', hmove⟩ := client_step hstep hd
    refine ⟨d', hd', ?_⟩
    cases hpub : published u a with
    | none =>
      rw [hpub] at hmove
      exact hturn hP hmove
    | some e =>
      rw [hpub] at hmove
      rw [hmove]
      split
      · exact hpush hP
      · exact hP

/-- At its tick, everything a client is owed becomes due. -/
theorem due_tick {i : ℕ} {now : ℚ} (hstep : step T s (.tick i now) = some t) {c : StreamClient}
    {owed : List StreamEvent} (hc : s.clients[i]? = some c) (h : Owed owed c) :
    ∃ c', t.clients[i]? = some c' ∧ Due owed c' := by
  obtain ⟨d, hd, hstep⟩ := Option.bind_eq_some_iff.mp hstep
  obtain ⟨⟨d', claim⟩, hd', hstep⟩ := Option.bind_eq_some_iff.mp hstep
  obtain rfl := Option.some.inj hstep
  obtain rfl := Option.some.inj (hd.symm.trans hc)
  refine ⟨d', (getElem?_setClient hd).trans (congrArg some (if_pos rfl)), ?_⟩
  obtain ⟨hphase, hdelivered, ⟨htick, hqueue, hholds⟩ | hleaving⟩ := tick_spec hd'
  · refine Or.inr (Or.inl ⟨htick, ?_⟩)
    rw [← h.2 (by rw [hphase]; trivial), StreamClient.account, serving_holds hphase,
      List.append_nil, hdelivered, hholds]
  · exact Or.inr (Or.inr (by rw [hleaving]; exact id))

/-- When a batch has been written, what was due is delivered. -/
theorem delivered_write {i : ℕ} (hstep : step T s (.write i) = some t) {c : StreamClient}
    {due : List StreamEvent} (hc : s.clients[i]? = some c) (h : Due due c) :
    ∃ c', t.clients[i]? = some c' ∧ due <+: c'.delivered := by
  obtain ⟨d, d', hd, hd', rfl⟩ := clientStep_eq hstep
  obtain rfl := Option.some.inj (hd.symm.trans hc)
  refine ⟨d', (getElem?_setClient hd).trans (congrArg some (if_pos rfl)), ?_⟩
  split at hd'
  · rename_i batch hphase
    obtain rfl := Option.some.inj hd'
    have hdelivered : eventsOf (d.written ++ batch) = d.delivered ++ d.phase.holds := by
      rw [eventsOf_append, hphase]
      rfl
    rw [StreamClient.delivered, hdelivered]
    rcases h with h | ⟨-, hholds⟩ | hdead
    · exact h.trans (List.prefix_append _ _)
    · rw [hholds]
    · exact absurd (by rw [hphase]; trivial) hdead
  · cases hd'

/-- The traces among some events, as ring entries. -/
def tracesOf (events : List StreamEvent) : List (ℕ × Fields) :=
  events.filterMap StreamEvent.ringEntry

theorem tracesOf_append (a b : List StreamEvent) :
    tracesOf (a ++ b) = tracesOf a ++ tracesOf b := List.filterMap_append

theorem tracesOf_ringEvents (entries : List (ℕ × Fields)) :
    tracesOf (ringEvents entries) = entries := by
  unfold tracesOf ringEvents
  rw [List.filterMap_map]
  exact List.filterMap_some

theorem tracesOf_toList (e : Option StreamEvent) :
    tracesOf e.toList = (e.bind StreamEvent.ringEntry).toList := by
  cases e with
  | none => rfl
  | some e => cases e <;> rfl

/-- A run numbers its trace events one by one. -/
theorem ids_range (hrun : (machine T).Run s es t) :
    t.nextId = s.nextId + (tracesOf (publishedIn es)).length ∧
    (tracesOf (publishedIn es)).map Prod.fst =
      List.range' s.nextId (tracesOf (publishedIn es)).length := by
  induction hrun with
  | refl => exact ⟨rfl, rfl⟩
  | @snoc u v es a _ hstep ih =>
    obtain ⟨hcount, hids⟩ := ih
    obtain ⟨-, hring⟩ := ring_step hstep
    rw [publishedIn_snoc, tracesOf_append, tracesOf_toList, List.map_append, List.length_append]
    dsimp only
    cases hentry : (published u a).bind StreamEvent.ringEntry with
    | none =>
      rw [hentry] at hring
      rw [Option.toList_none, List.map_nil, List.append_nil, hring.1]
      exact ⟨hcount, hids⟩
    | some entry =>
      rw [hentry] at hring
      obtain ⟨hid, hnext, -⟩ := hring
      rw [Option.toList_some, List.map_singleton, List.length_singleton, hnext, hid, hids,
        List.range'_1_concat, hcount]
      exact ⟨rfl, rfl⟩

/-- The ids a run gives out are increasing, and new. -/
theorem ids_run (hrun : (machine T).Run s es t) : s.nextId ≤ t.nextId ∧
    ((tracesOf (publishedIn es)).map Prod.fst).Pairwise (· < ·) ∧
    ∀ id ∈ (tracesOf (publishedIn es)).map Prod.fst, s.nextId ≤ id ∧ id < t.nextId := by
  obtain ⟨hcount, hids⟩ := ids_range hrun
  rw [hids, hcount]
  refine ⟨Nat.le_add_right _ _, List.pairwise_lt_range', fun id hid => ?_⟩
  exact List.mem_range'_1.mp hid

/-- The ring holds the newest traces that the run has published. -/
theorem ring_run (hrun : (machine T).Run s es t) (hempty : s.ring = []) :
    t.replay = s.replay ∧ t.ring <:+ tracesOf (publishedIn es) ∧
      t.ring.length = min (tracesOf (publishedIn es)).length t.replay := by
  induction hrun with
  | refl =>
    rw [hempty]
    exact ⟨rfl, List.nil_suffix, rfl⟩
  | @snoc u v es a _ hstep ih =>
    obtain ⟨hreplay, hsuffix, hlength⟩ := ih
    obtain ⟨hkeep, hring⟩ := ring_step hstep
    rw [publishedIn_snoc, tracesOf_append, tracesOf_toList, hkeep]
    refine ⟨hreplay, ?_⟩
    dsimp only
    cases hentry : (published u a).bind StreamEvent.ringEntry with
    | none =>
      rw [hentry] at hring
      rw [Option.toList_none, List.append_nil, hring.2]
      exact ⟨hsuffix, hlength⟩
    | some entry =>
      rw [hentry] at hring
      obtain ⟨-, -, hpush⟩ := hring
      rw [Option.toList_some, hpush]
      constructor
      · obtain ⟨older, holder⟩ := hsuffix
        refine (List.drop_suffix _ _).trans ⟨older, ?_⟩
        rw [← List.append_assoc, holder]
      · unfold pushRing
        rw [List.length_drop, List.length_append, List.length_append, List.length_singleton]
        omega

theorem missed_sublist (lastId : Option ℤ) (ring : List (ℕ × Fields)) :
    (missed lastId ring).Sublist ring := by
  unfold missed
  split
  · exact List.filter_sublist
  · exact List.nil_sublist _

/-- Registration gives a client what it is owed then: its replay window. -/
theorem owed_register (lastId : Option ℤ) (now : ℚ) :
    ∃ c, (s.register lastId now).clients[s.clients.length]? = some c ∧
      Owed (ringEvents (missed lastId s.ring)) c := by
  refine ⟨_, List.getElem?_concat_length, List.nil_prefix, fun _ => ?_⟩
  exact List.append_nil _

/-- **Delivery is in order, without a gap and without a duplicate.** In every run of
an attached hub: the ring holds the newest traces; and a client that was registered
in it has been written a prefix of what it is owed, the part of the ring it missed
and every event published since, whose trace ids increase; and once the batch of one
of its ticks is written, it has every event that was published before the tick. -/
theorem delivery (T : PyText) {hub t : StreamHub} (hstart : (machine T).init hub)
    {es : List (Machine.Event StreamHub StreamAct)} (hrun : (machine T).Run hub es t) :
    (t.ring <:+ tracesOf (publishedIn es) ∧
      t.ring.length = min (tracesOf (publishedIn es)).length t.replay) ∧
    ∀ (before after : List (Machine.Event StreamHub StreamAct))
      (e : Machine.Event StreamHub StreamAct) (header param : Option PyStr) (now : ℚ),
      es = before ++ e :: after → e.act = .connect header param now →
      ¬e.pre.maxClients ≤ e.pre.clientCount →
      let replay := missed (parseLastEventId T header param) e.pre.ring
      let owed := ringEvents replay ++ publishedIn after
      ∃ c, t.clients[e.pre.clients.length]? = some c ∧ c.delivered <+: owed ∧
        ((tracesOf owed).map Prod.fst).Pairwise (· < ·) ∧
        ∀ (early late : List (Machine.Event StreamHub StreamAct))
          (tick : Machine.Event StreamHub StreamAct) (tickedAt : ℚ),
          after = early ++ tick :: late → tick.act = .tick e.pre.clients.length tickedAt →
          (∃ w ∈ late, w.act = .write e.pre.clients.length) →
          ringEvents replay ++ publishedIn early <+: c.delivered := by
  obtain ⟨tickS, ringSize, replay, maxClients, rfl⟩ := hstart
  refine ⟨(ring_run hrun rfl).2, ?_⟩
  rintro before after e header param now rfl hact hroom
  obtain ⟨u, hbefore, hrest⟩ := hrun.of_append
  obtain ⟨rfl, hstep, hafter⟩ := hrest.of_cons
  rw [hact] at hstep
  obtain ⟨hfull, -⟩ | ⟨-, hpost⟩ := connect_spec hstep
  · exact absurd hfull hroom
  rw [hpost] at hafter
  obtain ⟨c₀, hc₀, howed₀⟩ := owed_register (s := e.pre) (parseLastEventId T header param) now
  obtain ⟨c, hc, howed⟩ := owed_run hafter hc₀ howed₀
  refine ⟨c, hc, howed.1, ?_, ?_⟩
  · -- the ids of the ring are below the ids to come
    obtain ⟨-, hincr, hids⟩ := ids_run hbefore
    obtain ⟨-, hincr', hids'⟩ := ids_run hafter
    have hsub : ((missed (parseLastEventId T header param) e.pre.ring).map Prod.fst).Sublist
        ((tracesOf (publishedIn before)).map Prod.fst) :=
      ((missed_sublist _ _).trans (ring_run hbefore rfl).2.1.sublist).map _
    rw [tracesOf_append, tracesOf_ringEvents, List.map_append]
    refine List.pairwise_append.mpr ⟨hincr.sublist hsub, hincr', fun a ha b hb => ?_⟩
    exact lt_of_lt_of_le (hids a (hsub.subset ha)).2 (hids' b hb).1
  -- a tick makes what is owed due, the write delivers it, and what is delivered stays
  · rintro early late tick now' rfl htick ⟨w, hw, hwrite⟩
    obtain ⟨u, hearly, hrest'⟩ := hafter.of_append
    obtain ⟨rfl, hstep', hlate⟩ := hrest'.of_cons
    obtain ⟨l₁, l₂, rfl⟩ := List.append_of_mem hw
    obtain ⟨v, hl₁, hrest''⟩ := hlate.of_append
    obtain ⟨rfl, hstep'', hl₂⟩ := hrest''.of_cons
    rw [htick] at hstep'
    rw [hwrite] at hstep''
    obtain ⟨c₁, hc₁, howed₁⟩ := owed_run hearly hc₀ howed₀
    obtain ⟨c₂, hc₂, hdue₂⟩ := due_tick (T := T) hstep' hc₁ howed₁
    obtain ⟨c₃, hc₃, hdue₃⟩ := client_run (T := T) Due.turn id hl₁ hc₂ hdue₂
    obtain ⟨c₄, hc₄, hdone₄⟩ := delivered_write (T := T) hstep'' hc₃ hdue₃
    obtain ⟨c₅, hc₅, hdone₅⟩ := client_run (T := T) (P := fun c => _ <+: c.delivered)
      (fun h hturn => List.IsPrefix.trans h hturn.grows) id hl₂ hc₄ hdone₄
    obtain rfl := Option.some.inj (hc₅.symm.trans hc)
    exact hdone₅

end

/-! ## A client that comes back -/

/-- A trace is published, a client that has seen none connects, a second trace is
published, and the client is served. -/
def comesBack : List StreamAct :=
  [.publishTrace [], .connect (some (py "0")) none 0, .publishTrace [], .head 0 0, .tick 0 15,
    .provide 0 none 15, .arm 0, .write 0]

/-- It has been written both, and the ring holds both. -/
theorem delivery_comesBack : ∃ (es : List (Machine.Event StreamHub StreamAct)) (t : StreamHub),
    (machine wholeText).Run (attach 3 1000 200 20) es t ∧
    (t.clients.map fun c => c.delivered.length) = [2] ∧
    t.ring <:+ tracesOf (publishedIn es) ∧ t.ring.length = 2 := by
  have hend : ((machine wholeText).exec (attach 3 1000 200 20) comesBack).any (fun t =>
      decide ((t.clients.map fun c => c.delivered.length) = [2] ∧ t.ring.length = 2)) = true := by
    decide +kernel
  obtain ⟨t, hexec, ht⟩ := (Option.any_eq_true _ _).mp hend
  obtain ⟨hdelivered, hring⟩ := of_decide_eq_true ht
  obtain ⟨es, hrun, -⟩ := Machine.Run.of_exec hexec
  exact ⟨es, t, hrun, hdelivered, (delivery wholeText ⟨3, 1000, 200, 20, rfl⟩ hrun).1.1, hring⟩

end LayaWatch
