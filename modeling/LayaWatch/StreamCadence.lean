import LayaWatch.Stream

/-!
# The cadence and the capacity of the live stream

What a step of the hub does to one connection is said once (`client_of_step`): its own
thread moves it, or something is queued for it. From that come the bounds a hub promises
its sockets. There are never more registered clients than `max_clients`
(`clientCount_le`). And however much is published, a client is written at most one pulse
for each `tick_s`, one ping for each `_PING_S`, and no batch that is neither
(`cadence_kept`).
-/

namespace LayaWatch

open StreamHub

/-! ## Steps, connection by connection -/

/-- The connection whose thread takes the step. -/
def StreamAct.thread : StreamAct → Option ℕ
  | head i _ | tick i _ | wake i | provide i _ _ | arm i | write i | fail i _ _ | leave i => some i
  | _ => none

/-- What the thread of a step does to its own connection. -/
def StreamHub.threadStep (hub : StreamHub) (c : StreamClient) : StreamAct → Option StreamClient
  | .head _ serverTime => hub.writeHead serverTime c
  | .tick _ now => (hub.tick now c).map Prod.fst
  | .wake _ => hub.wake c
  | .provide _ result _ =>
    match c.phase with
    | .computing pending pingDue =>
      some { c with phase := .arming pending pingDue (pulseOf result) }
    | _ => none
  | .arm _ =>
    match c.phase with
    | .arming pending pingDue pulse =>
      some { c with phase := .writing (batchOf pending (some pulse) pingDue) }
    | _ => none
  | .write _ =>
    match c.phase with
    | .writing batch => some { c with phase := .serving, written := c.written ++ batch }
    | _ => none
  | .fail _ n serverTime => hub.failWrite n serverTime c
  | .leave _ =>
    match c.phase with
    | .leaving => some { c with phase := .gone }
    | _ => none
  | _ => none

section

variable {T : PyText} {hub hub' : StreamHub} {c c' : StreamClient} {a : StreamAct}

@[simp] theorem armPrefetch_clients (hub : StreamHub) :
    hub.armPrefetch.clients = hub.clients := by
  unfold armPrefetch
  split <;> rfl

@[simp] theorem prefetch_clients (hub : StreamHub) (timer : ℕ) :
    (hub.prefetch timer).clients = hub.clients := by
  unfold StreamHub.prefetch
  split
  · split <;> rfl
  · rfl

/-- The thread of a step changes its own connection and no other. -/
theorem clients_of_thread {i : ℕ} (h : step T hub a = some hub') (hi : a.thread = some i) :
    ∃ c c', hub.clients[i]? = some c ∧ hub.threadStep c a = some c' ∧
      hub'.clients = hub.clients.set i c' := by
  have hset : ∀ {j : ℕ} {f : StreamClient → Option StreamClient}, j = i →
      hub.clientStep j f = some hub' → (∀ d, f d = hub.threadStep d a) →
      ∃ c c', hub.clients[i]? = some c ∧ hub.threadStep c a = some c' ∧
        hub'.clients = hub.clients.set i c' := by
    rintro j f rfl hstep hf
    obtain ⟨d, hd, hstep⟩ := Option.bind_eq_some_iff.mp hstep
    obtain ⟨d', hd', hstep⟩ := Option.bind_eq_some_iff.mp hstep
    obtain rfl := Option.some.inj hstep
    exact ⟨d, d', hd, (hf d).symm.trans hd', rfl⟩
  cases a with
  | head j _ | wake j | write j | fail j _ _ | leave j =>
    exact hset (Option.some.inj hi) h fun d => rfl
  | tick j now =>
    obtain rfl := Option.some.inj hi
    obtain ⟨d, hd, h⟩ := Option.bind_eq_some_iff.mp h
    obtain ⟨⟨d', claim⟩, hd', h⟩ := Option.bind_eq_some_iff.mp h
    obtain rfl := Option.some.inj h
    exact ⟨d, d', hd, Option.map_eq_some_iff.mpr ⟨_, hd', rfl⟩, rfl⟩
  | provide j result now =>
    obtain rfl := Option.some.inj hi
    obtain ⟨d, hd, h⟩ := Option.bind_eq_some_iff.mp h
    split at h
    · rename_i pending pingDue hphase
      obtain rfl := Option.some.inj h
      refine ⟨d, _, hd, ?_, rfl⟩
      simp [threadStep, hphase]
    · cases h
  | arm j =>
    obtain rfl := Option.some.inj hi
    obtain ⟨d, hd, h⟩ := Option.bind_eq_some_iff.mp h
    split at h
    · rename_i pending pingDue pulse hphase
      obtain rfl := Option.some.inj h
      refine ⟨d, _, hd, ?_, armPrefetch_clients _⟩
      simp [threadStep, hphase]
    · cases h
  | _ => cases hi

/-- Every other step queues an event, registers a connection or leaves all as they are. -/
theorem clients_of_other (h : step T hub a = some hub') (hi : a.thread = none) :
    (∃ e, hub'.clients = (hub.fanOut e).clients) ∨
      (∃ lastId now, ¬hub.maxClients ≤ hub.clientCount ∧
        hub'.clients = (hub.register lastId now).clients) ∨
      hub'.clients = hub.clients := by
  cases a with
  | publishTrace _ | publishLog _ | publishModel _ =>
    obtain rfl := Option.some.inj h
    exact Or.inl ⟨_, rfl⟩
  | connect header param now =>
    rw [StreamHub.step, handle] at h
    split at h
    · rename_i hub₁ hhandle
      obtain rfl := Option.some.inj h
      split at hhandle
      · cases hhandle
      · rename_i hroom
        cases hhandle
        exact Or.inr (Or.inl ⟨_, now, hroom, rfl⟩)
    · obtain rfl := Option.some.inj h
      exact Or.inr (Or.inr rfl)
  | prefetch timer =>
    obtain rfl := Option.some.inj h
    exact Or.inr (Or.inr (prefetch_clients hub timer))
  | refresh result now =>
    rw [StreamHub.step] at h
    split at h
    · obtain rfl := Option.some.inj h
      exact Or.inr (Or.inr rfl)
    · cases h
  | rearm =>
    rw [StreamHub.step] at h
    split at h
    · obtain rfl := Option.some.inj h
      exact Or.inr (Or.inr (armPrefetch_clients hub))
    · cases h
  | stop =>
    obtain rfl := Option.some.inj h
    exact Or.inr (Or.inr rfl)
  | _ => cases hi

/-- What a step does to a connection: its own thread moves it, or at most its queue
grows. -/
theorem client_of_step (h : step T hub a = some hub') {i : ℕ} (hc : hub.clients[i]? = some c) :
    ∃ c', hub'.clients[i]? = some c' ∧
      (a.thread = some i ∧ hub.threadStep c a = some c' ∨
        a.thread ≠ some i ∧ ∃ queue, c' = { c with queue := queue }) := by
  have hlt : i < hub.clients.length := (List.getElem?_eq_some_iff.mp hc).1
  cases hthread : a.thread with
  | none =>
    have hne : (none : Option ℕ) ≠ some i := nofun
    rcases clients_of_other h hthread with ⟨e, he⟩ | ⟨lastId, now, -, he⟩ | he
    · refine ⟨if c.registered then { c with queue := c.queue ++ [e] } else c, ?_, Or.inr ⟨hne, ?_⟩⟩
      · rw [he, fanOut, List.getElem?_map, hc]
        rfl
      · split
        · exact ⟨_, rfl⟩
        · exact ⟨_, rfl⟩
    · refine ⟨c, ?_, Or.inr ⟨hne, _, rfl⟩⟩
      rw [he]
      exact (List.getElem?_append_left hlt).trans hc
    · exact ⟨c, he ▸ hc, Or.inr ⟨hne, _, rfl⟩⟩
  | some j =>
    obtain ⟨d, d', hd, hmove, he⟩ := clients_of_thread h hthread
    by_cases hij : j = i
    · subst hij
      obtain rfl := Option.some.inj (hd.symm.trans hc)
      refine ⟨d', ?_, Or.inl ⟨rfl, hmove⟩⟩
      rw [he, List.getElem?_set_self hlt]
    · refine ⟨c, ?_, Or.inr ⟨fun h => hij (Option.some.inj h), _, rfl⟩⟩
      rw [he, List.getElem?_set_ne hij, hc]

/-- The settings of a hub stay as they were attached. -/
theorem settings_of_step (h : step T hub a = some hub') :
    hub'.tickS = hub.tickS ∧ hub'.maxClients = hub.maxClients := by
  have hset : ∀ {j : ℕ} {f : StreamClient → Option StreamClient},
      hub.clientStep j f = some hub' →
        hub'.tickS = hub.tickS ∧ hub'.maxClients = hub.maxClients := by
    intro j f hstep
    obtain ⟨d, -, hstep⟩ := Option.bind_eq_some_iff.mp hstep
    obtain ⟨d', -, hstep⟩ := Option.bind_eq_some_iff.mp hstep
    obtain rfl := Option.some.inj hstep
    exact ⟨rfl, rfl⟩
  have harm : ∀ hub : StreamHub, hub.armPrefetch.tickS = hub.tickS ∧
      hub.armPrefetch.maxClients = hub.maxClients := by
    intro hub
    unfold armPrefetch
    split <;> exact ⟨rfl, rfl⟩
  cases a with
  | publishTrace _ | publishLog _ | publishModel _ | stop =>
    obtain rfl := Option.some.inj h
    exact ⟨rfl, rfl⟩
  | connect header param now =>
    rw [StreamHub.step, handle] at h
    split at h
    · rename_i hub₁ hhandle
      obtain rfl := Option.some.inj h
      split at hhandle
      · cases hhandle
      · cases hhandle
        exact ⟨rfl, rfl⟩
    · obtain rfl := Option.some.inj h
      exact ⟨rfl, rfl⟩
  | head _ _ | wake _ | write _ | fail _ _ _ | leave _ => exact hset h
  | tick j now =>
    obtain ⟨d, -, h⟩ := Option.bind_eq_some_iff.mp h
    obtain ⟨⟨d', claim⟩, -, h⟩ := Option.bind_eq_some_iff.mp h
    obtain rfl := Option.some.inj h
    exact ⟨rfl, rfl⟩
  | provide j result now =>
    obtain ⟨d, -, h⟩ := Option.bind_eq_some_iff.mp h
    split at h
    · obtain rfl := Option.some.inj h
      exact ⟨rfl, rfl⟩
    · cases h
  | arm j =>
    obtain ⟨d, -, h⟩ := Option.bind_eq_some_iff.mp h
    split at h
    · obtain rfl := Option.some.inj h
      exact harm _
    · cases h
  | prefetch timer =>
    obtain rfl := Option.some.inj h
    unfold StreamHub.prefetch
    split
    · split <;> exact ⟨rfl, rfl⟩
    · exact ⟨rfl, rfl⟩
  | refresh result now =>
    rw [StreamHub.step] at h
    split at h
    · obtain rfl := Option.some.inj h
      exact ⟨rfl, rfl⟩
    · cases h
  | rearm =>
    rw [StreamHub.step] at h
    split at h
    · obtain rfl := Option.some.inj h
      exact harm hub
    · cases h

/-! ## Capacity -/

/-- Only the thread of a registered connection moves. -/
theorem registered_of_threadStep (h : hub.threadStep c a = some c') : c.registered = true := by
  by_contra hgone
  have hphase : c.phase = .gone := by
    unfold StreamClient.registered at hgone
    split at hgone
    · assumption
    · exact absurd rfl hgone
  cases a <;> simp [threadStep, writeHead, StreamHub.tick, StreamHub.wake, failWrite, outgoing,
    hphase] at h

theorem clientCount_eq (hub : StreamHub) :
    hub.clientCount = hub.clients.countP StreamClient.registered :=
  List.countP_eq_length_filter.symm

theorem clientCount_step (h : step T hub a = some hub')
    (hle : hub.clientCount ≤ hub.maxClients) : hub'.clientCount ≤ hub'.maxClients := by
  rw [(settings_of_step h).2]
  rw [clientCount_eq] at hle ⊢
  cases hthread : a.thread with
  | none =>
    rcases clients_of_other h hthread with ⟨e, he⟩ | ⟨lastId, now, hroom, he⟩ | he
    · have hkeep : ∀ c : StreamClient, StreamClient.registered
          (if c.registered then { c with queue := c.queue ++ [e] } else c) = c.registered := by
        intro c
        split <;> rfl
      have hsame : (hub.fanOut e).clients.countP StreamClient.registered =
          hub.clients.countP StreamClient.registered := by
        rw [fanOut, List.countP_map]
        exact List.countP_congr fun c _ => by simp [hkeep]
      rw [he, hsame]
      exact hle
    · have hone : (hub.register lastId now).clients.countP StreamClient.registered =
          hub.clients.countP StreamClient.registered + 1 := by
        rw [register, List.countP_append]
        rfl
      rw [he, hone]
      rw [clientCount_eq] at hroom
      omega
    · rw [he]
      exact hle
  | some i =>
    obtain ⟨c, c', hc, hmove, he⟩ := clients_of_thread h hthread
    obtain ⟨hlt, hget⟩ := List.getElem?_eq_some_iff.mp hc
    have hpos : 0 < hub.clients.countP StreamClient.registered :=
      List.countP_pos_iff.mpr ⟨c, List.mem_of_getElem? hc, registered_of_threadStep hmove⟩
    rw [he, List.countP_set hlt, hget, registered_of_threadStep hmove, if_pos rfl]
    split <;> omega

end

/-- **There are never more clients than `max_clients`**, in any run of an attached hub. -/
theorem clientCount_le (T : PyText) {t : StreamHub} (h : (machine T).Reachable t) :
    t.clientCount ≤ t.maxClients := by
  refine h.invariant (I := fun hub => hub.clientCount ≤ hub.maxClients) ?_ ?_
  · rintro hub ⟨tickS, ringSize, replay, maxClients, rfl⟩
    exact Nat.zero_le _
  · intro s a t hle hstep
    exact clientCount_step hstep hle

/-- A hub with room for one has one. -/
theorem clientCount_le_full : ((attach 3 1000 200 1).register none 0).clientCount ≤ 1 :=
  clientCount_le wholeText ⟨attach 3 1000 200 1, _, ⟨3, 1000, 200, 1, rfl⟩,
    .snoc (a := .connect none none 0) .refl rfl⟩

/-! ## Cadence -/

namespace Frame

/-- It is a `pulse`. -/
def isPulse : Frame → Bool
  | pulse _ => true
  | _ => false

/-- It is a `ping`. -/
def isPing : Frame → Bool
  | ping => true
  | _ => false

end Frame

namespace StreamPhase

/-- The pulses that its thread is about to write. -/
def pulses : StreamPhase → ℕ
  | waiting _ _ | computing _ _ | arming _ _ _ => 1
  | writing batch => batch.countP Frame.isPulse
  | _ => 0

/-- The pings that its thread is about to write. -/
def pings : StreamPhase → ℕ
  | waiting _ pingDue | computing _ pingDue | arming _ pingDue _ => if pingDue then 1 else 0
  | writing batch => batch.countP Frame.isPing
  | _ => 0

/-- The batches that its thread is about to write. -/
def batches : StreamPhase → ℕ
  | waiting _ _ | computing _ _ | arming _ _ _ | writing _ => 1
  | _ => 0

end StreamPhase

theorem isPulse_batchOf (pending : List StreamEvent) (pulse : Option Fields) (pingDue : Bool) :
    (batchOf pending pulse pingDue).countP Frame.isPulse = if pulse.isSome then 1 else 0 := by
  have hpending : (pending.map Frame.event).countP Frame.isPulse = 0 := by
    rw [List.countP_map]
    exact List.countP_eq_zero.mpr fun e _ => Bool.false_ne_true
  rw [batchOf, List.countP_append, List.countP_append, hpending]
  cases pulse <;> cases pingDue <;> rfl

/-- A batch has one pulse at most. -/
theorem pulses_writing (pending : List StreamEvent) (pulse : Option Fields) (pingDue : Bool) :
    (StreamPhase.writing (batchOf pending pulse pingDue)).pulses ≤ 1 := by
  rw [StreamPhase.pulses, isPulse_batchOf]
  split <;> simp

theorem isPing_batchOf (pending : List StreamEvent) (pulse : Option Fields) (pingDue : Bool) :
    (batchOf pending pulse pingDue).countP Frame.isPing = if pingDue then 1 else 0 := by
  have hpending : (pending.map Frame.event).countP Frame.isPing = 0 := by
    rw [List.countP_map]
    exact List.countP_eq_zero.mpr fun e _ => Bool.false_ne_true
  rw [batchOf, List.countP_append, List.countP_append, hpending]
  cases pulse <;> cases pingDue <;> rfl

/-- What a client has cost so far: `k` pulses, each `tick_s` after the one before, and `l`
pings, each `_PING_S` after the one before, account for all it was written but its head. -/
structure Cadence (start latest tickS : ℚ) (writes : ℕ) (c : StreamClient) (k l : ℕ) : Prop where
  /-- the last pulse is not later than the clock -/
  pulseNow : c.lastPulse ≤ latest
  /-- nor is the last ping -/
  pingNow : c.lastPing ≤ latest
  /-- the pulses are `tick_s` apart -/
  pulseTime : (k : ℚ) * tickS ≤ c.lastPulse - start
  /-- the pings are `_PING_S` apart -/
  pingTime : (l : ℚ) * pingS ≤ c.lastPing - start
  /-- each pulse is one of them -/
  pulses : c.written.countP Frame.isPulse + c.phase.pulses ≤ k
  /-- each ping is one of them -/
  pings : c.written.countP Frame.isPing + c.phase.pings ≤ l
  /-- each batch is for one of them -/
  batches : writes + c.phase.batches ≤ k + l

/-- The step writes a batch. -/
def StreamAct.isWrite : StreamAct → Bool
  | write _ => true
  | _ => false

section

variable {hub : StreamHub} {c c' : StreamClient} {a : StreamAct} {start latest : ℚ}
  {writes k l : ℕ}

/-- A tick drains the queue for a pulse that is due, a ping that is due or both, or ends
the loop. -/
theorem tick_due {now : ℚ} {claim : Bool} (h : hub.tick now c = some (c', claim)) :
    c.phase = .serving ∧ c'.written = c.written ∧
      ((c'.phase = .leaving ∧ c'.lastPulse = c.lastPulse ∧ c'.lastPing = c.lastPing) ∨
        ∃ pulseDue pingDue : Bool, (pulseDue || pingDue) = true ∧
          (pulseDue = true → hub.tickS ≤ now - c.lastPulse) ∧
          (pingDue = true → pingS ≤ now - c.lastPing) ∧
          c'.lastPulse = (if pulseDue then now else c.lastPulse) ∧
          c'.lastPing = (if pingDue then now else c.lastPing) ∧
          c'.phase.pulses ≤ (if pulseDue then 1 else 0) ∧
          c'.phase.pings = (if pingDue then 1 else 0) ∧ c'.phase.batches = 1) := by
  unfold StreamHub.tick at h
  split at h
  · rename_i hphase
    refine ⟨hphase, ?_⟩
    split at h
    · obtain ⟨rfl, -⟩ := Prod.mk.inj (Option.some.inj h)
      exact ⟨rfl, Or.inl ⟨rfl, rfl, rfl⟩⟩
    · dsimp only at h
      split at h
      · rename_i hdue
        have hping : decide (pingS ≤ now - c.lastPing) = true → pingS ≤ now - c.lastPing :=
          of_decide_eq_true
        split at h
        · rename_i hpulseDue
          have hpulse : true = true → hub.tickS ≤ now - c.lastPulse :=
            fun _ => of_decide_eq_true hpulseDue
          split at h
          · rename_i hfresh
            obtain ⟨rfl, -⟩ := Prod.mk.inj (Option.some.inj h)
            have hsome := (Bool.and_eq_true_iff.mp hfresh).1
            refine ⟨rfl, Or.inr ⟨true, _, rfl, hpulse, hping, rfl, rfl, ?_, ?_, rfl⟩⟩
            · rw [if_pos rfl, StreamPhase.pulses, isPulse_batchOf, if_pos hsome]
            · exact isPing_batchOf _ _ _
          · split at h
            · obtain ⟨rfl, -⟩ := Prod.mk.inj (Option.some.inj h)
              exact ⟨rfl, Or.inr ⟨true, _, rfl, hpulse, hping, rfl, rfl, le_rfl, rfl, rfl⟩⟩
            · obtain ⟨rfl, -⟩ := Prod.mk.inj (Option.some.inj h)
              exact ⟨rfl, Or.inr ⟨true, _, rfl, hpulse, hping, rfl, rfl, le_rfl, rfl, rfl⟩⟩
        · rename_i hpulseDue
          obtain ⟨rfl, -⟩ := Prod.mk.inj (Option.some.inj h)
          rw [Bool.eq_false_iff.mpr hpulseDue] at hdue
          refine ⟨rfl, Or.inr ⟨false, _, hdue, nofun, hping, rfl, rfl, ?_, ?_, rfl⟩⟩
          · rw [StreamPhase.pulses, isPulse_batchOf]
            exact Nat.zero_le _
          · exact isPing_batchOf _ _ _
      · cases h
  · cases h

/-- A tick spends a pulse, a ping or both. -/
theorem Cadence.tick (h : Cadence start latest hub.tickS writes c k l) {now : ℚ} {claim : Bool}
    (htick : hub.tick now c = some (c', claim)) (hnow : now ≤ latest) :
    ∃ k' l', Cadence start latest hub.tickS writes c' k' l' := by
  obtain ⟨hpulseNow, hpingNow, hpulseTime, hpingTime, hpulses, hpings, hbatches⟩ := h
  obtain ⟨hphase, hwritten, ⟨hleaving, hlastPulse, hlastPing⟩ | ⟨pulseDue, pingDue, hdue, htickS,
    hping, hlastPulse, hlastPing, hout, hpingOut, hone⟩⟩ := tick_due htick
  · rw [hphase] at hpulses hpings hbatches
    refine ⟨k, l, hlastPulse ▸ hpulseNow, hlastPing ▸ hpingNow, hlastPulse ▸ hpulseTime,
      hlastPing ▸ hpingTime, ?_, ?_, ?_⟩
    · rwa [hwritten, hleaving]
    · rwa [hwritten, hleaving]
    · rwa [hleaving]
  · rw [hphase] at hpulses hpings hbatches
    have hnone : StreamPhase.serving.pulses = 0 ∧ StreamPhase.serving.pings = 0 ∧
        StreamPhase.serving.batches = 0 := ⟨rfl, rfl, rfl⟩
    refine ⟨k + (if pulseDue then 1 else 0), l + (if pingDue then 1 else 0),
      ?_, ?_, ?_, ?_, ?_, ?_, ?_⟩
    · rw [hlastPulse]
      split
      · exact hnow
      · exact hpulseNow
    · rw [hlastPing]
      split
      · exact hnow
      · exact hpingNow
    · rw [hlastPulse]
      cases pulseDue with
      | true =>
        have hlate := htickS rfl
        simp only [if_true]
        push_cast
        linarith
      | false => simpa using hpulseTime
    · rw [hlastPing]
      cases pingDue with
      | true =>
        have hlate := hping rfl
        simp only [if_true]
        push_cast
        linarith
      | false => simpa using hpingTime
    · rw [hwritten]
      omega
    · rw [hwritten]
      omega
    · rw [hone]
      cases pulseDue <;> cases pingDue <;> simp_all <;> omega

/-- Between its ticks a client spends nothing. -/
theorem Cadence.spent (h : Cadence start latest hub.tickS writes c k l) {writes' : ℕ}
    (hpulse : c'.lastPulse = c.lastPulse) (hping : c'.lastPing = c.lastPing)
    (hpulses : c'.written.countP Frame.isPulse + c'.phase.pulses ≤
      c.written.countP Frame.isPulse + c.phase.pulses)
    (hpings : c'.written.countP Frame.isPing + c'.phase.pings ≤
      c.written.countP Frame.isPing + c.phase.pings)
    (hbatches : writes' + c'.phase.batches ≤ writes + c.phase.batches) :
    Cadence start latest hub.tickS writes' c' k l where
  pulseNow := hpulse ▸ h.pulseNow
  pingNow := hping ▸ h.pingNow
  pulseTime := hpulse ▸ h.pulseTime
  pingTime := hping ▸ h.pingTime
  pulses := hpulses.trans h.pulses
  pings := hpings.trans h.pings
  batches := hbatches.trans h.batches

theorem head_uncounted (serverTime : ℚ) (replay : List (ℕ × Fields)) {p : Frame → Bool}
    (hhello : p (.hello serverTime hub.tickS hub.ringSize) = false)
    (hevent : ∀ e, p (.event e) = false) :
    (Frame.hello serverTime hub.tickS hub.ringSize :: replay.map Frame.ofRing).countP p = 0 := by
  refine List.countP_eq_zero.mpr fun f hf => ?_
  rcases List.mem_cons.mp hf with rfl | hf
  · simp [hhello]
  · obtain ⟨entry, -, rfl⟩ := List.mem_map.mp hf
    simp [Frame.ofRing, hevent]

/-- What a failing write sends is part of what was to be written. -/
theorem outgoing_counts {serverTime : ℚ} {frames : List Frame}
    (h : hub.outgoing serverTime c = some frames) :
    frames.countP Frame.isPulse ≤ c.phase.pulses ∧ frames.countP Frame.isPing ≤ c.phase.pings := by
  unfold outgoing at h
  split at h
  · rename_i replay hphase
    obtain rfl := Option.some.inj h
    rw [head_uncounted serverTime replay rfl fun _ => rfl,
      head_uncounted serverTime replay rfl fun _ => rfl]
    exact ⟨Nat.zero_le _, Nat.zero_le _⟩
  · rename_i batch hphase
    obtain rfl := Option.some.inj h
    rw [hphase]
    exact ⟨le_rfl, le_rfl⟩
  · obtain rfl := Option.some.inj h
    exact ⟨Nat.zero_le _, Nat.zero_le _⟩
  · cases h

/-- **What one step of its thread costs a client.** -/
theorem Cadence.threadStep (h : Cadence start latest hub.tickS writes c k l)
    (hmove : hub.threadStep c a = some c') (hnow : ∀ j now, a = .tick j now → now ≤ latest) :
    ∃ k' l', Cadence start latest hub.tickS (writes + if a.isWrite then 1 else 0) c' k' l' := by
  cases a with
  | tick j now =>
    obtain ⟨⟨d, claim⟩, htick, rfl⟩ := Option.map_eq_some_iff.mp hmove
    exact h.tick htick (hnow j now rfl)
  | head j serverTime =>
    change hub.writeHead serverTime c = some c' at hmove
    unfold writeHead at hmove
    split at hmove
    · rename_i replay hphase
      obtain rfl := Option.some.inj hmove
      refine ⟨k, l, h.spent rfl rfl ?_ ?_ (Nat.le_add_right _ _)⟩
      · rw [List.countP_append, head_uncounted serverTime replay rfl fun _ => rfl]
        exact Nat.le_add_right _ _
      · rw [List.countP_append, head_uncounted serverTime replay rfl fun _ => rfl]
        exact Nat.le_add_right _ _
    · cases hmove
  | wake j =>
    change hub.wake c = some c' at hmove
    unfold StreamHub.wake at hmove
    split at hmove
    · rename_i pending pingDue hphase
      split at hmove
      · obtain rfl := Option.some.inj hmove
        exact ⟨k, l, h.spent rfl rfl (Nat.le_add_right _ _) (Nat.le_add_right _ _)
          (Nat.le_add_right _ _)⟩
      · split at hmove
        · cases hmove
        · obtain rfl := Option.some.inj hmove
          refine ⟨k, l, h.spent rfl rfl (Nat.add_le_add_left ?_ _) (Nat.add_le_add_left ?_ _) ?_⟩
          · rw [hphase]
            exact pulses_writing _ _ _
          · rw [hphase]
            exact (isPing_batchOf _ _ _).le
          · rw [hphase]
            exact le_rfl
    · cases hmove
  | provide j result now =>
    rw [StreamHub.threadStep] at hmove
    split at hmove
    · rename_i pending pingDue hphase
      obtain rfl := Option.some.inj hmove
      have hsame : StreamPhase.computing pending pingDue = c.phase := hphase.symm
      exact ⟨k, l, h.spent rfl rfl (hsame ▸ le_rfl) (hsame ▸ le_rfl) (hsame ▸ le_rfl)⟩
    · cases hmove
  | arm j =>
    rw [StreamHub.threadStep] at hmove
    split at hmove
    · rename_i pending pingDue pulse hphase
      obtain rfl := Option.some.inj hmove
      refine ⟨k, l, h.spent rfl rfl (Nat.add_le_add_left ?_ _) (Nat.add_le_add_left ?_ _) ?_⟩
      · rw [hphase]
        exact pulses_writing _ _ _
      · rw [hphase]
        exact (isPing_batchOf _ _ _).le
      · rw [hphase]
        exact le_rfl
    · cases hmove
  | write j =>
    rw [StreamHub.threadStep] at hmove
    split at hmove
    · rename_i batch hphase
      obtain rfl := Option.some.inj hmove
      refine ⟨k, l, h.spent rfl rfl ?_ ?_ ?_⟩
      · rw [List.countP_append, hphase]
        exact le_rfl
      · rw [List.countP_append, hphase]
        exact le_rfl
      · rw [hphase]
        exact le_rfl
    · cases hmove
  | fail j n serverTime =>
    obtain ⟨frames, hframes, rfl⟩ := Option.map_eq_some_iff.mp hmove
    obtain ⟨hpulses, hpings⟩ := outgoing_counts hframes
    have htake : ∀ p : Frame → Bool, (frames.take n).countP p ≤ frames.countP p :=
      fun p => (List.take_sublist n frames).countP_le
    refine ⟨k, l, h.spent rfl rfl ?_ ?_ (Nat.le_add_right _ _)⟩
    · rw [List.countP_append]
      exact Nat.add_le_add_left ((htake _).trans hpulses) _
    · rw [List.countP_append]
      exact Nat.add_le_add_left ((htake _).trans hpings) _
  | leave j =>
    rw [StreamHub.threadStep] at hmove
    split at hmove
    · rename_i hphase
      obtain rfl := Option.some.inj hmove
      exact ⟨k, l, h.spent rfl rfl (Nat.add_le_add_left (Nat.zero_le _) _)
        (Nat.add_le_add_left (Nat.zero_le _) _) (Nat.add_le_add_left (Nat.zero_le _) _)⟩
    · cases hmove
  | _ => cases hmove

end

/-- The step writes a batch to connection `i`. -/
def StreamAct.writesTo (i : ℕ) (a : StreamAct) : Bool := a.isWrite && decide (a.thread = some i)

section

variable {T : PyText} {s t : StreamHub} {es : List (Machine.Event StreamHub StreamAct)}

/-- What a run costs a client, by the last reading of the clock in its ticks. -/
theorem cadence_run (hrun : (machine T).Run s es t) {i : ℕ} {c : StreamClient}
    (hc : s.clients[i]? = some c) {start latest : ℚ}
    (hlatest : ∀ e ∈ es, ∀ now, e.act = .tick i now → now ≤ latest)
    (h : Cadence start latest s.tickS 0 c 0 0) : t.tickS = s.tickS ∧
      ∃ c' k l, t.clients[i]? = some c' ∧
        Cadence start latest t.tickS (es.countP fun e => e.act.writesTo i) c' k l := by
  induction hrun with
  | refl => exact ⟨rfl, c, 0, 0, hc, h⟩
  | @snoc u v es a _ hstep ih =>
    obtain ⟨htickS, d, k, l, hd, hcadence⟩ := ih fun e he =>
      hlatest e (List.mem_append_left _ he)
    have hlast := hlatest _ (List.mem_append_right es (List.mem_singleton_self _))
    obtain ⟨d', hd', hmove⟩ := client_of_step hstep hd
    rw [(settings_of_step hstep).1, List.countP_append, List.countP_singleton]
    refine ⟨htickS, d', ?_⟩
    rcases hmove with ⟨hthread, hmove⟩ | ⟨hthread, queue, rfl⟩
    · obtain ⟨k', l', hcadence'⟩ := hcadence.threadStep hmove fun j now ha => by
        subst ha
        obtain rfl := Option.some.inj hthread
        exact hlast now rfl
      refine ⟨k', l', hd', ?_⟩
      simpa [StreamAct.writesTo, hthread] using hcadence'
    · refine ⟨k, l, hd', ?_⟩
      have hsame : Cadence start latest _ _ { d with queue := queue } k l :=
        hcadence.spent rfl rfl le_rfl le_rfl le_rfl
      simpa [StreamAct.writesTo, hthread] using hsame

end

/-- **However much is published, a client costs one write for each pulse or ping that is
due.** By the time `latest`, a client that connected at `start` has been written at most `k`
pulses and `l` pings, in at most `k + l` batches, where `k` ticks of `tick_s` and `l` periods
of `_PING_S` have passed since. -/
theorem cadence_kept (T : PyText) {s t : StreamHub}
    {before after : List (Machine.Event StreamHub StreamAct)}
    {e : Machine.Event StreamHub StreamAct}
    (hrun : (machine T).Run s (before ++ e :: after) t)
    {header param : Option PyStr} {start latest : ℚ} (hact : e.act = .connect header param start)
    (hroom : ¬e.pre.maxClients ≤ e.pre.clientCount) (hle : start ≤ latest)
    (hlatest : ∀ f ∈ after, ∀ now, f.act = .tick e.pre.clients.length now → now ≤ latest) :
    ∃ (c : StreamClient) (k l : ℕ), t.clients[e.pre.clients.length]? = some c ∧
      (k : ℚ) * t.tickS ≤ latest - start ∧ (l : ℚ) * pingS ≤ latest - start ∧
      c.written.countP Frame.isPulse ≤ k ∧ c.written.countP Frame.isPing ≤ l ∧
      (after.countP fun f => f.act.writesTo e.pre.clients.length) ≤ k + l := by
  obtain ⟨u, -, hrest⟩ := hrun.of_append
  obtain ⟨rfl, hstep, hafter⟩ := hrest.of_cons
  have hpost : e.post = e.pre.register (parseLastEventId T header param) start := by
    have hconnect : StreamHub.step T e.pre (.connect header param start) = some e.post :=
      hact ▸ hstep
    rw [StreamHub.step, handle, if_neg hroom] at hconnect
    exact (Option.some.inj hconnect).symm
  have hnew : e.post.clients[e.pre.clients.length]? =
      some { lastPulse := start, lastPing := start
             phase := .opening (missed (parseLastEventId T header param) e.pre.ring) } := by
    rw [hpost]
    exact List.getElem?_concat_length
  obtain ⟨-, c, k, l, hc, hcadence⟩ := cadence_run hafter hnew hlatest
    (show Cadence start latest _ 0 _ 0 0 from
      ⟨hle, hle, by simp, by simp, le_rfl, le_rfl, le_rfl⟩)
  refine ⟨c, k, l, hc, ?_, ?_, ?_, ?_, ?_⟩
  · exact hcadence.pulseTime.trans (sub_le_sub_right hcadence.pulseNow start)
  · exact hcadence.pingTime.trans (sub_le_sub_right hcadence.pingNow start)
  · exact (Nat.le_add_right _ _).trans hcadence.pulses
  · exact (Nat.le_add_right _ _).trans hcadence.pings
  · exact (Nat.le_add_right _ _).trans hcadence.batches

/-- A hub with one client, just connected. -/
def oneClient : StreamHub := (attach 3 1000 200 20).register none 0

/-- Two logs are published and the client is served once, with a pulse and a ping. -/
def oneTick : List StreamAct :=
  [.head 0 0, .publishLog [], .publishLog [], .tick 0 15, .provide 0 none 15, .arm 0, .write 0]

/-- It was one write. -/
theorem cadence_kept_oneTick : ∃ (c : StreamClient) (k l : ℕ),
    ((machine wholeText).final oneClient oneTick).clients[0]? = some c ∧
    (k : ℚ) * ((machine wholeText).final oneClient oneTick).tickS ≤ 15 - 0 ∧
    (l : ℚ) * pingS ≤ 15 - 0 ∧ c.written.countP Frame.isPulse ≤ k ∧
    c.written.countP Frame.isPing ≤ l ∧
    (((machine wholeText).events oneClient oneTick).countP fun f => f.act.writesTo 0) ≤ k + l := by
  have hcomputed : ((machine wholeText).exec oneClient oneTick).isSome = true := by decide +kernel
  have hacts := (Machine.Run.of_events (Machine.exec_final hcomputed)).2
  refine @cadence_kept wholeText (attach 3 1000 200 20) _ [] _
    ⟨attach 3 1000 200 20, .connect none none 0, oneClient⟩
    (Machine.Run.cons rfl (Machine.Run.of_final hcomputed)) none none 0 15 rfl (by decide)
    (by norm_num) ?_
  intro f hf now hnow
  have hmem : f.act ∈ oneTick := hacts ▸ List.mem_map_of_mem hf
  rw [hnow] at hmem
  simp [oneTick] at hmem
  exact hmem.2.le

end LayaWatch
