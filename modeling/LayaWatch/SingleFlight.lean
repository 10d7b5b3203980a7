import LayaWatch.StreamDelivery

/-!
# One pulse at a time

`StreamHub` with what `_cond` and the timers add to it: which connections sleep in
`_cond.wait` with no notification for them, and which timers were started, cancelled or
not, whose callback has not had the lock yet. A callback runs at most once, and may run
after it was cancelled.

The claim `_pulse_computing` is held by at most one thread (`Claim`, one step;
`FlightInv.claim`, a run), and who sleeps until it is released is notified when it is
(`FlightInv.asleep`).
-/

namespace LayaWatch

open StreamHub

namespace StreamPhase

/-- It holds the claim: it runs the pulse provider, or is about to. -/
def isComputing : StreamPhase → Bool
  | computing .. => true
  | _ => false

/-- It waits for the pulse of another thread. -/
def isWaiting : StreamPhase → Bool
  | waiting .. => true
  | _ => false

end StreamPhase

namespace StreamHub

/-- The threads that hold the claim, of clients and of timers. The threads inside the
provider are among them. -/
def holders (hub : StreamHub) : ℕ :=
  hub.clients.countP (fun c => c.phase.isComputing) + hub.refreshing

/-- Connection `i` waits for the pulse. -/
def Waits (hub : StreamHub) (i : ℕ) : Prop :=
  ∃ c, hub.clients[i]? = some c ∧ c.phase.isWaiting = true

end StreamHub

/-- The hub, with its condition variable and its timers. -/
structure PulseWorld where
  /-- the fields of the hub -/
  hub : StreamHub
  /-- the connections in `_cond.wait` that no notification has reached -/
  asleep : List ℕ := []
  /-- the timers that were started and whose callback has not had the lock -/
  started : List ℕ := []
  /-- the timers that were cancelled -/
  cancelled : List ℕ := []

/-- Who moves. -/
inductive PulseAct where
  /-- a step of the hub -/
  | hub (a : StreamAct)
  /-- a client finds nothing due, and waits for its cadence -/
  | doze (i : ℕ) (now : ℚ)
  /-- a client that was notified finds that the pulse is still computed, and waits on -/
  | recheck (i : ℕ)

/-- The step calls `notify_all`. -/
def StreamAct.notifies : StreamAct → Bool
  | provide .. | refresh .. | leave _ | stop => true
  | _ => false

/-- The step is neither a timer's callback nor `stop`. -/
def StreamAct.sparesTimer : StreamAct → Bool
  | prefetch _ | stop => false
  | _ => true

namespace PulseWorld

/-- The step cannot be taken: its thread sleeps, or its timer was not started or has
run. A wait for the cadence ends by itself. -/
def blocked (w : PulseWorld) : StreamAct → Bool
  | .wake i => decide (i ∈ w.asleep)
  | .prefetch timer => decide (timer ∉ w.started)
  | _ => false

/-- Who sleeps after a step. -/
def sleepers (w : PulseWorld) (a : StreamAct) (hub : StreamHub) : List ℕ :=
  if a.notifies then []
  else
    match a with
    | .tick i _ =>
      let others := w.asleep.filter fun j => decide (j ≠ i)
      if (hub.clients[i]?).any fun c => c.phase.isWaiting then i :: others else others
    | _ => w.asleep

/-- The timers after a step that may start one. -/
def startedBy (w : PulseWorld) (a : StreamAct) (hub : StreamHub) : List ℕ :=
  match a with
  | .prefetch timer => w.started.filter fun t => decide (t ≠ timer)
  | _ => if w.hub.timers < hub.timers then w.started ++ [w.hub.timers] else w.started

/-- `cancel`, of the registered timer. -/
def cancelledBy (w : PulseWorld) : StreamAct → List ℕ
  | .stop => w.hub.prefetchTimer.toList ++ w.cancelled
  | _ => w.cancelled

/-- One step. -/
def step (T : PyText) (w : PulseWorld) : PulseAct → Option PulseWorld
  | .hub a =>
    if w.blocked a then none
    else (w.hub.step T a).map fun hub =>
      ⟨hub, w.sleepers a hub, w.startedBy a hub, w.cancelledBy a⟩
  | .doze i now => do
    let c ← w.hub.clients[i]?
    match c.phase, w.hub.tick now c with
    | .serving, none => return { w with asleep := i :: w.asleep }
    | _, _ => none
  | .recheck i => do
    let c ← w.hub.clients[i]?
    match c.phase, w.hub.wake c with
    | .waiting .., none => if i ∈ w.asleep then none else return { w with asleep := i :: w.asleep }
    | _, _ => none

/-- The hub, from its attachment on. -/
def machine (T : PyText) : Machine PulseWorld PulseAct where
  init w := ∃ tickS ringSize replay maxClients,
    w = { hub := StreamHub.attach tickS ringSize replay maxClients }
  step := step T

/-- The timers that are pending: started, and neither cancelled nor run. -/
def pending (w : PulseWorld) : List ℕ := w.started.filter fun t => decide (t ∉ w.cancelled)

end PulseWorld

/-! ## What a step does to the claim -/

/-- A step leaves the claim alone, takes it or releases it. -/
inductive Claim (hub hub' : StreamHub) : Prop
  /-- nothing -/
  | same : hub'.holders = hub.holders → hub'.pulseComputing = hub.pulseComputing →
      Claim hub hub'
  /-- a thread takes the claim -/
  | taken : hub.pulseComputing = false → hub'.pulseComputing = true →
      hub'.holders = hub.holders + 1 → Claim hub hub'
  /-- a thread releases the claim -/
  | released : hub.holders = hub'.holders + 1 → hub'.pulseComputing = false → Claim hub hub'

/-- What a step does to the registered timer. -/
inductive TimerStep (a : StreamAct) (hub hub' : StreamHub) : Prop
  /-- nothing -/
  | same : hub'.prefetchTimer = hub.prefetchTimer → hub'.timers = hub.timers →
      (∀ timer, a = .prefetch timer → hub.prefetchTimer ≠ some timer) → a ≠ .stop →
      TimerStep a hub hub'
  /-- there was none, and a new one is started and registered -/
  | armed : hub.prefetchTimer = none → hub'.prefetchTimer = some hub.timers →
      hub'.timers = hub.timers + 1 → a.sparesTimer = true → TimerStep a hub hub'
  /-- it is its callback that runs -/
  | fired {timer : ℕ} : a = .prefetch timer → hub.prefetchTimer = some timer →
      hub'.prefetchTimer = none → hub'.timers = hub.timers → TimerStep a hub hub'
  /-- it is cancelled -/
  | stopped : a = .stop → hub'.prefetchTimer = none → hub'.timers = hub.timers →
      TimerStep a hub hub'

/-- What a step of the hub does to the pulse. -/
structure PulseStep (a : StreamAct) (hub hub' : StreamHub) : Prop where
  /-- to the claim -/
  claim : Claim hub hub'
  /-- without a notification it is not released, and the hub does not stop -/
  quiet : a.notifies = false →
    (hub.pulseComputing = true → hub'.pulseComputing = true) ∧ hub'.stopping = hub.stopping
  /-- only a tick makes a client wait, and only for a claim of another thread -/
  waits : ∀ i, hub'.Waits i → hub.Waits i ∨
    ∃ now, a = .tick i now ∧ hub.pulseComputing = true ∧ hub.stopping = false
  /-- to the timer -/
  timer : TimerStep a hub hub'

section

variable {T : PyText} {hub hub' : StreamHub} {c c' : StreamClient}

/-- The claim of one client. -/
theorem holders_setClient {i : ℕ} (hc : hub.clients[i]? = some c) (c' : StreamClient) :
    (hub.setClient i c').holders + c.phase.isComputing.toNat =
      hub.holders + c'.phase.isComputing.toNat := by
  obtain ⟨hi, rfl⟩ := List.getElem?_eq_some_iff.mp hc
  have hset := List.countP_set (p := fun c : StreamClient => c.phase.isComputing) (a := c') hi
  have hpos : hub.clients[i].phase.isComputing = true →
      0 < hub.clients.countP fun c => c.phase.isComputing := by
    intro h
    exact List.countP_pos_iff.mpr ⟨_, List.getElem_mem hi, h⟩
  unfold holders setClient
  dsimp only
  have htoNat : ∀ b : Bool, (if b = true then 1 else 0) = b.toNat := by decide
  rw [htoNat] at hset
  rw [hset, htoNat]
  rcases h : hub.clients[i].phase.isComputing with _ | _
  · simp only [Bool.toNat_false]
    omega
  · have hone := hpos h
    simp only [Bool.toNat_true]
    omega

theorem holders_same {i : ℕ} (hc : hub.clients[i]? = some c)
    (h : c.phase.isComputing = false) (h' : c'.phase.isComputing = false) :
    (hub.setClient i c').holders = hub.holders := by
  have hset := holders_setClient hc c'
  rwa [h, h'] at hset

theorem holders_fanOut (e : StreamEvent) : (hub.fanOut e).holders = hub.holders := by
  unfold holders fanOut
  dsimp only
  rw [List.countP_map]
  congr 1
  refine List.countP_congr fun c _ => ?_
  simp only [Function.comp_apply]
  split <;> rfl

/-- A tick claims the pulse, or it does not. -/
theorem tick_cases {now : ℚ} {claim : Bool} (h : hub.tick now c = some (c', claim)) :
    c.phase = .serving ∧ c'.phase.isComputing = claim ∧
      (claim = true → hub.pulseComputing = false) ∧
      (c'.phase.isWaiting = true → hub.pulseComputing = true ∧ hub.stopping = false) := by
  unfold StreamHub.tick at h
  split at h
  · next hphase =>
    refine ⟨hphase, ?_⟩
    split at h
    · obtain ⟨rfl, rfl⟩ := Prod.mk.inj (Option.some.inj h)
      exact ⟨rfl, nofun, nofun⟩
    · next hrunning =>
      dsimp only at h
      split at h
      · split at h
        · split at h
          · obtain ⟨rfl, rfl⟩ := Prod.mk.inj (Option.some.inj h)
            exact ⟨rfl, nofun, nofun⟩
          · split at h
            · next hclaimed =>
              obtain ⟨rfl, rfl⟩ := Prod.mk.inj (Option.some.inj h)
              exact ⟨rfl, nofun, fun _ => ⟨hclaimed, Bool.eq_false_iff.mpr hrunning⟩⟩
            · next hfree =>
              obtain ⟨rfl, rfl⟩ := Prod.mk.inj (Option.some.inj h)
              exact ⟨rfl, fun _ => Bool.eq_false_iff.mpr hfree, nofun⟩
        · obtain ⟨rfl, rfl⟩ := Prod.mk.inj (Option.some.inj h)
          exact ⟨rfl, nofun, nofun⟩
      · cases h
  · cases h

/-- A step of a client that does not touch the claim. -/
structure Steady (c c' : StreamClient) : Prop where
  /-- it has not held it -/
  before : c.phase.isComputing = false
  /-- it does not hold it -/
  after : c'.phase.isComputing = false
  /-- it does not wait for it -/
  awake : c'.phase.isWaiting = false

theorem steady_writeHead {serverTime : ℚ} (h : hub.writeHead serverTime c = some c') :
    Steady c c' := by
  unfold StreamHub.writeHead at h
  split at h
  · next hphase =>
    obtain rfl := Option.some.inj h
    exact ⟨by rw [hphase]; rfl, rfl, rfl⟩
  · cases h

theorem steady_wake (h : hub.wake c = some c') : Steady c c' := by
  unfold StreamHub.wake at h
  split at h
  · next hphase =>
    have hfree : c.phase.isComputing = false := by rw [hphase]; rfl
    split at h
    · obtain rfl := Option.some.inj h
      exact ⟨hfree, rfl, rfl⟩
    · split at h
      · cases h
      · obtain rfl := Option.some.inj h
        exact ⟨hfree, rfl, rfl⟩
  · cases h

theorem steady_fail {n : ℕ} {serverTime : ℚ} (h : hub.failWrite n serverTime c = some c') :
    Steady c c' := by
  obtain ⟨frames, hframes, rfl⟩ := Option.map_eq_some_iff.mp h
  refine ⟨?_, rfl, rfl⟩
  unfold outgoing at hframes
  split at hframes
  · next hphase => rw [hphase]; rfl
  · next hphase => rw [hphase]; rfl
  · next hphase => rw [hphase]; rfl
  · cases hframes

/-- Who waits after a step of one client, if that one does not. -/
theorem waits_setClient {i j : ℕ} (hawake : c'.phase.isWaiting = false)
    (h : (hub.setClient j c').Waits i) : hub.Waits i := by
  obtain ⟨d, hd, hwaits⟩ := h
  unfold setClient at hd
  dsimp only at hd
  rw [List.getElem?_set] at hd
  split at hd
  · split at hd
    · obtain rfl := Option.some.inj hd
      rw [hawake] at hwaits
      cases hwaits
    · cases hd
  · exact ⟨d, hd, hwaits⟩

theorem waits_fanOut {i : ℕ} {e : StreamEvent} (h : (hub.fanOut e).Waits i) : hub.Waits i := by
  obtain ⟨d, hd, hwaits⟩ := h
  unfold fanOut at hd
  rw [List.getElem?_map] at hd
  obtain ⟨d', hd', rfl⟩ := Option.map_eq_some_iff.mp hd
  refine ⟨d', hd', ?_⟩
  split at hwaits <;> exact hwaits

theorem waits_register {i : ℕ} {lastId : Option ℤ} {now : ℚ}
    (h : (hub.register lastId now).Waits i) : hub.Waits i := by
  obtain ⟨d, hd, hwaits⟩ := h
  unfold register at hd
  rcases List.mem_append.mp (List.mem_of_getElem? hd) with hold | hnew
  · by_cases hi : i < hub.clients.length
    · exact ⟨d, (List.getElem?_append_left hi).symm.trans hd, hwaits⟩
    · dsimp only at hd
      rw [List.getElem?_append_right (Nat.le_of_not_lt hi)] at hd
      obtain rfl := List.mem_singleton.mp (List.mem_of_getElem? hd)
      cases hwaits
  · obtain rfl := List.mem_singleton.mp hnew
    cases hwaits

theorem ne_stop_of_spares {a : StreamAct} (ha : a.sparesTimer = true) : a ≠ .stop := by
  rintro rfl
  cases ha

theorem ne_prefetch_of_spares {a : StreamAct} (ha : a.sparesTimer = true) (timer : ℕ) :
    a ≠ .prefetch timer := by
  rintro rfl
  cases ha

theorem TimerStep.of_spares {a : StreamAct} (htimer : hub'.prefetchTimer = hub.prefetchTimer)
    (htimers : hub'.timers = hub.timers) (ha : a.sparesTimer = true) : TimerStep a hub hub' :=
  .same htimer htimers (fun timer h => absurd h (ne_prefetch_of_spares ha timer))
    (ne_stop_of_spares ha)

/-- A step of the hub that leaves the claim and the timer alone. -/
theorem PulseStep.of_same {a : StreamAct} (hholders : hub'.holders = hub.holders)
    (hcomputing : hub'.pulseComputing = hub.pulseComputing)
    (hstopping : hub'.stopping = hub.stopping) (hwaits : ∀ i, hub'.Waits i → hub.Waits i)
    (htimer : hub'.prefetchTimer = hub.prefetchTimer) (htimers : hub'.timers = hub.timers)
    (ha : a.sparesTimer = true) : PulseStep a hub hub' where
  claim := .same hholders hcomputing
  quiet _ := ⟨fun h => hcomputing.trans h, hstopping⟩
  waits i h := Or.inl (hwaits i h)
  timer := .of_spares htimer htimers ha

/-- What a client's thread does by itself does not touch the claim. -/
theorem PulseStep.of_clientStep {a : StreamAct} {i : ℕ} {f : StreamClient → Option StreamClient}
    (hf : ∀ c c', f c = some c' → Steady c c') (ha : a.sparesTimer = true)
    (h : hub.clientStep i f = some hub') : PulseStep a hub hub' := by
  obtain ⟨d, d', hd, hd', rfl⟩ := clientStep_eq h
  have hsteady := hf d d' hd'
  exact .of_same (holders_same hd hsteady.before hsteady.after) rfl rfl
    (fun _ => waits_setClient hsteady.awake) rfl rfl ha

/-- `_arm_prefetch` starts a timer where none is registered, or does nothing. -/
theorem PulseStep.armPrefetch {a : StreamAct} (h : PulseStep a hub hub')
    (htimer : hub'.prefetchTimer = hub.prefetchTimer) (htimers : hub'.timers = hub.timers)
    (ha : a.sparesTimer = true) : PulseStep a hub hub'.armPrefetch := by
  unfold StreamHub.armPrefetch
  split
  · exact h
  · next hnone =>
    refine ⟨?_, h.quiet, h.waits, .armed ?_ (congrArg some htimers) ?_ ha⟩
    · cases h.claim with
      | same hholders hcomputing => exact .same hholders hcomputing
      | taken hfree hclaimed hholders => exact .taken hfree hclaimed hholders
      | released hholders hfree => exact .released hholders hfree
    · simp only [Bool.or_eq_true, not_or, Bool.not_eq_true, Option.isSome_eq_false_iff,
        Option.isNone_iff_eq_none] at hnone
      exact htimer.symm.trans hnone.2
    · exact congrArg (· + 1) htimers

theorem rearm_eq (n : ℕ) : { hub.armPrefetch with rearming := n } =
    ({ hub with rearming := n } : StreamHub).armPrefetch := by
  have hcount : ({ hub with rearming := n } : StreamHub).clientCount = hub.clientCount := rfl
  unfold StreamHub.armPrefetch
  rw [hcount]
  dsimp only
  split <;> rfl

theorem pulse_step {a : StreamAct} (h : StreamHub.step T hub a = some hub') :
    PulseStep a hub hub' := by
  cases a with
  | publishTrace summary =>
    obtain rfl := Option.some.inj h
    exact .of_same (holders_fanOut _) rfl rfl (fun _ => waits_fanOut) rfl rfl rfl
  | publishLog entry =>
    obtain rfl := Option.some.inj h
    exact .of_same (holders_fanOut _) rfl rfl (fun _ => waits_fanOut) rfl rfl rfl
  | publishModel payload =>
    obtain rfl := Option.some.inj h
    exact .of_same (holders_fanOut _) rfl rfl (fun _ => waits_fanOut) rfl rfl rfl
  | connect header param now =>
    rcases connect_spec h with ⟨-, rfl⟩ | ⟨-, rfl⟩
    · exact .of_same rfl rfl rfl (fun _ h => h) rfl rfl rfl
    · refine .of_same ?_ rfl rfl (fun _ => waits_register) rfl rfl rfl
      unfold holders register
      dsimp only
      rw [List.countP_append]
      rfl
  | head j serverTime => exact .of_clientStep (fun _ _ => steady_writeHead) rfl h
  | tick j now =>
    obtain ⟨d, hd, h⟩ := Option.bind_eq_some_iff.mp h
    obtain ⟨⟨d', claim⟩, hd', h⟩ := Option.bind_eq_some_iff.mp h
    obtain rfl := Option.some.inj h
    obtain ⟨hserving, hcomputing, hfree, hwaiting⟩ := tick_cases hd'
    have hbefore : d.phase.isComputing = false := by rw [hserving]; rfl
    refine ⟨?_, fun _ => ⟨fun h => by simp [h], rfl⟩, fun i hi => ?_,
      .of_spares rfl rfl rfl⟩
    · cases claim with
      | false => exact .same (holders_same hd hbefore hcomputing) (Bool.or_false _)
      | true =>
        refine .taken (hfree rfl) (Bool.or_true _) ?_
        have hset := holders_setClient hd d'
        rwa [hbefore, hcomputing] at hset
    · rcases hawake : d'.phase.isWaiting with _ | _
      · exact Or.inl (waits_setClient hawake hi)
      · obtain ⟨hclaimed, hrunning⟩ := hwaiting hawake
        by_cases hij : i = j
        · exact Or.inr ⟨now, by rw [hij], hclaimed, hrunning⟩
        · obtain ⟨e, he, hwaits⟩ := hi
          refine Or.inl ⟨e, ?_, hwaits⟩
          rwa [setClient, List.getElem?_set_ne (Ne.symm hij)] at he
  | wake j => exact .of_clientStep (fun _ _ => steady_wake) rfl h
  | provide j result now =>
    obtain ⟨d, hd, h⟩ := Option.bind_eq_some_iff.mp h
    split at h
    · next pending pingDue hphase =>
      obtain rfl := Option.some.inj h
      have hset := holders_setClient hd
        { d with phase := .arming pending pingDue (pulseOf result) }
      rw [hphase] at hset
      exact ⟨.released hset.symm rfl, (fun h => by cases h),
        fun i hi => Or.inl (waits_setClient rfl hi), .of_spares rfl rfl rfl⟩
    · cases h
  | arm j =>
    obtain ⟨d, hd, h⟩ := Option.bind_eq_some_iff.mp h
    split at h
    · next pending pingDue pulse hphase =>
      obtain rfl := Option.some.inj h
      refine PulseStep.armPrefetch ?_ rfl rfl rfl
      refine .of_same (holders_same hd ?_ rfl) rfl rfl (fun _ => waits_setClient rfl) rfl rfl rfl
      rw [hphase]
      rfl
    · cases h
  | write j =>
    refine .of_clientStep (fun c c' hc => ?_) rfl h
    split at hc
    · next hphase =>
      obtain rfl := Option.some.inj hc
      exact ⟨by rw [hphase]; rfl, rfl, rfl⟩
    · cases hc
  | fail j n serverTime => exact .of_clientStep (fun _ _ => steady_fail) rfl h
  | leave j =>
    refine .of_clientStep (fun c c' hc => ?_) rfl h
    split at hc
    · next hphase =>
      obtain rfl := Option.some.inj hc
      exact ⟨by rw [hphase]; rfl, rfl, rfl⟩
    · cases hc
  | prefetch timer =>
    obtain rfl := Option.some.inj h
    unfold StreamHub.prefetch
    split
    · next hregistered =>
      split
      · exact ⟨.same rfl rfl, fun _ => ⟨fun h => h, rfl⟩, fun _ h => Or.inl h,
          .fired rfl hregistered rfl rfl⟩
      · next hfree =>
        simp only [Bool.or_eq_true, not_or, Bool.not_eq_true] at hfree
        exact ⟨.taken hfree.2 rfl rfl, fun _ => ⟨fun _ => rfl, rfl⟩, fun _ h => Or.inl h,
          .fired rfl hregistered rfl rfl⟩
    · next hother =>
      refine ⟨.same rfl rfl, fun _ => ⟨fun h => h, rfl⟩, fun _ h => Or.inl h,
        .same rfl rfl ?_ (by rintro ⟨⟩)⟩
      intro t ht
      obtain rfl := StreamAct.prefetch.inj ht
      exact hother
  | refresh result now =>
    rw [StreamHub.step] at h
    split at h
    · next hrunning =>
      obtain rfl := Option.some.inj h
      refine ⟨.released ?_ rfl, (fun h => by cases h), fun _ h => Or.inl h, .of_spares rfl rfl rfl⟩
      unfold holders storePulse
      dsimp only
      omega
    · cases h
  | rearm =>
    rw [StreamHub.step] at h
    split at h
    · obtain rfl := Option.some.inj h
      have hless : PulseStep .rearm hub { hub with rearming := hub.rearming - 1 } :=
        .of_same rfl rfl rfl (fun _ h => h) rfl rfl rfl
      rw [rearm_eq]
      exact hless.armPrefetch rfl rfl rfl
    · cases h
  | stop =>
    obtain rfl := Option.some.inj h
    exact ⟨.same rfl rfl, (fun h => by cases h), fun _ h => Or.inl h, .stopped rfl rfl rfl⟩

end

/-! ## The invariant -/

/-- What holds of the claim, of the sleepers and of the timers. -/
structure FlightInv (w : PulseWorld) : Prop where
  /-- one thread holds the claim, or nobody does -/
  claim : w.hub.holders = w.hub.pulseComputing.toNat
  /-- nobody sleeps once the hub stops, nor for a pulse that nobody computes -/
  asleep : ∀ i ∈ w.asleep, w.hub.stopping = false ∧
    (w.hub.Waits i → w.hub.pulseComputing = true)
  /-- the pending timer is the registered one -/
  pending : ∀ timer ∈ w.pending, w.hub.prefetchTimer = some timer

section

variable {T : PyText} {w t : PulseWorld} {hub' : StreamHub} {a : StreamAct}

theorem Claim.keeps {hub : StreamHub} (h : Claim hub hub')
    (hclaim : hub.holders = hub.pulseComputing.toNat) :
    hub'.holders = hub'.pulseComputing.toNat := by
  cases h with
  | same hholders hcomputing => rw [hholders, hcomputing, hclaim]
  | taken hfree hclaimed hholders =>
    rw [hfree] at hclaim
    rw [hclaimed, hholders, hclaim]
    rfl
  | released hholders hfree =>
    have hle : hub.pulseComputing.toNat ≤ 1 := Bool.toNat_le _
    rw [hfree, Bool.toNat_false]
    omega

/-- A client that ticks does not wait. -/
theorem not_waits_of_tick {hub : StreamHub} {i : ℕ} {now : ℚ}
    (h : StreamHub.step T hub (.tick i now) = some hub') : ¬hub.Waits i := by
  obtain ⟨d, hd, h⟩ := Option.bind_eq_some_iff.mp h
  obtain ⟨⟨d', claim⟩, hd', -⟩ := Option.bind_eq_some_iff.mp h
  rintro ⟨c, hc, hwaits⟩
  obtain rfl := Option.some.inj (hd.symm.trans hc)
  rw [(tick_cases hd').1] at hwaits
  cases hwaits

/-- Who sleeps after a step without a notification slept before, or has just found the
pulse claimed. -/
theorem mem_sleepers {i : ℕ} (ha : a.notifies = false) (hi : i ∈ w.sleepers a hub') :
    i ∈ w.asleep ∨ hub'.Waits i ∧ ∃ now, a = .tick i now := by
  unfold PulseWorld.sleepers at hi
  rw [ha, if_neg Bool.false_ne_true] at hi
  split at hi
  · next j now =>
    dsimp only at hi
    split at hi
    · next hany =>
      rcases List.mem_cons.mp hi with rfl | hi
      · obtain ⟨c, hc, hwaits⟩ := (Option.any_eq_true _ _).mp hany
        exact Or.inr ⟨⟨c, hc, hwaits⟩, now, rfl⟩
      · exact Or.inl (List.mem_of_mem_filter hi)
    · exact Or.inl (List.mem_of_mem_filter hi)
  · exact Or.inl hi

theorem FlightInv.asleep_step (hw : FlightInv w) (hstep : w.hub.step T a = some hub') :
    ∀ i ∈ w.sleepers a hub', hub'.stopping = false ∧
      (hub'.Waits i → hub'.pulseComputing = true) := by
  intro i hi
  have hpulse := pulse_step hstep
  rcases ha : a.notifies with _ | _
  · obtain ⟨hcomputing, hstopping⟩ := hpulse.quiet ha
    rw [hstopping]
    rcases mem_sleepers ha hi with hold | ⟨hwaits, now, rfl⟩
    · obtain ⟨hrunning, hclaimed⟩ := hw.asleep i hold
      refine ⟨hrunning, fun hwaits => hcomputing ?_⟩
      rcases hpulse.waits i hwaits with hbefore | ⟨_, -, hclaimed', -⟩
      · exact hclaimed hbefore
      · exact hclaimed'
    · -- it has gone to sleep under the lock that found the claim taken
      rcases hpulse.waits i hwaits with hbefore | ⟨_, -, hclaimed, hrunning⟩
      · exact absurd hbefore (not_waits_of_tick hstep)
      · exact ⟨hrunning, fun _ => hcomputing hclaimed⟩
  · unfold PulseWorld.sleepers at hi
    rw [ha, if_pos rfl] at hi
    cases hi

theorem mem_startedBy {timer : ℕ} (h : timer ∈ w.startedBy a hub') :
    (timer ∈ w.started ∧ a ≠ .prefetch timer) ∨
      (w.hub.timers < hub'.timers ∧ timer = w.hub.timers) := by
  unfold PulseWorld.startedBy at h
  split at h
  · next fired =>
    obtain ⟨hmem, hne⟩ := List.mem_filter.mp h
    refine Or.inl ⟨hmem, fun heq => of_decide_eq_true hne ?_⟩
    exact (StreamAct.prefetch.inj heq).symm
  · next hother =>
    split at h
    · next hlt =>
      rcases List.mem_append.mp h with hmem | hnew
      · exact Or.inl ⟨hmem, fun heq => hother _ heq⟩
      · exact Or.inr ⟨hlt, List.mem_singleton.mp hnew⟩
    · exact Or.inl ⟨h, fun heq => hother _ heq⟩

theorem cancelledBy_eq (h : a ≠ .stop) : w.cancelledBy a = w.cancelled := by
  unfold PulseWorld.cancelledBy
  split
  · exact absurd rfl h
  · rfl

theorem FlightInv.pending_step (hw : FlightInv w) (hstep : w.hub.step T a = some hub') :
    ∀ timer ∈ w.startedBy a hub', timer ∉ w.cancelledBy a →
      hub'.prefetchTimer = some timer := by
  intro timer hstarted hcancelled
  have hpending : timer ∈ w.started → timer ∉ w.cancelled →
      w.hub.prefetchTimer = some timer := by
    intro hs hc
    exact hw.pending timer (List.mem_filter.mpr ⟨hs, decide_eq_true hc⟩)
  cases (pulse_step hstep).timer with
  | same htimer htimers hother hstop =>
    rw [cancelledBy_eq hstop] at hcancelled
    rcases mem_startedBy hstarted with ⟨hold, -⟩ | ⟨hlt, -⟩
    · exact htimer.trans (hpending hold hcancelled)
    · exact absurd htimers (Nat.ne_of_gt hlt)
  | armed hnone hregistered htimers hspares =>
    rw [cancelledBy_eq (ne_stop_of_spares hspares)] at hcancelled
    rcases mem_startedBy hstarted with ⟨hold, -⟩ | ⟨-, rfl⟩
    · -- no timer was registered, so none was pending
      rw [hnone] at hpending
      cases hpending hold hcancelled
    · exact hregistered
  | @fired fired ha hregistered hnone htimers =>
    rw [cancelledBy_eq (by rw [ha]; rintro ⟨⟩)] at hcancelled
    rcases mem_startedBy hstarted with ⟨hold, hne⟩ | ⟨hlt, -⟩
    · obtain rfl := Option.some.inj (hregistered.symm.trans (hpending hold hcancelled))
      exact absurd ha hne
    · exact absurd htimers (Nat.ne_of_gt hlt)
  | stopped ha hnone htimers =>
    subst ha
    obtain ⟨hregistered, hcancelled⟩ := not_or.mp (mt List.mem_append.mpr hcancelled)
    rcases mem_startedBy hstarted with ⟨hold, -⟩ | ⟨hlt, -⟩
    · exact absurd (Option.mem_toList.mpr (hpending hold hcancelled)) hregistered
    · exact absurd htimers (Nat.ne_of_gt hlt)

/-- Every step keeps the invariant. -/
theorem FlightInv.step (hw : FlightInv w) {act : PulseAct} (h : w.step T act = some t) :
    FlightInv t := by
  cases act with
  | hub a =>
    rw [PulseWorld.step] at h
    split at h
    · cases h
    · obtain ⟨hub', hstep, rfl⟩ := Option.map_eq_some_iff.mp h
      refine ⟨(pulse_step hstep).claim.keeps hw.claim, hw.asleep_step hstep, ?_⟩
      intro timer htimer
      obtain ⟨hstarted, hcancelled⟩ := List.mem_filter.mp htimer
      exact hw.pending_step hstep timer hstarted (of_decide_eq_true hcancelled)
  | doze i now =>
    obtain ⟨c, hc, h⟩ := Option.bind_eq_some_iff.mp h
    split at h
    · next hphase htick =>
      obtain rfl := Option.some.inj h
      refine ⟨hw.claim, fun j hj => ?_, hw.pending⟩
      rcases List.mem_cons.mp hj with rfl | hj
      · constructor
        · -- a hub that stops would have ended the loop
          unfold StreamHub.tick at htick
          rw [hphase] at htick
          dsimp only at htick
          split at htick
          · cases htick
          · next hrunning => exact Bool.eq_false_iff.mpr hrunning
        · rintro ⟨d, hd, hwaits⟩
          obtain rfl := Option.some.inj (hc.symm.trans hd)
          rw [hphase] at hwaits
          cases hwaits
      · exact hw.asleep j hj
    · cases h
  | recheck i =>
    obtain ⟨c, hc, h⟩ := Option.bind_eq_some_iff.mp h
    split at h
    · next hphase hwake =>
      split at h
      · cases h
      · obtain rfl := Option.some.inj h
        refine ⟨hw.claim, fun j hj => ?_, hw.pending⟩
        rcases List.mem_cons.mp hj with rfl | hj
        · unfold StreamHub.wake at hwake
          rw [hphase] at hwake
          dsimp only at hwake
          split at hwake
          · cases hwake
          · next hrunning =>
            split at hwake
            · next hclaimed => exact ⟨Bool.eq_false_iff.mpr hrunning, fun _ => hclaimed⟩
            · cases hwake
        · exact hw.asleep j hj
    · cases h

theorem FlightInv.init (h : (PulseWorld.machine T).init w) : FlightInv w := by
  obtain ⟨tickS, ringSize, replay, maxClients, rfl⟩ := h
  exact ⟨rfl, nofun, nofun⟩

/-- Without the condition variable and the timers, a run is one of the hub. -/
theorem hub_run {es : List (Machine.Event PulseWorld PulseAct)}
    (h : (PulseWorld.machine T).Run w es t) :
    ∃ fs, (StreamHub.machine T).Run w.hub fs t.hub := by
  induction h with
  | refl => exact ⟨[], .refl⟩
  | @snoc u v es act _ hstep ih =>
    obtain ⟨fs, hrun⟩ := ih
    have hstep : u.step T act = some v := hstep
    cases act with
    | hub a =>
      rw [PulseWorld.step] at hstep
      split at hstep
      · cases hstep
      · obtain ⟨hub', hhub, rfl⟩ := Option.map_eq_some_iff.mp hstep
        exact ⟨_, hrun.snoc hhub⟩
    | doze i now =>
      obtain ⟨c, -, hstep⟩ := Option.bind_eq_some_iff.mp hstep
      split at hstep
      · obtain rfl := Option.some.inj hstep
        exact ⟨fs, hrun⟩
      · cases hstep
    | recheck i =>
      obtain ⟨c, -, hstep⟩ := Option.bind_eq_some_iff.mp hstep
      split at hstep
      · split at hstep
        · cases hstep
        · obtain rfl := Option.some.inj hstep
          exact ⟨fs, hrun⟩
      · cases hstep

end

/-! ## One pulse at a time -/

/-- A state in which the pulse is in order. -/
structure SingleFlight (w : PulseWorld) : Prop where
  /-- at most one thread is inside the provider -/
  one : w.hub.holders ≤ 1
  /-- the flag is set exactly when one thread holds the claim -/
  claimed : w.hub.pulseComputing = true ↔ w.hub.holders = 1
  /-- the registered timer is the only one that is pending -/
  timer : ∀ timer ∈ w.pending, w.hub.prefetchTimer = some timer
  /-- who waits for the pulse without a notification, waits while it is computed and the
  hub runs -/
  waiting : ∀ i ∈ w.asleep, w.hub.Waits i →
    w.hub.pulseComputing = true ∧ w.hub.stopping = false

/-- The callback of a timer that is not registered does nothing. -/
def Superseded (e : Machine.Event PulseWorld PulseAct) : Prop :=
  ∀ timer, e.act = .hub (.prefetch timer) → e.pre.hub.prefetchTimer ≠ some timer →
    e.post.hub = e.pre.hub

section

variable {T : PyText} {w t : PulseWorld}

theorem FlightInv.singleFlight (h : FlightInv w) : SingleFlight w where
  one := by
    rw [h.claim]
    exact Bool.toNat_le _
  claimed := by
    rw [h.claim]
    cases w.hub.pulseComputing <;> simp
  timer := h.pending
  waiting i hi hwaits := ⟨(h.asleep i hi).2 hwaits, (h.asleep i hi).1⟩

theorem superseded_step {act : PulseAct} (h : w.step T act = some t) :
    Superseded ⟨w, act, t⟩ := by
  rintro timer rfl hother
  rw [PulseWorld.step] at h
  split at h
  · cases h
  · obtain ⟨hub', hstep, rfl⟩ := Option.map_eq_some_iff.mp h
    obtain rfl := Option.some.inj hstep
    exact if_neg hother

/-- **The pulse is computed by one thread at a time, and nobody misses the end of it**, in
every run. -/
theorem single_flight {es : List (Machine.Event PulseWorld PulseAct)}
    (hinit : (PulseWorld.machine T).init w) (hrun : (PulseWorld.machine T).Run w es t) :
    SingleFlight t ∧ ∀ e ∈ es, SingleFlight e.pre ∧ SingleFlight e.post ∧ Superseded e := by
  obtain ⟨hend, hall⟩ := hrun.invariant (I := FlightInv) (G := fun _ _ => True)
    (fun _ _ _ hw _ hstep => hw.step hstep) (.init hinit) fun _ _ => trivial
  refine ⟨hend.singleFlight, fun e he => ?_⟩
  exact ⟨(hall e he).1.singleFlight, (hall e he).2.singleFlight,
    superseded_step (hrun.step_of_mem e he)⟩

end

/-- Two clients tick at once: one computes the pulse, the other one waits for it. Then the
timer fires that the first one has started. -/
def tickTogether : List PulseAct :=
  [.hub (.connect none none 0), .hub (.connect none none 0), .hub (.head 0 0), .doze 0 1,
    .hub (.head 1 0), .hub (.tick 0 3), .hub (.tick 1 3), .hub (.provide 0 none 4),
    .hub (.arm 0), .hub (.wake 1), .hub (.write 0), .hub (.prefetch 0)]

/-- The timer's thread is the one inside the provider. -/
theorem single_flight_tickTogether : ∃ es t,
    (PulseWorld.machine wholeText).Run { hub := StreamHub.attach 3 1000 200 20 } es t ∧
      t.hub.holders = 1 ∧ SingleFlight t := by
  have hrun := Machine.Run.of_final (M := PulseWorld.machine wholeText)
    (s := { hub := StreamHub.attach 3 1000 200 20 }) (l := tickTogether) (by decide +kernel)
  exact ⟨_, _, hrun, by decide +kernel, (single_flight ⟨3, 1000, 200, 20, rfl⟩ hrun).1⟩

end LayaWatch
