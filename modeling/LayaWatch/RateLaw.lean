import LayaWatch.RateLimit

/-!
# The law of the limits

What the buckets of `auth/ratelimit.py` promise of one subject: a subject whose
limits stay the same is let through at the rate of its limit, and its refused calls
cost it nothing (`bucket_rate_law`). Where the limits are edited, the bucket may hold
more than the new burst; where it never does, the same holds from the edit on
(`policy_edits`).
-/

namespace LayaWatch

open BucketRegistry

/-! ## A subject with the same limits throughout -/

/-- When the calls that get a token are made. -/
def allowedAt (calls : List BucketCall) : List ℚ :=
  (calls.filter BucketCall.allowed).map BucketCall.clock

/-- The event is a refused call of the subject. -/
def RefusedCall (key : BucketKey) (e : BucketEvent) : Prop := ∃ c ∈ callOf key e, c.allowed = false

/-- In every part of a run, no more calls of the subject are let through than the burst, and
what the rate adds between the first and the last of them. -/
def WithinRate (key : BucketKey) (limit burst : ℤ) (window : ℚ) (es : List BucketEvent) : Prop :=
  ∀ before mid after : List BucketEvent, es = before ++ mid ++ after →
    ∀ first ∈ (allowedAt (callsOf key mid)).head?,
    ∀ last ∈ (allowedAt (callsOf key mid)).getLast?,
      ((allowedAt (callsOf key mid)).length : ℚ) ≤ burst + limit / window * (last - first)

/-- Whichever refused calls of the subject a run leaves out, its other calls get the same
answers. -/
def RefusalsAreFree (key : BucketKey) (es : List BucketEvent) : Prop :=
  ∀ keep : BucketEvent → Bool, (∀ e ∈ es, keep e = false → RefusedCall key e) →
    ∀ (es' : List BucketEvent) (r' : BucketRegistry), machine.Run {} es' r' →
      es'.map Machine.Event.act = (es.filter keep).map Machine.Event.act →
      callsOf key es' = callsOf key (es.filter keep)

/-- After the wait that a refusal names, the next call of the subject is let through. -/
def RetryIsHonest (key : BucketKey) (es : List BucketEvent) : Prop :=
  ∀ (before mid after : List BucketEvent) (e e' : BucketEvent),
    es = before ++ e :: (mid ++ e' :: after) → callsOf key mid = [] →
    ∀ c ∈ callOf key e, ∀ c' ∈ callOf key e', c.allowed = false →
      c.clock + c.retry ≤ c'.clock → c'.allowed = true

section

variable {key : BucketKey} {limit burst : ℤ} {window : ℚ} {es : List BucketEvent}
  {r t : BucketRegistry}

/-- The answer shows what the call has found. -/
theorem callOf_eq {e : BucketEvent} (hlimit : 1 ≤ limit)
    (hsteady : SteadyLimits key limit burst window e.act) :
    callOf key e = (foundOf key e).map (BucketCall.ofFound (limit / window)) := by
  obtain ⟨r, a, t⟩ := e
  cases a with
  | consume other p clock =>
    by_cases hkey : other = key
    · obtain ⟨hpl, -, hpw⟩ := hsteady hkey
      unfold callOf foundOf
      dsimp only
      rw [if_pos hkey, if_pos hkey, answer_eq (by omega), Option.map_some]
      refine congrArg some ?_
      unfold BucketCall.ofFound LimitBucket.answer TokenBucket.granted LimitBucket.shown
        LimitBucket.rate
      by_cases htoken : 1 ≤ (r.swept.ready key p clock).tokens
      · rw [if_pos htoken, if_pos (decide_eq_true htoken), decide_eq_true htoken]
        rfl
      · rw [if_neg htoken, if_neg (by rwa [decide_eq_true_eq]), decide_eq_false htoken, ← hpl,
          ← hpw]
        rfl
    · unfold callOf foundOf
      dsimp only
      rw [if_neg hkey, if_neg hkey]
      rfl
  | reset subject scope all => rfl

theorem stamp_foundOf (e : BucketEvent) :
    (foundOf key e).map TokenBucket.stamp = clockOf key e.act := by
  obtain ⟨r, a, t⟩ := e
  cases a with
  | consume other p clock =>
    unfold foundOf clockOf
    dsimp only
    split <;> rfl
  | reset subject scope all => rfl

theorem clocks_eq (es : List BucketEvent) : (es.filterMap fun e => clockOf key e.act) =
    (es.filterMap (foundOf key)).map TokenBucket.stamp := by
  rw [List.map_filterMap]
  exact List.filterMap_congr fun e _ => (stamp_foundOf e).symm

theorem callsOf_eq (hlimit : 1 ≤ limit)
    (hsteady : ∀ e ∈ es, SteadyLimits key limit burst window e.act) :
    callsOf key es = (es.filterMap (foundOf key)).map (BucketCall.ofFound (limit / window)) := by
  unfold callsOf
  rw [List.map_filterMap]
  exact List.filterMap_congr fun e he => callOf_eq hlimit (hsteady e he)

/-- What the law says of the calls is what it says of the buckets that they find. -/
theorem allowedAt_found (rate : ℚ) (found : List (TokenBucket ℚ)) :
    allowedAt (found.map (BucketCall.ofFound rate)) =
      (found.filter TokenBucket.granted).map TokenBucket.stamp := by
  unfold allowedAt
  rw [List.filter_map, List.map_map]
  rfl

theorem withinRate (hlimit : 1 ≤ limit) (hburst : 1 ≤ burst) (hrun : machine.Run r es t)
    (hkeeps : Keeps key limit burst window r)
    (hsteady : ∀ e ∈ es, SteadyLimits key limit burst window e.act)
    (hsweep : burst = 1 → ∀ e ∈ es, Sweeps e = false) : WithinRate key limit burst window es := by
  rintro before mid after rfl first hfirst last hlast
  obtain ⟨u, hfront, -⟩ := Machine.Run.of_append hrun
  obtain ⟨v, hbefore, hmid⟩ := Machine.Run.of_append hfront
  have hv := (found_eq_asked hlimit hburst hbefore hkeeps
    (fun e he => hsteady e (List.mem_append_left _ (List.mem_append_left _ he)))
    fun hone e he => hsweep hone e (List.mem_append_left _ (List.mem_append_left _ he))).1
  have hmem : ∀ e ∈ mid, e ∈ before ++ mid ++ after := fun e he =>
    List.mem_append_left _ (List.mem_append_right _ he)
  have hfound := (found_eq_asked hlimit hburst hmid hv (fun e he => hsteady e (hmem e he))
    fun hone e he => hsweep hone e (hmem e he)).2
  have hcalls := callsOf_eq hlimit fun e he => hsteady e (hmem e he)
  rw [hcalls, allowedAt_found, hfound] at hfirst hlast ⊢
  obtain ⟨b, hb, rfl⟩ := Option.map_eq_some_iff.mp (List.head?_map.symm.trans hfirst)
  obtain ⟨c, hc, rfl⟩ := Option.map_eq_some_iff.mp (List.getLast?_map.symm.trans hlast)
  rw [List.length_map]
  exact TokenBucket.length_le (fun _ h => h) _ hb hc

theorem retryIsHonest (hlimit : 1 ≤ limit) (hburst : 1 ≤ burst) (hwindow : 0 < window)
    (hrun : machine.Run r es t) (hkeeps : Keeps key limit burst window r)
    (hsteady : ∀ e ∈ es, SteadyLimits key limit burst window e.act)
    (hsweep : burst = 1 → ∀ e ∈ es, Sweeps e = false) : RetryIsHonest key es := by
  rintro before mid after e e' rfl hmid c hc c' hc' hrefused hwait
  obtain ⟨v, hbefore, hrest⟩ := Machine.Run.of_append hrun
  have hmem : ∀ d ∈ e :: (mid ++ e' :: after), d ∈ before ++ e :: (mid ++ e' :: after) :=
    fun d hd => List.mem_append_right _ hd
  have hv := (found_eq_asked hlimit hburst hbefore hkeeps
    (fun d hd => hsteady d (List.mem_append_left _ hd))
    fun hone d hd => hsweep hone d (List.mem_append_left _ hd)).1
  have hfound := (found_eq_asked hlimit hburst hrest hv (fun d hd => hsteady d (hmem d hd))
    fun hone d hd => hsweep hone d (hmem d hd)).2
  have he : e ∈ e :: (mid ++ e' :: after) := List.mem_cons_self
  have he' : e' ∈ e :: (mid ++ e' :: after) :=
    List.mem_cons_of_mem _ (List.mem_append_right _ List.mem_cons_self)
  rw [callOf_eq hlimit (hsteady e (hmem e he))] at hc
  rw [callOf_eq hlimit (hsteady e' (hmem e' he'))] at hc'
  obtain ⟨b, hb, rfl⟩ := Option.map_eq_some_iff.mp hc
  obtain ⟨b', hb', rfl⟩ := Option.map_eq_some_iff.mp hc'
  have hnone : mid.filterMap (foundOf key) = [] := by
    rw [callsOf_eq hlimit fun d hd => hsteady d (hmem d
      (List.mem_cons_of_mem _ (List.mem_append_left _ hd)))] at hmid
    exact List.map_eq_nil_iff.mp hmid
  rw [clocks_eq, List.filterMap_cons_some hb, List.filterMap_append, hnone, List.nil_append,
    List.filterMap_cons_some hb', List.map_cons, List.map_cons, TokenBucket.asked,
    TokenBucket.asked] at hfound
  -- the second call finds what the first has left
  obtain ⟨hfirst, hmore⟩ := List.cons_eq_cons.mp hfound
  obtain ⟨hsecond, -⟩ := List.cons_eq_cons.mp hmore
  rw [← hfirst] at hsecond
  have hrate : (0 : ℚ) < limit / window := div_pos (by exact_mod_cast hlimit) hwindow
  have hlow : b.granted = false := hrefused
  change b'.granted = true
  rw [hsecond]
  refine TokenBucket.granted_after (by exact_mod_cast hburst) hrate hlow (le_trans ?_ hwait)
  refine add_le_add_right ?_ b.stamp
  unfold BucketCall.ofFound
  dsimp only
  rw [hlow]
  refine (Int.le_ceil _).trans ?_
  exact_mod_cast le_max_right 1 _

/-! ## Refused calls left out -/

/-- A refused call finds a bucket. -/
theorem RefusedCall.mem_keys {e : BucketEvent} (h : RefusedCall key e) :
    ∃ p clock, e.act = .consume key p clock ∧ 0 < p.limit ∧ key ∈ e.pre.swept.buckets.keys := by
  obtain ⟨r, a, t⟩ := e
  obtain ⟨c, hc, hrefused⟩ := h
  cases a with
  | reset subject scope all => cases hc
  | consume other p clock =>
    unfold callOf at hc
    dsimp only at hc
    split at hc
    · next hkey =>
      subst hkey
      obtain rfl := Option.some.inj hc
      have hlimit : 0 < p.limit := by
        by_contra hno
        unfold consume at hrefused
        rw [if_pos (not_lt.mp hno)] at hrefused
        cases hrefused
      refine ⟨p, clock, rfl, hlimit, ?_⟩
      by_contra hnew
      -- a new bucket has a token
      have hfull : (1 : ℚ) ≤ (r.swept.ready other p clock).tokens := by
        unfold ready
        rw [Dict.get_eq_none.mpr hnew]
        exact Int.cast_le.mpr (le_max_left 1 _)
      rw [answer_eq (by omega)] at hrefused
      unfold LimitBucket.answer at hrefused
      rw [if_pos hfull] at hrefused
      cases hrefused
    · cases hc

/-- The subjects that the map holds after a step depend on those before it alone, where the
step does not sweep. -/
theorem BucketRegistry.keys_step {u : BucketRegistry} (a : BucketAct)
    (hkeys : r.buckets.keys = u.buckets.keys)
    (hsweep : Sweeps ⟨r, a, r.step a⟩ = false) :
    (r.step a).buckets.keys = (u.step a).buckets.keys ∧ Sweeps ⟨u, a, u.step a⟩ = false := by
  cases a with
  | consume key p clock =>
    by_cases hlimit : p.limit ≤ 0
    · have hidle : Sweeps ⟨u, .consume key p clock, u.step (.consume key p clock)⟩ = false := by
        rw [sweeps_consume, decide_eq_false (not_lt.mpr hlimit), Bool.false_and]
      refine ⟨?_, hidle⟩
      change (r.consume key p clock).2.buckets.keys = (u.consume key p clock).2.buckets.keys
      rw [consume_unlimited hlimit, consume_unlimited hlimit, hkeys]
    · have hsmall : ¬ sweepAt < r.buckets.entries.length := by
        rw [sweeps_consume, decide_eq_true (not_le.mp hlimit), Bool.true_and] at hsweep
        exact of_decide_eq_false hsweep
      have hsmall' : ¬ sweepAt < u.buckets.entries.length := by
        rwa [← Dict.length_keys, hkeys, Dict.length_keys] at hsmall
      refine ⟨?_, ?_⟩
      · change (r.consume key p clock).2.buckets.keys = (u.consume key p clock).2.buckets.keys
        unfold consume swept
        rw [if_neg hlimit, if_neg hlimit, if_neg hsmall, if_neg hsmall']
        dsimp only
        rw [Dict.keys_set, Dict.keys_set, hkeys]
      · rw [sweeps_consume, decide_eq_false hsmall', Bool.and_false]
  | reset subject scope all =>
    refine ⟨?_, rfl⟩
    change (r.reset subject scope all).2.buckets.keys = (u.reset subject scope all).2.buckets.keys
    unfold reset
    cases all with
    | true => rfl
    | false =>
      rw [if_neg Bool.false_ne_true, if_neg Bool.false_ne_true]
      exact (Dict.keys_filter _ fun k => !matchesReset subject scope k).trans
        (hkeys ▸ (Dict.keys_filter _ fun k => !matchesReset subject scope k).symm)

/-- A refused call changes no key of the map. -/
theorem RefusedCall.keys_step {e : BucketEvent} (h : RefusedCall key e)
    (hsweep : Sweeps e = false) : (e.pre.step e.act).buckets.keys = e.pre.buckets.keys := by
  obtain ⟨r, a, t⟩ := e
  obtain ⟨p, clock, rfl, hlimit, hmem⟩ := h.mem_keys
  have hsmall : ¬ sweepAt < r.buckets.entries.length := by
    rw [sweeps_consume, decide_eq_true hlimit, Bool.true_and] at hsweep
    exact of_decide_eq_false hsweep
  have hswept : r.swept = r := if_neg hsmall
  dsimp only at hmem ⊢
  change (r.consume key p clock).2.buckets.keys = _
  unfold consume
  rw [if_neg (not_le.mpr hlimit)]
  dsimp only
  rw [hswept] at hmem ⊢
  rw [Dict.keys_set, if_pos hmem]

/-- A run that does not sweep does not when refused calls are left out of it. -/
theorem sweeps_of_kept {keep : BucketEvent → Bool} (es : List BucketEvent) :
    ∀ {r u t t' : BucketRegistry} {es' : List BucketEvent}, machine.Run r es t →
      machine.Run u es' t' → r.buckets.keys = u.buckets.keys →
      es'.map Machine.Event.act = (es.filter keep).map Machine.Event.act →
      (∀ e ∈ es, keep e = false → RefusedCall key e) → (∀ e ∈ es, Sweeps e = false) →
      ∀ e ∈ es', Sweeps e = false := by
  induction es with
  | nil =>
    intro r u t t' es' _ _ _ hacts _ _ e he
    rw [List.map_eq_nil_iff.mp hacts] at he
    cases he
  | cons d es ih =>
    intro r u t t' es' hrun hrun' hkeys hacts hkeep hsweep e he
    obtain ⟨rfl, hstep, hrest⟩ := Machine.Run.of_cons hrun
    have hpost : d.pre.step d.act = d.post := Option.some.inj hstep
    have hd := hsweep d List.mem_cons_self
    have hkeep' := fun e he => hkeep e (List.mem_cons_of_mem _ he)
    have hsweep' := fun e he => hsweep e (List.mem_cons_of_mem _ he)
    by_cases hk : keep d = true
    · rw [List.filter_cons_of_pos hk, List.map_cons] at hacts
      rcases es' with _ | ⟨d', es'⟩
      · cases he
      · obtain ⟨rfl, hstep', hrest'⟩ := Machine.Run.of_cons hrun'
        obtain ⟨hact, hacts'⟩ := List.cons_eq_cons.mp (List.map_cons ▸ hacts)
        have hpost' : d'.pre.step d'.act = d'.post := Option.some.inj hstep'
        have hboth := BucketRegistry.keys_step d.act hkeys (by rw [hpost]; exact hd)
        rw [hpost, ← hact, hpost'] at hboth
        rcases List.mem_cons.mp he with rfl | he
        · exact hboth.2
        · exact ih hrest hrest' hboth.1 hacts' hkeep' hsweep' e he
    · rw [List.filter_cons_of_neg hk] at hacts
      have hsame := (hkeep d List.mem_cons_self (Bool.eq_false_iff.mpr hk)).keys_step hd
      rw [hpost] at hsame
      exact ih hrest hrun' (hsame.trans hkeys) hacts hkeep' hsweep' e he

/-- The calls that find a token are all kept. -/
theorem granted_kept (hlimit : 1 ≤ limit) {keep : BucketEvent → Bool} (es : List BucketEvent)
    (hsteady : ∀ e ∈ es, SteadyLimits key limit burst window e.act)
    (hkeep : ∀ e ∈ es, keep e = false → RefusedCall key e) :
    (es.filterMap (foundOf key)).filter TokenBucket.granted =
      ((es.filter keep).filterMap (foundOf key)).filter TokenBucket.granted := by
  induction es with
  | nil => rfl
  | cons e es ih =>
    have hrest := ih (fun e he => hsteady e (List.mem_cons_of_mem _ he))
      fun e he => hkeep e (List.mem_cons_of_mem _ he)
    by_cases hk : keep e = true
    · rw [List.filter_cons_of_pos hk, List.filterMap_cons, List.filterMap_cons]
      rcases foundOf key e with _ | b
      · exact hrest
      · dsimp only
        rw [List.filter_cons, List.filter_cons, hrest]
    · obtain ⟨c, hc, hrefused⟩ := hkeep e List.mem_cons_self (Bool.eq_false_iff.mpr hk)
      rw [callOf_eq hlimit (hsteady e List.mem_cons_self)] at hc
      obtain ⟨b, hb, rfl⟩ := Option.map_eq_some_iff.mp hc
      have hlow : ¬ b.granted = true := Bool.eq_false_iff.mp hrefused
      rw [List.filter_cons_of_neg hk, List.filterMap_cons_some hb, List.filter_cons_of_neg hlow]
      exact hrest

theorem refusalsAreFree (hlimit : 1 ≤ limit) (hburst : 1 ≤ burst) (hrun : machine.Run {} es t)
    (hsteady : ∀ e ∈ es, SteadyLimits key limit burst window e.act)
    (hsweep : burst = 1 → ∀ e ∈ es, Sweeps e = false) : RefusalsAreFree key es := by
  intro keep hkeep es' t' hrun' hacts
  have hsteady' : ∀ e ∈ es', SteadyLimits key limit burst window e.act := by
    intro e he
    obtain ⟨d, hd, hact⟩ := List.mem_map.mp (hacts ▸ List.mem_map_of_mem he)
    exact hact ▸ hsteady d (List.mem_of_mem_filter hd)
  have hfound := (found_eq_asked hlimit hburst hrun .initial hsteady hsweep).2
  have hfound' := (found_eq_asked hlimit hburst hrun' .initial hsteady' fun hone =>
    sweeps_of_kept es hrun hrun' rfl hacts hkeep (hsweep hone)).2
  have hclocks : (es'.filterMap fun e => clockOf key e.act) =
      (es.filter keep).filterMap fun e => clockOf key e.act := by
    have h := congrArg (List.filterMap (clockOf key)) hacts
    rwa [List.filterMap_map, List.filterMap_map] at h
  rw [clocks_eq] at hfound
  rw [hclocks, clocks_eq] at hfound'
  have hsub : ((es.filter keep).filterMap (foundOf key)).Sublist (es.filterMap (foundOf key)) :=
    List.filter_sublist.filterMap _
  have hall : ((es.filterMap (foundOf key)).filter TokenBucket.granted).Sublist
      ((es.filter keep).filterMap (foundOf key)) :=
    granted_kept hlimit es hsteady hkeep ▸ List.filter_sublist
  rw [hfound] at hsub hall
  have hcapacity : (1 : ℚ) ≤ burst := by exact_mod_cast hburst
  rw [callsOf_eq hlimit hsteady', hfound', TokenBucket.asked_of_sublist hcapacity hsub hall,
    callsOf_eq hlimit fun e he => hsteady e (List.mem_of_mem_filter he)]

end

/-- **The rate law**: a subject whose limits stay the same, and that is not reset, is let through
at the rate of its limit after a burst; its refused calls cost it nothing; and the wait that a
refusal names is enough. With a burst of one the run must not sweep. -/
theorem bucket_rate_law {key : BucketKey} {limit burst : ℤ} {window : ℚ} (hlimit : 1 ≤ limit)
    (hburst : 1 ≤ burst) (hwindow : 0 < window) {es : List BucketEvent} {r t : BucketRegistry}
    (hinit : machine.init r) (hrun : machine.Run r es t)
    (hsteady : ∀ e ∈ es, SteadyLimits key limit burst window e.act)
    (hsweep : burst = 1 → ∀ e ∈ es, Sweeps e = false) :
    WithinRate key limit burst window es ∧ RefusalsAreFree key es ∧ RetryIsHonest key es := by
  obtain rfl : r = {} := hinit
  exact ⟨withinRate hlimit hburst hrun .initial hsteady hsweep,
    refusalsAreFree hlimit hburst hrun hsteady hsweep,
    retryIsHonest hlimit hburst hwindow hrun .initial hsteady hsweep⟩

/-- Three requests a minute, for one client. -/
def threeAMinute : BucketPolicy where
  limit := 3
  positive := by decide

/-- Four requests at once, with the clocks of two of them swapped, and one that has waited. -/
def fourAtOnce : List BucketAct :=
  [0, 2, 1, 2, 22].map fun clock => .consume (py "10.0.0.1", py "ip") threeAMinute clock

theorem bucket_rate_law_four : ∃ es t, machine.Run {} es t ∧
    es.map Machine.Event.act = fourAtOnce ∧
    (callsOf (py "10.0.0.1", py "ip") es).map (fun c => (c.allowed, c.retry)) =
      [(true, 0), (true, 0), (true, 0), (false, 18), (true, 0)] ∧
    WithinRate (py "10.0.0.1", py "ip") 3 3 60 es ∧ RefusalsAreFree (py "10.0.0.1", py "ip") es ∧
    RetryIsHonest (py "10.0.0.1", py "ip") es := by
  obtain ⟨hrun, hacts⟩ := Machine.Run.of_events (Machine.exec_final
    (M := machine) (s := {}) (l := fourAtOnce) (by decide +kernel))
  refine ⟨_, _, hrun, hacts, by decide +kernel,
    bucket_rate_law (by decide) (by decide) (by norm_num) rfl hrun (fun e he => ?_) (by decide)⟩
  obtain ⟨clock, -, hact⟩ := List.mem_map.mp (hacts ▸ List.mem_map_of_mem he)
  rw [← hact]
  exact fun _ => ⟨rfl, rfl, rfl⟩

/-! ## Edits of the limits -/

/-- Only this subject is called. -/
def OnlyCalls (key : BucketKey) (es : List BucketEvent) : Prop :=
  ∀ e ∈ es, ∃ p clock, e.act = .consume key p clock

/-- The clocks of the subject's calls are in order. -/
def InClockOrder (key : BucketKey) (es : List BucketEvent) : Prop :=
  (es.filterMap fun e => clockOf key e.act).Pairwise (· ≤ ·)

/-- After every call that has a limit, the bucket holds a number of tokens that its burst
allows. -/
def TokensInRange (key : BucketKey) (es : List BucketEvent) : Prop :=
  ∀ e ∈ es, ∀ p clock, e.act = .consume key p clock → 0 < p.limit →
    ∃ b, e.post.buckets.get key = some b ∧ 0 ≤ b.tokens ∧ b.tokens ≤ p.capacity

/-- While the limits stay the same, no more calls are let through within some seconds than the
burst, and what the rate adds in these. -/
def SpanLaw (key : BucketKey) (es : List BucketEvent) : Prop :=
  ∀ (before mid after : List BucketEvent) (limit burst : ℤ) (window : ℚ), 1 ≤ limit →
    1 ≤ burst → 0 < window → es = before ++ mid ++ after →
    (∀ e ∈ mid, SteadyLimits key limit burst window e.act) → ∀ start seconds : ℚ, 0 ≤ seconds →
      (((allowedAt (callsOf key mid)).countP fun clock =>
        decide (start ≤ clock ∧ clock ≤ start + seconds) : ℕ) : ℚ) ≤
          burst + limit / window * seconds

/-- The call finds no more tokens in the bucket, refilled under the limits of the call before,
than its own burst. -/
def FitsBurst (key : BucketKey) (e : BucketEvent) : Prop :=
  match e.act with
  | .consume other p clock => other = key → 0 < p.limit →
      ∀ b ∈ e.pre.buckets.get key, b.refilled clock ≤ p.capacity
  | .reset _ _ _ => True

instance (key : BucketKey) (e : BucketEvent) : Decidable (FitsBurst key e) :=
  match e with
  | ⟨r, .consume other p clock, _⟩ => inferInstanceAs (Decidable (other = key → 0 < p.limit →
      ∀ b ∈ r.buckets.get key, b.refilled clock ≤ p.capacity))
  | ⟨_, .reset _ _ _, _⟩ => .isTrue trivial

section

variable {key : BucketKey} {es : List BucketEvent} {r t : BucketRegistry} {p : BucketPolicy}
  {clock : ℚ}

/-- There is no bucket but one. -/
def OneSubject (key : BucketKey) (r : BucketRegistry) : Prop := ∀ k ∈ r.buckets.keys, k = key

theorem OneSubject.length_le (h : OneSubject key r) : r.buckets.entries.length ≤ 1 := by
  rw [← Dict.length_keys]
  have hnodup := r.buckets.keys_nodup
  rcases hkeys : r.buckets.keys with _ | ⟨k, _ | ⟨k', rest⟩⟩
  · exact Nat.zero_le 1
  · exact le_refl 1
  · rw [hkeys] at hnodup
    have hk : k = key := h k (hkeys ▸ List.mem_cons_self)
    have hk' : k' = key := h k' (hkeys ▸ List.mem_cons_of_mem _ List.mem_cons_self)
    exact absurd (hk' ▸ List.mem_cons_self) (hk ▸ (List.nodup_cons.mp hnodup).1)

theorem OneSubject.small (h : OneSubject key r) : ¬ sweepAt < r.buckets.entries.length :=
  not_lt.mpr (h.length_le.trans (by decide))

/-- One bucket is not swept. -/
theorem OneSubject.swept (h : OneSubject key r) : r.swept = r := if_neg h.small

theorem OneSubject.step (h : OneSubject key r) :
    OneSubject key (r.step (.consume key p clock)) := by
  change OneSubject key (r.consume key p clock).2
  unfold consume
  by_cases hlimit : p.limit ≤ 0
  · rw [if_pos hlimit]
    exact h
  · rw [if_neg hlimit, h.swept]
    intro k hk
    rcases Dict.mem_keys_set.mp hk with rfl | hk
    · rfl
    · exact h k hk

theorem oneSubject_of_run (hrun : machine.Run r es t) (h : OneSubject key r)
    (honly : OnlyCalls key es) : OneSubject key t ∧ ∀ e ∈ es, OneSubject key e.pre := by
  have hinv := hrun.invariant (I := OneSubject key)
    (G := fun _ a => ∃ p clock, a = BucketAct.consume key p clock) ?_ h honly
  · exact ⟨hinv.1, fun e he => (hinv.2 e he).1⟩
  · rintro s _ u hs ⟨p, clock, rfl⟩ hstep
    obtain rfl := Option.some.inj hstep
    exact hs.step

theorem OneSubject.not_sweeps {e : BucketEvent} (h : OneSubject key e.pre) : Sweeps e = false := by
  obtain ⟨r, a, t⟩ := e
  cases a with
  | consume other p clock => rw [sweeps_consume, decide_eq_false h.small, Bool.and_false]
  | reset subject scope all => rfl

/-- What a call finds that fits. -/
theorem FitsBurst.tokens_ready_le (h : FitsBurst key ⟨r, .consume key p clock, t⟩)
    (hlimit : 0 < p.limit) :
    (r.ready key p clock).tokens ≤ p.capacity := by
  unfold ready
  rcases hget : r.buckets.get key with _ | b
  · exact le_rfl
  · exact h rfl hlimit b hget

/-- A call in a run of one subject. -/
theorem FitsBurst.step {e : BucketEvent} {limit burst : ℤ} {window : ℚ} (hlimit : 1 ≤ limit)
    (hone : OneSubject key e.pre) (hstep : machine.step e.pre e.act = some e.post)
    (hact : ∃ p clock, e.act = .consume key p clock) (hfits : FitsBurst key e)
    (hsteady : SteadyLimits key limit burst window e.act) :
    ∃ b, foundOf key e = some b ∧ b.tokens ≤ burst ∧ e.post.view key = some b.take ∧
      Keeps key limit burst window e.post := by
  obtain ⟨r, a, t⟩ := e
  obtain ⟨p, clock, rfl⟩ := hact
  obtain rfl : r.step (.consume key p clock) = t := Option.some.inj hstep
  obtain ⟨hpl, hpb, hpw⟩ := hsteady rfl
  have htokens : (r.swept.ready key p clock).tokens ≤ burst := by
    rw [hone.swept]
    exact (hfits.tokens_ready_le (by omega)).trans (by exact_mod_cast hpb.le)
  exact ⟨_, if_pos rfl, htokens, view_consume (by omega),
    keeps_of_call hlimit hpl hpb hpw htokens⟩

theorem spanLaw (hrun : machine.Run {} es t) (honly : OnlyCalls key es)
    (hfits : ∀ e ∈ es, FitsBurst key e) : SpanLaw key es := by
  rintro before mid after limit burst window hlimit hburst hwindow rfl hsteady start seconds
    hseconds
  have hrate : (0 : ℚ) < limit / window := div_pos (by exact_mod_cast hlimit) hwindow
  have hburst' : (1 : ℚ) ≤ burst := by exact_mod_cast hburst
  have hroom : (0 : ℚ) ≤ burst + limit / window * seconds := by positivity
  have hpres := (oneSubject_of_run hrun (fun k hk => by cases hk) honly).2
  obtain ⟨u, hfront, -⟩ := Machine.Run.of_append hrun
  obtain ⟨v, -, hmid⟩ := Machine.Run.of_append hfront
  rcases mid with _ | ⟨d, mid⟩
  · rwa [show allowedAt (callsOf key []) = [] from rfl, List.countP_nil, Nat.cast_zero]
  have hmem : ∀ e ∈ d :: mid, e ∈ before ++ d :: mid ++ after := fun e he =>
    List.mem_append_left _ (List.mem_append_right _ he)
  obtain ⟨rfl, hstep, hrest⟩ := Machine.Run.of_cons hmid
  have hd : d ∈ d :: mid := List.mem_cons_self
  -- the first call under the limits, and from there on the bucket that it has found
  obtain ⟨b, hb, hlow, hview, hkeeps⟩ := (hfits d (hmem d hd)).step hlimit (hpres d (hmem d hd))
    hstep (honly d (hmem d hd)) (hsteady d hd)
  have hfound := (found_eq_asked hlimit hburst hrest hkeeps
    (fun e he => hsteady e (List.mem_cons_of_mem _ he))
    fun _ e he => (hpres e (hmem e (List.mem_cons_of_mem _ he))).not_sweeps).2
  have hasked : (d :: mid).filterMap (foundOf key) = TokenBucket.asked (limit / window) burst
      (some b) (b.stamp :: mid.filterMap fun e => clockOf key e.act) := by
    rw [List.filterMap_cons_some hb, hfound, hview, TokenBucket.asked,
      TokenBucket.ready_self hlow]
  rw [callsOf_eq hlimit hsteady, allowedAt_found, List.countP_map, List.countP_eq_length_filter,
    List.filter_filter, hasked]
  refine TokenBucket.length_le_span start seconds (fun c hc => ?_) hroom hrate.le _ _
  rw [Bool.and_eq_true, Function.comp_apply, decide_eq_true_eq] at hc
  exact ⟨hc.2, hc.1⟩

/-- What the bucket holds, and since when. -/
structure Filled (r : BucketRegistry) (key : BucketKey) (times : List ℚ) : Prop where
  /-- it holds something -/
  tokens : ∀ b ∈ r.buckets.get key, 0 ≤ b.tokens
  /-- it is refilled -/
  rate : ∀ b ∈ r.buckets.get key, 0 ≤ b.rate ∧ 0 ≤ b.burst
  /-- it was used before the calls that come -/
  updated : ∀ b ∈ r.buckets.get key, ∀ clock ∈ times, b.updated ≤ clock

/-- A call that comes later finds at least what was left. -/
theorem Filled.ready {times : List ℚ} (h : Filled r key (clock :: times)) :
    0 ≤ (r.ready key p clock).tokens := by
  unfold BucketRegistry.ready
  rcases hget : r.buckets.get key with _ | b
  · have hone : (0 : ℤ) ≤ p.capacity := zero_le_one.trans (le_max_left 1 _)
    change (0 : ℚ) ≤ (p.capacity : ℚ)
    exact_mod_cast hone
  · obtain ⟨hrate, hburst⟩ := h.rate b hget
    have hlater := h.updated b hget clock List.mem_cons_self
    refine le_min (by exact_mod_cast hburst) (add_nonneg (h.tokens b hget) ?_)
    exact mul_nonneg (sub_nonneg.mpr hlater) hrate

theorem LimitBucket.tokens_take_nonneg {b : LimitBucket} (h : 0 ≤ b.tokens) :
    0 ≤ b.take.tokens := by
  unfold LimitBucket.take
  split
  · next htoken => exact sub_nonneg.mpr htoken
  · exact h

theorem LimitBucket.tokens_take_le_self (b : LimitBucket) : b.take.tokens ≤ b.tokens := by
  unfold LimitBucket.take
  split
  · exact sub_le_self _ zero_le_one
  · exact le_rfl

/-- A call leaves the bucket filled. -/
theorem Filled.step {times : List ℚ} (h : Filled r key (clock :: times))
    (hone : OneSubject key r) (hlater : ∀ later ∈ times, clock ≤ later) :
    Filled (r.step (.consume key p clock)) key times := by
  change Filled (r.consume key p clock).2 key times
  by_cases hlimit : p.limit ≤ 0
  · rw [consume_unlimited hlimit]
    exact ⟨h.tokens, h.rate, fun b hb later hl => h.updated b hb later (List.mem_cons_of_mem _ hl)⟩
  · have hget : (r.consume key p clock).2.buckets.get key =
        some (r.swept.ready key p clock).take := get_consume (by omega)
    rw [hone.swept] at hget
    obtain ⟨hl, hb, hw⟩ := LimitBucket.take_limits (b := r.ready key p clock)
    refine ⟨fun b hb => ?_, fun b hb => ?_, fun b hb later hlt => ?_⟩ <;>
      obtain rfl := Option.some.inj (hget.symm.trans hb)
    · exact LimitBucket.tokens_take_nonneg h.ready
    · refine ⟨?_, ?_⟩
      · unfold LimitBucket.rate
        rw [hl, hw]
        have hpos : (0 : ℤ) ≤ p.limit := (not_le.mp hlimit).le
        exact div_nonneg (by exact_mod_cast hpos) p.positive.le
      · rw [‹(r.ready key p clock).take.burst = _›]
        exact zero_le_one.trans (le_max_left 1 _)
    · have hstamp : (r.ready key p clock).take.updated = clock := by
        unfold LimitBucket.take
        split <;> rfl
      rw [hstamp]
      exact hlater later hlt

theorem tokensInRange (es : List BucketEvent) : ∀ {r : BucketRegistry}, machine.Run r es t →
    OnlyCalls key es → InClockOrder key es → (∀ e ∈ es, FitsBurst key e) → OneSubject key r →
    Filled r key (es.filterMap fun e => clockOf key e.act) → TokensInRange key es := by
  induction es with
  | nil => exact fun _ _ _ _ _ _ _ he => by cases he
  | cons d es ih =>
    intro r hrun honly horder hfits hone hfilled
    obtain ⟨rfl, hstep, hrest⟩ := Machine.Run.of_cons hrun
    obtain ⟨p, clock, hact⟩ := honly d List.mem_cons_self
    have hpost : d.pre.step (.consume key p clock) = d.post := hact ▸ Option.some.inj hstep
    have hclock : clockOf key d.act = some clock := by
      rw [hact]
      exact if_pos rfl
    have hclocks : ((d :: es).filterMap fun e => clockOf key e.act) =
        clock :: es.filterMap fun e => clockOf key e.act := List.filterMap_cons_some hclock
    unfold InClockOrder at horder
    rw [hclocks] at horder hfilled
    obtain ⟨hlater, horder⟩ := List.pairwise_cons.mp horder
    have hnext := ih (r := d.post) hrest (fun e he => honly e (List.mem_cons_of_mem _ he)) horder
      (fun e he => hfits e (List.mem_cons_of_mem _ he)) (hpost ▸ hone.step)
      (hpost ▸ hfilled.step hone hlater)
    intro e he p' clock' hact' hlimit
    rcases List.mem_cons.mp he with rfl | he
    · obtain ⟨-, rfl, rfl⟩ := BucketAct.consume.inj (hact.symm.trans hact')
      have hget : (e.pre.step (.consume key p clock)).buckets.get key =
          some (e.pre.swept.ready key p clock).take := get_consume (by omega)
      rw [hone.swept, hpost] at hget
      refine ⟨_, hget, LimitBucket.tokens_take_nonneg hfilled.ready, ?_⟩
      refine (LimitBucket.tokens_take_le_self _).trans ?_
      have hfit := hfits e List.mem_cons_self
      unfold FitsBurst at hfit
      rw [hact] at hfit
      exact FitsBurst.tokens_ready_le (t := e.post) hfit hlimit
    · exact hnext e he p' clock' hact' hlimit

end

/-- **Edits of the limits**: in a run of calls of one subject, in the order of their clocks, in
which no call finds more tokens than its burst, the bucket stays in range, and the rate law
holds from each edit of the limits to the next. -/
theorem policy_edits {key : BucketKey} {es : List BucketEvent} {r t : BucketRegistry}
    (hinit : machine.init r) (hrun : machine.Run r es t) (honly : OnlyCalls key es)
    (horder : InClockOrder key es) (hfits : ∀ e ∈ es, FitsBurst key e) :
    TokensInRange key es ∧ SpanLaw key es := by
  obtain rfl : r = {} := hinit
  refine ⟨tokensInRange es hrun honly horder hfits (fun k hk => by cases hk) ?_,
    spanLaw hrun honly hfits⟩
  exact ⟨fun _ hb => (by cases hb), fun _ hb => (by cases hb), fun _ hb => (by cases hb)⟩

/-- Limits that are raised, and then lowered to what the bucket holds. -/
def raisedThenLowered : List BucketAct :=
  [((⟨3, none, 60, by decide⟩ : BucketPolicy), (0 : ℚ)), (⟨3, none, 60, by decide⟩, 1),
    (⟨10, none, 60, by decide⟩, 2), (⟨10, some 1, 60, by decide⟩, 2)].map fun call =>
      .consume (py "10.0.0.1", py "ip") call.1 call.2

theorem policy_edits_raised : ∃ es t, machine.Run {} es t ∧
    es.map Machine.Event.act = raisedThenLowered ∧
    TokensInRange (py "10.0.0.1", py "ip") es ∧ SpanLaw (py "10.0.0.1", py "ip") es := by
  obtain ⟨hrun, hacts⟩ := Machine.Run.of_events (Machine.exec_final
    (M := machine) (s := {}) (l := raisedThenLowered) (by decide +kernel))
  refine ⟨_, _, hrun, hacts, policy_edits rfl hrun (fun e he => ?_)
    (by unfold InClockOrder; decide +kernel) (by decide +kernel)⟩
  obtain ⟨call, -, hact⟩ := List.mem_map.mp (hacts ▸ List.mem_map_of_mem he)
  exact ⟨_, _, hact.symm⟩

/-- The limits before and after an edit that lowers the burst. -/
def tenThenTwo : List BucketAct :=
  [⟨10, none, 60, by decide⟩, ⟨2, none, 60, by decide⟩, ⟨2, none, 60, by decide⟩,
    ⟨2, none, 60, by decide⟩].map fun p => .consume (py "10.0.0.1", py "ip") p 0

/-- After the burst is lowered, the bucket holds more than it, and lets more calls through. -/
theorem policy_edits_lowered : ∃ es t, machine.Run {} es t ∧
    es.map Machine.Event.act = tenThenTwo ∧ OnlyCalls (py "10.0.0.1", py "ip") es ∧
    InClockOrder (py "10.0.0.1", py "ip") es ∧
    ¬ TokensInRange (py "10.0.0.1", py "ip") es ∧ ¬ SpanLaw (py "10.0.0.1", py "ip") es := by
  obtain ⟨hrun, hacts⟩ := Machine.Run.of_events (Machine.exec_final
    (M := machine) (s := {}) (l := tenThenTwo) (by decide +kernel))
  have hcall : ∀ e ∈ machine.events {} tenThenTwo,
      ∃ p clock, e.act = .consume (py "10.0.0.1", py "ip") p clock := by
    intro e he
    obtain ⟨p, -, hact⟩ := List.mem_map.mp (hacts ▸ List.mem_map_of_mem he)
    exact ⟨p, 0, hact.symm⟩
  refine ⟨_, _, hrun, hacts, hcall, by unfold InClockOrder; decide +kernel, fun h => ?_,
    fun h => ?_⟩
  · obtain ⟨b, hget, -, hhigh⟩ := h ((machine.events {} tenThenTwo).get ⟨1, by decide +kernel⟩)
      (List.get_mem _ _) _ 0 rfl (by decide)
    have htokens : (((machine.events {} tenThenTwo).get ⟨1, by decide +kernel⟩).post.buckets.get
        (py "10.0.0.1", py "ip")).map LimitBucket.tokens = some 8 := by decide +kernel
    rw [hget] at htokens
    rw [Option.some.inj htokens] at hhigh
    exact absurd hhigh (by decide +kernel)
  · refine absurd (h ((machine.events {} tenThenTwo).take 1) ((machine.events {} tenThenTwo).drop 1)
      [] 2 2 60 (by decide) (by decide) (by norm_num)
      (by rw [List.append_nil, List.take_append_drop]) ?_ 0 0 le_rfl) (by decide +kernel)
    have hlater : ((machine.events {} tenThenTwo).drop 1).map Machine.Event.act =
        List.replicate 3 (.consume (py "10.0.0.1", py "ip") ⟨2, none, 60, by decide⟩ 0) := by
      rw [List.map_drop, hacts]
      rfl
    intro e he
    have hact : e.act = .consume (py "10.0.0.1", py "ip") ⟨2, none, 60, by decide⟩ 0 :=
      List.eq_of_mem_replicate (hlater ▸ List.mem_map_of_mem he)
    rw [hact]
    exact fun _ => ⟨rfl, rfl, rfl⟩

end LayaWatch
