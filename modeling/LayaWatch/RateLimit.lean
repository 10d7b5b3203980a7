import LayaWatch.Python
import LayaWatch.Lib.Dict
import LayaWatch.Lib.Machine
import LayaWatch.Lib.TokenBucket
import Mathlib.Algebra.Order.Floor.Ring
import Mathlib.Data.Rat.Floor

/-!
# Rate limits

`BucketRegistry` of `auth/ratelimit.py`: the token buckets of all subjects. A call
reads the clock before it takes the lock, so the clocks of successive calls need not
be in order: the clock is part of the call. What a call finds in the bucket of its
subject is what a token bucket shows that is asked at the clocks of this subject's
calls (`found_eq_asked`), whatever happens to the other subjects.
-/

namespace LayaWatch

/-- `_Bucket`. -/
structure LimitBucket where
  /-- `tokens` -/
  tokens : ℚ
  /-- `updated` -/
  updated : ℚ
  /-- `limit` -/
  limit : ℤ
  /-- `burst` -/
  burst : ℤ
  /-- `window` -/
  window : ℚ

namespace LimitBucket

/-- `rate`. -/
def rate (b : LimitBucket) : ℚ := b.limit / b.window

/-- The refill of `consume`. -/
def refilled (b : LimitBucket) (clock : ℚ) : ℚ :=
  min b.burst (b.tokens + (clock - b.updated) * b.rate)

/-- What `_sweep` drops. -/
def full (b : LimitBucket) : Bool := decide (b.burst - 1 / 10 ^ 9 ≤ b.tokens)

/-- A token is taken, where there is one. -/
def take (b : LimitBucket) : LimitBucket :=
  if 1 ≤ b.tokens then { b with tokens := b.tokens - 1 } else b

/-- What `consume` returns: `allowed`, and `retry_after_seconds`. -/
def answer (b : LimitBucket) : Bool × ℚ :=
  if 1 ≤ b.tokens then (true, 0) else (false, (max 1 ⌈(1 - b.tokens) / b.rate⌉ : ℤ))

end LimitBucket

/-- The limits that a call of `consume` names. The window divides: it is not zero. -/
structure BucketPolicy where
  /-- `limit` -/
  limit : ℤ
  /-- `burst` -/
  burst : Option ℤ := none
  /-- `window` -/
  window : ℚ := 60
  /-- a window has a length -/
  positive : 0 < window := by norm_num

/-- `capacity`. -/
def BucketPolicy.capacity (p : BucketPolicy) : ℤ := max 1 (p.burst.getD p.limit)

/-- A subject and a scope. -/
abbrev BucketKey : Type := PyStr × PyStr

/-- `BucketRegistry`. -/
structure BucketRegistry where
  /-- `_buckets` -/
  buckets : Dict BucketKey LimitBucket := .empty

namespace BucketRegistry

/-- `_SWEEP_AT`. -/
def sweepAt : ℕ := 1024

/-- `_sweep`. -/
def sweep (r : BucketRegistry) : BucketRegistry :=
  { buckets := r.buckets.filter fun entry => !entry.2.full }

/-- The start of `consume`: the sweep of a map that has grown. -/
def swept (r : BucketRegistry) : BucketRegistry :=
  if sweepAt < r.buckets.entries.length then r.sweep else r

/-- The bucket that `consume` takes from: a new one, or the old one refilled under the limits
it was last used with, and with the new limits from now on. -/
def ready (r : BucketRegistry) (key : BucketKey) (p : BucketPolicy) (clock : ℚ) : LimitBucket where
  tokens :=
    match r.buckets.get key with
    | none => p.capacity
    | some b => b.refilled clock
  updated := clock
  limit := p.limit
  burst := p.capacity
  window := p.window

/-- `consume`. -/
def consume (r : BucketRegistry) (key : BucketKey) (p : BucketPolicy) (clock : ℚ) :
    (Bool × ℚ) × BucketRegistry :=
  if p.limit ≤ 0 then ((true, 0), r)
  else
    let bucket := r.swept.ready key p clock
    (bucket.answer, { buckets := r.swept.buckets.set key bucket.take })

/-- The buckets that `reset` is about. -/
def matchesReset (subject scope : Option PyStr) (key : BucketKey) : Bool :=
  subject.all (fun s => decide (key.1 = s)) && scope.all fun s => decide (key.2 = s)

/-- `reset`: how many buckets go, and what is left. -/
def reset (r : BucketRegistry) (subject scope : Option PyStr) (all : Bool) :
    ℕ × BucketRegistry :=
  if all then (r.buckets.entries.length, {})
  else
    (r.buckets.entries.countP fun entry => matchesReset subject scope entry.1,
      { buckets := r.buckets.filter fun entry => !matchesReset subject scope entry.1 })

end BucketRegistry

/-! ## Runs -/

/-- What is done to the registry next. -/
inductive BucketAct where
  /-- `consume`, with the time it has read -/
  | consume (key : BucketKey) (p : BucketPolicy) (clock : ℚ)
  /-- `reset` -/
  | reset (subject scope : Option PyStr) (all : Bool)

namespace BucketRegistry

/-- One call. -/
def step (r : BucketRegistry) : BucketAct → BucketRegistry
  | .consume key p clock => (r.consume key p clock).2
  | .reset subject scope all => (r.reset subject scope all).2

/-- Calls of all subjects, one after the other. -/
def machine : Machine BucketRegistry BucketAct := ⟨fun r => r = {}, fun r a => some (r.step a)⟩

end BucketRegistry

/-- A call, and what happened to the registry. -/
abbrev BucketEvent : Type := Machine.Event BucketRegistry BucketAct

/-- What `consume` was told and what it answered. -/
structure BucketCall where
  /-- the time the call has read -/
  clock : ℚ
  /-- `allowed` -/
  allowed : Bool
  /-- `retry_after_seconds` -/
  retry : ℚ
  deriving DecidableEq

/-- The call of a subject that an event is. -/
def callOf (key : BucketKey) (e : BucketEvent) : Option BucketCall :=
  match e.act with
  | .consume key' p clock =>
    if key' = key then
      some ⟨clock, (e.pre.consume key p clock).1.1, (e.pre.consume key p clock).1.2⟩
    else none
  | .reset _ _ _ => none

/-- The calls of a subject in a run. -/
def callsOf (key : BucketKey) (es : List BucketEvent) : List BucketCall := es.filterMap (callOf key)

/-- The limits that this subject is called with, and it is not reset. -/
def SteadyLimits (key : BucketKey) (limit burst : ℤ) (window : ℚ) : BucketAct → Prop
  | .consume key' p _ => key' = key → p.limit = limit ∧ p.capacity = burst ∧ p.window = window
  | .reset subject scope all =>
    all = false ∧ BucketRegistry.matchesReset subject scope key = false

/-- The step sweeps. -/
def Sweeps (e : BucketEvent) : Bool :=
  match e.act with
  | .consume _ p _ =>
    decide (0 < p.limit) && decide (BucketRegistry.sweepAt < e.pre.buckets.entries.length)
  | .reset _ _ _ => false

theorem sweeps_consume {r t : BucketRegistry} {key : BucketKey} {p : BucketPolicy} {clock : ℚ} :
    Sweeps ⟨r, .consume key p clock, t⟩ =
      (decide (0 < p.limit) && decide (BucketRegistry.sweepAt < r.buckets.entries.length)) := rfl

/-! ## One subject of a run -/

namespace LimitBucket

/-- The tokens of a bucket, and since when. -/
def shown (b : LimitBucket) : TokenBucket ℚ := ⟨b.tokens, b.updated⟩

variable {b : LimitBucket} {clock : ℚ}

theorem shown_take : b.take.shown = b.shown.take := by
  unfold take TokenBucket.take TokenBucket.granted shown
  by_cases h : 1 ≤ b.tokens
  · rw [if_pos h, if_pos (decide_eq_true h)]
  · rw [if_neg h, if_neg (by rwa [decide_eq_true_eq])]

theorem take_limits : b.take.limit = b.limit ∧ b.take.burst = b.burst ∧
    b.take.window = b.window := by
  unfold take
  split <;> exact ⟨rfl, rfl, rfl⟩

/-- What is left in a bucket that a call has just taken from. -/
theorem tokens_take_le (h : b.tokens ≤ b.burst) (hburst : 2 ≤ b.burst) :
    b.take.tokens ≤ b.burst - 1 := by
  have hburst' : (2 : ℚ) ≤ b.burst := by exact_mod_cast hburst
  unfold take
  split
  · exact sub_le_sub_right h 1
  · linarith

theorem tokens_refilled_le : b.refilled clock ≤ b.burst := min_le_left _ _

end LimitBucket

/-- The bucket that a call of a subject finds. -/
def foundOf (key : BucketKey) (e : BucketEvent) : Option (TokenBucket ℚ) :=
  match e.act with
  | .consume key' p clock =>
    if key' = key then some (e.pre.swept.ready key p clock).shown else none
  | .reset _ _ _ => none

/-- The time that a call of a subject has read. -/
def clockOf (key : BucketKey) : BucketAct → Option ℚ
  | .consume key' _ clock => if key' = key then some clock else none
  | .reset _ _ _ => none

/-- What a call answers that finds this bucket. -/
def BucketCall.ofFound (rate : ℚ) (b : TokenBucket ℚ) : BucketCall where
  clock := b.stamp
  allowed := b.granted
  retry := if b.granted then 0 else (max 1 ⌈(1 - b.tokens) / rate⌉ : ℤ)

namespace BucketRegistry

/-- What the registry shows of a subject. -/
def view (key : BucketKey) (r : BucketRegistry) : Option (TokenBucket ℚ) :=
  (r.buckets.get key).map LimitBucket.shown

/-- The bucket of a subject is used under these limits, and a sweep would not drop it. -/
structure Keeps (key : BucketKey) (limit burst : ℤ) (window : ℚ) (r : BucketRegistry) : Prop where
  /-- its limits -/
  limits : ∀ b, r.buckets.get key = some b →
    b.limit = limit ∧ b.burst = burst ∧ b.window = window
  /-- something was taken from it -/
  used : 2 ≤ burst → ∀ b, r.buckets.get key = some b → b.full = false

section

variable {key : BucketKey} {limit burst : ℤ} {window : ℚ} {r : BucketRegistry} {p : BucketPolicy}
  {clock : ℚ}

theorem Keeps.initial : Keeps key limit burst window {} :=
  ⟨fun _ h => (by cases h), fun _ _ h => (by cases h)⟩

theorem Keeps.of_get {r' : BucketRegistry} (h : Keeps key limit burst window r)
    (hget : r'.buckets.get key = r.buckets.get key) : Keeps key limit burst window r' :=
  ⟨fun b hb => h.limits b (hget ▸ hb), fun hburst b hb => h.used hburst b (hget ▸ hb)⟩

/-- A sweep does not touch a bucket that something was taken from. -/
theorem Keeps.get_swept (h : Keeps key limit burst window r) (hburst : 1 ≤ burst)
    (hsweep : burst = 1 → r.buckets.entries.length ≤ sweepAt) :
    r.swept.buckets.get key = r.buckets.get key := by
  unfold swept
  by_cases hgrown : sweepAt < r.buckets.entries.length
  · have htwo : 2 ≤ burst := by
      rcases hburst.lt_or_eq with hmore | hone
      · exact hmore
      · exact absurd (hsweep hone.symm) (not_le.mpr hgrown)
    rw [if_pos hgrown]
    unfold sweep
    rcases hget : r.buckets.get key with _ | b
    · rcases hleft : (r.buckets.filter fun entry => !entry.2.full).get key with _ | b
      · rfl
      · rw [(Dict.get_of_get_filter hleft).1] at hget
        cases hget
    · have hused := h.used htwo b hget
      exact Dict.get_filter hget (by rw [hused]; rfl)
  · rw [if_neg hgrown]

/-- What a call of the subject finds. -/
theorem Keeps.shown_ready (h : Keeps key limit burst window r) (hp : p.capacity = burst) :
    (r.ready key p clock).shown =
      TokenBucket.ready (limit / window) burst (r.view key) clock := by
  unfold ready LimitBucket.shown TokenBucket.ready view
  rcases hget : r.buckets.get key with _ | b
  · rw [hp]
    rfl
  · obtain ⟨hlimit, hburst, hwindow⟩ := h.limits b hget
    dsimp only [Option.map_some, LimitBucket.refilled, LimitBucket.rate, LimitBucket.shown]
    rw [hlimit, hburst, hwindow]

theorem Keeps.tokens_ready_le (h : Keeps key limit burst window r) (hp : p.capacity = burst) :
    (r.ready key p clock).tokens ≤ burst := by
  unfold ready
  rcases hget : r.buckets.get key with _ | b
  · exact le_of_eq (congrArg Int.cast hp)
  · obtain ⟨-, hburst, -⟩ := h.limits b hget
    exact hburst ▸ LimitBucket.tokens_refilled_le

/-- Nothing is tracked of a call without a limit. -/
theorem consume_unlimited (hlimit : p.limit ≤ 0) : (r.consume key p clock).2 = r := by
  unfold consume
  rw [if_pos hlimit]

/-- The call of another subject. -/
theorem get_consume_ne {other : BucketKey} (hother : other ≠ key)
    (hswept : 0 < p.limit → r.swept.buckets.get key = r.buckets.get key) :
    (r.consume other p clock).2.buckets.get key = r.buckets.get key := by
  by_cases hlimit : p.limit ≤ 0
  · rw [consume_unlimited hlimit]
  · unfold consume
    rw [if_neg hlimit]
    exact (Dict.get_set_ne _ _ hother.symm).trans (hswept (not_le.mp hlimit))

/-- A call of the subject. -/
theorem get_consume (hlimit : 1 ≤ p.limit) : (r.consume key p clock).2.buckets.get key =
    some (r.swept.ready key p clock).take := by
  unfold consume
  rw [if_neg (by omega)]
  exact Dict.get_set_self _ _ _

/-- A subject that is not reset. -/
theorem get_reset {subject scope : Option PyStr} (h : matchesReset subject scope key = false) :
    (r.reset subject scope false).2.buckets.get key = r.buckets.get key := by
  unfold reset
  rw [if_neg Bool.false_ne_true]
  rcases hget : r.buckets.get key with _ | b
  · rcases hleft : (r.buckets.filter fun entry => !matchesReset subject scope entry.1).get key with
      _ | b
    · rfl
    · rw [(Dict.get_of_get_filter hleft).1] at hget
      cases hget
  · exact Dict.get_filter hget (by rw [h]; rfl)

theorem answer_eq (hlimit : 1 ≤ p.limit) : (r.consume key p clock).1 =
    (r.swept.ready key p clock).answer := by
  unfold consume
  rw [if_neg (by omega)]

/-- A step as the subject sees it: it changes the bucket only where it is a call of the
subject, which then finds what a token bucket shows. -/
structure Follows (key : BucketKey) (limit burst : ℤ) (window : ℚ) (e : BucketEvent) : Prop where
  /-- the bucket is used under the limits -/
  keeps : Keeps key limit burst window e.post
  /-- what the call finds -/
  found : foundOf key e =
    (clockOf key e.act).map (TokenBucket.ready (limit / window) burst (e.pre.view key))
  /-- what it leaves -/
  left : e.post.view key = ((foundOf key e).map fun c => some c.take).getD (e.pre.view key)

/-- A step that does nothing to the subject. -/
theorem Follows.of_get {e : BucketEvent} (h : Keeps key limit burst window e.pre)
    (hclock : clockOf key e.act = none) (hfound : foundOf key e = none)
    (hget : e.post.buckets.get key = e.pre.buckets.get key) :
    Follows key limit burst window e where
  keeps := h.of_get hget
  found := by
    rw [hclock, hfound]
    rfl
  left := by
    rw [hfound]
    exact congrArg (Option.map LimitBucket.shown) hget

/-- A call that finds no more than its burst leaves a bucket under its limits. -/
theorem keeps_of_call (hlimit : 1 ≤ limit) (hpl : p.limit = limit) (hpb : p.capacity = burst)
    (hpw : p.window = window) (hfit : (r.swept.ready key p clock).tokens ≤ burst) :
    Keeps key limit burst window (r.consume key p clock).2 := by
  have hget : (r.consume key p clock).2.buckets.get key =
      some (r.swept.ready key p clock).take := get_consume (by omega)
  refine ⟨fun b hb => ?_, fun htwo b hb => ?_⟩
  · obtain rfl := Option.some.inj (hget.symm.trans hb)
    obtain ⟨hl, hb, hw⟩ := LimitBucket.take_limits (b := r.swept.ready key p clock)
    exact ⟨hl.trans hpl, hb.trans hpb, hw.trans hpw⟩
  · obtain rfl := Option.some.inj (hget.symm.trans hb)
    -- what is left is a whole token less than the burst
    have hlow := LimitBucket.tokens_take_le (b := r.swept.ready key p clock)
      (hfit.trans (by exact_mod_cast hpb.ge)) (htwo.trans hpb.ge)
    refine decide_eq_false ?_
    rw [not_le, LimitBucket.take_limits.2.1]
    refine hlow.trans_lt (sub_lt_sub_left ?_ _)
    norm_num

/-- What a call of the subject leaves. -/
theorem view_consume (hlimit : 1 ≤ p.limit) : (r.consume key p clock).2.view key =
    some (r.swept.ready key p clock).shown.take := by
  unfold view
  rw [get_consume hlimit]
  exact congrArg some LimitBucket.shown_take

/-- A call of the subject. -/
theorem Follows.of_call (hlimit : 1 ≤ limit) (h : Keeps key limit burst window r)
    (hswept : r.swept.buckets.get key = r.buckets.get key) (hpl : p.limit = limit)
    (hpb : p.capacity = burst) (hpw : p.window = window) :
    Follows key limit burst window
      ⟨r, .consume key p clock, (r.consume key p clock).2⟩ := by
  have hkeeps : Keeps key limit burst window r.swept := h.of_get hswept
  have hfound : foundOf key ⟨r, .consume key p clock, (r.consume key p clock).2⟩ =
      some (r.swept.ready key p clock).shown := if_pos rfl
  refine ⟨keeps_of_call hlimit hpl hpb hpw (hkeeps.tokens_ready_le hpb), ?_, ?_⟩
  · rw [hfound, clockOf, if_pos rfl, hkeeps.shown_ready hpb]
    unfold view
    rw [hswept]
    rfl
  · rw [hfound]
    exact view_consume (by omega)

theorem Keeps.step {e : BucketEvent} (hlimit : 1 ≤ limit) (hburst : 1 ≤ burst)
    (h : Keeps key limit burst window e.pre) (hstep : machine.step e.pre e.act = some e.post)
    (hsteady : SteadyLimits key limit burst window e.act) (hsweep : burst = 1 → Sweeps e = false) :
    Follows key limit burst window e := by
  obtain ⟨r, a, t⟩ := e
  obtain rfl : r.step a = t := Option.some.inj hstep
  cases a with
  | consume other p clock =>
    have hswept : 0 < p.limit → r.swept.buckets.get key = r.buckets.get key := by
      intro hactive
      refine h.get_swept hburst fun hone => ?_
      have hno := hsweep hone
      rw [sweeps_consume] at hno
      simpa [hactive] using hno
    by_cases hkey : other = key
    · subst hkey
      obtain ⟨hpl, hpb, hpw⟩ := hsteady rfl
      exact .of_call hlimit h (hswept (by omega)) hpl hpb hpw
    · exact .of_get h (if_neg hkey) (if_neg hkey) (get_consume_ne hkey hswept)
  | reset subject scope all =>
    obtain ⟨rfl, hmatch⟩ := hsteady
    exact .of_get h rfl rfl (get_reset hmatch)

/-- **One subject of a run**: its calls find what a token bucket shows that is asked at
their clocks. -/
theorem found_eq_asked {es : List BucketEvent} (hlimit : 1 ≤ limit) (hburst : 1 ≤ burst) :
    ∀ {r t : BucketRegistry}, machine.Run r es t → Keeps key limit burst window r →
      (∀ e ∈ es, SteadyLimits key limit burst window e.act) →
      (burst = 1 → ∀ e ∈ es, Sweeps e = false) →
      Keeps key limit burst window t ∧
        es.filterMap (foundOf key) = TokenBucket.asked (limit / window) burst (r.view key)
          (es.filterMap fun e => clockOf key e.act) := by
  induction es with
  | nil =>
    intro r t hrun h _ _
    rw [hrun.eq_of_nil]
    exact ⟨h, rfl⟩
  | cons e es ih =>
    intro r t hrun h hsteady hsweep
    obtain ⟨rfl, hstep, hrest⟩ := Machine.Run.of_cons hrun
    obtain ⟨hkeeps, hfound, hleft⟩ := h.step hlimit hburst hstep (hsteady e List.mem_cons_self)
      fun hone => hsweep hone e List.mem_cons_self
    obtain ⟨ht, hall⟩ := ih hrest hkeeps (fun e' he => hsteady e' (List.mem_cons_of_mem _ he))
      fun hone e' he => hsweep hone e' (List.mem_cons_of_mem _ he)
    refine ⟨ht, ?_⟩
    rw [List.filterMap_cons, List.filterMap_cons, hall, hleft]
    rcases hclock : clockOf key e.act with _ | clock
    · rw [hclock] at hfound
      rw [hfound]
      rfl
    · rw [hclock] at hfound
      rw [hfound]
      rfl

end

end BucketRegistry

end LayaWatch
