import Mathlib.Algebra.Order.Field.Basic
import Mathlib.Data.List.Basic
import Mathlib.Tactic.Linarith
import Mathlib.Tactic.Ring
import Mathlib.Tactic.FieldSimp

/-!
# Token buckets

A bucket holds at most `capacity` tokens and fills at `rate` tokens in a unit of
time. It is asked for tokens at times that need not come in order, and fills only
when it is asked.

What carries every bound is the `level` of a bucket: what it would hold at time
zero, were it to fill, or drain, at its rate all the way. Filling a bucket does not
change its level unless the bucket runs over, and a token taken lowers it by one.
So the level bounds what can be taken (`length_le`), and a call that takes
nothing leaves it as it is (`asked_of_sublist`).
-/

universe u

/-- A token bucket. -/
structure TokenBucket (K : Type u) where
  /-- what it holds -/
  tokens : K
  /-- when it held that -/
  stamp : K

namespace TokenBucket

variable {K : Type u} [Field K] [LinearOrder K]

/-- The bucket as a call finds it. One that was never asked is full. -/
def ready (rate capacity : K) (b : Option (TokenBucket K)) (now : K) : TokenBucket K :=
  match b with
  | none => ⟨capacity, now⟩
  | some b => ⟨min capacity (b.tokens + (now - b.stamp) * rate), now⟩

/-- The call that finds this bucket gets a token. -/
def granted (b : TokenBucket K) : Bool := decide (1 ≤ b.tokens)

/-- A token is taken, if there is one. -/
def take (b : TokenBucket K) : TokenBucket K := if b.granted then ⟨b.tokens - 1, b.stamp⟩ else b

/-- The bucket is asked at these times, one after the other: what each call finds. -/
def asked (rate capacity : K) : Option (TokenBucket K) → List K → List (TokenBucket K)
  | _, [] => []
  | b, now :: rest =>
    ready rate capacity b now :: asked rate capacity (some (ready rate capacity b now).take) rest

/-- What the bucket would hold at time zero. -/
def level (rate : K) (b : TokenBucket K) : K := b.tokens - b.stamp * rate

section Calls

variable {rate capacity now : K} {b c : TokenBucket K} {o : Option (TokenBucket K)}

@[simp] theorem stamp_ready : (ready rate capacity o now).stamp = now := by cases o <;> rfl

theorem granted_iff : b.granted = true ↔ 1 ≤ b.tokens := decide_eq_true_iff

theorem take_of_refused (h : b.granted = false) : b.take = b := by
  unfold take
  rw [h]
  rfl

theorem level_take_of_granted (h : b.granted = true) : b.take.level rate = b.level rate - 1 := by
  unfold take level
  rw [if_pos h]
  ring

theorem tokens_ready : (ready rate capacity (some b) now).tokens =
    min capacity (b.level rate + now * rate) := by
  unfold level ready
  exact congrArg (min capacity) (by ring)

/-- What a call finds depends on the level alone. -/
theorem ready_congr (h : b.level rate = c.level rate) :
    ready rate capacity (some b) now = ready rate capacity (some c) now := by
  have htokens : (ready rate capacity (some b) now).tokens =
      (ready rate capacity (some c) now).tokens := by rw [tokens_ready, tokens_ready, h]
  exact congrArg (fun tokens => (⟨tokens, now⟩ : TokenBucket K)) htokens

theorem asked_congr (h : b.level rate = c.level rate) (times : List K) :
    asked rate capacity (some b) times = asked rate capacity (some c) times := by
  cases times with
  | nil => rfl
  | cons now rest => rw [asked, asked, ready_congr h]

theorem tokens_ready_le : (ready rate capacity o now).tokens ≤ capacity := by
  cases o with
  | none => exact le_rfl
  | some b => exact min_le_left _ _

/-- Where the bucket is again what it was, a call there finds the same. -/
theorem ready_self (h : b.tokens ≤ capacity) : ready rate capacity (some b) b.stamp = b := by
  have htokens : (ready rate capacity (some b) b.stamp).tokens = b.tokens := by
    rw [tokens_ready, level, sub_add_cancel, min_eq_right h]
  exact congrArg (fun tokens => (⟨tokens, b.stamp⟩ : TokenBucket K)) htokens

/-- A call that is refused leaves the level as it is. -/
theorem level_ready_of_refused (hcapacity : 1 ≤ capacity)
    (h : (ready rate capacity (some b) now).granted = false) :
    (ready rate capacity (some b) now).level rate = b.level rate := by
  have hlow : ¬ 1 ≤ (ready rate capacity (some b) now).tokens := by
    rw [← granted_iff, h]
    exact Bool.false_ne_true
  rw [tokens_ready] at hlow
  have hmin : min capacity (b.level rate + now * rate) = b.level rate + now * rate := by
    refine min_eq_right (le_of_not_ge fun hover => hlow ?_)
    rw [min_eq_left hover]
    exact hcapacity
  rw [level, tokens_ready, stamp_ready, hmin]
  ring

/-- A bucket that was never asked has a token. -/
theorem granted_ready_none (hcapacity : 1 ≤ capacity) :
    (ready rate capacity none now).granted = true := granted_iff.mpr hcapacity

variable [IsStrictOrderedRing K]

theorem level_ready_le : (ready rate capacity (some b) now).level rate ≤ b.level rate := by
  have h := min_le_right capacity (b.level rate + now * rate)
  rw [← tokens_ready (b := b)] at h
  rw [level, stamp_ready]
  linarith

/-- **A refused call says how long to wait**: by the time that what is missing has filled in,
the next call gets a token. -/
theorem granted_after (hcapacity : 1 ≤ capacity) (hrate : 0 < rate) (h : b.granted = false)
    (hnow : b.stamp + (1 - b.tokens) / rate ≤ now) :
    (ready rate capacity (some b.take) now).granted = true := by
  rw [take_of_refused h, granted_iff, tokens_ready, level]
  refine le_min hcapacity ?_
  have hfill : (1 - b.tokens) / rate * rate = 1 - b.tokens := div_mul_cancel₀ _ hrate.ne'
  have hlong := mul_le_mul_of_nonneg_right hnow hrate.le
  rw [add_mul, hfill] at hlong
  linarith

end Calls

/-! ## What can be taken -/

section Bounds

variable {rate capacity : K} [IsStrictOrderedRing K]

/-- Of the calls that get a token, no more than the level of the bucket at their start and
the rate up to the last of them allow. -/
theorem length_le_level {p : TokenBucket K → Bool} (hp : ∀ b, p b = true → b.granted = true)
    (times : List K) : ∀ {b last : TokenBucket K},
      ((asked rate capacity (some b) times).filter p).getLast? = some last →
      (((asked rate capacity (some b) times).filter p).length : K) ≤
        b.level rate + last.stamp * rate := by
  induction times with
  | nil => exact fun h => by cases h
  | cons now rest ih =>
    intro b last hlast
    rw [asked] at hlast ⊢
    generalize hc : ready rate capacity (some b) now = c at hlast ⊢
    have hle : c.level rate ≤ b.level rate := hc ▸ level_ready_le
    by_cases hpc : p c = true
    · have hgrant := hp c hpc
      rw [List.filter_cons_of_pos hpc] at hlast ⊢
      rcases hrest : (asked rate capacity (some c.take) rest).filter p with _ | ⟨d, ds⟩
      · -- the last of them is this one
        rw [hrest] at hlast
        obtain rfl : c = last := Option.some.inj hlast
        have hone := granted_iff.mp hgrant
        rw [level] at hle
        rw [List.length_singleton, Nat.cast_one]
        linarith
      · have htail : ((asked rate capacity (some c.take) rest).filter p).getLast? = some last := by
          rw [hrest] at hlast ⊢
          rwa [List.getLast?_cons_cons] at hlast
        have hmore := ih htail
        rw [hrest, level_take_of_granted hgrant] at hmore
        rw [List.length_cons, Nat.cast_add_one]
        linarith
    · rw [List.filter_cons_of_neg hpc] at hlast ⊢
      have hmore := ih hlast
      have htake : c.take.level rate ≤ c.level rate := by
        by_cases hgrant : c.granted = true
        · rw [level_take_of_granted hgrant]
          linarith
        · rw [take_of_refused (Bool.eq_false_iff.mpr hgrant)]
      linarith

/-- **The rate law.** The calls of some kind that get a token are no more than the
capacity, and what the rate adds between the first and the last of them. -/
theorem length_le {p : TokenBucket K → Bool} (hp : ∀ b, p b = true → b.granted = true)
    (times : List K) : ∀ {o : Option (TokenBucket K)} {first last : TokenBucket K},
      ((asked rate capacity o times).filter p).head? = some first →
      ((asked rate capacity o times).filter p).getLast? = some last →
      (((asked rate capacity o times).filter p).length : K) ≤
        capacity + rate * (last.stamp - first.stamp) := by
  induction times with
  | nil => exact fun h => by cases h
  | cons now rest ih =>
    intro o first last hfirst hlast
    rw [asked] at hfirst hlast ⊢
    by_cases hpc : p (ready rate capacity o now) = true
    · rw [List.filter_cons_of_pos hpc] at hfirst hlast ⊢
      obtain rfl := Option.some.inj hfirst
      have hcap : (ready rate capacity o now).tokens ≤ capacity := tokens_ready_le
      have hself : ready rate capacity (some (ready rate capacity o now))
          (ready rate capacity o now).stamp = ready rate capacity o now := ready_self hcap
      rw [stamp_ready] at hself
      -- the calls from the first one on, asked of the bucket that it found
      have hasked : asked rate capacity (some (ready rate capacity o now)) (now :: rest) =
          ready rate capacity o now ::
            asked rate capacity (some (ready rate capacity o now).take) rest := by
        rw [asked, hself]
      have hcount : (((asked rate capacity (some (ready rate capacity o now))
          (now :: rest)).filter p).length : K) ≤
            (ready rate capacity o now).level rate + last.stamp * rate :=
        length_le_level hp (now :: rest)
          (by rw [hasked, List.filter_cons_of_pos hpc]; exact hlast)
      rw [hasked, List.filter_cons_of_pos hpc] at hcount
      rw [level, stamp_ready] at hcount
      rw [stamp_ready]
      linarith
    · rw [List.filter_cons_of_neg hpc] at hfirst hlast ⊢
      exact ih hfirst hlast

/-- The rate law of the calls in a span of time. -/
theorem length_le_span (start span : K) {p : TokenBucket K → Bool}
    (hp : ∀ b, p b = true → b.granted = true ∧ start ≤ b.stamp ∧ b.stamp ≤ start + span)
    (hroom : 0 ≤ capacity + rate * span) (hrate : 0 ≤ rate) (times : List K)
    (o : Option (TokenBucket K)) :
    (((asked rate capacity o times).filter p).length : K) ≤ capacity + rate * span := by
  rcases hfirst : ((asked rate capacity o times).filter p).head? with _ | first
  · rw [List.head?_eq_none_iff.mp hfirst, List.length_nil, Nat.cast_zero]
    exact hroom
  rcases hlast : ((asked rate capacity o times).filter p).getLast? with _ | last
  · rw [List.getLast?_eq_none_iff.mp hlast, List.length_nil, Nat.cast_zero]
    exact hroom
  have hlow := (hp first (List.of_mem_filter (List.mem_of_mem_head? hfirst))).2.1
  have hhigh := (hp last (List.of_mem_filter (List.mem_of_mem_getLast? hlast))).2.2
  refine (length_le (fun b hb => (hp b hb).1) times hfirst hlast).trans (add_le_add_right ?_ _)
  exact mul_le_mul_of_nonneg_left (by linarith) hrate

end Bounds

/-! ## Calls that are refused -/

section Refused

/-- Calls between those that get a token and all of them: the first is kept, or is refused. -/
theorem kept_cases {c : TokenBucket K} {l kept : List (TokenBucket K)}
    (hsub : kept.Sublist (c :: l)) (hall : ((c :: l).filter granted).Sublist kept) :
    (∃ kept', kept = c :: kept' ∧ kept'.Sublist l ∧ (l.filter granted).Sublist kept') ∨
      c.granted = false ∧ kept.Sublist l ∧ (l.filter granted).Sublist kept := by
  by_cases hgrant : c.granted = true
  · rw [List.filter_cons_of_pos hgrant] at hall
    rcases List.sublist_cons_iff.mp hsub with hdrop | ⟨kept', rfl, hkept⟩
    · -- one call that gets a token would be too many
      have hcount := (hall.trans hdrop).countP_le (p := granted)
      rw [List.countP_cons_of_pos hgrant, List.countP_filter] at hcount
      simp only [Bool.and_self] at hcount
      exact absurd hcount (Nat.not_succ_le_self _)
    · exact Or.inl ⟨kept', rfl, hkept, List.cons_sublist_cons.mp hall⟩
  · rw [List.filter_cons_of_neg hgrant] at hall
    rcases List.sublist_cons_iff.mp hsub with hdrop | ⟨kept', rfl, hkept⟩
    · exact Or.inr ⟨Bool.eq_false_iff.mpr hgrant, hdrop, hall⟩
    · refine Or.inl ⟨kept', rfl, hkept, ?_⟩
      rcases List.sublist_cons_iff.mp hall with hrest | ⟨l', hl', -⟩
      · exact hrest
      · have hmem : c ∈ l.filter granted := by
          rw [hl']
          exact List.mem_cons_self
        exact absurd (List.of_mem_filter hmem) hgrant

variable {rate capacity : K}

theorem asked_of_sublist_some (hcapacity : 1 ≤ capacity) (times : List K) :
    ∀ {b : TokenBucket K} {kept : List (TokenBucket K)},
      kept.Sublist (asked rate capacity (some b) times) →
      ((asked rate capacity (some b) times).filter granted).Sublist kept →
      asked rate capacity (some b) (kept.map stamp) = kept := by
  induction times with
  | nil =>
    intro b kept hsub _
    rw [List.sublist_nil.mp hsub]
    rfl
  | cons now rest ih =>
    intro b kept hsub hall
    rcases kept_cases hsub hall with ⟨kept', rfl, hkept, hall'⟩ | ⟨hrefused, hkept, hall'⟩
    · rw [List.map_cons, stamp_ready, asked, ih hkept hall']
    · have hlevel := level_ready_of_refused hcapacity hrefused
      rw [take_of_refused hrefused] at hkept hall'
      rw [← asked_congr hlevel]
      exact ih hkept hall'

/-- **Refused calls do not count.** Whichever of the refused calls are left out, the others
find what they found. -/
theorem asked_of_sublist (hcapacity : 1 ≤ capacity) {o : Option (TokenBucket K)} {times : List K}
    {kept : List (TokenBucket K)} (hsub : kept.Sublist (asked rate capacity o times))
    (hall : ((asked rate capacity o times).filter granted).Sublist kept) :
    asked rate capacity o (kept.map stamp) = kept := by
  rcases o with _ | b
  · rcases times with _ | ⟨now, rest⟩
    · rw [List.sublist_nil.mp hsub]
      rfl
    · rcases kept_cases hsub hall with ⟨kept', rfl, hkept, hall'⟩ | ⟨hrefused, -, -⟩
      · rw [List.map_cons, stamp_ready, asked, asked_of_sublist_some hcapacity rest hkept hall']
      · rw [granted_ready_none hcapacity] at hrefused
        cases hrefused
  · exact asked_of_sublist_some hcapacity times hsub hall

end Refused

end TokenBucket
