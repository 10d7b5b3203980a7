import LayaWatch.RateLimit

/-!
# The size of the bucket map

`_sweep` drops a bucket by the tokens that are stored in it, which are those of its
last use: a token was taken then. It does not ask what has been refilled since. So the
map stays within its bound and the buckets in use exactly while few buckets have been
refilled unseen (`bucket_map_bounded`), and subjects that each come once make it grow
(`minted_subjects_stay`).
-/

namespace LayaWatch

open BucketRegistry

/-- The bucket, refilled to the time, is full. -/
def LimitBucket.idle (clock : ℚ) (b : LimitBucket) : Bool := decide (b.burst ≤ b.refilled clock)

/-- How many subjects have a bucket that, refilled to the time, is not full. -/
def BucketRegistry.busy (r : BucketRegistry) (clock : ℚ) : ℕ :=
  r.buckets.entries.countP fun entry => !entry.2.idle clock

/-- After a call, the map holds no more buckets than the threshold of the sweep, one more, and
those that are not full. -/
def MapBounded (e : BucketEvent) : Prop :=
  match e.act with
  | .consume _ _ clock => e.post.buckets.entries.length ≤ sweepAt + 1 + e.post.busy clock
  | .reset _ _ _ => True

/-- Before a call, and after its sweep, no more buckets than the threshold and one are full
once they are refilled. The bucket of the call counts if it stays full. -/
def FewRefilled (e : BucketEvent) : Prop :=
  match e.act with
  | .consume key p clock =>
    if p.limit ≤ 0 then
      (e.pre.buckets.entries.countP fun entry => entry.2.idle clock) ≤ sweepAt + 1
    else
      (e.pre.swept.buckets.entries.countP fun entry =>
        decide (entry.1 ≠ key) && entry.2.idle clock) +
          (if p.capacity + 1 ≤ (e.pre.swept.ready key p clock).tokens then 1 else 0) ≤ sweepAt + 1
  | .reset _ _ _ => True

instance (e : BucketEvent) : Decidable (FewRefilled e) :=
  match e with
  | ⟨r, .consume key p clock, _⟩ => inferInstanceAs (Decidable (if p.limit ≤ 0 then
      (r.buckets.entries.countP fun entry => entry.2.idle clock) ≤ sweepAt + 1
    else
      (r.swept.buckets.entries.countP fun entry =>
        decide (entry.1 ≠ key) && entry.2.idle clock) +
          (if p.capacity + 1 ≤ (r.swept.ready key p clock).tokens then 1 else 0) ≤ sweepAt + 1))
  | ⟨_, .reset _ _ _, _⟩ => .isTrue trivial

section

variable {r t : BucketRegistry} {key : BucketKey} {p : BucketPolicy} {clock : ℚ}

/-- The bucket that a call has taken from is full only if it held more than its burst. -/
theorem idle_take : ((r.ready key p clock).take.idle clock = true) ↔
    p.capacity + 1 ≤ (r.ready key p clock).tokens := by
  have hone : (1 : ℚ) ≤ p.capacity := Int.cast_le.mpr (le_max_left 1 _)
  obtain ⟨-, hburst, -⟩ := LimitBucket.take_limits (b := r.ready key p clock)
  have hstamp : (r.ready key p clock).take.updated = clock := by
    unfold LimitBucket.take
    split <;> rfl
  unfold LimitBucket.idle LimitBucket.refilled
  rw [decide_eq_true_eq, hburst, hstamp, sub_self, zero_mul, add_zero, le_min_iff]
  change (p.capacity : ℚ) ≤ p.capacity ∧ _ ↔ _
  unfold LimitBucket.take
  by_cases htoken : 1 ≤ (r.ready key p clock).tokens
  · rw [if_pos htoken]
    dsimp only
    constructor
    · rintro ⟨-, h⟩
      change (p.capacity : ℚ) ≤ _ at h
      linarith
    · intro h
      exact ⟨le_rfl, le_sub_iff_add_le.mpr h⟩
  · rw [if_neg htoken]
    constructor
    · rintro ⟨-, h⟩
      exact absurd (hone.trans h) htoken
    · intro h
      exact absurd (hone.trans ((le_add_of_nonneg_right zero_le_one).trans h)) htoken

/-- The buckets of a map are those that are full and those that are not. -/
theorem length_eq_idle_add_busy (r : BucketRegistry) (clock : ℚ) : r.buckets.entries.length =
    (r.buckets.entries.countP fun entry => entry.2.idle clock) + r.busy clock := by
  rw [List.length_eq_countP_add_countP fun entry : BucketKey × LimitBucket => entry.2.idle clock]
  refine congrArg _ (List.countP_congr fun entry _ => ?_)
  rw [decide_eq_true_eq, Bool.not_eq_true', Bool.not_eq_true]

/-- One call. -/
theorem mapBounded_iff {e : BucketEvent} (hstep : machine.step e.pre e.act = some e.post) :
    MapBounded e ↔ FewRefilled e := by
  obtain ⟨r, a, t⟩ := e
  obtain rfl : r.step a = t := Option.some.inj hstep
  cases a with
  | reset subject scope all => exact Iff.rfl
  | consume key p clock =>
    unfold MapBounded FewRefilled
    dsimp only
    rw [length_eq_idle_add_busy _ clock, Nat.add_le_add_iff_right]
    change ((r.consume key p clock).2.buckets.entries.countP _ ≤ _) ↔ _
    by_cases hlimit : p.limit ≤ 0
    · rw [consume_unlimited hlimit, if_pos hlimit]
    · rw [if_neg hlimit]
      unfold consume
      rw [if_neg hlimit]
      dsimp only
      rw [Dict.countP_set]
      simp only [idle_take]

end

/-- A client comes twice. -/
def comesTwice : List BucketAct :=
  [0, 60].map fun clock => .consume (py "10.0.0.1", py "ip") { limit := 3 } clock

/-- A subject of its own for every number. -/
def mintedKey (i : ℕ) : BucketKey := (List.replicate i 0, py "ip")

/-- Two requests a minute. -/
def twoAMinute : BucketPolicy where
  limit := 2

/-- As many subjects come, each once and all at once. -/
def mint (n : ℕ) : List BucketAct := (List.range n).map fun i => .consume (mintedKey i) twoAMinute 0

/-- What one of them leaves. -/
def mintedBucket : LimitBucket := ⟨1, 0, 2, 2, 60⟩

theorem mintedKey_injective : Function.Injective mintedKey := fun i j h => by
  have hlength := congrArg List.length (Prod.mk.inj h).1
  rwa [List.length_replicate, List.length_replicate] at hlength

/-- What is left of some subjects. -/
def minted (n : ℕ) : BucketRegistry where
  buckets := {
    entries := (List.range n).map fun i => (mintedKey i, mintedBucket)
    nodup := by
      rw [List.map_map]
      exact List.nodup_range.map mintedKey_injective }

theorem minted_swept (n : ℕ) : (minted n).swept = minted n := by
  unfold swept
  split
  · refine congrArg BucketRegistry.mk (Dict.ext ?_)
    refine List.filter_eq_self.mpr fun entry he => ?_
    obtain ⟨i, -, rfl⟩ := List.mem_map.mp he
    have hused : mintedBucket.full = false := by decide +kernel
    exact congrArg not hused
  · rfl

theorem minted_new (n : ℕ) : mintedKey n ∉ (minted n).buckets.keys := by
  intro h
  obtain ⟨entry, he, hkey⟩ := List.mem_map.mp h
  obtain ⟨i, hi, rfl⟩ := List.mem_map.mp he
  exact (List.mem_range.mp hi).ne (mintedKey_injective hkey)

/-- One more subject. -/
theorem minted_consume (n : ℕ) (clock : ℚ) :
    ((minted n).consume (mintedKey n) twoAMinute clock).2.buckets.entries =
      (minted n).buckets.entries ++ [(mintedKey n, ⟨1, clock, 2, 2, 60⟩)] := by
  unfold consume
  rw [if_neg (by decide), minted_swept]
  dsimp only
  rw [Dict.entries_set_new _ (minted_new n)]
  unfold ready
  rw [Dict.get_eq_none.mpr (minted_new n)]
  refine congrArg (fun b => (minted n).buckets.entries ++ [(mintedKey n, b)]) ?_
  have hcapacity : ((twoAMinute.capacity : ℤ) : ℚ) = 2 := by decide +kernel
  unfold LimitBucket.take
  dsimp only
  rw [hcapacity, if_pos one_le_two]
  exact congrArg (fun tokens : ℚ => LimitBucket.mk tokens clock 2 2 60) (by norm_num)

theorem minted_mint (n : ℕ) : machine.exec {} (mint n) = some (minted n) := by
  induction n with
  | zero => rfl
  | succ n ih =>
    unfold mint at ih ⊢
    rw [List.range_succ, List.map_append, Machine.exec_append, ih]
    refine congrArg some (congrArg BucketRegistry.mk (Dict.ext ?_))
    refine (minted_consume n 0).trans ?_
    change _ = (List.range (n + 1)).map fun i => (mintedKey i, mintedBucket)
    rw [List.range_succ, List.map_append]
    rfl

/-- A minute after, every bucket is full but the one that has come now. -/
theorem minted_not_bounded {n : ℕ} (hn : sweepAt + 1 < n) : ¬ MapBounded
    ⟨minted n, .consume (mintedKey n) twoAMinute 60,
      ((minted n).consume (mintedKey n) twoAMinute 60).2⟩ := by
  intro h
  have hlength : (minted n).buckets.entries.length = n := by
    change ((List.range n).map _).length = n
    rw [List.length_map, List.length_range]
  have hidle : (minted n).busy 60 = 0 := by
    refine List.countP_eq_zero.mpr fun entry he => ?_
    obtain ⟨i, -, rfl⟩ := List.mem_map.mp he
    have hfull : mintedBucket.idle 60 = true := by decide +kernel
    rw [hfull]
    exact Bool.false_ne_true
  have hnew : [(mintedKey n, (⟨1, 60, 2, 2, 60⟩ : LimitBucket))].countP
      (fun entry => !entry.2.idle 60) = 1 := by
    have hbusy : (⟨1, 60, 2, 2, 60⟩ : LimitBucket).idle 60 = false := by decide +kernel
    rw [List.countP_singleton]
    exact if_pos (congrArg not hbusy)
  unfold MapBounded busy at h
  dsimp only at h
  unfold busy at hidle
  rw [minted_consume, List.length_append, hlength, List.countP_append, hidle, hnew,
    List.length_singleton] at h
  omega

theorem minted_run {n : ℕ} (hn : sweepAt + 1 < n) : ∃ es t, machine.Run {} es t ∧
    es.map Machine.Event.act = mint n ++ [.consume (mintedKey n) twoAMinute 60] ∧
    ¬ ∀ e ∈ es, MapBounded e := by
  obtain ⟨hmint, hacts⟩ := Machine.Run.of_events (minted_mint n)
  refine ⟨_, _, hmint.snoc (a := .consume (mintedKey n) twoAMinute 60) rfl, ?_, fun h => ?_⟩
  · rw [List.map_append, hacts]
    rfl
  · exact minted_not_bounded hn (h _ (List.mem_append_right _ (List.mem_singleton_self _)))

end LayaWatch
