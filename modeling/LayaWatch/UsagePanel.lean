import LayaWatch.BucketMap
import Mathlib.Data.List.Sort
import Mathlib.Algebra.Ring.Int.Parity

/-!
# The usage panel

`usage` of `auth/ratelimit.py` lists the buckets as their last call left them: it reads no
clock. The panel ought to list them refilled to the time it is read at. A bucket is shown
as it is now exactly if what it has gained since its last call does not show
(`usage_shows_present`).

Tokens and times are rational numbers here, and so is what is rounded.
-/

namespace LayaWatch

open BucketRegistry

/-! ## Rounding -/

/-- `round`: to the nearest integer, and to the even one of two. -/
def roundEven (x : ℚ) : ℤ :=
  if Int.fract x < 1 / 2 ∨ Int.fract x = 1 / 2 ∧ Even ⌊x⌋ then ⌊x⌋ else ⌊x⌋ + 1

/-- `round`, to two digits. -/
def roundHundredth (x : ℚ) : ℚ := roundEven (100 * x) / 100

/-- The number is on the upper side of the edge between what is rounded to `n` and to `n + 1`. -/
def AboveEdge (n : ℤ) (x : ℚ) : Prop := n + 1 / 2 < x ∨ x = n + 1 / 2 ∧ Odd n

instance (n : ℤ) (x : ℚ) : Decidable (AboveEdge n x) :=
  inferInstanceAs (Decidable (_ ∨ _))

theorem lt_roundEven {n : ℤ} {x : ℚ} : n < roundEven x ↔ AboveEdge n x := by
  have hfloor : (⌊x⌋ : ℚ) + Int.fract x = x := Int.floor_add_fract x
  have hlow := Int.fract_nonneg x
  have hhigh := Int.fract_lt_one x
  rcases lt_trichotomy n ⌊x⌋ with hless | rfl | hmore
  · have hstep : (n : ℚ) + 1 ≤ ⌊x⌋ := by exact_mod_cast hless
    have habove : AboveEdge n x := Or.inl (by linarith)
    refine iff_of_true ?_ habove
    unfold roundEven
    split <;> omega
  · unfold roundEven AboveEdge
    by_cases hdown : Int.fract x < 1 / 2 ∨ Int.fract x = 1 / 2 ∧ Even ⌊x⌋
    · rw [if_pos hdown]
      refine iff_of_false (lt_irrefl _) ?_
      rintro (hup | ⟨heq, hodd⟩)
      · rcases hdown with hdown | ⟨hdown, -⟩ <;> linarith
      · rcases hdown with hdown | ⟨-, heven⟩
        · linarith
        · exact Int.not_even_iff_odd.mpr hodd heven
    · rw [if_neg hdown]
      refine iff_of_true (lt_add_one _) ?_
      obtain ⟨hge, hodd⟩ := not_or.mp hdown
      rcases (not_lt.mp hge).lt_or_eq with hup | hhalf
      · exact Or.inl (by linarith)
      · refine Or.inr ⟨by linarith, Int.not_even_iff_odd.mp fun heven => ?_⟩
        exact hodd ⟨hhalf.symm, heven⟩
  · have hstep : (⌊x⌋ : ℚ) + 1 ≤ n := by exact_mod_cast hmore
    refine iff_of_false ?_ ?_
    · unfold roundEven
      split <;> omega
    · rintro (hup | ⟨heq, -⟩) <;> linarith

/-- Two numbers are rounded to the same one exactly if no edge parts them. -/
theorem roundEven_eq_iff {x y : ℚ} :
    roundEven x = roundEven y ↔ ∀ n : ℤ, AboveEdge n x ↔ AboveEdge n y := by
  constructor
  · intro h n
    rw [← lt_roundEven, ← lt_roundEven, h]
  · intro h
    refine eq_of_forall_lt_iff fun n => ?_
    rw [lt_roundEven, lt_roundEven, h n]

theorem roundHundredth_eq_iff {x y : ℚ} :
    roundHundredth x = roundHundredth y ↔ roundEven (100 * x) = roundEven (100 * y) := by
  unfold roundHundredth
  rw [div_left_inj' (by norm_num), Int.cast_inj]

theorem ceil_eq_iff_forall {x y : ℚ} : ⌈x⌉ = ⌈y⌉ ↔ ∀ n : ℤ, (n : ℚ) < x ↔ (n : ℚ) < y := by
  constructor
  · intro h n
    rw [← Int.lt_ceil, ← Int.lt_ceil, h]
  · intro h
    refine eq_of_forall_lt_iff fun n => ?_
    rw [Int.lt_ceil, Int.lt_ceil, h n]

/-! ## The rows of `usage` -/

/-- A row of the panel. -/
structure UsageRow where
  /-- `subject` and `scope` -/
  key : BucketKey
  /-- `used` -/
  used : ℚ
  /-- `limit` -/
  limit : ℤ
  /-- `resets_in` -/
  resetsIn : ℤ
  deriving DecidableEq

/-- The usage ratio that the rows are sorted by. -/
def UsageRow.ratio (row : UsageRow) : ℚ := row.used / row.limit

namespace LimitBucket

/-- `used`: what was taken and not refilled, at the last call. -/
def used (b : LimitBucket) : ℚ := b.burst - b.tokens

/-- What has been refilled since, or would be without the burst. -/
def gained (b : LimitBucket) (now : ℚ) : ℚ := (now - b.updated) * b.rate

/-- The row of a bucket, and none where next to nothing is used. -/
def usageRow (key : BucketKey) (b : LimitBucket) : Option UsageRow :=
  if b.used ≤ 1 / 10 ^ 9 then none
  else some ⟨key, roundHundredth b.used, b.limit, ⌈b.used / b.rate⌉⟩

end LimitBucket

/-- `usage`. -/
def BucketRegistry.usage (r : BucketRegistry) : List UsageRow :=
  (r.buckets.entries.filterMap fun entry => entry.2.usageRow entry.1).insertionSort
    fun a b => b.ratio ≤ a.ratio

/-! ## The present -/

/-- The row shows its bucket as it is now. -/
structure PresentRow (b : LimitBucket) (now : ℚ) (row : UsageRow) : Prop where
  /-- `limit` is the limit -/
  limit : row.limit = b.limit
  /-- `used` is what is missing now -/
  used : row.used = roundHundredth (b.burst - b.refilled now)
  /-- `resets_in` are the seconds from now until the bucket is full -/
  resetsIn : ∃ wait : ℚ, IsLeast {d : ℚ | 0 ≤ d ∧ (b.burst : ℚ) ≤ b.refilled (now + d)} wait ∧
    row.resetsIn = ⌈wait⌉

/-- The panel shows the present. -/
structure ShowsPresent (r : BucketRegistry) (now : ℚ) : Prop where
  /-- the subjects listed are those whose bucket is not full now -/
  listed : ∀ key, key ∈ r.usage.map UsageRow.key ↔
    ∃ b, r.buckets.get key = some b ∧ b.refilled now < b.burst
  /-- each of them once -/
  once : (r.usage.map UsageRow.key).Nodup
  /-- every row is that of its bucket now -/
  rows : ∀ row ∈ r.usage, ∀ b, r.buckets.get row.key = some b → PresentRow b now row
  /-- the most used first -/
  sorted : r.usage.Pairwise fun a b => b.ratio ≤ a.ratio

/-- What a bucket has gained since its last call does not show: one with next to nothing
used is full by now; any other is not, and its refill has passed no edge of the hundredths
and no whole second of the wait. -/
def LimitBucket.GainUnseen (b : LimitBucket) (now : ℚ) : Prop :=
  if b.used ≤ 1 / 10 ^ 9 then b.used ≤ b.gained now
  else b.gained now < b.used ∧
    (∀ n : ℤ, AboveEdge n (100 * b.used) ↔ AboveEdge n (100 * (b.used - b.gained now))) ∧
    ∀ seconds : ℤ, seconds * b.rate < b.used ↔ seconds * b.rate < b.used - b.gained now

/-! ## One bucket -/

namespace LimitBucket

variable {b : LimitBucket} {now : ℚ} {key : BucketKey} {row : UsageRow}

theorem refilled_eq : b.refilled now = min (b.burst : ℚ) (b.tokens + b.gained now) := rfl

/-- A bucket is not full while less has been gained than was used. -/
theorem refilled_lt_iff : b.refilled now < b.burst ↔ b.gained now < b.used := by
  rw [refilled_eq, min_lt_iff, or_iff_right (lt_irrefl _)]
  exact lt_sub_iff_add_lt'.symm

/-- What is missing now from a bucket that is not full. -/
theorem missing_eq (h : b.gained now < b.used) :
    b.burst - b.refilled now = b.used - b.gained now := by
  have hunder : b.tokens + b.gained now ≤ b.burst := (lt_sub_iff_add_lt'.mp h).le
  rw [refilled_eq, min_eq_right hunder]
  unfold used
  ring

theorem gained_add (d : ℚ) : b.gained (now + d) = b.gained now + d * b.rate := by
  unfold gained
  ring

/-- How long a bucket that is not full takes until it is. -/
theorem isLeast_wait (hrate : 0 < b.rate) (h : b.gained now < b.used) :
    IsLeast {d : ℚ | 0 ≤ d ∧ (b.burst : ℚ) ≤ b.refilled (now + d)}
      ((b.used - b.gained now) / b.rate) := by
  have hfull : ∀ d : ℚ, (b.burst : ℚ) ≤ b.refilled (now + d) ↔
      (b.used - b.gained now) / b.rate ≤ d := by
    intro d
    rw [← not_lt, refilled_lt_iff, not_lt, gained_add, div_le_iff₀ hrate, sub_le_iff_le_add']
  constructor
  · exact ⟨div_nonneg (sub_pos.mpr h).le hrate.le, (hfull _).mpr le_rfl⟩
  · rintro d ⟨-, hd⟩
    exact (hfull d).mp hd

theorem usageRow_eq_some : b.usageRow key = some row ↔ ¬b.used ≤ 1 / 10 ^ 9 ∧
    row = ⟨key, roundHundredth b.used, b.limit, ⌈b.used / b.rate⌉⟩ := by
  unfold usageRow
  split
  case isTrue h => exact iff_of_false (Option.some_ne_none _).symm fun hrow => hrow.1 h
  case isFalse h =>
    rw [Option.some_inj, and_iff_right h]
    exact eq_comm

/-- The wait until a bucket is full is what it is, and its ceiling is that of the row. -/
theorem ceil_wait_iff (hrate : 0 < b.rate) (h : b.gained now < b.used) (n : ℤ) :
    (∃ wait : ℚ, IsLeast {d : ℚ | 0 ≤ d ∧ (b.burst : ℚ) ≤ b.refilled (now + d)} wait ∧
      n = ⌈wait⌉) ↔ n = ⌈(b.used - b.gained now) / b.rate⌉ := by
  constructor
  · rintro ⟨wait, hwait, rfl⟩
    rw [hwait.unique (isLeast_wait hrate h)]
  · intro hn
    exact ⟨_, isLeast_wait hrate h, hn⟩

/-- The row of a bucket that is not full is the present one exactly if nothing of what the
bucket has gained shows. -/
theorem presentRow_iff (hrate : 0 < b.rate) (h : b.gained now < b.used) :
    PresentRow b now ⟨key, roundHundredth b.used, b.limit, ⌈b.used / b.rate⌉⟩ ↔
      (∀ n : ℤ, AboveEdge n (100 * b.used) ↔ AboveEdge n (100 * (b.used - b.gained now))) ∧
        ∀ seconds : ℤ, seconds * b.rate < b.used ↔
          seconds * b.rate < b.used - b.gained now := by
  have hused : roundHundredth b.used = roundHundredth (b.burst - b.refilled now) ↔
      ∀ n : ℤ, AboveEdge n (100 * b.used) ↔ AboveEdge n (100 * (b.used - b.gained now)) := by
    rw [missing_eq h, roundHundredth_eq_iff, roundEven_eq_iff]
  have hseconds : ⌈b.used / b.rate⌉ = ⌈(b.used - b.gained now) / b.rate⌉ ↔
      ∀ seconds : ℤ, seconds * b.rate < b.used ↔
        seconds * b.rate < b.used - b.gained now := by
    simp only [ceil_eq_iff_forall, lt_div_iff₀ hrate]
  constructor
  · intro hrow
    exact ⟨hused.mp hrow.used, hseconds.mp ((ceil_wait_iff hrate h _).mp hrow.resetsIn)⟩
  · rintro ⟨hedges, hwhole⟩
    exact ⟨rfl, hused.mpr hedges, (ceil_wait_iff hrate h _).mpr (hseconds.mpr hwhole)⟩

end LimitBucket

/-! ## The panel -/

namespace BucketRegistry

variable {r t : BucketRegistry} {now : ℚ} {key : BucketKey} {row : UsageRow} {b : LimitBucket}

/-- The rows are those of the buckets. -/
theorem mem_usage :
    row ∈ r.usage ↔ ∃ b, r.buckets.get row.key = some b ∧ b.usageRow row.key = some row := by
  have hkey : ∀ {key : BucketKey} {b : LimitBucket}, b.usageRow key = some row →
      row.key = key := by
    intro key b h
    rw [(LimitBucket.usageRow_eq_some.mp h).2]
  unfold usage
  rw [List.mem_insertionSort, List.mem_filterMap]
  constructor
  · rintro ⟨⟨key, b⟩, hmem, hrow⟩
    obtain rfl := hkey hrow
    exact ⟨b, Dict.get_eq_some.mpr hmem, hrow⟩
  · rintro ⟨b, hget, hrow⟩
    exact ⟨(row.key, b), Dict.get_eq_some.mp hget, hrow⟩

/-- The row of a bucket of which something is used. -/
theorem row_mem_usage (hget : r.buckets.get key = some b) (hused : ¬b.used ≤ 1 / 10 ^ 9) :
    ⟨key, roundHundredth b.used, b.limit, ⌈b.used / b.rate⌉⟩ ∈ r.usage :=
  mem_usage.mpr ⟨b, hget, LimitBucket.usageRow_eq_some.mpr ⟨hused, rfl⟩⟩

/-- The subjects that the panel lists. -/
theorem listed_iff : key ∈ r.usage.map UsageRow.key ↔
    ∃ b, r.buckets.get key = some b ∧ ¬b.used ≤ 1 / 10 ^ 9 := by
  simp only [List.mem_map, mem_usage]
  constructor
  · rintro ⟨row, ⟨b, hget, hrow⟩, rfl⟩
    exact ⟨b, hget, (LimitBucket.usageRow_eq_some.mp hrow).1⟩
  · rintro ⟨b, hget, hused⟩
    exact ⟨_, mem_usage.mp (row_mem_usage hget hused), rfl⟩

/-- No subject has two rows. -/
theorem nodup_usage : (r.usage.map UsageRow.key).Nodup := by
  have hperm := (List.perm_insertionSort (fun a b : UsageRow => b.ratio ≤ a.ratio)
    (r.buckets.entries.filterMap fun entry => entry.2.usageRow entry.1)).map UsageRow.key
  refine hperm.nodup_iff.mpr ?_
  refine List.Nodup.sublist ?_ r.buckets.nodup
  -- the keys of the rows are keys of the map, in its order
  induction r.buckets.entries with
  | nil => exact List.Sublist.slnil
  | cons entry rest ih =>
    rcases hrow : entry.2.usageRow entry.1 with _ | row
    · simp only [List.filterMap_cons, hrow]
      exact ih.trans (List.sublist_cons_self _ _)
    · obtain ⟨-, rfl⟩ := LimitBucket.usageRow_eq_some.mp hrow
      simp only [List.filterMap_cons, hrow, List.map_cons]
      exact ih.cons_cons _

theorem sorted_usage : r.usage.Pairwise fun a b => b.ratio ≤ a.ratio := by
  have : IsTrans UsageRow fun a b => b.ratio ≤ a.ratio := ⟨fun _ _ _ hab hbc => hbc.trans hab⟩
  have : Std.Total fun a b : UsageRow => b.ratio ≤ a.ratio := ⟨fun a b => le_total b.ratio a.ratio⟩
  exact List.pairwise_insertionSort _ _

/-- Every bucket refills. -/
def Refills (r : BucketRegistry) : Prop := ∀ key b, r.buckets.get key = some b → 0 < b.rate

/-- **One panel** shows the present exactly if nothing that a bucket has gained shows. -/
theorem showsPresent_iff (hrate : r.Refills) :
    ShowsPresent r now ↔ ∀ key b, r.buckets.get key = some b → b.GainUnseen now := by
  constructor
  · intro h key b hget
    have hlisted : ¬b.used ≤ 1 / 10 ^ 9 ↔ b.gained now < b.used := by
      have hkey := listed_iff.symm.trans (h.listed key)
      simp only [hget, Option.some.injEq, exists_eq_left'] at hkey
      exact hkey.trans LimitBucket.refilled_lt_iff
    unfold LimitBucket.GainUnseen
    split
    case isTrue hsmall => exact not_lt.mp fun hless => hlisted.mpr hless hsmall
    case isFalse hused =>
      have hmem := row_mem_usage hget hused
      have hless := hlisted.mp hused
      exact ⟨hless, (LimitBucket.presentRow_iff (hrate key b hget) hless).mp (h.rows _ hmem b hget)⟩
  · intro h
    have hlisted : ∀ key b, r.buckets.get key = some b →
        (¬b.used ≤ 1 / 10 ^ 9 ↔ b.gained now < b.used) := by
      intro key b hget
      have hunseen := h key b hget
      unfold LimitBucket.GainUnseen at hunseen
      split at hunseen
      case isTrue hsmall => exact iff_of_false (fun hno => hno hsmall) (not_lt.mpr hunseen)
      case isFalse hused => exact iff_of_true hused hunseen.1
    refine ⟨fun key => ?_, nodup_usage, fun row hrow b hget => ?_, sorted_usage⟩
    · rw [listed_iff]
      refine exists_congr fun b => and_congr_right fun hget => ?_
      rw [hlisted key b hget, LimitBucket.refilled_lt_iff]
    · obtain ⟨b', hget', heq⟩ := mem_usage.mp hrow
      obtain rfl := Option.some.inj (hget.symm.trans hget')
      obtain ⟨hused, hrow'⟩ := LimitBucket.usageRow_eq_some.mp heq
      have hunseen := h row.key b hget
      unfold LimitBucket.GainUnseen at hunseen
      rw [if_neg hused] at hunseen
      rw [hrow']
      exact (LimitBucket.presentRow_iff (hrate row.key b hget) hunseen.1).mpr hunseen.2

/-! ## Runs -/

theorem Refills.sub {r' : BucketRegistry} (h : r.Refills)
    (hget : ∀ key b, r'.buckets.get key = some b → r.buckets.get key = some b) : r'.Refills :=
  fun key b hb => h key b (hget key b hb)

theorem Refills.swept (h : r.Refills) : r.swept.Refills := by
  unfold BucketRegistry.swept
  split
  · exact h.sub fun key b hb => (Dict.get_of_get_filter hb).1
  · exact h

theorem rate_take : b.take.rate = b.rate := by
  unfold LimitBucket.rate
  rw [LimitBucket.take_limits.1, LimitBucket.take_limits.2.2]

theorem Refills.step {a : BucketAct} (h : r.Refills) : (r.step a).Refills := by
  cases a with
  | consume key p clock =>
    change (r.consume key p clock).2.Refills
    by_cases hlimit : p.limit ≤ 0
    · rw [consume_unlimited hlimit]
      exact h
    · intro key' b hb
      by_cases hkey : key' = key
      · subst hkey
        rw [get_consume (by omega)] at hb
        rw [← Option.some.inj hb, rate_take]
        have hpositive : (0 : ℚ) < p.limit := by exact_mod_cast not_le.mp hlimit
        exact div_pos hpositive p.positive
      · unfold consume at hb
        rw [if_neg hlimit] at hb
        exact h.swept key' b ((Dict.get_set_ne _ _ hkey).symm.trans hb)
  | reset subject scope all =>
    change (r.reset subject scope all).2.Refills
    unfold reset
    split
    · intro key b hb
      cases hb
    · exact h.sub fun key b hb => (Dict.get_of_get_filter hb).1

theorem refills_of_run {es : List BucketEvent} (hrun : machine.Run {} es t) : t.Refills := by
  refine (hrun.invariant (I := Refills) (G := fun _ _ => True) ?_ ?_ fun _ _ => trivial).1
  · rintro r a _ h - hstep
    obtain rfl : r.step a = _ := Option.some.inj hstep
    exact h.step
  · intro key b hb
    cases hb

end BucketRegistry

/-- **The usage panel**: after every run, and at every time, it shows the present exactly if
what the buckets have gained since their last calls does not show. -/
theorem usage_shows_present {es : List BucketEvent} {t : BucketRegistry}
    (hrun : machine.Run {} es t) (now : ℚ) :
    ShowsPresent t now ↔ ∀ key b, t.buckets.get key = some b → b.GainUnseen now :=
  showsPresent_iff (refills_of_run hrun)

/-- A bucket that something was just taken from. -/
theorem LimitBucket.gainUnseen_of_fresh {b : LimitBucket} {now : ℚ} (hnow : b.updated = now)
    (hused : 1 / 10 ^ 9 < b.used) : b.GainUnseen now := by
  have hgained : b.gained now = 0 := by
    rw [gained, hnow, sub_self, zero_mul]
  unfold GainUnseen
  rw [if_neg (not_le.mpr hused), hgained, sub_zero]
  exact ⟨lt_trans (by norm_num) hused, fun _ => Iff.rfl, fun _ => Iff.rfl⟩

theorem minute_positive : (0 : ℚ) < 60 := by norm_num

/-- One call, of a client that may come once a second. -/
def comesOnce : List BucketAct :=
  [.consume (py "10.0.0.1", py "ip") { limit := 60, positive := minute_positive } 0]

theorem usage_shows_present_once : ∃ es t, machine.Run {} es t ∧
    es.map Machine.Event.act = comesOnce ∧ ShowsPresent t 0 := by
  obtain ⟨hrun, hacts⟩ := Machine.Run.of_events (Machine.exec_final
    (M := machine) (s := {}) (l := comesOnce) (by decide +kernel))
  refine ⟨_, _, hrun, hacts, (usage_shows_present hrun 0).mpr fun key b hget => ?_⟩
  have hfresh : ∀ entry ∈ (machine.final {} comesOnce).buckets.entries,
      entry.2.updated = 0 ∧ 1 / 10 ^ 9 < entry.2.used := by decide +kernel
  obtain ⟨hnow, hused⟩ := hfresh (key, b) (Dict.get_eq_some.mp hget)
  exact LimitBucket.gainUnseen_of_fresh hnow hused

/-- A panel that lists a subject although every bucket is full. -/
theorem not_showsPresent_of_idle {r : BucketRegistry} {now : ℚ} {key : BucketKey}
    (hlisted : key ∈ r.usage.map UsageRow.key)
    (hidle : ∀ entry ∈ r.buckets.entries, entry.2.idle now = true) : ¬ShowsPresent r now := by
  intro h
  obtain ⟨b, hget, hnotFull⟩ := (h.listed key).mp hlisted
  have hfull := of_decide_eq_true (hidle (key, b) (Dict.get_eq_some.mp hget))
  exact absurd hnotFull (not_lt.mpr hfull)

/-- **The panel of the past**: a minute later the bucket is full, and still listed. -/
theorem usage_shows_past : ¬∀ (es : List BucketEvent) (t : BucketRegistry) (now : ℚ),
    machine.Run {} es t → ShowsPresent t now := by
  intro h
  obtain ⟨hrun, -⟩ := Machine.Run.of_events (Machine.exec_final
    (M := machine) (s := {}) (l := comesOnce) (by decide +kernel))
  have hlisted : (py "10.0.0.1", py "ip") ∈
      (machine.final {} comesOnce).usage.map UsageRow.key := by
    decide +kernel
  have hidle : ∀ entry ∈ (machine.final {} comesOnce).buckets.entries,
      entry.2.idle 60 = true := by
    decide +kernel
  exact not_showsPresent_of_idle hlisted hidle (h _ _ 60 hrun)

end LayaWatch
