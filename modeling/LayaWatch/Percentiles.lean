import LayaWatch.Distribution
import LayaWatch.Lib.Ranks

/-!
# Percentiles

`percentile` sorts the sample and takes the value at `ceil(q * n) - 1`. What it returns is
the nearest rank (`percentile_ranked`): the least value of the sample with at least `q * n`
values at most it. That leaves no choice, so the rest follows from it (`nearest_rank`).
-/

namespace LayaWatch

open Ranks

/-- The place of a nearest rank is that of `q * n`. -/
theorem nearestRank_spec {n : ℕ} (hn : 0 < n) (q : Quantile) :
    (nearestRank n q : ℚ) < q.1 * n ∧ q.1 * n ≤ nearestRank n q + 1 := by
  have hpos : 0 < q.1 * n := mul_pos q.2.1 (by exact_mod_cast hn)
  have hone : 1 ≤ ⌈q.1 * n⌉ := Int.one_le_ceil_iff.mpr hpos
  have hplace : ((nearestRank n q : ℕ) : ℤ) = ⌈q.1 * n⌉ - 1 := by
    unfold nearestRank
    omega
  have hcast : (nearestRank n q : ℚ) = (⌈q.1 * n⌉ : ℚ) - 1 := by exact_mod_cast hplace
  have hle := Int.le_ceil (q.1 * n)
  have hlt := Int.ceil_lt_add_one (q.1 * n)
  rw [hcast]
  exact ⟨by linarith, by linarith⟩

/-- **`percentile` is the nearest rank.** -/
theorem percentile_ranked {values : List ℚ} (h : values ≠ []) (q : Quantile) :
    Ranked values (q.1 * values.length) (percentile values q) := by
  obtain ⟨hlt, heq⟩ := percentile_eq h q
  obtain ⟨hlow, hhigh⟩ := nearestRank_spec (List.length_pos_iff.mpr h) q
  have hsorted : (values.insertionSort (· ≤ ·)).Pairwise (· ≤ ·) :=
    List.pairwise_insertionSort _ _
  rw [heq]
  exact (ranked_getElem hsorted hlt hlow hhigh).perm (List.perm_insertionSort _ _)

/-- **Nearest-rank percentile.** The percentile of a sample is its element of rank `q * n`,
whatever the order of the sample; it increases with `q`, from the minimum to the maximum. -/
theorem nearest_rank (values : List ℚ) (h : values ≠ []) (q : Quantile) :
    Ranked values (q.1 * values.length) (percentile values q) ∧
      (∀ values' : List ℚ, values.Perm values' → percentile values' q = percentile values q) ∧
      (∀ q' : Quantile, q.1 ≤ q'.1 → percentile values q ≤ percentile values q') ∧
      (q.1 ≤ 1 / values.length → IsLeast {x | x ∈ values} (percentile values q)) ∧
      (1 - 1 / values.length < q.1 → IsGreatest {x | x ∈ values} (percentile values q)) := by
  have hranked := percentile_ranked h q
  have hn : (0 : ℚ) < values.length := by exact_mod_cast List.length_pos_iff.mpr h
  refine ⟨hranked, fun values' hperm => ?_, fun q' hq => ?_, fun hq => ?_, fun hq => ?_⟩
  · have h' : values' ≠ [] := fun hnil => h (List.perm_nil.mp (hnil ▸ hperm))
    have hranked' := percentile_ranked h' q
    rw [← hperm.length_eq] at hranked'
    exact hranked'.unique (hranked.perm hperm)
  · exact hranked.mono (percentile_ranked h q') (mul_le_mul_of_nonneg_right hq hn.le)
  · exact hranked.isLeast ((le_div_iff₀ hn).mp hq)
  · refine hranked.isGreatest ?_
    have hmul := mul_lt_mul_of_pos_right hq hn
    rwa [sub_mul, one_mul, div_mul_cancel₀ _ hn.ne'] at hmul

/-- The median of four values, two of them alike. -/
theorem nearest_rank_median :
    Ranked [3, 1, 2, 2] ((1 / 2 : ℚ) * ([3, 1, 2, 2] : List ℚ).length)
      (percentile [3, 1, 2, 2] (Pct.quantile .p50)) :=
  (nearest_rank [3, 1, 2, 2] (List.cons_ne_nil _ _) (Pct.quantile .p50)).1

end LayaWatch
