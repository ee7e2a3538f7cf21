import DesCartes.Impl.Metrics.RequestTracker
import Mathlib.Algebra.Order.BigOperators.Group.List
import Mathlib.Algebra.Order.Round
import Mathlib.Data.List.GetD
import Mathlib.Tactic.GCongr

/-!
# Statistics of latencies

The index of a percentile grows with the percentile (`percentileIndex_mono`) and is never out of
range, so the percentiles are in the order of the sorted latencies. What the statistics are where
the sum of the latencies is a `u64` is `statsOf`; where it is not, the sum overflows
(`fromDurations_eq`).
-/

namespace DesCartes.Metrics

/-! ## Percentiles -/

/-- The index of a percentile among `n` entries. -/
def percentileIndex (n : Nat) (p : ℚ) : Nat := min (round (p / 100 * (n - 1 : Nat))).toNat (n - 1)

theorem percentileIndex_le (n : Nat) (p : ℚ) : percentileIndex n p ≤ n - 1 := Nat.min_le_right _ _

theorem percentileIndex_mono (n : Nat) {p q : ℚ} (h : p ≤ q) : percentileIndex n p ≤ percentileIndex n q := by
  have hscaled : p / 100 * (n - 1 : Nat) ≤ q / 100 * (n - 1 : Nat) := by gcongr
  have hround : round (p / 100 * (n - 1 : Nat)) ≤ round (q / 100 * (n - 1 : Nat)) := by
    rw [round_eq, round_eq]
    gcongr
  exact min_le_min_right _ (Int.toNat_le_toNat hround)

theorem percentile_eq {l : List Nat} (hl : l ≠ []) (p : ℚ) :
    percentile l p = some (l.getD (percentileIndex l.length p) 0) := by
  have hlength := List.length_pos_of_ne_nil hl
  have hindex := percentileIndex_le l.length p
  rw [percentile, if_neg hl, List.getD_eq_getElem?_getD]
  show l[percentileIndex l.length p]? = some (l[percentileIndex l.length p]?.getD 0)
  rw [List.getElem?_eq_getElem (by omega), Option.getD_some]

/-! ## The statistics -/

namespace LatencyStats

theorem sumU64_eq {l : List Nat} {total : Nat} (h : total ≤ u64Max) :
    sumU64 l total = if total + l.sum ≤ u64Max then some (total + l.sum) else none := by
  induction l generalizing total with
  | nil => rw [sumU64, List.sum_nil, Nat.add_zero, if_pos h]
  | cons n l ih =>
    rw [sumU64, List.sum_cons, ← Nat.add_assoc]
    split
    · rename_i hle
      exact ih hle
    · rename_i hgt
      rw [if_neg (by omega)]

/-- The statistics of durations, when nothing overflows. -/
def statsOf (φ : Type) [LatencyFloat φ] (durations : List Nat) : LatencyStats :=
  let sorted := durations.insertionSort (· ≤ ·)
  let mean := durations.sum / durations.length
  let ranked (p : ℚ) : Nat := sorted.getD (percentileIndex durations.length p) 0
  { mean, median := ranked 50, p50 := ranked 50, p95 := ranked 95, p99 := ranked 99, p999 := ranked (999 / 10)
    min := sorted.getD 0 0, max := sorted.getD (durations.length - 1) 0
    stdDev := stdDevOf φ sorted mean, count := durations.length }

variable {φ : Type} [LatencyFloat φ] {durations durations' : List Nat}

theorem fromDurations_eq (hne : durations ≠ []) (hbound : ∀ d ∈ durations, d ≤ u64Max) :
    fromDurations φ durations = if durations.sum ≤ u64Max then some (statsOf φ durations) else none := by
  have hperm := List.perm_insertionSort (· ≤ ·) durations
  have hlength : (durations.insertionSort (· ≤ ·)).length = durations.length := hperm.length_eq
  have hsorted : durations.insertionSort (· ≤ ·) ≠ [] :=
    fun hnil => hne (List.length_eq_zero_iff.mp (by rw [← hlength, hnil]; rfl))
  have hpos : 0 < durations.length := List.length_pos_of_ne_nil hne
  have hget : ∀ i, i < durations.length → (durations.insertionSort (· ≤ ·))[i]? = some
      ((durations.insertionSort (· ≤ ·)).getD i 0) := by
    intro i hi
    rw [List.getD_eq_getElem?_getD, List.getElem?_eq_getElem (by omega), Option.getD_some]
  -- the durations fit into words
  have hwords : (durations.insertionSort (· ≤ ·)).map (· % 2 ^ 64) = durations.insertionSort (· ≤ ·) := by
    refine (List.map_congr_left fun d hd => ?_).trans (List.map_id _)
    have := hbound d (hperm.mem_iff.mp hd)
    exact Nat.mod_eq_of_lt (Nat.lt_of_le_of_lt this (by decide))
  have hsum : sumU64 (durations.insertionSort (· ≤ ·)) 0 =
      if durations.sum ≤ u64Max then some durations.sum else none := by
    rw [sumU64_eq (Nat.zero_le _), Nat.zero_add, hperm.sum_eq]
  rw [fromDurations, if_neg hne]
  simp only [hlength, hget 0 hpos, hget (durations.length - 1) (Nat.sub_lt hpos Nat.one_pos), hwords,
    hsum, percentile_eq hsorted,
    Option.bind_eq_bind, Option.bind_some]
  split
  · rfl
  · rfl

/-- What is promised of the statistics of durations. -/
structure Faithful (durations : List Nat) (s : LatencyStats) : Prop where
  ordered : s.min ≤ s.p50 ∧ s.p50 ≤ s.p95 ∧ s.p95 ≤ s.p99 ∧ s.p99 ≤ s.p999 ∧ s.p999 ≤ s.max
  mem : ∀ p ∈ [s.median, s.p50, s.p95, s.p99, s.p999], p ∈ durations
  mean_eq : s.mean = durations.sum / durations.length
  mean_between : s.min ≤ s.mean ∧ s.mean ≤ s.max

theorem getD_sorted_mono {i j : Nat} (hij : i ≤ j) (hj : j < durations.length) :
    (durations.insertionSort (· ≤ ·)).getD i 0 ≤ (durations.insertionSort (· ≤ ·)).getD j 0 := by
  have hlength : (durations.insertionSort (· ≤ ·)).length = durations.length := List.length_insertionSort ..
  rw [List.getD_eq_getElem _ _ (by omega), List.getD_eq_getElem _ _ (by omega)]
  exact (List.pairwise_insertionSort (· ≤ ·) durations).rel_get_of_le (by simpa using hij)

theorem getD_sorted_mem {i : Nat} (hi : i < durations.length) :
    (durations.insertionSort (· ≤ ·)).getD i 0 ∈ durations := by
  have hlength : (durations.insertionSort (· ≤ ·)).length = durations.length := List.length_insertionSort ..
  rw [List.getD_eq_getElem _ _ (by omega)]
  exact (List.mem_insertionSort _).mp (List.getElem_mem _)

/-- The first entry of the sorted durations is the least, and the last one the greatest. -/
theorem sorted_between {d : Nat} (hd : d ∈ durations) : (durations.insertionSort (· ≤ ·)).getD 0 0 ≤ d ∧
    d ≤ (durations.insertionSort (· ≤ ·)).getD (durations.length - 1) 0 := by
  have hlength : (durations.insertionSort (· ≤ ·)).length = durations.length := List.length_insertionSort ..
  obtain ⟨i, hi, rfl⟩ := List.mem_iff_getElem.mp ((List.mem_insertionSort (· ≤ ·)).mpr hd)
  have hget : (durations.insertionSort (· ≤ ·)).getD i 0 = (durations.insertionSort (· ≤ ·))[i] :=
    List.getD_eq_getElem _ _ hi
  rw [← hget]
  exact ⟨getD_sorted_mono (Nat.zero_le i) (by omega), getD_sorted_mono (by omega) (by omega)⟩

theorem faithful_statsOf (hne : durations ≠ []) : Faithful durations (statsOf φ durations) := by
  have hpos : 0 < durations.length := List.length_pos_of_ne_nil hne
  have hindex : ∀ p, percentileIndex durations.length p < durations.length := fun p => by
    have := percentileIndex_le durations.length p
    omega
  have hmono : ∀ {p q : ℚ}, p ≤ q → (durations.insertionSort (· ≤ ·)).getD
      (percentileIndex durations.length p) 0 ≤
        (durations.insertionSort (· ≤ ·)).getD (percentileIndex durations.length q) 0 := fun h =>
    getD_sorted_mono (percentileIndex_mono _ h) (hindex _)
  refine ⟨⟨getD_sorted_mono (Nat.zero_le _) (hindex _), hmono (by norm_num), hmono (by norm_num),
    hmono (by norm_num),
    getD_sorted_mono (percentileIndex_le _ _) (Nat.sub_lt hpos Nat.one_pos)⟩, ?_, rfl, ?_, ?_⟩
  · simp only [List.forall_mem_cons]
    exact ⟨getD_sorted_mem (hindex _), getD_sorted_mem (hindex _), getD_sorted_mem (hindex _),
      getD_sorted_mem (hindex _),
      getD_sorted_mem (hindex _), fun _ h => absurd h List.not_mem_nil⟩
  · rw [statsOf, Nat.le_div_iff_mul_le hpos, Nat.mul_comm]
    exact List.card_nsmul_le_sum durations _ fun d hd => (sorted_between hd).1
  · exact Nat.div_le_of_le_mul (List.sum_le_card_nsmul durations _ fun d hd => (sorted_between hd).2)

theorem statsOf_perm (h : durations.Perm durations') : statsOf φ durations = statsOf φ durations' := by
  have hsorted : durations.insertionSort (· ≤ ·) = durations'.insertionSort (· ≤ ·) :=
    ((List.perm_insertionSort (· ≤ ·) durations).trans
      (h.trans (List.perm_insertionSort (· ≤ ·) durations').symm)).eq_of_pairwise'
      (List.pairwise_insertionSort _ _) (List.pairwise_insertionSort _ _)
  rw [statsOf, statsOf, hsorted, h.sum_eq, h.length_eq]

/-- The statistics are what is promised, in whichever order the durations come, exactly if the sum
of the durations is a `u64`. -/
theorem faithful_iff (φ : Type) [LatencyFloat φ] {durations : List Nat} (hne : durations ≠ [])
    (hbound : ∀ d ∈ durations, d ≤ u64Max) :
    (∃ s, Faithful durations s ∧ ∀ durations', durations.Perm durations' → fromDurations φ durations' = some s) ↔
      durations.sum ≤ u64Max := by
  constructor
  · rintro ⟨s, -, hall⟩
    by_contra hover
    have hsome := hall durations (.refl _)
    rw [fromDurations_eq hne hbound, if_neg hover] at hsome
    cases hsome
  · intro hsum
    refine ⟨statsOf φ durations, faithful_statsOf hne, fun durations' hperm => ?_⟩
    have hne' : durations' ≠ [] := fun hnil => hne (List.perm_nil.mp (hnil ▸ hperm))
    rw [fromDurations_eq hne' fun d hd => hbound d (hperm.mem_iff.mpr hd), ← hperm.sum_eq, if_pos hsum,
      statsOf_perm hperm]

/-! ## Two latencies -/

/-- Arithmetic that is not used. -/
instance : LatencyFloat Unit where
  zero := ()
  ofNat _ := ()
  add _ _ := ()
  sub _ _ := ()
  mul _ _ := ()
  div _ _ := ()
  sqrt _ := ()
  toU64 _ := 0

theorem faithful_iff_short : ∃ s, Faithful [3, 1, 2] s ∧ ∀ durations', [3, 1, 2].Perm durations' →
    fromDurations Unit durations' = some s :=
  (faithful_iff Unit (by decide) (by decide)).mpr (by decide)

/-- The sum of two latencies of `u64::MAX` nanoseconds overflows. -/
theorem not_faithful_long : fromDurations Unit [u64Max, u64Max] = none ∧ ¬∃ s, Faithful [u64Max, u64Max] s ∧
    ∀ durations', [u64Max, u64Max].Perm durations' → fromDurations Unit durations' = some s := by
  have hnone : fromDurations Unit [u64Max, u64Max] = none := by
    rw [fromDurations_eq (by decide) (by simp), if_neg (by decide)]
  refine ⟨hnone, ?_⟩
  rintro ⟨s, -, hall⟩
  cases hnone.symm.trans (hall _ (.refl _))

end LatencyStats

end DesCartes.Metrics
