import Mathlib.Algebra.Order.Ring.Defs
import Mathlib.Data.Nat.Cast.Order.Ring
import Mathlib.Tactic.Linarith
import Mathlib.Tactic.Ring

/-!
# Token buckets

A bucket holds at most `burst` tokens, gets `rate` of them in a unit of time, and gives one to each
request that is admitted. `Metered` says what then holds of the times at which requests have been
admitted: in no interval there are more of them than a full bucket and what flows into it meanwhile
(`bounded`). What carries this is that whatever has been admitted since a time `s`, and what is
still in the bucket, was in it at `s` or came after `s` (`spent`).

* `Metered.refill`: time passes, and the bucket gets no more than is due;
* `Metered.take`: a request is admitted.
-/

namespace DesCartes.TokenBucket

variable {K : Type*} [LinearOrder K] {now s t : K} {times : List K}

/-- How many of the times are in the interval. -/
def countIn (s t : K) (times : List K) : Nat := times.countP fun x => s ≤ x ∧ x ≤ t

/-- An interval that ends after the last of the times might as well end with it. -/
theorem countIn_of_past (hpast : ∀ x ∈ times, x ≤ now) (s : K) (ht : now ≤ t) :
    countIn s t times = countIn s now times :=
  List.countP_congr fun x hx => by
    have hx := hpast x hx
    simp only [decide_eq_true_eq]
    exact and_congr_right fun _ => iff_of_true (hx.trans ht) hx

theorem countIn_eq_zero (hpast : ∀ x ∈ times, x ≤ now) (hs : now < s) (t : K) : countIn s t times = 0 :=
  List.countP_eq_zero.mpr fun x hx => by
    simp only [decide_eq_true_eq]
    exact fun h => absurd (hs.trans_le h.1) (hpast x hx).not_gt

theorem countIn_concat_of_mem (hs : s ≤ now) (ht : now ≤ t) :
    countIn s t (times ++ [now]) = countIn s t times + 1 := by
  rw [countIn, List.countP_append, List.countP_singleton, if_pos (decide_eq_true ⟨hs, ht⟩)]
  rfl

theorem countIn_concat_of_notMem (h : ¬(s ≤ now ∧ now ≤ t)) :
    countIn s t (times ++ [now]) = countIn s t times := by
  rw [countIn, List.countP_append, List.countP_singleton, if_neg (by simpa using h)]
  rfl

variable [CommRing K] [IsStrictOrderedRing K] {burst rate level : K}

/-- What holds of the times at which requests have been admitted, when there are `level` tokens at
the time `now`. -/
structure Metered (burst rate : K) (times : List K) (now level : K) : Prop where
  flows : 0 ≤ rate
  nonneg : 0 ≤ level
  le_burst : level ≤ burst
  past : ∀ x ∈ times, x ≤ now
  spent : ∀ s, s ≤ now → (countIn s now times : K) + level ≤ burst + rate * (now - s)
  bounded : ∀ s t, s ≤ t → (countIn s t times : K) ≤ burst + rate * (t - s)

/-- The bucket is full, and nothing has been admitted. -/
theorem metered_full (hburst : 0 ≤ burst) (hrate : 0 ≤ rate) (now : K) : Metered burst rate [] now burst where
  flows := hrate
  nonneg := hburst
  le_burst := le_rfl
  past _ hx := absurd hx List.not_mem_nil
  spent s hs := by
    have hflow := mul_nonneg hrate (sub_nonneg.mpr hs)
    simp only [countIn, List.countP_nil, Nat.cast_zero]
    linarith
  bounded s t hst := by
    have hflow := mul_nonneg hrate (sub_nonneg.mpr hst)
    simp only [countIn, List.countP_nil, Nat.cast_zero]
    linarith

/-- Time passes; what comes into the bucket is not more than is due. -/
theorem Metered.refill (h : Metered burst rate times now level) {now' level' : K}
    (hnow : now ≤ now') (hnonneg : 0 ≤ level') (hburst : level' ≤ burst)
    (hdue : level' ≤ level + rate * (now' - now)) : Metered burst rate times now' level' where
  flows := h.flows
  nonneg := hnonneg
  le_burst := hburst
  past x hx := (h.past x hx).trans hnow
  spent s hs := by
    rw [countIn_of_past h.past s hnow]
    rcases le_or_gt s now with hle | hlt
    · have hspent := h.spent s hle
      calc (countIn s now times : K) + level' ≤
        countIn s now times + level + rate * (now' - now) := by linarith
        _ ≤ burst + rate * (now - s) + rate * (now' - now) := by linarith
        _ = burst + rate * (now' - s) := by ring
    · have hflow := mul_nonneg h.flows (sub_nonneg.mpr hs)
      rw [countIn_eq_zero h.past hlt, Nat.cast_zero]
      linarith
  bounded := h.bounded

/-- A request is admitted. -/
theorem Metered.take (h : Metered burst rate times now level) (hlevel : 1 ≤ level) :
    Metered burst rate (times ++ [now]) now (level - 1) where
  flows := h.flows
  nonneg := sub_nonneg.mpr hlevel
  le_burst := (sub_le_self level zero_le_one).trans h.le_burst
  past x hx := by
    rcases List.mem_append.mp hx with hx | hx
    · exact h.past x hx
    · exact (List.mem_singleton.mp hx).le
  spent s hs := by
    have hspent := h.spent s hs
    rw [countIn_concat_of_mem hs le_rfl, Nat.cast_add, Nat.cast_one]
    linarith
  bounded s t hst := by
    by_cases hmem : s ≤ now ∧ now ≤ t
    · have hspent := h.spent s hmem.1
      have hflow : rate * (now - s) ≤ rate * (t - s) :=
        mul_le_mul_of_nonneg_left (sub_le_sub_right hmem.2 s) h.flows
      rw [countIn_concat_of_mem hmem.1 hmem.2, countIn_of_past h.past s hmem.2, Nat.cast_add, Nat.cast_one]
      linarith
    · rw [countIn_concat_of_notMem hmem]
      exact h.bounded s t hst

end DesCartes.TokenBucket
