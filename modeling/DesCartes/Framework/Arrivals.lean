import Mathlib.Data.List.Nodup
import Mathlib.Data.List.Perm.Subperm

/-!
# Numbers that arrive in any order

What a receiver that takes numbers in their order knows of those that have arrived, oldest first:
which one it waits for.

* `firstMissing_eq_iff`: the least number that has not arrived.
-/

namespace DesCartes

/-- The least number from `start` on that has not arrived. -/
def firstMissing (start : Nat) (arrived : List Nat) : Nat :=
  ((List.range' start (arrived.length + 1)).find? fun i => i ∉ arrived).getD start

variable {start i : Nat} {arrived : List Nat}

theorem firstMissing_spec (start : Nat) (arrived : List Nat) : start ≤ firstMissing start arrived ∧
    firstMissing start arrived ∉ arrived ∧ ∀ j, start ≤ j → j < firstMissing start arrived → j ∈ arrived := by
  rw [firstMissing]
  cases hfind : (List.range' start (arrived.length + 1)).find? fun i => i ∉ arrived with
  | none =>
    -- there are more numbers in the range than have arrived
    have hall : List.range' start (arrived.length + 1) ⊆ arrived := fun j hj => by
      simpa using List.find?_eq_none.mp hfind j hj
    have hdistinct : (List.range' start (arrived.length + 1)).Nodup := List.nodup_range'
    have hlength := (hdistinct.subperm hall).length_le
    rw [List.length_range'] at hlength
    omega
  | some i =>
    obtain ⟨hi, hmem, hbefore⟩ := List.find?_range'_eq_some.mp hfind
    refine ⟨(List.mem_range'_1.mp hmem).1, of_decide_eq_true hi, fun j hle hlt => ?_⟩
    simpa using hbefore j hle hlt

theorem firstMissing_eq_iff :
    firstMissing start arrived = i ↔ start ≤ i ∧ i ∉ arrived ∧ ∀ j, start ≤ j → j < i → j ∈ arrived := by
  obtain ⟨hle, hnot, hbefore⟩ := firstMissing_spec start arrived
  constructor
  · rintro rfl
    exact ⟨hle, hnot, hbefore⟩
  · rintro ⟨hle', hnot', hbefore'⟩
    rcases Nat.lt_trichotomy (firstMissing start arrived) i with hlt | heq | hlt
    · exact absurd (hbefore' _ hle hlt) hnot
    · exact heq
    · exact absurd (hbefore i hle' hlt) hnot'

end DesCartes
