import Mathlib.Algebra.BigOperators.Intervals
import Mathlib.Algebra.Order.BigOperators.Group.Finset
import Mathlib.Algebra.Module.NatInt
import Mathlib.Order.Bounds.Basic
import Mathlib.Order.Interval.Finset.Nat

/-!
# Step functions

A quantity that is observed now and then, and keeps its value until it is observed again: a list of
observations, each a time and a value, the earliest first. Before the first observation the value is
zero.

`valueAt` is the value at a time and `integral` its integral. `seenFrom` and `seenIn` are the values
that one comes across from a time on: the one that it comes with (`valueBefore`), which may be gone at
the first instant, and those that are observed.

* `integral_append`: observations from the end of the interval on do not change it;
  `integral_of_le`: an interval that begins after the last observation;
* `seenFrom_concat`, `seenIn_append`: with one more observation, and with later ones;
* `seenIn_eq_valueAt`: these are the values on the interval, where there is no observation at its
  beginning and no two at one instant.
-/

namespace DesCartes.StepFunction

/-- Observations: times and values. -/
abbrev Observations := List (Nat × Nat)

/-- The value after all observations. -/
def last (obs : Observations) : Nat := (obs.getLast?.map (·.2)).getD 0

/-- The value at a time, its observations included. -/
def valueAt (obs : Observations) (t : Nat) : Nat := last (obs.filter (·.1 ≤ t))

/-- The value just before a time. -/
def valueBefore (obs : Observations) (t : Nat) : Nat := last (obs.filter (·.1 < t))

/-- The integral of the value from `a` to `b`. -/
def integral (obs : Observations) (a b : Nat) : Nat := ∑ t ∈ Finset.Ico a b, valueAt obs t

/-- The value just before `a`, and those that are observed from `a` on. -/
def seenFrom (obs : Observations) (a : Nat) : Set Nat := insert (valueBefore obs a) {v | ∃ t, a ≤ t ∧ (t, v) ∈ obs}

/-- The value just before `a`, and those that are observed from `a` on, before `b`. -/
def seenIn (obs : Observations) (a b : Nat) : Set Nat :=
  insert (valueBefore obs a) {v | ∃ t, a ≤ t ∧ t < b ∧ (t, v) ∈ obs}

variable {obs obs' : Observations} {a b c t v m : Nat}

@[simp] theorem last_nil : last [] = 0 := rfl

@[simp] theorem last_concat : last (obs ++ [(t, v)]) = v := by simp [last]

theorem last_le {bound : Nat} (h : ∀ o ∈ obs, o.2 ≤ bound) : last obs ≤ bound := by
  cases hl : obs.getLast? with
  | none => simp [last, hl]
  | some o => simpa [last, hl] using h o (List.mem_of_getLast? hl)

theorem valueAt_of_le (h : ∀ o ∈ obs, o.1 ≤ t) : valueAt obs t = last obs := by
  rw [valueAt, List.filter_eq_self.mpr fun o ho => decide_eq_true (h o ho)]

theorem valueBefore_of_lt (h : ∀ o ∈ obs, o.1 < t) : valueBefore obs t = last obs := by
  rw [valueBefore, List.filter_eq_self.mpr fun o ho => decide_eq_true (h o ho)]

theorem valueAt_append (h : ∀ o ∈ obs', t < o.1) : valueAt (obs ++ obs') t = valueAt obs t := by
  have hnil : obs'.filter (·.1 ≤ t) = [] := List.filter_eq_nil_iff.mpr fun o ho => by simpa using h o ho
  rw [valueAt, List.filter_append, hnil, List.append_nil, valueAt]

theorem valueBefore_append (h : ∀ o ∈ obs', t ≤ o.1) : valueBefore (obs ++ obs') t = valueBefore obs t := by
  have hnil : obs'.filter (·.1 < t) = [] := List.filter_eq_nil_iff.mpr fun o ho => by simpa using h o ho
  rw [valueBefore, List.filter_append, hnil, List.append_nil, valueBefore]

/-! ## Integrals -/

theorem integral_append (h : ∀ o ∈ obs', b ≤ o.1) : integral (obs ++ obs') a b = integral obs a b := by
  refine Finset.sum_congr rfl fun t ht => valueAt_append fun o ho => ?_
  exact (Finset.mem_Ico.mp ht).2.trans_le (h o ho)

theorem integral_add (hab : a ≤ b) (hbc : b ≤ c) : integral obs a b + integral obs b c = integral obs a c :=
  Finset.sum_Ico_consecutive _ hab hbc

theorem integral_of_le (h : ∀ o ∈ obs, o.1 ≤ a) : integral obs a b = last obs * (b - a) := by
  have hconst : ∀ t ∈ Finset.Ico a b, valueAt obs t = last obs := fun t ht =>
    valueAt_of_le fun o ho => (h o ho).trans (Finset.mem_Ico.mp ht).1
  rw [integral, Finset.sum_congr rfl hconst, Finset.sum_const, Nat.card_Ico, smul_eq_mul, Nat.mul_comm]

@[simp] theorem integral_self : integral obs a a = 0 := by simp [integral]

theorem integral_le {bound : Nat} (h : ∀ o ∈ obs, o.2 ≤ bound) : integral obs a b ≤ bound * (b - a) := by
  have hle : ∀ t ∈ Finset.Ico a b, valueAt obs t ≤ bound := fun t _ =>
    last_le fun o ho => h o (List.mem_of_mem_filter ho)
  calc integral obs a b ≤ (Finset.Ico a b).card • bound := Finset.sum_le_card_nsmul _ _ _ hle
    _ = bound * (b - a) := by rw [Nat.card_Ico, smul_eq_mul, Nat.mul_comm]

/-! ## Values that are seen -/

/-- One more observation. -/
theorem seenFrom_concat (hab : a ≤ b) : seenFrom (obs ++ [(b, v)]) a = insert v (seenFrom obs a) := by
  rw [seenFrom, seenFrom, valueBefore_append (List.forall_mem_singleton.mpr hab), Set.insert_comm]
  congr 1
  ext u
  simp only [Set.mem_ofPred_eq, List.mem_append, List.mem_singleton, Prod.mk.injEq, Set.mem_insert_iff]
  constructor
  · rintro ⟨t, hat, ht | ⟨-, rfl⟩⟩
    · exact .inr ⟨t, hat, ht⟩
    · exact .inl rfl
  · rintro (rfl | ⟨t, hat, ht⟩)
    · exact ⟨b, hab, .inr ⟨rfl, rfl⟩⟩
    · exact ⟨t, hat, .inl ht⟩

/-- After all observations only the last value is seen. -/
theorem seenFrom_of_lt (h : ∀ o ∈ obs, o.1 < a) : seenFrom obs a = {last obs} := by
  have hnone : {v | ∃ t, a ≤ t ∧ (t, v) ∈ obs} = (∅ : Set Nat) := by
    refine Set.eq_empty_of_forall_notMem fun v hv => ?_
    obtain ⟨t, hat, ht⟩ := hv
    exact absurd (h _ ht) (not_lt.mpr hat)
  rw [seenFrom, valueBefore_of_lt h, hnone, insert_empty_eq]

theorem last_mem_seenFrom : last obs ∈ seenFrom obs a := by
  rcases List.eq_nil_or_concat obs with rfl | ⟨obs, ⟨t, v⟩, rfl⟩
  · exact .inl rfl
  rw [List.concat_eq_append, last_concat]
  by_cases hat : a ≤ t
  · exact .inr ⟨t, hat, List.mem_append_right _ List.mem_cons_self⟩
  · have hkeep : [(t, v)].filter (·.1 < a) = [(t, v)] := List.filter_eq_self.mpr (by simpa using hat)
    left
    rw [valueBefore, List.filter_append, hkeep, last_concat]

/-- An interval that no observation goes beyond. -/
theorem seenIn_eq_seenFrom (h : ∀ o ∈ obs, o.1 < b) : seenIn obs a b = seenFrom obs a := by
  rw [seenIn, seenFrom]
  congr 1
  ext v
  exact ⟨fun ⟨t, hat, _, ht⟩ => ⟨t, hat, ht⟩, fun ⟨t, hat, ht⟩ => ⟨t, hat, h _ ht, ht⟩⟩

theorem seenIn_append (hab : a ≤ b) (h : ∀ o ∈ obs', b ≤ o.1) : seenIn (obs ++ obs') a b = seenIn obs a b := by
  rw [seenIn, seenIn, valueBefore_append fun o ho => hab.trans (h o ho)]
  congr 1
  ext v
  refine exists_congr fun t => and_congr_right fun _ => and_congr_right fun htb => ?_
  rw [List.mem_append]
  exact or_iff_left fun ht => absurd (h _ ht) (not_le.mpr htb)

/-- At the time of an observation the value is the one that is observed, if it is observed only once
then. -/
theorem valueAt_of_mem (hsorted : obs.Pairwise fun o o' => o.1 < o'.1) (ht : (t, v) ∈ obs) :
    valueAt obs t = v := by
  obtain ⟨before, later, rfl⟩ := List.append_of_mem ht
  obtain ⟨-, hlater, hbefore⟩ := List.pairwise_append.mp hsorted
  have hle : ∀ o ∈ before ++ [(t, v)], o.1 ≤ t := by
    refine List.forall_mem_append.mpr ⟨fun o ho => ?_, List.forall_mem_singleton.mpr le_rfl⟩
    exact (hbefore o ho _ List.mem_cons_self).le
  rw [List.append_cons, valueAt_append fun o ho => (List.pairwise_cons.mp hlater).1 o ho, valueAt_of_le hle,
    last_concat]

/-- The value at a time of the interval is seen in it. -/
theorem valueAt_mem_seenIn (hat : a ≤ t) (htb : t < b) : valueAt obs t ∈ seenIn obs a b := by
  have hbefore : valueBefore obs a = last ((obs.filter (·.1 ≤ t)).filter (·.1 < a)) := by
    rw [valueBefore, List.filter_filter]
    refine congrArg last (List.filter_congr fun o _ => ?_)
    by_cases ho : o.1 < a
    · simp [ho, (ho.trans_le hat).le]
    · simp [ho]
  have hmem : ∀ o ∈ obs.filter (·.1 ≤ t), o ∈ obs ∧ o.1 ≤ t := fun o ho => by simpa using ho
  rw [seenIn, valueAt, hbefore]
  generalize obs.filter (·.1 ≤ t) = seen at hmem
  rcases List.eq_nil_or_concat seen with rfl | ⟨seen, ⟨u, v⟩, rfl⟩
  · exact .inl rfl
  rw [List.concat_eq_append] at hmem ⊢
  obtain ⟨hu, hut⟩ := hmem (u, v) (List.mem_append_right _ List.mem_cons_self)
  rw [last_concat]
  by_cases hau : a ≤ u
  · exact .inr ⟨u, hau, lt_of_le_of_lt hut htb, hu⟩
  · have hkeep : [(u, v)].filter (·.1 < a) = [(u, v)] := List.filter_eq_self.mpr (by simpa using hau)
    left
    rw [List.filter_append, hkeep, last_concat]

/-- What is seen is what the quantity is on the interval, where it is not observed at the beginning
of it nor twice at one instant. -/
theorem seenIn_eq_valueAt (hab : a < b) (hsorted : obs.Pairwise fun o o' => o.1 < o'.1)
    (hne : ∀ o ∈ obs, o.1 ≠ a) :
    seenIn obs a b = {v | ∃ t, a ≤ t ∧ t < b ∧ valueAt obs t = v} := by
  ext v
  constructor
  · rintro (rfl | ⟨t, hat, htb, ht⟩)
    · refine ⟨a, le_rfl, hab, congrArg last (List.filter_congr fun o ho => ?_)⟩
      simp [le_iff_lt_or_eq, hne o ho]
    · exact ⟨t, hat, htb, valueAt_of_mem hsorted ht⟩
  · rintro ⟨t, hat, htb, rfl⟩
    exact valueAt_mem_seenIn hat htb

end DesCartes.StepFunction
