import DesCartes.Framework.Machine
import DesCartes.Impl.BurstyArrivals
import Mathlib.Tactic.Linarith
import Mathlib.Tactic.Ring

/-!
# Arrivals on a schedule

Bursts and quiet intervals alternate (`Schedule`). `next_arrival_time` keeps to the schedule when
the time that it draws ends in the current phase or in the next one (`Fits`); it does not where the
time ends the current phase exactly, since the draw is then made again and the rest of the phase is
not counted, nor where it goes beyond the next phase. Without quiet arrivals a time that is drawn in
a burst has to end with the quiet interval, as every draw of a quiet interval that is under way ends
it exactly.

* `Fits.next`, `WellDrawn.next`: one call; `position_of_run`: any number of them.
-/

namespace DesCartes

open Explore (F64)

/-! ## The schedule -/

/-- How long bursts and quiet intervals are. -/
structure Schedule where
  burst : Nat
  quiet : Nat

namespace Schedule

variable (c : Schedule)

/-- How long a phase is. -/
def duration : BurstPhase → Nat
  | .burst => c.burst
  | .quiet => c.quiet

/-- When the burst or the quiet interval with the number starts. -/
def start : BurstPhase → Nat → Nat
  | .burst, k => k * (c.burst + c.quiet)
  | .quiet, k => k * (c.burst + c.quiet) + c.burst

/-- At the time, one of the intervals of the phase has so much left. -/
def Position (time : Nat) (phase : BurstPhase) (remaining : Nat) : Prop :=
  ∃ k, c.start phase k ≤ time ∧ time + remaining = c.start phase k + c.duration phase

/-- The time is strictly inside a quiet interval. -/
def InQuiet (time : Nat) : Prop := ∃ k, c.start .quiet k < time ∧ time < c.start .quiet k + c.quiet

theorem start_succ (k : Nat) : c.start .burst (k + 1) = c.start .quiet k + c.quiet := by
  simp only [start]
  ring

variable {c} {time : Nat}

/-- A burst is not inside a quiet interval, its ends included. -/
theorem not_inQuiet {k : Nat} (hstart : c.start .burst k ≤ time) (hend : time ≤ c.start .quiet k) :
    ¬c.InQuiet time := by
  rintro ⟨k', hafter, hbefore⟩
  rw [← c.start_succ] at hbefore
  have hlt : k < k' + 1 := Nat.lt_of_mul_lt_mul_right (hstart.trans_lt hbefore)
  have hlt' : k' < k := Nat.lt_of_mul_lt_mul_right (Nat.lt_of_add_lt_add_right (hafter.trans_le hend))
  omega

end Schedule

namespace BurstyArrivals

variable {ρ : Type} [ExpSampler ρ]

/-! ## Conditions -/

/-- The time that is drawn ends in the current phase or, after its end, in the next one; at the end
of that one, if it is a quiet interval without arrivals. -/
def Fits (b : BurstyArrivals ρ) : Prop :=
  b.interArrival.1 < b.phaseRemaining ∨ b.phaseRemaining < b.interArrival.1 ∧
    b.interArrival.1 ≤ b.phaseRemaining + b.switchPhase.phaseRemaining ∧
      (b.currentPhase = .burst → b.quietDist = none → b.interArrival.1 = b.phaseRemaining + b.quietDuration)

/-- The times that are drawn in a call fit; at the end of a phase, the first one may be zero. -/
def WellDrawn (b : BurstyArrivals ρ) : Prop :=
  b.Fits ∨ b.phaseRemaining = 0 ∧ b.interArrival.1 = 0 ∧ b.interArrival.2.switchPhase.Fits

instance (b : BurstyArrivals ρ) : Decidable b.Fits := by
  unfold Fits
  infer_instance

instance (b : BurstyArrivals ρ) : Decidable b.WellDrawn := by
  unfold WellDrawn
  infer_instance

/-- A call. -/
def step (b : BurstyArrivals ρ) (depth : Nat) : Option (BurstyArrivals ρ × Nat) := b.nextArrivalTime depth

/-! ## One call -/

/-- What the calls keep, of arrivals without quiet ones or with them: at the time, the pattern is on
its schedule. -/
structure OnSchedule (c : Schedule) (silent : Bool) (time : Nat) (b : BurstyArrivals ρ) : Prop where
  burst : b.burstDuration = c.burst
  quiet : b.quietDuration = c.quiet
  quietDist : b.quietDist = none ↔ silent = true
  position : c.Position time b.currentPhase b.phaseRemaining
  outside : silent = true → ¬c.InQuiet time

variable {c : Schedule} {silent : Bool} {time : Nat} {b b' : BurstyArrivals ρ}

theorem interArrival_snd (b : BurstyArrivals ρ) : ∃ rng, b.interArrival.2 = { b with rng } := by
  rw [interArrival]
  split <;> split <;> exact ⟨_, rfl⟩

/-- A quiet interval without arrivals is drawn to its end. -/
theorem interArrival_of_silent (hphase : b.currentPhase = .quiet) (hsilent : b.quietDist = none) :
    b.interArrival.1 = b.phaseRemaining := by
  rw [interArrival, hphase, hsilent]

omit [ExpSampler ρ] in
theorem phaseRemaining_switchPhase (hburst : b.burstDuration = c.burst) (hquiet : b.quietDuration = c.quiet) :
    b.switchPhase.phaseRemaining = c.duration b.switchPhase.currentPhase := by
  rw [switchPhase]
  cases b.currentPhase with
  | burst => exact hquiet
  | quiet => exact hburst

omit [ExpSampler ρ] in
/-- The next phase starts when the current one ends. -/
theorem OnSchedule.switchPhase_start (h : OnSchedule c silent time b) :
    ∃ k, c.start b.switchPhase.currentPhase k = time + b.phaseRemaining := by
  obtain ⟨k, -, hk⟩ := h.position
  rw [switchPhase]
  cases hphase : b.currentPhase with
  | burst =>
    rw [hphase] at hk
    exact ⟨k, hk.symm⟩
  | quiet =>
    rw [hphase] at hk
    exact ⟨k + 1, (c.start_succ k).trans hk.symm⟩

omit [ExpSampler ρ] in
/-- The phases are switched, and some of the new one passes. -/
theorem OnSchedule.switched (h : OnSchedule c silent time b) {t : Nat} (ht : t ≤ b.switchPhase.phaseRemaining)
    (houtside : silent = true → ¬c.InQuiet (time + b.phaseRemaining + t)) :
    OnSchedule c silent (time + b.phaseRemaining + t)
      { b.switchPhase with phaseRemaining := b.switchPhase.phaseRemaining - t } := by
  have hremaining := phaseRemaining_switchPhase h.burst h.quiet
  obtain ⟨k, hk⟩ := h.switchPhase_start
  have hfields : b.switchPhase.burstDuration = b.burstDuration ∧
      b.switchPhase.quietDuration = b.quietDuration ∧
        b.switchPhase.quietDist = b.quietDist := by
    rw [switchPhase]
    split <;> exact ⟨rfl, rfl, rfl⟩
  refine ⟨hfields.1.trans h.burst, hfields.2.1.trans h.quiet, (by rw [hfields.2.2]; exact h.quietDist),
    ⟨k, ?_, ?_⟩, houtside⟩
  · show c.start b.switchPhase.currentPhase k ≤ _
    omega
  · show time + b.phaseRemaining + t + (b.switchPhase.phaseRemaining - t) =
      c.start b.switchPhase.currentPhase k + c.duration b.switchPhase.currentPhase
    omega

/-- Without quiet arrivals, the time that is drawn in a burst ends in the burst or with the next
quiet interval. -/
theorem OnSchedule.fits_outside (h : OnSchedule c silent time b) (hfits : b.Fits) (hsilent : silent = true) :
    ¬c.InQuiet (time + b.interArrival.1) := by
  have hnone := h.quietDist.mpr hsilent
  cases hphase : b.currentPhase with
  | quiet =>
    have hdraw := interArrival_of_silent hphase hnone
    rcases hfits with hlt | ⟨hlt, -⟩ <;> omega
  | burst =>
    obtain ⟨k, hk, hend⟩ := h.position
    rw [hphase] at hk hend
    rcases hfits with hlt | ⟨hlt, -, hends⟩
    · refine Schedule.not_inQuiet (k := k) (by omega) ?_
      show time + b.interArrival.1 ≤ c.start .burst k + c.duration .burst
      omega
    · have hends := hends hphase hnone
      have hquiet := h.quiet
      have hstart : time + b.interArrival.1 = c.start .burst (k + 1) := by
        rw [c.start_succ]
        show _ = c.start .burst k + c.duration .burst + c.quiet
        omega
      rw [hstart]
      exact Schedule.not_inQuiet le_rfl (Nat.le_add_right _ _)

/-- A time that fits is returned, and the pattern stays on its schedule. -/
theorem Fits.next (hfits : b.Fits) (h : OnSchedule c silent time b) (depth : Nat) :
    ∃ b', b.nextArrivalTime (depth + 1) = some (b', b.interArrival.1) ∧
    OnSchedule c silent (time + b.interArrival.1) b' := by
  have houtside := h.fits_outside hfits
  obtain ⟨rng, hrng⟩ := b.interArrival_snd
  rw [nextArrivalTime]
  simp only [hrng]
  rcases hfits with hlt | ⟨hlt, hle, -⟩
  · rw [if_neg (by omega)]
    refine ⟨_, rfl, h.burst, h.quiet, h.quietDist, ?_, houtside⟩
    obtain ⟨k, hk, hend⟩ := h.position
    refine ⟨k, hk.trans (Nat.le_add_right _ _), ?_⟩
    show time + b.interArrival.1 + (b.phaseRemaining - b.interArrival.1) =
      c.start b.currentPhase k + c.duration b.currentPhase
    omega
  · rw [if_pos (by omega), if_pos (by omega)]
    refine ⟨_, rfl, ?_⟩
    have htime :
        time + b.interArrival.1 = time + b.phaseRemaining + (b.interArrival.1 - b.phaseRemaining) := by omega
    have hrest : OnSchedule c silent time { b with rng } :=
      ⟨h.burst, h.quiet, h.quietDist, h.position, h.outside⟩
    have hswitch : ({ b with rng } : BurstyArrivals ρ).switchPhase.phaseRemaining =
        b.switchPhase.phaseRemaining := by
      rw [switchPhase, switchPhase]
      cases b.currentPhase <;> rfl
    rw [htime] at houtside ⊢
    exact hrest.switched (by omega) houtside

theorem nextArrivalTime_mono {depth : Nat} {r : BurstyArrivals ρ × Nat}
    (h : b.nextArrivalTime depth = some r) :
    b.nextArrivalTime (depth + 1) = some r := by
  induction depth generalizing b with
  | zero => cases h
  | succ depth ih =>
    simp only [nextArrivalTime] at h ⊢
    split at h
    · rename_i hle
      rw [if_pos hle]
      split at h
      · rename_i hlt
        rw [if_pos hlt]
        exact h
      · rename_i hlt
        rw [if_neg hlt]
        exact ih h
    · rename_i hlt
      rw [if_neg hlt]
      exact h

/-- A call whose times fit returns, if its recursion may go on once. -/
theorem WellDrawn.next (hdrawn : b.WellDrawn) (h : OnSchedule c silent time b) (depth : Nat) :
    ∃ b' t, b.nextArrivalTime (depth + 2) = some (b', t) ∧ OnSchedule c silent (time + t) b' := by
  rcases hdrawn with hfits | ⟨hend, hzero, hfits⟩
  · obtain ⟨b', hnext, h'⟩ := hfits.next h (depth + 1)
    exact ⟨b', _, hnext, h'⟩
  · obtain ⟨rng, hrng⟩ := b.interArrival_snd
    rw [nextArrivalTime]
    simp only [hrng] at hfits ⊢
    rw [if_pos (by omega), if_neg (by omega)]
    have hrest : OnSchedule c silent time { b with rng } :=
      ⟨h.burst, h.quiet, h.quietDist, h.position, h.outside⟩
    have hswitched := hrest.switched (Nat.zero_le _) (by simpa [hend] using h.outside)
    simp only [hend, Nat.add_zero, Nat.sub_zero] at hswitched
    obtain ⟨b', hnext, h'⟩ := hfits.next hswitched depth
    exact ⟨b', _, hnext, h'⟩

theorem WellDrawn.of_step (hdrawn : b.WellDrawn) (h : OnSchedule c silent time b) {depth t : Nat}
    (hstep : b.step depth = some (b', t)) : OnSchedule c silent (time + t) b' := by
  obtain ⟨b'', t', hnext, h'⟩ := hdrawn.next h depth
  cases (nextArrivalTime_mono (nextArrivalTime_mono hstep)).symm.trans hnext
  exact h'

omit [ExpSampler ρ] in
theorem onSchedule_new {burstDuration quietDuration : Nat} {burstRate quietRate : F64} {rng : ρ}
    (hnew : new burstDuration quietDuration burstRate quietRate rng = some b) :
    OnSchedule ⟨burstDuration, quietDuration⟩ (!F64.gt quietRate 0) 0 b := by
  rw [new] at hnew
  split at hnew
  · split at hnew
    · cases hnew
      refine ⟨rfl, rfl, ?_, ⟨0, by simp [Schedule.start], by simp [Schedule.start, Schedule.duration]⟩,
        fun _ => ?_⟩
      · cases F64.gt quietRate 0 <;> simp
      · exact Schedule.not_inQuiet (k := 0) (by simp [Schedule.start]) (Nat.zero_le _)
    · cases hnew
  · cases hnew

/-! ## Any number of calls -/

/-- After any calls whose times fit, the phase and what remains of it are the position of the sum of
the times that were returned; and without quiet arrivals, none of them is inside a quiet interval.
-/
theorem position_of_run {burstDuration quietDuration : Nat} {burstRate quietRate : F64} {rng : ρ} {depths times : List Nat}
    (hnew : new burstDuration quietDuration burstRate quietRate rng = some b)
    (hdrawn : Machine.Along (fun b _ => b.WellDrawn) step b depths) (hrun : Machine.run step b depths = some (b', times)) :
    (⟨burstDuration, quietDuration⟩ : Schedule).Position times.sum b'.currentPhase b'.phaseRemaining ∧
      (F64.gt quietRate 0 = false → ¬(⟨burstDuration, quietDuration⟩ : Schedule).InQuiet times.sum) := by
  have hstart : OnSchedule ⟨burstDuration, quietDuration⟩ (!F64.gt quietRate 0) ([] : List Nat).sum b :=
    onSchedule_new hnew
  have h : OnSchedule ⟨burstDuration, quietDuration⟩ (!F64.gt quietRate 0) times.sum b' := by
    refine hdrawn.history (P := fun b times => OnSchedule _ _ times.sum b)
      (fun b depth b' t times h hdrawn hstep => ?_) hstart hrun
    rw [List.sum_append, List.sum_singleton]
    exact hdrawn.of_step h hstep
  exact ⟨h.position, fun hrate => h.outside (by rw [hrate]; rfl)⟩

/-! ## Samples that are given -/

/-- The samples are the times of the list. -/
instance : ExpSampler (List Nat) := ⟨fun samples _ => (samples.headD 0, samples.tail)⟩

/-- Bursts of 10 ms with 1000 arrivals a second, and 100 ms without arrivals between them. -/
def silentBetween (samples : List Nat) : Option (BurstyArrivals (List Nat)) :=
  new 10000000 100000000 0x408F400000000000 0 samples

/-- The first time that is drawn is 20 ms, which is inside the quiet interval; then the 90 ms that
are left of it are not counted. -/
theorem not_position_silentBetween : ∃ b b' times, silentBetween [20000000, 1000000] = some b ∧
    Machine.run step b [2, 2] = some (b', times) ∧
    ¬(⟨10000000, 100000000⟩ : Schedule).Position times.sum b'.currentPhase b'.phaseRemaining ∧
    F64.gt 0 0 = false ∧ (⟨10000000, 100000000⟩ : Schedule).InQuiet times.sum := by
  refine ⟨_, _, _, rfl, rfl, ?_, by decide, ⟨0, by decide, by decide⟩⟩
  rintro ⟨k, -, hend⟩
  have hend : 21000000 + 9000000 = k * 110000000 + 10000000 := hend
  omega

theorem position_of_run_silentBetween : ∃ b b' times, silentBetween [3000000, 107000000, 4000000] = some b ∧
    Machine.run step b [2, 2, 2] = some (b', times) ∧
    (⟨10000000, 100000000⟩ : Schedule).Position times.sum b'.currentPhase b'.phaseRemaining ∧
    (F64.gt 0 0 = false → ¬(⟨10000000, 100000000⟩ : Schedule).InQuiet times.sum) := by
  refine ⟨_, _, _, rfl, rfl, position_of_run
    (show silentBetween [3000000, 107000000, 4000000] = some _ from rfl) ?_
    (show Machine.run step _ [2, 2, 2] = some _ from rfl)⟩
  decide

end BurstyArrivals

end DesCartes
