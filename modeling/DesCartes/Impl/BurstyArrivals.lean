import DesCartes.Impl.F64

/-!
# Bursty arrivals (`des-core/src/dists.rs`)

Durations are in nanoseconds. Where the samples come from is a parameter (`ExpSampler`): the
generator, or the provider that is asked instead of it.
-/

namespace DesCartes

open Explore (F64)

/-- The samples of `rand_distr::Exp`, or of `sample_exp_seconds`, as durations. -/
class ExpSampler (ρ : Type) where
  sampleExp : ρ → F64 → Nat × ρ

/-- `BurstPhase`. -/
inductive BurstPhase where
  | burst
  | quiet
deriving DecidableEq

/-- `BurstyArrivals`. A distribution is its rate. -/
structure BurstyArrivals (ρ : Type) where
  burstDuration : Nat
  quietDuration : Nat
  currentPhase : BurstPhase
  phaseRemaining : Nat
  rng : ρ
  burstDist : Option F64
  quietDist : Option F64

namespace BurstyArrivals

variable {ρ : Type}

/-- `BurstyArrivals::new`; none where it panics. -/
def new (burstDuration quietDuration : Nat) (burstRate quietRate : F64) (rng : ρ) : Option (BurstyArrivals ρ) :=
  if F64.gt burstRate 0 then
    if F64.ge quietRate 0 then
      some { burstDuration, quietDuration, currentPhase := .burst, phaseRemaining := burstDuration, rng, burstDist := some burstRate
             quietDist := if F64.gt quietRate 0 then some quietRate else none }
    else none
  else none

variable [ExpSampler ρ]

/-- The time that is drawn in the current phase. -/
def interArrival (b : BurstyArrivals ρ) : Nat × BurstyArrivals ρ :=
  match b.currentPhase with
  | .burst =>
    match b.burstDist with
    | some rate =>
      let (time, rng) := ExpSampler.sampleExp b.rng rate
      (time, { b with rng })
    | none => (1000000000, b)
  | .quiet =>
    match b.quietDist with
    | some rate =>
      let (time, rng) := ExpSampler.sampleExp b.rng rate
      (time, { b with rng })
    | none => (b.phaseRemaining, b)

omit [ExpSampler ρ] in
/-- The phases are switched. -/
def switchPhase (b : BurstyArrivals ρ) : BurstyArrivals ρ :=
  match b.currentPhase with
  | .burst => { b with currentPhase := .quiet, phaseRemaining := b.quietDuration }
  | .quiet => { b with currentPhase := .burst, phaseRemaining := b.burstDuration }

/-- `next_arrival_time`, whose recursion goes so deep at most. -/
def nextArrivalTime (b : BurstyArrivals ρ) : Nat → Option (BurstyArrivals ρ × Nat)
  | 0 => none
  | depth + 1 =>
    let (interArrival, b) := b.interArrival
    if interArrival ≥ b.phaseRemaining then
      let remainingTime := interArrival - b.phaseRemaining
      let b := b.switchPhase
      if remainingTime > 0 then some ({ b with phaseRemaining := b.phaseRemaining - remainingTime }, interArrival)
      else b.nextArrivalTime depth
    else some ({ b with phaseRemaining := b.phaseRemaining - interArrival }, interArrival)

end BurstyArrivals

end DesCartes
