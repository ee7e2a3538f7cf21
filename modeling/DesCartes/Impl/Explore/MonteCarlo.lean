import DesCartes.Impl.Explore.PolicySearch

/-!
# Monte Carlo estimation (`des-explore/src/estimate.rs`)

`estimate_monte_carlo` runs a simulation for each trial, up to the end time or until the predicate
holds, and counts the runs whose last status satisfies it. What `setup` builds is a `Model`, as for
splitting, and the numbers that are computed with `f64` are parameters (`Stats`). A run that panics
or does not come to its end has no result.
-/

namespace DesCartes.Explore.Estimate

/-- What `estimate_monte_carlo` uses of a `MonteCarloConfig`. -/
structure MonteCarloConfig where
  trials : Nat
  endTime : SimTime
  confidence : F64
  trials_le : trials ≤ u64Max

/-- What `estimate_monte_carlo` returns of an `EstimateError`. -/
inductive MonteCarloError where
  | zeroTrials
deriving DecidableEq

/-- The seeds of the trials. -/
def trialSeeds (seed : BitVec 64) (trials : Nat) : List (BitVec 64) :=
  (List.range trials).map fun i => deriveSeed seed (BitVec.ofNat 64 i)

namespace Model

variable {κ : Type} (model : Model κ) (predicate : MonitorStatus → Bool) (fuel : Nat)

/-- The run of a trial. -/
def runTrial (endTime : SimTime) (seed : BitVec 64) : Option (Ended κ) :=
  (model.setup seed none seed).bind
    (model.runUntilEndOr (fun captured sim => (predicate (model.status sim), captured)) endTime fuel none)

/-- The loop of `estimate_monte_carlo` over the seeds of the trials: how many satisfy the predicate. -/
def runTrials (endTime : SimTime) : List (BitVec 64) → Nat → Option Nat
  | [], successes => some successes
  | seed :: seeds, successes =>
    (model.runTrial predicate fuel endTime seed).bind fun ended =>
      runTrials endTime seeds (if predicate ended.status then successes + 1 else successes)

/-- `estimate_monte_carlo`. -/
def estimateMonteCarlo (stats : Stats) (cfg : MonteCarloConfig) (seed : BitVec 64) :
    Option (Except MonteCarloError BernoulliEstimate) :=
  if cfg.trials = 0 then some (.error .zeroTrials)
  else
    (model.runTrials predicate fuel cfg.endTime (trialSeeds seed cfg.trials) 0).map fun successes =>
      let ci := stats.wilsonInterval successes cfg.trials cfg.confidence
      .ok ⟨cfg.trials, successes, stats.ratio successes cfg.trials, ci.map (·.1), ci.map (·.2)⟩

end Model

end DesCartes.Explore.Estimate
