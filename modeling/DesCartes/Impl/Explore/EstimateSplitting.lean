import DesCartes.Impl.Explore.Splitting

/-!
# Estimation by splitting (`des-explore/src/estimate.rs`)

`estimate_with_splitting` runs the particles of each level up to the end time or until the terminal
predicate holds, captures the trace of each where its score first reaches the threshold, and draws
the particles of the next level from the prefixes that were captured. A `Model` is what `setup`
builds, with its monitor and its recorder; nothing else is said of it. A run that panics or does not
come to its end has no result. The probabilities and the confidence interval, which are computed
from `stage_successes`, are left out.
-/

namespace DesCartes.Explore.Estimate

/-- `MonitorStatus`. -/
structure MonitorStatus where
  windowsSeen : Nat
  recovered : Bool
  metastable : Bool
  recoveryTime : Option Nat
  lastDistance : Option F64
  score : F64
deriving DecidableEq

/-- `Particle`. -/
structure Particle where
  /-- `prefix`. -/
  pre : Option (List TraceEvent)
  seed : BitVec 64

/-- `FoundCounterexample`. -/
structure FoundCounterexample where
  trace : List TraceEvent
  status : MonitorStatus

/-- What `estimate_with_splitting` uses of a `SplittingEstimateConfig`. -/
structure SplittingEstimateConfig where
  levels : List F64
  particles : Nat
  endTime : SimTime

/-- `SplittingEstimate`; `example`, which is `found` here, is a counterexample that was found. -/
structure SplittingEstimate where
  particles : Nat
  stageSuccesses : List Nat
  found : Option FoundCounterexample

/-- `EstimateError`. -/
inductive EstimateError where
  | zeroParticles
deriving DecidableEq

/-- `derive_seed`. -/
def deriveSeed (base i : BitVec 64) : BitVec 64 :=
  let x := base + i * 0x9E3779B97F4A7C15
  let x := (x ^^^ (x >>> 30)) * 0xBF58476D1CE4E5B9
  let x := (x ^^^ (x >>> 27)) * 0x94D049BB133111EB
  x ^^^ (x >>> 31)

/-- A simulation with its monitor and its recorder. -/
structure Model (κ : Type) where
  /-- `setup`, with the seed of the configuration, the prefix and the seed of the continuation. -/
  setup : BitVec 64 → Option (List TraceEvent) → BitVec 64 → Option κ
  /-- `Simulation::peek_next_event_time`. -/
  peekNextEventTime : κ → Option SimTime
  /-- `Simulation::time`. -/
  time : κ → SimTime
  /-- `Simulation::step`. -/
  step : κ → Option κ
  /-- `Monitor::flush_up_to`. -/
  flushUpTo : κ → SimTime → Option κ
  /-- `Monitor::status`. -/
  status : κ → MonitorStatus
  /-- `TraceRecorder::snapshot`. -/
  snapshot : κ → List TraceEvent

/-- What is left of a run: the simulation, the status that was returned, and the prefix that was captured. -/
structure Ended (κ : Type) where
  sim : κ
  status : MonitorStatus
  prefixAtThreshold : Option (List TraceEvent)

/-- What has come of the particles of a level. -/
structure Sampled where
  successful : List (List TraceEvent)
  found : Option FoundCounterexample

namespace Model

variable {κ : Type} (model : Model κ) (terminal : MonitorStatus → Bool) (fuel : Nat)

/-- `run_until_end_or`; `stop` has captured a prefix or not, and sees the recorder. -/
def runUntilEndOr (stop : Option (List TraceEvent) → κ → Bool × Option (List TraceEvent)) (endTime : SimTime) :
    Nat → Option (List TraceEvent) → κ → Option (Ended κ)
  | 0, _, _ => none
  | fuel + 1, captured, sim =>
    if (model.peekNextEventTime sim).isSome = true ∧ model.time sim < endTime then
      (model.step sim).bind fun sim => (model.flushUpTo sim (model.time sim)).bind fun sim =>
        let (stopped, captured) := stop captured sim
        if stopped then some ⟨sim, model.status sim, captured⟩ else runUntilEndOr stop endTime fuel captured sim
    else (model.flushUpTo sim endTime).map fun sim => ⟨sim, model.status sim, captured⟩

/-- The closure of a level. -/
def stopInLevel (threshold : F64) (captured : Option (List TraceEvent)) (sim : κ) : Bool × Option (List TraceEvent) :=
  if terminal (model.status sim) then (true, captured)
  else if captured = none ∧ F64.ge (model.status sim).score threshold = true then (false, some (model.snapshot sim))
  else (false, captured)

/-- The run of a particle. -/
def runParticle (stop : Option (List TraceEvent) → κ → Bool × Option (List TraceEvent)) (endTime : SimTime) (p : Particle) :
    Option (Ended κ) :=
  (model.setup p.seed p.pre p.seed).bind (model.runUntilEndOr stop endTime fuel none)

/-- The example, once there is one. -/
def foundIn (ended : Ended κ) (found : Option FoundCounterexample) : Option FoundCounterexample :=
  if terminal ended.status = true ∧ found = none then some ⟨model.snapshot ended.sim, ended.status⟩ else found

/-- The particles of a level, one after the other. -/
def sampleLevel (threshold : F64) (endTime : SimTime) : List Particle → Sampled → Option Sampled
  | [], sampled => some sampled
  | p :: particles, ⟨successful, found⟩ =>
    (model.runParticle fuel (model.stopInLevel terminal threshold) endTime p).bind fun ended =>
      sampleLevel threshold endTime particles
        ⟨successful ++ ended.prefixAtThreshold.toList, model.foundIn terminal ended found⟩

/-- The particles of the terminal stage: how many satisfy the predicate. -/
def sampleTerminal (endTime : SimTime) : List Particle → Nat × Option FoundCounterexample → Option (Nat × Option FoundCounterexample)
  | [], sampled => some sampled
  | p :: particles, (terminalSuccesses, found) =>
    (model.runParticle fuel (fun captured sim => (terminal (model.status sim), captured)) endTime p).bind fun ended =>
      sampleTerminal endTime particles
        (if terminal ended.status then terminalSuccesses + 1 else terminalSuccesses, model.foundIn terminal ended found)

end Model

/-- The particles of the next level. -/
def resample (seed : BitVec 64) (levelIndex particles : Nat) (successful : List (List TraceEvent)) : List Particle :=
  (List.range particles).map fun j =>
    let pick := (deriveSeed (seed ^^^ BitVec.ofNat 64 levelIndex) (BitVec.ofNat 64 j)).toNat % successful.length
    ⟨successful[pick]?, deriveSeed (seed ^^^ 0xD1B54A32D192ED03) (BitVec.ofNat 64 levelIndex <<< 32 ||| BitVec.ofNat 64 j)⟩

namespace Model

variable {κ : Type} (model : Model κ) (terminal : MonitorStatus → Bool) (fuel : Nat)
  (cfg : SplittingEstimateConfig) (seed : BitVec 64)

/-- The levels from an index on, and the terminal stage. -/
def runStages : Nat → List F64 → List Particle → List Nat → Option FoundCounterexample → Option SplittingEstimate
  | _, [], particles, stageSuccesses, found =>
    (model.sampleTerminal terminal fuel cfg.endTime particles (0, found)).map fun (terminalSuccesses, found) =>
      ⟨cfg.particles, stageSuccesses ++ [terminalSuccesses], found⟩
  | levelIndex, threshold :: levels, particles, stageSuccesses, found =>
    (model.sampleLevel terminal fuel threshold cfg.endTime particles ⟨[], found⟩).bind fun ⟨successful, found⟩ =>
      let stageSuccesses := stageSuccesses ++ [successful.length]
      if successful = [] then some ⟨cfg.particles, stageSuccesses, found⟩
      else runStages (levelIndex + 1) levels (resample seed levelIndex cfg.particles successful) stageSuccesses found

/-- The particles of the first level. -/
def firstParticles (particles : Nat) : List Particle :=
  (List.range particles).map fun i => ⟨none, deriveSeed seed (BitVec.ofNat 64 i)⟩

/-- `estimate_with_splitting`. -/
def estimateWithSplitting : Option (Except EstimateError SplittingEstimate) :=
  if cfg.particles = 0 then some (.error .zeroParticles)
  else (model.runStages terminal fuel cfg seed 0 cfg.levels (firstParticles seed cfg.particles) [] none).map .ok

end Model

end DesCartes.Explore.Estimate
