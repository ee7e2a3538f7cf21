import DesCartes.Impl.Explore.SharedReplayRng

/-!
# Multilevel splitting (`des-explore/src/splitting.rs`)

`find_with_splitting` runs particles, captures the trace of each where its score first reaches the
threshold of the level, and starts the particles of the next level with the traces that were
captured. The simulation that `setup` builds has its randomness from a `SharedChainedRandomProvider`
of the prefix and the seed; its monitor is part of its state. A run that does not come to its end is
given up after a number of steps (`Stopped.outOfFuel`).
-/

namespace DesCartes.Explore

/-- What splitting uses of a `MonitorStatus`. -/
structure MonitorStatus where
  metastable : Bool
  score : F64
deriving DecidableEq

/-- What `find_with_splitting` uses of a `SplittingConfig`. -/
structure SplittingConfig where
  levels : List F64
  branchFactor : Nat
  maxParticlesPerLevel : Nat
  endTime : SimTime

/-- `FoundBug`. -/
structure FoundBug where
  trace : List TraceEvent
  status : MonitorStatus
deriving DecidableEq

/-- `Particle`. -/
structure Particle where
  /-- `prefix`. -/
  pre : Option (List TraceEvent)
  continuationSeed : BitVec 64

/-- A simulation with its monitor. -/
structure MonitoredScenario (κ : Type) extends Scenario κ where
  /-- `Simulation::peek_next_event_time`. -/
  peekNextEventTime : κ → Option SimTime
  /-- `Simulation::time`. -/
  time : κ → SimTime
  /-- `Monitor::flush_up_to`. -/
  flushUpTo : κ → SimTime → κ
  /-- `Monitor::status`. -/
  status : κ → MonitorStatus

/-- Why there is no result. -/
inductive Stopped where
  | panic (panic : DrawPanic)
  | outOfFuel

/-- What is left of a run: the status, the prefix that was captured, and the trace. -/
structure Ran where
  status : MonitorStatus
  capturedPrefix : Option (List TraceEvent)
  trace : List TraceEvent

namespace MonitoredScenario

variable {κ : Type} (scenario : MonitoredScenario κ)

/-- A step, and the flush that follows it. -/
def watched : Scenario κ where
  setup := scenario.setup
  step k := (scenario.step k).bind fun k => .done (scenario.flushUpTo k (scenario.time k))

section
variable {γ : Type} [StdRng γ] (endTime : SimTime) (threshold : F64)

/-- `run_until_threshold_or_end`. -/
def runUntilThresholdOrEnd : Nat → κ → Shared (SharedChainedRandomProvider γ) → Option (List TraceEvent) → Except Stopped Ran
  | 0, _, _, _ => .error .outOfFuel
  | fuel + 1, k, shared, capturedPrefix =>
    if (scenario.peekNextEventTime k).isSome = true ∧ scenario.time k < endTime then
      match (scenario.watched.step k).tryRun Shared.perform shared with
      | .error panic => .error (.panic panic)
      | .ok t =>
        let status := scenario.status t.result
        if status.metastable then .ok ⟨status, capturedPrefix, t.state.recorder⟩
        else
          runUntilThresholdOrEnd fuel t.result t.state
            (if capturedPrefix = none ∧ F64.ge status.score threshold = true then some t.state.recorder else capturedPrefix)
    else .ok ⟨scenario.status (scenario.flushUpTo k endTime), capturedPrefix, shared.recorder⟩

/-- The run of a particle. -/
def runParticle (γ : Type) [StdRng γ] (fuel : Nat) (p : Particle) : Except Stopped Ran :=
  match scenario.setup.tryRun Shared.perform (⟨.new p.pre p.continuationSeed, []⟩ : Shared (SharedChainedRandomProvider γ)) with
  | .error panic => .error (.panic panic)
  | .ok t => scenario.runUntilThresholdOrEnd endTime threshold fuel t.result t.state none

end

/-- The continuations of a particle, put behind those of the next level as long as there is room. -/
def spawnContinuations (cfg : SplittingConfig) (threshold : F64) (pIndex : Nat) (p : Particle) (pre : List TraceEvent)
    (nextLevel : List Particle) : List Particle :=
  (List.range cfg.branchFactor).foldl (fun nextLevel i =>
    if cfg.maxParticlesPerLevel ≤ nextLevel.length then nextLevel
    else
      let seed := p.continuationSeed ^^^ (threshold * 0x9E3779B9) ^^^ (BitVec.ofNat 64 pIndex <<< 32) ^^^
        (BitVec.ofNat 64 i * 0xD1B54A32D192ED03)
      nextLevel ++ [⟨some pre, seed⟩]) nextLevel

variable (γ : Type) [StdRng γ] (fuel : Nat) (cfg : SplittingConfig)

/-- The particles of a level, from an index on: a bug, or the particles of the next level. -/
def runLevel (threshold : F64) : Nat → List Particle → List Particle → Except Stopped (FoundBug ⊕ List Particle)
  | _, [], nextLevel => .ok (.inr nextLevel)
  | pIndex, p :: particles, nextLevel =>
    match scenario.runParticle cfg.endTime threshold γ fuel p with
    | .error stopped => .error stopped
    | .ok ran =>
      if ran.status.metastable then .ok (.inl ⟨ran.trace, ran.status⟩)
      else
        match ran.capturedPrefix with
        | none => runLevel threshold (pIndex + 1) particles nextLevel
        | some pre => runLevel threshold (pIndex + 1) particles (spawnContinuations cfg threshold pIndex p pre nextLevel)

/-- The levels, each with the particles of the one before it. -/
def runLevels : List F64 → List Particle → Except Stopped (Option FoundBug)
  | [], _ => .ok none
  | threshold :: levels, particles =>
    match scenario.runLevel γ fuel cfg threshold 0 particles [] with
    | .error stopped => .error stopped
    | .ok (.inl bug) => .ok (some bug)
    | .ok (.inr []) => .ok none
    | .ok (.inr nextLevel) => runLevels levels nextLevel

/-- `find_with_splitting`. -/
def findWithSplitting (seed : BitVec 64) : Except Stopped (Option FoundBug) :=
  scenario.runLevels γ fuel cfg cfg.levels [⟨none, seed⟩]

end MonitoredScenario

end DesCartes.Explore
