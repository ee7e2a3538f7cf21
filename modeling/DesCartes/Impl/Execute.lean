import DesCartes.Framework.Loop
import DesCartes.Impl.Simulation

/-!
# Executors (`des-core/src/execute.rs`)

An executor steps the simulation until its end condition is met, and calls its side effect after
each step that found an event. The code that the `i`th of these steps runs, with the side effect
behind it, is given by `i`: an executor that takes over goes on in the same code. A loop that does
not end has no result.
-/

namespace DesCartes

open AsyncRuntime

/-- `EndCondition`. -/
inductive EndCondition where
  | time (time : SimTime)
  | noEvents
  | steps (steps : Nat)

/-- A simulation, and how many steps have found an event. -/
structure Execution (ν π φ : Type) where
  sim : World ν π φ
  executed : Nat

namespace Execution

variable {ν π φ : Type} [ReadyTaskPolicy π] [EventFrontierPolicy φ] (code : Nat → Script ν × List (Action ν))

/-- `step_fn`, of `run_with`. -/
def stepFn (s : Execution ν π φ) : Bool × Execution ν π φ :=
  let (result, sim) := s.sim.stepFn (code s.executed).1 (code s.executed).2
  (result, ⟨sim, if result then s.executed + 1 else s.executed⟩)

/-- The loop of `execute_until`, which looks at the first event before each step. -/
def untilStep (time : SimTime) (s : Execution ν π φ) : Bool × Execution ν π φ :=
  if s.sim.nextEventBy time then (true, (s.stepFn code).2) else (false, s)

/-- `execute_until`. -/
def executeUntil (time : SimTime) (fuel : Nat) (s : Execution ν π φ) : Option (Execution ν π φ) :=
  Loop.run (untilStep code time) fuel s

/-- `execute_until_empty`. -/
def executeUntilEmpty (fuel : Nat) (s : Execution ν π φ) : Option (Execution ν π φ) :=
  Loop.run (stepFn code) fuel s

/-- `execute_steps`. -/
def executeSteps (steps : Nat) (s : Execution ν π φ) : Execution ν π φ := Loop.times (stepFn code) steps s

/-- `run_with`. -/
def runWith (fuel : Nat) (endCondition : EndCondition) (s : Execution ν π φ) : Option (Execution ν π φ) :=
  match endCondition with
  | .time time => s.executeUntil code time fuel
  | .noEvents => s.executeUntilEmpty code fuel
  | .steps steps => some (s.executeSteps code steps)

end Execution

end DesCartes
