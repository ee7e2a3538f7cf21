import DesCartes.Impl.Explore.Monitor
import DesCartes.Impl.Explore.Trace
import DesCartes.Impl.Program

/-!
# The run loops (`des-explore/src/estimate.rs`, `policy_search.rs`, `splitting.rs`)

The loops that run one simulation with its monitor up to an end time: `run_until_end_or`, of which
estimation and policy search have the same text, and `run_until_threshold_or_end`. The monitor is
shared with the code of the simulation, so it is part of the state of its `Program`; `ask` is how
the policies of the simulation answer (`Policies.ask` for those of exploration). The predicate
`stop` has a state of its own, and a loop is followed for a number of iterations.
-/

namespace DesCartes

/-- `Simulation::peek_next_event_time`. -/
def World.peekNextEventTime {ν π φ : Type} (w : World ν π φ) : Option SimTime := w.scheduler.peek.map EventEntry.time

namespace Explore

/-- A simulation, the monitor that its code shares, and its policies. -/
structure Monitored (κ ν η σ : Type) where
  code : κ
  monitor : Monitor η
  world : World ν Unit Unit
  policies : σ

/-- What has come of a loop: the events that its steps have popped, and the status that it returns.
There is none while the loop goes on, nor where a flush of the monitor does not come to an end. -/
structure Outcome (ν : Type) where
  processed : List (EventEntry (Payload ν))
  status : Option Monitor.MonitorStatus

/-- What has come of a loop that has popped an event before. -/
def Outcome.after {ν : Type} (event : Option (EventEntry (Payload ν))) (o : Outcome ν) : Outcome ν :=
  { o with processed := event.toList ++ o.processed }

namespace Monitored

variable {κ ν η σ : Type} (program : Program (κ × Monitor η) ν) (ask : σ → Question → Nat × σ)

/-- `Simulation::step`, and the event it pops. -/
def step (s : Monitored κ ν η σ) : Option (EventEntry (Payload ν)) × Monitored κ ν η σ :=
  let ((event, (code, monitor), world), policies) := (program.step (s.code, s.monitor) s.world).run ask s.policies
  (event, { code, monitor, world, policies })

/-- The condition of the loops. -/
def goesOn (endTime : SimTime) (s : Monitored κ ν η σ) : Bool :=
  s.world.peekNextEventTime.isSome && s.world.now < endTime

variable [Histogram η]

/-- `flush_up_to(now)`. -/
def flush (s : Monitored κ ν η σ) (now : SimTime) : Option (Monitored κ ν η σ) :=
  (s.monitor.flushUpTo now).map fun monitor => { s with monitor }

/-- `run_until_end_or`. -/
def runUntilEndOr {ς : Type} (stop : ς → Monitor.MonitorStatus → Bool × ς) (endTime : SimTime) :
    Nat → ς → Monitored κ ν η σ → Outcome ν
  | 0, _, _ => ⟨[], none⟩
  | n + 1, p, s =>
    if s.goesOn endTime then
      let (event, s) := s.step program ask
      match s.flush s.world.now with
      | none => ⟨event.toList, none⟩
      | some s =>
        let status := s.monitor.status
        let (stopped, p) := stop p status
        if stopped then ⟨event.toList, some status⟩ else (runUntilEndOr stop endTime n p s).after event
    else ⟨[], (s.flush endTime).map (·.monitor.status)⟩

/-- `run_until_threshold_or_end`, with the prefix that it captures; `snapshot` is the trace of the
shared recorder. -/
def runUntilThresholdOrEnd (snapshot : Monitored κ ν η σ → List TraceEvent) (threshold : Float) (endTime : SimTime) :
    Nat → Option (List TraceEvent) → Monitored κ ν η σ → Outcome ν × Option (List TraceEvent)
  | 0, capturedPrefix, _ => (⟨[], none⟩, capturedPrefix)
  | n + 1, capturedPrefix, s =>
    if s.goesOn endTime then
      let (event, s) := s.step program ask
      match s.flush s.world.now with
      | none => (⟨event.toList, none⟩, capturedPrefix)
      | some s =>
        let status := s.monitor.status
        if status.metastable then (⟨event.toList, some status⟩, capturedPrefix)
        else
          let capturedPrefix :=
            if capturedPrefix = none ∧ threshold ≤ status.score then some (snapshot s) else capturedPrefix
          let (o, capturedPrefix) := runUntilThresholdOrEnd snapshot threshold endTime n capturedPrefix s
          (o.after event, capturedPrefix)
    else (⟨[], (s.flush endTime).map (·.monitor.status)⟩, capturedPrefix)

end Monitored

end Explore

end DesCartes
