import DesCartes.Impl.Explore.ReadyTask
import DesCartes.Impl.Program

/-!
# Running a simulation under policies (`des-explore/src/harness.rs`, `concurrency.rs`)

`Program.play` is the run of a simulation whose policies are those of exploration, with the recorder
they share.

`runReplayed` is the harness's `run_replayed`. What the `run` closure does with the simulation is
not modelled; it is known by the calls it leads to: those of the two policies, the events of
concurrency primitives and the random draws it records. Without the runtime, which the harness
installs, there are none of ready tasks or of primitives.
-/

namespace DesCartes

namespace Explore

/-- The policies of a simulation, and the recorder they share. -/
structure Policies (φ π : Type) where
  frontier : φ
  ready : π
  recorder : TraceRecorder

/-- A call of the frontier policy or of the ready-task policy. -/
def Policies.ask {φ π : Type} [TracedFrontierPolicy φ] [TracedReadyTaskPolicy π] (p : Policies φ π) : Question → Nat × Policies φ π
  | .frontier time events =>
    let (chosen, frontier, recorder) := TracedFrontierPolicy.choose p.frontier p.recorder time events
    (chosen, { p with frontier, recorder })
  | .ready time tasks =>
    let (chosen, ready, recorder) := TracedReadyTaskPolicy.choose p.ready p.recorder time tasks
    (chosen, { p with ready, recorder })

/-- A sequence of calls: the index, and what has become of the policies, after each. -/
def Policies.asks {φ π : Type} [TracedFrontierPolicy φ] [TracedReadyTaskPolicy π] (p : Policies φ π) :
    List Question → List (Nat × Policies φ π)
  | [] => []
  | q :: questions => p.ask q :: (p.ask q).2.asks questions

end Explore

/-- A run of `n` steps under the policies: the events that were popped, the code's state and the
simulation, and what has become of the policies. -/
def Program.play {κ ν φ π : Type} [Explore.TracedFrontierPolicy φ] [Explore.TracedReadyTaskPolicy π]
    (program : Program κ ν) (n : Nat)
    (k : κ) (w : World ν Unit Unit) (policies : Explore.Policies φ π) :
    (List (EventEntry (Payload ν)) × κ × World ν Unit Unit) × Explore.Policies φ π :=
  (program.run n k w).run Explore.Policies.ask policies

namespace Explore

/-! ## Concurrency events -/

/-- `ReplayConcurrencyError`. -/
inductive ReplayConcurrencyError where
  | outOfEvents (index : Nat)
  | mismatch (index : Nat) (expected actual : ConcurrencyTraceEvent)
deriving DecidableEq

/-- `ReplayConcurrencyValidator`. -/
structure ReplayConcurrencyValidator where
  expected : List ConcurrencyTraceEvent
  next : Nat
  error : Option ReplayConcurrencyError
deriving DecidableEq

namespace ReplayConcurrencyValidator

/-- `ReplayConcurrencyValidator::from_trace_events`. -/
def fromTraceEvents (events : List TraceEvent) : ReplayConcurrencyValidator :=
  ⟨events.filterMap TraceEvent.concurrency?, 0, none⟩

/-- `ReplayConcurrencyValidator::has_expected_events`. -/
def hasExpectedEvents (v : ReplayConcurrencyValidator) : Bool := !v.expected.isEmpty

/-- `ReplayConcurrencyValidator::record`, of the event as `to_trace_event` gives it. -/
def record (v : ReplayConcurrencyValidator) (actual : ConcurrencyTraceEvent) : ReplayConcurrencyValidator :=
  if v.error.isSome then v
  else
    match v.expected[v.next]? with
    | none => { v with error := some (.outOfEvents v.next) }
    | some expected =>
      if expected ≠ actual then { v with error := some (.mismatch v.next expected actual) }
      else { v with next := v.next + 1 }

end ReplayConcurrencyValidator

/-! ## Replayed runs -/

/-- What the run closure leads to. -/
inductive Call where
  | frontier (time : SimTime) (events : List FrontierEvent)
  | ready (time : SimTime) (tasks : List AsyncRuntime.TaskId)
  | concurrency (event : ConcurrencyTraceEvent)
  /-- A random draw is recorded. -/
  | draw (draw : RandomDraw)
deriving DecidableEq

namespace Call

/-- The choice that a frontier policy is given, if it is one. -/
def frontier? : Call → Option (SimTime × List FrontierEvent)
  | frontier time events => some (time, events)
  | _ => none

/-- The choice that a ready-task policy is given, if it is one. -/
def ready? : Call → Option (SimTime × List AsyncRuntime.TaskId)
  | ready time tasks => some (time, tasks)
  | _ => none

/-- The event of a primitive, if it is one. -/
def concurrency? : Call → Option ConcurrencyTraceEvent
  | concurrency event => some event
  | _ => none

/-- Whether it is one that there is without the runtime. -/
def untimed : Call → Bool
  | frontier .. => true
  | draw _ => true
  | _ => false

end Call

/-- What `run_replayed` uses of a `HarnessConfig`. -/
structure HarnessConfig where
  /-- Whether there is a `frontier`. -/
  frontier : Bool
  /-- Whether there is a `tokio_ready`. -/
  tokioReady : Bool
  installTokio : Bool
  recordConcurrency : Bool
deriving DecidableEq

/-- `HarnessReplayError`; of the errors of the harness only that the trace could not be written. -/
inductive HarnessReplayError where
  | traceIo
  | frontier (error : ReplayFrontierError)
  | tokioReady (error : ReplayReadyTaskError)
  | concurrency (error : ReplayConcurrencyError)
  | frontierConfigNotAllowed
  | tokioReadyConfigNotAllowed
  | panic (message : String)
deriving DecidableEq

/-- What `run_replayed` has installed. -/
structure Replayers where
  frontier : Option ReplayFrontierPolicy
  ready : Option ReplayReadyTaskPolicy
  concurrency : Option ReplayConcurrencyValidator
  recorder : TraceRecorder

namespace Replayers

/-- What is installed for a trace: a frontier policy if the trace has decisions of a frontier, and
with the runtime the ready-task policy and the validator. -/
def install (cfg : HarnessConfig) (inputTrace : List TraceEvent) : Replayers where
  frontier := if inputTrace.any (·.schedulerDecision?.isSome) then some (.fromTraceEvents inputTrace) else none
  ready := if cfg.installTokio then some (.fromTraceEvents inputTrace) else none
  concurrency := if cfg.installTokio then some (.fromTraceEvents inputTrace) else none
  recorder := []

/-- A call; the validator is given events only if it expects some. -/
def call (cfg : HarnessConfig) (r : Replayers) : Call → Replayers
  | .frontier time events => { r with frontier := r.frontier.map fun p => (p.choose time events).2 }
  | .ready time tasks => { r with ready := r.ready.map fun p => (p.choose time tasks).2 }
  | .concurrency event => { r with
      concurrency := r.concurrency.map fun v => if v.hasExpectedEvents then v.record event else v
      recorder := if cfg.recordConcurrency then r.recorder.record (.concurrency event) else r.recorder }
  | .draw draw => { r with recorder := r.recorder.record (.randomDraw draw) }

/-- The first error that a policy or the validator has stored. -/
def error (r : Replayers) : Option HarnessReplayError :=
  ((r.ready.bind (·.error)).map .tokioReady).or
    (((r.frontier.bind (·.error)).map .frontier).or ((r.concurrency.bind (·.error)).map .concurrency))

end Replayers

/-- The calls that there are of a run. -/
def callsOf (cfg : HarnessConfig) (calls : List Call) : List Call := if cfg.installTokio then calls else calls.filter Call.untimed

/-- `run_replayed`, of a run with the calls, which returns a value or panics; `written` says whether
the trace could be written. -/
def runReplayed {R : Type} (cfg : HarnessConfig) (inputTrace : List TraceEvent) (calls : List Call) (outcome : Except String R)
    (written : Bool) : Except HarnessReplayError (R × List TraceEvent) :=
  if cfg.frontier then .error .frontierConfigNotAllowed
  else if cfg.tokioReady then .error .tokioReadyConfigNotAllowed
  else
    let r := (callsOf cfg calls).foldl (Replayers.call cfg) (.install cfg inputTrace)
    match r.error with
    | some error => .error error
    | none =>
      match outcome with
      | .error message => .error (.panic message)
      | .ok result => if written then .ok (result, r.recorder) else .error .traceIo

end Explore

end DesCartes
