import DesCartes.Impl.Explore.Frontier

/-!
# Ready-task policies of exploration (`des-explore/src/ready_task.rs`)

The counterparts of the frontier policies for the tasks of the runtime.
-/

namespace DesCartes.Explore

open AsyncRuntime (ReadyTaskPolicy)

/-- A ready-task policy with the shared recorder: the index it chooses, and what becomes of the two. -/
class TracedReadyTaskPolicy (π : Type) where
  choose : π → TraceRecorder → SimTime → List AsyncRuntime.TaskId → Nat × π × TraceRecorder

/-- The end of `choose`: the index is put into range, and recorded. -/
def recordReady {π : Type} (recorder : TraceRecorder) (time : SimTime) (ready : List AsyncRuntime.TaskId) (chosenIndex : Nat)
    (policy : π) : Nat × π × TraceRecorder :=
  let chosenIndex := min chosenIndex (ready.length - 1)
  (chosenIndex, policy, recorder.record (.asyncRuntimeDecision (.realized time ready chosenIndex)))

/-! ## Exploration -/

/-- `ExplorationReadyTaskPolicy`. -/
structure ExplorationReadyTaskPolicy (π : Type) where
  inner : π
  script : Option DecisionScript
  nextOrdinal : Nat

/-- `ExplorationReadyTaskPolicy::new`. -/
def ExplorationReadyTaskPolicy.new {π : Type} (inner : π) (script : Option DecisionScript) : ExplorationReadyTaskPolicy π :=
  ⟨inner, script, 0⟩

/-- `ExplorationReadyTaskPolicy::choose`. -/
def ExplorationReadyTaskPolicy.choose {π : Type} [ReadyTaskPolicy π] (policy : ExplorationReadyTaskPolicy π)
    (recorder : TraceRecorder) (time : SimTime) (ready : List AsyncRuntime.TaskId) :
    Nat × ExplorationReadyTaskPolicy π × TraceRecorder :=
  let key := .new .tokioReady time.nanos policy.nextOrdinal ready
  let (chosenIndex, inner) :=
    match forced policy.script key ready with
    | some pos => (pos, policy.inner)
    | none => ReadyTaskPolicy.choose policy.inner time ready
  recordReady recorder time ready chosenIndex { policy with inner, nextOrdinal := policy.nextOrdinal + 1 }

instance {π : Type} [ReadyTaskPolicy π] : TracedReadyTaskPolicy (ExplorationReadyTaskPolicy π) :=
  ⟨ExplorationReadyTaskPolicy.choose⟩

/-! ## Recording -/

/-- `RecordingReadyTaskPolicy`. -/
structure RecordingReadyTaskPolicy (π : Type) where
  inner : π

/-- `RecordingReadyTaskPolicy::choose`. -/
def RecordingReadyTaskPolicy.choose {π : Type} [ReadyTaskPolicy π] (policy : RecordingReadyTaskPolicy π)
    (recorder : TraceRecorder) (time : SimTime) (ready : List AsyncRuntime.TaskId) :
    Nat × RecordingReadyTaskPolicy π × TraceRecorder :=
  let (chosenIndex, inner) := ReadyTaskPolicy.choose policy.inner time ready
  recordReady recorder time ready chosenIndex ⟨inner⟩

instance {π : Type} [ReadyTaskPolicy π] : TracedReadyTaskPolicy (RecordingReadyTaskPolicy π) :=
  ⟨RecordingReadyTaskPolicy.choose⟩

/-! ## Replay -/

/-- `ReplayReadyTaskError`. -/
inductive ReplayReadyTaskError where
  | outOfDecisions (index timeNanos : Nat) (readyTaskIds : List Nat)
  | timeMismatch (index expected actual : Nat)
  | readySetMismatch (index timeNanos : Nat) (expected actual : List Nat)
  | chosenTaskNotFound (index timeNanos chosen : Nat) (ready : List Nat)
deriving DecidableEq

/-- `ReplayReadyTaskPolicy`. -/
structure ReplayReadyTaskPolicy where
  decisions : List AsyncRuntimeDecision
  next : Nat
  error : Option ReplayReadyTaskError
  fifoFallback : Bool
  warned : Bool
deriving DecidableEq

namespace ReplayReadyTaskPolicy

/-- `ReplayReadyTaskPolicy::from_trace_events`. -/
def fromTraceEvents (events : List TraceEvent) : ReplayReadyTaskPolicy :=
  let decisions := events.filterMap TraceEvent.asyncRuntimeDecision?
  ⟨decisions, 0, none, decisions.isEmpty, false⟩

/-- An error is stored, and the first task chosen. -/
def fail (policy : ReplayReadyTaskPolicy) (error : ReplayReadyTaskError) : Nat × ReplayReadyTaskPolicy :=
  (0, { policy with error := some error })

/-- `ReplayReadyTaskPolicy::choose`, once the decision has been found and its time and ids compared.
An index that is out of range is no error here. -/
def find (policy : ReplayReadyTaskPolicy) (index : Nat) (decision : AsyncRuntimeDecision) (ready : List AsyncRuntime.TaskId) :
    Nat × ReplayReadyTaskPolicy :=
  match decision.chosenTaskId with
  | some chosenTaskId =>
    match ready.idxOf? chosenTaskId with
    | some pos => (pos, policy)
    | none => policy.fail (.chosenTaskNotFound index decision.timeNanos chosenTaskId ready)
  | none => if ready = [] then (0, policy) else (min decision.chosenIndex (ready.length - 1), policy)

/-- `ReplayReadyTaskPolicy::choose`. -/
def choose (policy : ReplayReadyTaskPolicy) (time : SimTime) (ready : List AsyncRuntime.TaskId) : Nat × ReplayReadyTaskPolicy :=
  if policy.error.isSome then (0, policy)
  else if policy.fifoFallback then (0, { policy with warned := true })
  else
    let index := policy.next
    match policy.decisions[index]? with
    | none => policy.fail (.outOfDecisions index time.nanos ready)
    | some decision =>
      let policy := { policy with next := policy.next + 1 }
      if decision.timeNanos ≠ time.nanos then policy.fail (.timeMismatch index decision.timeNanos time.nanos)
      else if decision.readyTaskIds ≠ [] ∧ Vec.sortDedup decision.readyTaskIds ≠ Vec.sortDedup ready then
        policy.fail (.readySetMismatch index decision.timeNanos decision.readyTaskIds ready)
      else policy.find index decision ready

end ReplayReadyTaskPolicy

instance : TracedReadyTaskPolicy ReplayReadyTaskPolicy :=
  ⟨fun policy recorder time ready =>
    let (chosenIndex, policy) := policy.choose time ready
    (chosenIndex, policy, recorder)⟩

end DesCartes.Explore
