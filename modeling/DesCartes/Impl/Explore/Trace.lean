import DesCartes.Impl.AsyncRuntime
import DesCartes.Impl.F64
import DesCartes.Impl.Scheduler

/-!
# Traces of a run (`des-explore/src/trace.rs`)

The events that a `TraceRecorder` collects. A `u64` is a natural number; a `f64` is its bits. The
ids of `FrontierEntry`, which the source keeps as text, are kept as they are.
-/

namespace DesCartes.Explore

/-- `DrawValue`. -/
inductive DrawValue where
  | f64 (value : F64)
  | u64 (value : Nat)
  | bool (value : Bool)
  | string (value : String)
  | bytes (value : List (BitVec 8))
deriving DecidableEq

/-- `RandomDraw`. -/
structure RandomDraw where
  timeNanos : Option Nat
  tag : String
  siteId : Nat
  value : DrawValue
deriving DecidableEq

/-- `FrontierEntry`. -/
structure FrontierEntry where
  seq : Nat
  kind : FrontierEventKind
  componentId : Option Uuid
  taskId : Option DesCartes.TaskId
deriving DecidableEq

/-- `SchedulerDecision`. -/
structure SchedulerDecision where
  timeNanos : Nat
  chosenIndex : Nat
  chosenSeq : Option Nat
  frontierSeqs : List Nat
  frontier : List FrontierEntry
deriving DecidableEq

/-- `AsyncRuntimeDecision`. -/
structure AsyncRuntimeDecision where
  timeNanos : Nat
  chosenIndex : Nat
  chosenTaskId : Option Nat
  readyTaskIds : List Nat
deriving DecidableEq

/-- `AtomicOrdering`. -/
inductive AtomicOrdering where
  | relaxed
  | acquire
  | release
  | acqRel
  | seqCst
deriving DecidableEq

/-- `ConcurrencyEventKind`. -/
inductive ConcurrencyEventKind where
  | mutexContended (mutexId waiterCount : Nat)
  | mutexAcquire (mutexId : Nat)
  | mutexRelease (mutexId : Nat)
  | atomicLoad (siteId : Nat) (ordering : AtomicOrdering) (value : Nat)
  | atomicStore (siteId : Nat) (ordering : AtomicOrdering) (value : Nat)
  | atomicFetchAdd (siteId : Nat) (ordering : AtomicOrdering) (prev next delta : Nat)
  | atomicCompareExchange (siteId : Nat) (successOrder failureOrder : AtomicOrdering) (current expected new : Nat)
      (succeeded : Bool)
deriving DecidableEq

/-- `ConcurrencyTraceEvent`. -/
structure ConcurrencyTraceEvent where
  timeNanos : Option Nat
  taskId : Nat
  event : ConcurrencyEventKind
deriving DecidableEq

/-- `TraceEvent`. -/
inductive TraceEvent where
  | randomDraw (draw : RandomDraw)
  | schedulerDecision (decision : SchedulerDecision)
  | asyncRuntimeDecision (decision : AsyncRuntimeDecision)
  | concurrency (event : ConcurrencyTraceEvent)
deriving DecidableEq

namespace TraceEvent

/-- The draw that is recorded, if it is one. -/
def randomDraw? : TraceEvent → Option RandomDraw
  | randomDraw draw => some draw
  | _ => none

/-- The scheduler's decision that is recorded, if it is one. -/
def schedulerDecision? : TraceEvent → Option SchedulerDecision
  | schedulerDecision decision => some decision
  | _ => none

/-- The runtime's decision that is recorded, if it is one. -/
def asyncRuntimeDecision? : TraceEvent → Option AsyncRuntimeDecision
  | asyncRuntimeDecision decision => some decision
  | _ => none

/-- The event of a primitive that is recorded, if it is one. -/
def concurrency? : TraceEvent → Option ConcurrencyTraceEvent
  | concurrency event => some event
  | _ => none

end TraceEvent

/-- What a `TraceRecorder` has recorded, `Trace::events`. -/
abbrev TraceRecorder := List TraceEvent

/-- `TraceRecorder::record`. -/
def TraceRecorder.record (recorder : TraceRecorder) (event : TraceEvent) : TraceRecorder := recorder ++ [event]

/-- `to_frontier_entry`. -/
def toFrontierEntry (event : FrontierEvent) : FrontierEntry := ⟨event.seq, event.kind, event.componentId, event.taskId⟩

/-- `FrontierSignature::new`, the sequence numbers. -/
def seqs (frontier : List FrontierEvent) : List Nat := frontier.map (·.seq)

/-- The record of a frontier policy's choice. -/
def SchedulerDecision.realized (time : SimTime) (frontier : List FrontierEvent) (chosenIndex : Nat) : SchedulerDecision where
  timeNanos := time.nanos
  chosenIndex
  chosenSeq := frontier[chosenIndex]?.map (·.seq)
  frontierSeqs := seqs frontier
  frontier := frontier.map toFrontierEntry

/-- The record of a ready-task policy's choice. -/
def AsyncRuntimeDecision.realized (time : SimTime) (ready : List AsyncRuntime.TaskId) (chosenIndex : Nat) :
    AsyncRuntimeDecision where
  timeNanos := time.nanos
  chosenIndex
  chosenTaskId := ready[chosenIndex]?
  readyTaskIds := ready

end DesCartes.Explore
