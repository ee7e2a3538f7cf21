import DesCartes.Impl.Explore.Harness
import DesCartes.Impl.Sync.Mutex

/-!
# Atomics, and the recorder (`des-tokio/src/sync/atomic.rs`, `des-tokio/src/runtime.rs`,
`des-explore/src/concurrency.rs`)

`Primitives` are the atomics and the mutexes of a simulation, and the parts of the installed runtime that
they share: the policy that chooses a waiter of a mutex, and the recorder. What the program does with them
is a list of operations, each made in a `Context`; `step` performs one of them, and panics where the code
does. The event of an atomic is given as `to_trace_event` makes it. A mutex is given the policy for each
operation, and what it records there goes to the recorder.
-/

namespace DesCartes

open Explore (AtomicOrdering ConcurrencyEventKind ConcurrencyTraceEvent ReplayConcurrencyValidator
  TraceEvent TraceRecorder)

/-- `to_trace_event`, of an event of a mutex. -/
def ConcurrencyEvent.toTraceEvent : ConcurrencyEvent → ConcurrencyTraceEvent
  | mutexContended mutexId taskId timeNanos waiterCount =>
    ⟨timeNanos, taskId, .mutexContended mutexId waiterCount⟩
  | mutexAcquire mutexId taskId timeNanos => ⟨timeNanos, taskId, .mutexAcquire mutexId⟩
  | mutexRelease mutexId taskId timeNanos => ⟨timeNanos, taskId, .mutexRelease mutexId⟩

/-- `AtomicU64`. -/
structure AtomicU64 where
  siteId : Nat
  value : BitVec 64
deriving DecidableEq

namespace AtomicU64

/-- An operation on an atomic. -/
inductive Op where
  | load (ordering : AtomicOrdering)
  | store (value : BitVec 64) (ordering : AtomicOrdering)
  | fetchAdd (delta : BitVec 64) (ordering : AtomicOrdering)
  | compareExchange (expected new : BitVec 64) (success failure : AtomicOrdering)
deriving DecidableEq

/-- What an operation returns. -/
inductive Answer where
  | done
  | value (value : BitVec 64)
  | exchanged (result : Except (BitVec 64) (BitVec 64))
deriving DecidableEq

/-- `AtomicU64::load`. A load that releases panics. -/
def load (a : AtomicU64) (ordering : AtomicOrdering) : Option
    (AtomicU64 × Answer × ConcurrencyEventKind) :=
  if ordering = .release ∨ ordering = .acqRel then none
  else some (a, .value a.value, .atomicLoad a.siteId ordering a.value.toNat)

/-- `AtomicU64::store`. A store that acquires panics. -/
def store (a : AtomicU64) (value : BitVec 64) (ordering : AtomicOrdering) :
    Option (AtomicU64 × Answer × ConcurrencyEventKind) :=
  if ordering = .acquire ∨ ordering = .acqRel then none
  else some ({ a with value }, .done, .atomicStore a.siteId ordering value.toNat)

/-- `AtomicU64::fetch_add`. -/
def fetchAdd (a : AtomicU64) (delta : BitVec 64) (ordering : AtomicOrdering) :
    Option (AtomicU64 × Answer × ConcurrencyEventKind) :=
  let prev := a.value
  let next := prev + delta
  some ({ a with value := next }, .value prev,
    .atomicFetchAdd a.siteId ordering prev.toNat next.toNat delta.toNat)

/-- `AtomicU64::compare_exchange`. A failure that releases panics. -/
def compareExchange (a : AtomicU64) (expected new : BitVec 64) (success failure : AtomicOrdering) :
    Option (AtomicU64 × Answer × ConcurrencyEventKind) :=
  if failure = .release ∨ failure = .acqRel then none
  else
    let current := a.value
    let succeeded := current = expected
    some ({ a with value := if succeeded then new else current },
      .exchanged (if succeeded then .ok current else .error current),
      .atomicCompareExchange a.siteId success failure current.toNat expected.toNat new.toNat succeeded)

/-- One operation, and the event that it records; none where it panics. -/
def perform (a : AtomicU64) : Op → Option (AtomicU64 × Answer × ConcurrencyEventKind)
  | .load ordering => a.load ordering
  | .store value ordering => a.store value ordering
  | .fetchAdd delta ordering => a.fetchAdd delta ordering
  | .compareExchange expected new success failure => a.compareExchange expected new success failure

end AtomicU64

/-- `TeeConcurrencyRecorder`, of a `RecordingConcurrencyRecorder` and a validator if there is one. -/
structure TeeConcurrencyRecorder where
  trace : TraceRecorder
  validator : Option ReplayConcurrencyValidator
deriving DecidableEq

/-- `ConcurrencyRecorder::record`. -/
def TeeConcurrencyRecorder.record (r : TeeConcurrencyRecorder) (event : ConcurrencyTraceEvent) :
    TeeConcurrencyRecorder :=
  ⟨r.trace.record (.concurrency event), r.validator.map (·.record event)⟩

/-- The primitives, and what they share of the installed runtime. -/
structure Primitives (ω π : Type) where
  atomics : Table AtomicU64
  mutexes : Table (Mutex ω π)
  policy : π
  recorder : TeeConcurrencyRecorder

namespace Primitives

variable {ω π : Type} [DecidableEq ω]

/-- An operation on one of the primitives. -/
inductive Op (ω : Type) where
  | atomic (i : Nat) (op : AtomicU64.Op)
  | mutex (i : Nat) (op : Mutex.Op ω)
deriving DecidableEq

/-- What an operation returns. -/
inductive Answer where
  | atomic (answer : AtomicU64.Answer)
  | mutex (answer : Mutex.Answer)
deriving DecidableEq

/-- An operation on the atomic `i`. Outside of a task it panics. -/
def atomic (s : Primitives ω π) (cx : Context) (i : Nat) (op : AtomicU64.Op) :
    Option (Primitives ω π × Answer) :=
  match s.atomics.get i, cx.taskId with
  | some a, some taskId => (a.perform op).map fun r =>
    ({ s with atomics := s.atomics.set i r.1, recorder := s.recorder.record ⟨cx.timeNanos, taskId, r.2.2⟩ },
      .atomic r.2.1)
  | _, _ => none

/-- An operation on the mutex `i`, with the policy and the recorder of the runtime. -/
def mutex [MutexWaiterPolicy π] (s : Primitives ω π) (cx : Context) (i : Nat) (op : Mutex.Op ω) :
    Option (Primitives ω π × Answer) :=
  match s.mutexes.get i with
  | some m => (Mutex.step { m with policy := s.policy, events := [] } (cx, op)).map fun r =>
    ({ s with
      mutexes := s.mutexes.set i r.1
      policy := r.1.policy
      recorder := (r.1.events.map (·.toTraceEvent)).foldl TeeConcurrencyRecorder.record s.recorder },
      .mutex r.2)
  | none => none

/-- One operation; none where it panics, or there is no such primitive. -/
def step [MutexWaiterPolicy π] (s : Primitives ω π) : Context × Op ω → Option (Primitives ω π × Answer)
  | (cx, .atomic i op) => s.atomic cx i op
  | (cx, .mutex i op) => s.mutex cx i op

end Primitives

end DesCartes
