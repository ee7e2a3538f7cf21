import DesCartes.Framework.Table
import DesCartes.Impl.AsyncRuntime

/-!
# The mutex (`des-tokio/src/sync/mutex.rs`)

`State` is what the lock inside a `MutexAsync` guards. A `Mutex` is the state together with what is
alive of it, the futures of `lock` and the guards, and with the parts of the installed runtime that it
uses: the policy that chooses a waiter (`choose_mutex_waiter`) and the recorder of concurrency events.
What the program does with it is a list of operations, each made in a `Context`; `step` performs one of
them, and panics where the code does.

A waker is known by what it wakes. Of each future of `lock` the waker of its last poll that was pending
is kept, and whether that has been woken since; these two are not part of the program.
-/

namespace DesCartes

/-- `WaiterInfo`. -/
structure WaiterInfo where
  waiterId : Nat
  taskId : AsyncRuntime.TaskId
deriving DecidableEq

/-- `MutexWaiterPolicy`: the index of the waiter to wake, and the policy afterwards. -/
class MutexWaiterPolicy (π : Type) where
  choose : π → SimTime → List WaiterInfo → Nat × π

/-- `FifoMutexWaiterPolicy`. -/
structure FifoMutexWaiterPolicy where
deriving DecidableEq

instance : MutexWaiterPolicy FifoMutexWaiterPolicy := ⟨fun policy _ _ => (0, policy)⟩

/-- What code sees of the thread: `current_task_id` and `current_sim_time`. -/
structure Context where
  taskId : Option AsyncRuntime.TaskId
  time : Option SimTime
deriving DecidableEq

/-- `current_time_nanos`. -/
def Context.timeNanos (cx : Context) : Option Nat := cx.time.map (·.nanos)

/-- `ConcurrencyEvent`, of a mutex. -/
inductive ConcurrencyEvent where
  | mutexContended (mutexId : Nat) (taskId : AsyncRuntime.TaskId) (timeNanos : Option Nat) (waiterCount : Nat)
  | mutexAcquire (mutexId : Nat) (taskId : AsyncRuntime.TaskId) (timeNanos : Option Nat)
  | mutexRelease (mutexId : Nat) (taskId : AsyncRuntime.TaskId) (timeNanos : Option Nat)
deriving DecidableEq

namespace Mutex

/-- `Waiter`. -/
structure Waiter (ω : Type) where
  waiterId : Nat
  taskId : AsyncRuntime.TaskId
  waker : ω
deriving DecidableEq

/-- `State`. -/
structure State (ω : Type) where
  locked : Bool
  ownerTaskId : Option AsyncRuntime.TaskId
  nextWaiterId : Nat
  waiters : List (Waiter ω)
deriving DecidableEq

/-- A future of `lock`. -/
structure LockFuture (ω : Type) where
  /-- The waker of its last poll, when that was pending. -/
  waker : Option ω
  /-- Whether that has been woken since. -/
  woken : Bool
deriving DecidableEq

/-- An operation on a mutex. -/
inductive Op (ω : Type) where
  | lock
  /-- `LockFuture::poll`. -/
  | poll (future : Nat) (waker : ω)
  /-- A future of `lock` is dropped before it is done. -/
  | dropFuture (future : Nat)
  | tryLock
  | dropGuard (guard : Nat)
  /-- Something else wakes a waker. -/
  | wake (waker : ω)
deriving DecidableEq

/-- What an operation returns. -/
inductive Answer where
  | done
  /-- A poll, and the new guard if there is one. -/
  | polled (result : Poll Nat)
  | tried (guard : Option Nat)
deriving DecidableEq

end Mutex

/-- `MutexAsync`, what is alive of it, and the installed runtime's policy and recorder. -/
structure Mutex (ω π : Type) where
  mutexId : Nat
  state : Mutex.State ω
  policy : π
  events : List ConcurrencyEvent
  futures : Table (Mutex.LockFuture ω)
  guards : Table Unit

namespace Mutex

variable {ω π : Type} [DecidableEq ω]

/-- `MutexAsync::new_with_id`. -/
def new (mutexId : Nat) (policy : π) : Mutex ω π :=
  ⟨mutexId, ⟨false, none, 0, []⟩, policy, [], .empty, .empty⟩

/-- `record_concurrency_event`. -/
def record (m : Mutex ω π) (event : ConcurrencyEvent) : Mutex ω π := { m with events := m.events ++ [event] }

/-- `Waker::wake`. -/
def wake (m : Mutex ω π) (waker : ω) : Mutex ω π :=
  { m with futures := m.futures.map fun f => if f.waker = some waker then { f with woken := true } else f }

/-- The mutex, which is not locked, is locked by the task, which gets a guard. -/
def acquire (m : Mutex ω π) (cx : Context) (taskId : AsyncRuntime.TaskId) : Mutex ω π :=
  { m with
    state := { m.state with locked := true, ownerTaskId := some taskId }
    guards := m.guards.insert () }.record (.mutexAcquire m.mutexId taskId cx.timeNanos)

/-- The mutex is found locked. -/
def contend (m : Mutex ω π) (cx : Context) (taskId : AsyncRuntime.TaskId) : Mutex ω π :=
  m.record (.mutexContended m.mutexId taskId cx.timeNanos m.state.waiters.length)

/-- A waiter for the task: its entry gets the waker, or it gets a new entry. -/
def State.enqueue (s : State ω) (taskId : AsyncRuntime.TaskId) (waker : ω) : State ω :=
  let waiterId := s.nextWaiterId
  let s := { s with nextWaiterId := s.nextWaiterId + 1 }
  match s.waiters.findIdx? (·.taskId = taskId) with
  | some k => { s with waiters := s.waiters.modify k fun w => { w with waker } }
  | none => { s with waiters := s.waiters ++ [⟨waiterId, taskId, waker⟩] }

/-- `LockFuture::poll`, of the future `i`. -/
def poll (m : Mutex ω π) (cx : Context) (i : Nat) (waker : ω) : Option (Mutex ω π × Answer) :=
  match m.futures.get i, cx.taskId with
  | none, _ => some (m, .done)
  | some _, none => none
  | some _, some taskId =>
    if m.state.locked then
      let m := m.contend cx taskId
      some ({ m with
        state := m.state.enqueue taskId waker
        futures := m.futures.set i ⟨some waker, false⟩ }, .polled .pending)
    else some ({ m.acquire cx taskId with futures := m.futures.erase i }, .polled (.ready m.guards.next))

/-- `MutexAsync::try_lock`. -/
def tryLock (m : Mutex ω π) (cx : Context) : Option (Mutex ω π × Answer) :=
  match cx.taskId with
  | none => none
  | some taskId =>
    if m.state.locked then some (m.contend cx taskId, .tried none)
    else some (m.acquire cx taskId, .tried (some m.guards.next))

/-- The index of the waiter that a release wakes: one out of range means the last. -/
def chosen [MutexWaiterPolicy π] (m : Mutex ω π) (cx : Context) : Nat × π :=
  let (chosen, policy) := MutexWaiterPolicy.choose m.policy (cx.time.getD .zero)
    (m.state.waiters.map fun w => ⟨w.waiterId, w.taskId⟩)
  (min chosen (m.state.waiters.length - 1), policy)

/-- `Drop for MutexGuard`, of the guard `g`. -/
def dropGuard [MutexWaiterPolicy π] (m : Mutex ω π) (cx : Context) (g : Nat) : Option (Mutex ω π × Answer) :=
  match m.guards.get g, cx.taskId with
  | none, _ => some (m, .done)
  | some _, none => none
  | some _, some taskId =>
    let m := { m with guards := m.guards.erase g }.record (.mutexRelease m.mutexId taskId cx.timeNanos)
    let m := { m with state := { m.state with locked := false, ownerTaskId := none } }
    if m.state.waiters = [] then some (m, .done)
    else
      let (chosen, policy) := m.chosen cx
      match m.state.waiters[chosen]? with
      | none => none
      | some waiter =>
        let m := { m with policy, state := { m.state with waiters := m.state.waiters.eraseIdx chosen } }
        some (m.wake waiter.waker, .done)

/-- One operation; none where it panics. -/
def step [MutexWaiterPolicy π] (m : Mutex ω π) : Context × Op ω → Option (Mutex ω π × Answer)
  | (_, .lock) => some ({ m with futures := m.futures.insert ⟨none, false⟩ }, .done)
  | (cx, .poll i waker) => m.poll cx i waker
  | (_, .dropFuture i) => some ({ m with futures := m.futures.erase i }, .done)
  | (cx, .tryLock) => m.tryLock cx
  | (cx, .dropGuard g) => m.dropGuard cx g
  | (_, .wake waker) => some (m.wake waker, .done)

end Mutex

end DesCartes
