import DesCartes.Framework.BTreeMap
import DesCartes.Impl.Time
import DesCartes.Impl.Ids

/-!
# The data of the async runtime (`des-core/src/async_runtime.rs`)

A `DesRuntime` holds the tasks that were spawned, the queue of those that are ready, the two queues
of spawn requests its handles share, and the timers. The code of a task is not part of the model's
state: what a poll does is an input of the poll (`PollScript`), so a task is its `queued` flag and a
spawn request its id. Task ids are natural numbers, since a run does not spawn `2^64` tasks.
-/

namespace DesCartes.AsyncRuntime

/-- `async_runtime::TaskId`. -/
abbrev TaskId := Nat

/-- `RuntimeEvent`. -/
inductive RuntimeEvent where
  | poll
  | wake (taskId : TaskId)
  | cancel (taskId : TaskId)
  | registerTimer (taskId : TaskId) (deadline : SimTime)
  | cancelTimer (taskId : TaskId) (deadline : SimTime)
  | timerTick
deriving DecidableEq

/-- `ReadyTaskPolicy`: the index of the task to poll next, and the policy afterwards. -/
class ReadyTaskPolicy (π : Type) where
  choose : π → SimTime → List TaskId → Nat × π

/-- `FifoReadyTaskPolicy`. -/
structure FifoReadyTaskPolicy where
deriving DecidableEq

instance : ReadyTaskPolicy FifoReadyTaskPolicy := ⟨fun policy _ _ => (0, policy)⟩

/-- `Task`: whether it is in the ready queue. -/
structure Task where
  queued : Bool
deriving DecidableEq

/-- `DesRuntime`. -/
structure DesRuntime (π : Type) where
  nextTaskId : TaskId
  tasks : TaskId → Option Task
  readyQueue : List TaskId
  readyTaskPolicy : π
  spawnQueue : List TaskId
  spawnQueueLocal : List TaskId
  timers : BTreeMap SimTime (List TaskId)
  nextTimerDeadline : Option SimTime
  runtimeKey : Option Uuid

namespace DesRuntime

variable {π : Type}

/-- `DesRuntime::new`, under the given policy. -/
def new (policy : π) : DesRuntime π where
  nextTaskId := 0
  tasks := fun _ => none
  readyQueue := []
  readyTaskPolicy := policy
  spawnQueue := []
  spawnQueueLocal := []
  timers := .empty
  nextTimerDeadline := none
  runtimeKey := none

/-- `DesRuntime::set_ready_task_policy`. -/
def setReadyTaskPolicy (rt : DesRuntime π) (policy : π) : DesRuntime π := { rt with readyTaskPolicy := policy }

/-- A task is installed: it becomes ready. -/
def insertReady (rt : DesRuntime π) (taskId : TaskId) : DesRuntime π :=
  { rt with
    tasks := Function.update rt.tasks taskId (some ⟨true⟩)
    readyQueue := rt.readyQueue ++ [taskId] }

/-- `DesRuntime::spawn`. -/
def spawn (rt : DesRuntime π) : DesRuntime π :=
  { rt with nextTaskId := rt.nextTaskId + 1 }.insertReady rt.nextTaskId

/-- The two loops of `poll_ready_tasks` that install the spawn requests. -/
def drainSpawnQueues (rt : DesRuntime π) : DesRuntime π :=
  let rt := { rt.spawnQueue.foldl insertReady rt with spawnQueue := [] }
  { rt.spawnQueueLocal.foldl insertReady rt with spawnQueueLocal := [] }

/-- `DesRuntime::wake_task`. -/
def wakeTask (rt : DesRuntime π) (taskId : TaskId) : DesRuntime π :=
  match rt.tasks taskId with
  | none => rt
  | some task =>
    if task.queued then rt
    else
      { rt with
        tasks := Function.update rt.tasks taskId (some { task with queued := true })
        readyQueue := rt.readyQueue ++ [taskId] }

/-- `task.queued = false`, before the task is polled. -/
def unqueue (rt : DesRuntime π) (taskId : TaskId) (task : Task) : DesRuntime π :=
  { rt with tasks := Function.update rt.tasks taskId (some { task with queued := false }) }

/-- The tasks registered at a deadline. -/
def timersAt (rt : DesRuntime π) (deadline : SimTime) : List TaskId := (rt.timers.get? deadline).getD []

/-- `register_timer` on the timers: `timers.entry(deadline).or_default().push(task_id)`. -/
def pushTimer (rt : DesRuntime π) (taskId : TaskId) (deadline : SimTime) : DesRuntime π :=
  { rt with timers := rt.timers.insert deadline (rt.timersAt deadline ++ [taskId]) }

/-- `retain` on the tasks of one deadline: none are left to keep when it empties the list. -/
def retainNot (taskId : TaskId) (tasks : List TaskId) : Option (List TaskId) :=
  match tasks.filter (· ≠ taskId) with
  | [] => none
  | tasks => some tasks

/-- `self.tasks.remove(&task_id)`. -/
def removeTask (rt : DesRuntime π) (taskId : TaskId) : DesRuntime π :=
  { rt with tasks := Function.update rt.tasks taskId none }

/-- `cancel_task` on the timers: the task is taken out of each deadline, and empty deadlines are removed. -/
def removeTimers (rt : DesRuntime π) (taskId : TaskId) : DesRuntime π :=
  { rt with timers := rt.timers.filterMapValues (retainNot taskId) }

end DesRuntime

/-- `SimSleep`, its duration in nanoseconds. -/
structure SimSleep where
  targetTime : Option SimTime
  duration : Nat
  timerScheduled : Bool
deriving DecidableEq

namespace SimSleep

/-- `SimSleep::new`. -/
def new (duration : Nat) : SimSleep := ⟨none, duration, false⟩

/-- `SimSleep::until`. -/
def untilTime (targetTime : SimTime) : SimSleep := ⟨some targetTime, 0, false⟩

end SimSleep

end DesCartes.AsyncRuntime
