import DesCartes.Impl.Session

/-!
# The task system (`des-core/src/task.rs`)

The tasks that a scheduler executes, where `κ` is the code that they are given: the closure,
callback or operation. A task calls its code, which has the scheduler until it returns and calls it
as it likes; then a `RetryTask` or a `PeriodicTask` may schedule itself again under the id that is
executing. Only the loop of the simulation executes tasks, so none starts while another one runs.
-/

namespace DesCartes

/-- `RetryTask`. -/
structure RetryTask (κ : Type) where
  operation : κ
  maxAttempts : Nat
  currentAttempt : Nat
  baseDelay : SimTime

/-- `PeriodicTask`. -/
structure PeriodicTask (κ : Type) where
  callback : κ
  interval : SimTime
  remainingExecutions : Option Nat

/-- `TaskExecution`. -/
inductive TaskExecution (κ : Type) where
  /-- `ClosureTask`, or a task of the user's own. -/
  | closure (closure : κ)
  /-- `TimeoutTask`. -/
  | timeout (callback : κ)
  | retry (task : RetryTask κ)
  | periodic (task : PeriodicTask κ)

variable {κ : Type}

namespace RetryTask

/-- `RetryTask::new`. -/
def new (operation : κ) (maxAttempts : Nat) (baseDelay : SimTime) : RetryTask κ := ⟨operation, maxAttempts, 0, baseDelay⟩

/-- `RetryTask::execute`, once the operation has returned `Ok` or not: the delay and the task with
which it is scheduled again, if it is; none where the power overflows. -/
def execute (task : RetryTask κ) (ok : Bool) : Option (Option (SimTime × RetryTask κ)) :=
  let task := { task with currentAttempt := task.currentAttempt + 1 }
  if ok then some none
  else if task.currentAttempt ≥ task.maxAttempts then some none
  else if task.currentAttempt - 1 < 64 then some (some (task.baseDelay * 2 ^ (task.currentAttempt - 1), task))
  else none

end RetryTask

namespace PeriodicTask

/-- `PeriodicTask::new`. -/
def new (callback : κ) (interval : SimTime) : PeriodicTask κ := ⟨callback, interval, none⟩

/-- `PeriodicTask::with_count`. -/
def withCount (callback : κ) (interval : SimTime) (count : Nat) : PeriodicTask κ := ⟨callback, interval, some count⟩

/-- `PeriodicTask::execute`, once the callback has returned: as for a `RetryTask`; none where there
is no execution left to count. -/
def execute (task : PeriodicTask κ) : Option (Option (SimTime × PeriodicTask κ)) :=
  match task.remainingExecutions with
  | none => some (some (task.interval, task))
  | some 0 => none
  | some 1 => some none
  | some (remaining + 2) => some (some (task.interval, { task with remainingExecutions := some (remaining + 1) }))

end PeriodicTask

namespace TaskExecution

/-- `TaskExecution::execute`, once the code of the task has returned. -/
def execute (ok : Bool) : TaskExecution κ → Option (Option (SimTime × TaskExecution κ))
  | closure _ => some none
  | timeout _ => some none
  | retry task => (task.execute ok).map fun again => again.map fun (delay, task) => (delay, retry task)
  | periodic task => task.execute.map fun again => again.map fun (delay, task) => (delay, periodic task)

/-- The result of the task, when its code returned the value; none is `()`. -/
def output {ρ : Type} (value : Option ρ) : TaskExecution κ → Option ρ
  | closure _ => value
  | timeout _ => none
  | retry _ => value
  | periodic _ => none

end TaskExecution

namespace TaskSystem

/-- An operation: a call of the scheduler, by the code that runs or by its owner, or a step of the loop. -/
inductive Op (ε κ ρ φ : Type) where
  | schedule (delay : SimTime) (component : Uuid) (event : ε)
  /-- `schedule_task`, `schedule_closure` or `timeout`. -/
  | scheduleTask (delay : SimTime) (task : TaskExecution κ)
  | cancelTask (taskId : TaskId)
  | getTaskResult (taskId : TaskId)
  | pop
  | popWithPolicy (policy : φ)
  /-- The loop pops an event, and calls the code of the task if it is a task's event. -/
  | execute (policy : φ)
  /-- The code that runs returns: the value, and whether it is an `Ok`. -/
  | finish (ok : Bool) (value : Option ρ)

/-- What an operation answers. -/
inductive Answer (ε ρ : Type) where
  | called (answer : DesCartes.Answer ε)
  | result (value : Option ρ)
  /-- The event, and the task whose code is called. -/
  | executed (event : Option (EventEntry ε)) (taskId : Option TaskId)
  | finished (answer : DesCartes.Answer ε)

end TaskSystem

/-- A scheduler of tasks, and the task whose code is running, if there is one. -/
structure TaskSystem (ε κ ρ : Type) where
  session : Session ε (TaskExecution κ) ρ
  running : Option (TaskExecution κ)

namespace TaskSystem

variable {ε ρ φ : Type}

/-- With a fresh scheduler. -/
def fresh (idSeed : BitVec 64) : TaskSystem ε κ ρ := ⟨.fresh idSeed, none⟩

variable [EventFrontierPolicy φ]

/-- A call of the scheduler. -/
def call (s : TaskSystem ε κ ρ) (op : DesCartes.Op ε (TaskExecution κ) ρ φ) : Option (TaskSystem ε κ ρ × Answer ε ρ) :=
  (s.session.step op).map fun (session, answer) => ({ s with session }, .called answer)

/-- `pop_with_policy`, and `execute_task` up to the code of the task. -/
def execute (s : TaskSystem ε κ ρ) (policy : φ) : TaskSystem ε κ ρ × Answer ε ρ :=
  let (event, scheduler, _) := s.session.scheduler.popWithPolicy policy
  let session := { s.session with scheduler }
  match event with
  | some (.task _ _ id) =>
    let running := (scheduler.beginTask id).1
    (⟨session.start event, running⟩, .executed event (running.map fun _ => id))
  | _ => (⟨session.start event, none⟩, .executed event none)

/-- One operation; none where it panics or is not possible. -/
def step (s : TaskSystem ε κ ρ) : Op ε κ ρ φ → Option (TaskSystem ε κ ρ × Answer ε ρ)
  | .schedule delay component event => s.call (.schedule (φ := φ) delay component event)
  | .scheduleTask delay task => s.call (.scheduleTask (φ := φ) delay task)
  | .cancelTask id => s.call (.cancelTask (φ := φ) id)
  | .getTaskResult id =>
    let (value, scheduler) := s.session.scheduler.getTaskResult id
    some ({ s with session := { s.session with scheduler } }, .result value)
  | .pop => s.call (.pop (φ := φ))
  | .popWithPolicy policy => s.call (.popWithPolicy policy)
  | .execute policy => if s.running.isSome then none else some (s.execute policy)
  | .finish ok value => s.running.bind fun task =>
    (task.execute ok).bind fun again =>
      (s.session.step (.finish (φ := φ) again (task.output value))).map fun (session, answer) => (⟨session, none⟩, .finished answer)

end TaskSystem

end DesCartes
