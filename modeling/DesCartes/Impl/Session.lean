import DesCartes.Impl.Scheduler

/-!
# Sequences of scheduler operations

A session is a scheduler in use: the calls its owner makes on it, in any order, among them those
that running tasks make. A task's event is popped and `execute_task` starts the task
(`Op.execute`); what the task then does to the scheduler are further operations, nested
executions included, until it returns (`Op.finish`), having scheduled itself again under its own
id or not, as `RetryTask` and `PeriodicTask` do.

An operation panics where a `u64` counter would overflow, and `finish` is only possible while a
task runs; `Session.step` then gives nothing.
-/

namespace DesCartes

/-- A scheduler and the tasks it is executing, innermost first, each with the id that
`execute_task` restores when the task returns. -/
structure Session (ε τ ρ : Type) where
  scheduler : Scheduler ε τ ρ
  frames : List (TaskId × Option TaskId)

/-- An operation on a scheduler. -/
inductive Op (ε τ ρ φ : Type) where
  | schedule (delay : SimTime) (component : Uuid) (event : ε)
  /-- `schedule_task`, `schedule_closure` or `timeout`. -/
  | scheduleTask (delay : SimTime) (task : τ)
  | cancelTask (taskId : TaskId)
  | pop
  | popWithPolicy (policy : φ)
  /-- `pop_with_policy`, and the start of the task if it is a task's event. -/
  | execute (policy : φ)
  /-- The return of the innermost task, which may first schedule itself again. -/
  | finish (again : Option (SimTime × τ)) (result : Option ρ)

/-- What an operation answers. -/
inductive Answer (ε : Type) where
  | scheduled (event : EventEntry ε)
  | cancelled (taskId : TaskId) (ok : Bool)
  | popped (event : Option (EventEntry ε))
  | finished

/-- The event a pop returned, if the answer is one of a pop that returned one. -/
def Answer.popped? {ε : Type} : Answer ε → Option (EventEntry ε)
  | popped event => event
  | _ => none

namespace Session

variable {ε τ ρ φ : Type}

/-- A fresh scheduler. -/
def fresh (idSeed : BitVec 64) : Session ε τ ρ := ⟨.withSeed idSeed, []⟩

/-- Starting the task of a popped event, if it is one of a task that is still pending. -/
def start (r : Session ε τ ρ) : Option (EventEntry ε) → Session ε τ ρ
  | some (.task _ _ id) =>
    match r.scheduler.beginTask id with
    | (some _, s) => ⟨s, (id, r.scheduler.executingTaskId) :: r.frames⟩
    | (none, s) => ⟨s, r.frames⟩
  | _ => r

/-- The innermost task schedules itself again, under the id that is executing. -/
def reschedule (s : Scheduler ε τ ρ) (delay : SimTime) (task : τ) : Option (Scheduler ε τ ρ × Answer ε) :=
  match s.executingTaskId with
  | none => none
  | some id =>
    if s.nextEventId < u64Max then
      some (s.scheduleTaskAt (s.clock + delay) id task, .scheduled (.task (s.nextEventId + 1) (s.clock + delay) id))
    else none

/-- One operation: the session afterwards and its answer. -/
def step [EventFrontierPolicy φ] (r : Session ε τ ρ) : Op ε τ ρ φ → Option (Session ε τ ρ × Answer ε)
  | .schedule delay component event =>
    if r.scheduler.nextEventId < u64Max then
      some ({ r with scheduler := r.scheduler.schedule delay component event },
        .scheduled (r.scheduler.scheduledEvent delay component event))
    else none
  | .scheduleTask delay task =>
    if r.scheduler.nextTaskId < u64Max ∧ r.scheduler.nextEventId < u64Max then
      let (id, s) := r.scheduler.scheduleTask delay task
      some ({ r with scheduler := s },
        .scheduled (.task (r.scheduler.nextEventId + 1) (r.scheduler.clock + delay) id))
    else none
  | .cancelTask id =>
    let (ok, s) := r.scheduler.cancelTask id
    some ({ r with scheduler := s }, .cancelled id ok)
  | .pop =>
    let (event, s) := r.scheduler.pop
    some ({ r with scheduler := s }, .popped event)
  | .popWithPolicy policy =>
    let (event, s, _) := r.scheduler.popWithPolicy policy
    some ({ r with scheduler := s }, .popped event)
  | .execute policy =>
    let (event, s, _) := r.scheduler.popWithPolicy policy
    some ({ r with scheduler := s }.start event, .popped event)
  | .finish again result =>
    match r.frames with
    | [] => none
    | (id, previous) :: frames =>
      match again with
      | none => some (⟨r.scheduler.endTask id previous result, frames⟩, .finished)
      | some (delay, task) =>
        (reschedule r.scheduler delay task).map fun q => (⟨q.1.endTask id previous result, frames⟩, q.2)

end Session

end DesCartes
