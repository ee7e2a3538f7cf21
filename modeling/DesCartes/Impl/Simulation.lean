import DesCartes.Impl.AsyncRuntime
import DesCartes.Impl.Scheduler

/-!
# A simulation with an async runtime (`des-core/src/lib.rs`, `async_runtime.rs`, `execute.rs`)

A `World` is a `Simulation` in which a `DesRuntime` is installed, with the thread-locals that its
code goes through: the scheduler context, the buffer of deferred wakes and the poll context. All
other code, that of other components (other runtimes among them), of one-shot tasks, of the futures
that the runtime polls and drops, and of the owner of the simulation, is a list of `Action`s, the
calls it makes; a `Script` says what the code that one `step` runs does. Other components and tasks
do not pop events themselves.

The live `SimSleep` futures are kept in a table, wherever they are stored. The `trace` is not part
of the program: it records what happens.
-/

namespace DesCartes

open AsyncRuntime

/-- The payload of an event: one for the runtime, or one for another component. -/
inductive Payload (ν : Type) where
  | runtime (event : RuntimeEvent)
  | other (event : ν)
deriving DecidableEq

/-- An event and the component it is for. -/
inductive Message (ν : Type) where
  | runtime (event : RuntimeEvent)
  | component (key : Uuid) (event : ν)

/-- A record of what happened. -/
inductive Obs where
  /-- An event was processed, for the runtime or not. -/
  | processed (event : Option RuntimeEvent) (now : SimTime)
  /-- The future of a task was polled. -/
  | polled (taskId : AsyncRuntime.TaskId)
  /-- A timer was added to the timers. -/
  | registered (taskId : AsyncRuntime.TaskId) (deadline now : SimTime)
  /-- A timer was removed from the timers and its task woken. -/
  | woken (taskId : AsyncRuntime.TaskId) (deadline now : SimTime)
  /-- A `SimSleep` was polled, by a task of the runtime or not, and is pending. -/
  | sleepPending (sleep : Nat) (taskId : Option AsyncRuntime.TaskId)
  /-- A call was made that sees the task and the time. -/
  | called (call : Nat) (taskId : Option AsyncRuntime.TaskId) (now : Option SimTime)
deriving DecidableEq

/-- A call made by code that is not modelled. -/
inductive Action (ν : Type) where
  /-- `Scheduler::schedule` and the methods that call it. -/
  | schedule (delay : SimTime) (message : Message ν)
  /-- `Scheduler::schedule_task` and the methods that call it. -/
  | scheduleTask (delay : SimTime)
  | cancelTask (taskId : DesCartes.TaskId)
  /-- `defer_wake_after`; a waker of a task calls it with the task's `Wake` and no delay. -/
  | deferWakeAfter (delay : SimTime) (message : Message ν)
  /-- `DesRuntimeHandle::spawn`. -/
  | spawn
  /-- `DesRuntimeLocalHandle::spawn_local`. -/
  | spawnLocal
  /-- `DesRuntimeHandle::cancel`. -/
  | cancel (taskId : AsyncRuntime.TaskId)
  /-- `DesRuntimeLocalHandle::cancel`. -/
  | cancelLocal (taskId : AsyncRuntime.TaskId)
  | newSleep (sleep : SimSleep)
  | pollSleep (sleep : Nat)
  | dropSleep (sleep : Nat)
  /-- A call to code that only reads `current_task_id` and `current_sim_time`, such as that of `des-tokio`. -/
  | call (call : Nat)

/-- One poll of a future: what it does, whether it returns `Ready`, and what dropping it then does. -/
structure PollScript (ν : Type) where
  actions : List (Action ν)
  ready : Bool
  drop : List (Action ν)

/-- What the code does that one step runs. -/
structure Script (ν : Type) where
  /-- The handler of another component, or the code of a one-shot task. -/
  handler : List (Action ν)
  /-- The delay after which a one-shot task schedules itself again, if it does. -/
  again : Option SimTime
  /-- Whether a one-shot task has a result to store. -/
  result : Option Unit
  /-- The polls of futures, one after the other. -/
  polls : Nat → PollScript ν
  /-- Dropping the future of a task that the runtime cancels. -/
  drop : List (Action ν)

/-- The script of code that does nothing, and of futures that are done at once. -/
def Script.idle {ν : Type} : Script ν := ⟨[], none, none, fun _ => ⟨[], true, []⟩, []⟩

/-- A simulation with a runtime, and the thread-locals. -/
structure World (ν π φ : Type) where
  scheduler : Scheduler (Payload ν) Unit Unit
  frontierPolicy : φ
  /-- The key under which the runtime is installed. -/
  key : Uuid
  runtime : DesRuntime π
  /-- `CURRENT_CLOCK`: whether there is one; it is the clock of the scheduler. -/
  inContext : Bool
  /-- `DEFERRED_WAKES`. -/
  deferred : List (SimTime × Message ν)
  /-- `CURRENT_TASK_ID` and `CURRENT_RUNTIME_KEY`, when it is this runtime that polls. -/
  pollContext : Option AsyncRuntime.TaskId
  sleeps : Nat → Option SimSleep
  nextSleep : Nat
  trace : List Obs

namespace World

variable {ν π φ : Type}

/-- `scheduler.time()`. -/
def now (w : World ν π φ) : SimTime := w.scheduler.clock

def setRuntime (w : World ν π φ) (runtime : DesRuntime π) : World ν π φ := { w with runtime }

/-- A record is made. -/
def log (w : World ν π φ) (obs : Obs) : World ν π φ := { w with trace := w.trace ++ [obs] }

/-- `Scheduler::schedule`. -/
def schedule (w : World ν π φ) (delay : SimTime) : Message ν → World ν π φ
  | .runtime event => { w with scheduler := w.scheduler.schedule delay w.key (.runtime event) }
  | .component key event => { w with scheduler := w.scheduler.schedule delay key (.other event) }

/-! ## Deferred wakes -/

/-- `defer_wake_after`. -/
def deferWakeAfter (w : World ν π φ) (delay : SimTime) (message : Message ν) : World ν π φ :=
  { w with deferred := w.deferred ++ [(delay, message)] }

/-- `defer_wake`. -/
def deferWake (w : World ν π φ) (message : Message ν) : World ν π φ := w.deferWakeAfter .zero message

/-- `drain_deferred_wakes`. -/
def drainDeferredWakes (w : World ν π φ) : World ν π φ :=
  w.deferred.foldl (fun w wake => w.schedule wake.1 wake.2) { w with deferred := [] }

/-! ## The handles of the runtime -/

/-- `DesRuntimeHandle::spawn`. -/
def spawn (w : World ν π φ) : World ν π φ :=
  let w := w.setRuntime { w.runtime with
    nextTaskId := w.runtime.nextTaskId + 1
    spawnQueue := w.runtime.spawnQueue ++ [w.runtime.nextTaskId] }
  if w.inContext then w.deferWake (.runtime .poll) else w

/-- `DesRuntimeLocalHandle::spawn_local`. -/
def spawnLocal (w : World ν π φ) : World ν π φ :=
  let w := w.setRuntime { w.runtime with
    nextTaskId := w.runtime.nextTaskId + 1
    spawnQueueLocal := w.runtime.spawnQueueLocal ++ [w.runtime.nextTaskId] }
  if w.inContext then w.deferWake (.runtime .poll) else w

/-- `DesRuntimeHandle::cancel`. -/
def cancel (w : World ν π φ) (taskId : AsyncRuntime.TaskId) : World ν π φ :=
  let w := w.setRuntime { w.runtime with spawnQueue := w.runtime.spawnQueue.filter (· ≠ taskId) }
  if w.inContext then w.deferWake (.runtime (.cancel taskId)) else w

/-- `DesRuntimeLocalHandle::cancel`. -/
def cancelLocal (w : World ν π φ) (taskId : AsyncRuntime.TaskId) : World ν π φ :=
  let w := w.setRuntime { w.runtime with spawnQueueLocal := w.runtime.spawnQueueLocal.filter (· ≠ taskId) }
  if w.inContext then w.deferWake (.runtime (.cancel taskId)) else w

/-! ## Sleeping -/

/-- `register_timer_at`. -/
def registerTimerAt (w : World ν π φ) (deadline : SimTime) : World ν π φ :=
  match w.pollContext with
  | some taskId => w.deferWake (.runtime (.registerTimer taskId deadline))
  | none => w

/-- `cancel_timer_at`. -/
def cancelTimerAt (w : World ν π φ) (deadline : SimTime) : World ν π φ :=
  match w.pollContext with
  | some taskId => w.deferWake (.runtime (.cancelTimer taskId deadline))
  | none => w

def setSleep (w : World ν π φ) (i : Nat) (sleep : Option SimSleep) : World ν π φ :=
  { w with sleeps := Function.update w.sleeps i sleep }

/-- `SimSleep::new` and `SimSleep::until`. -/
def newSleep (w : World ν π φ) (sleep : SimSleep) : World ν π φ :=
  { w.setSleep w.nextSleep (some { sleep with timerScheduled := false }) with nextSleep := w.nextSleep + 1 }

/-- `SimSleep::poll`, of the sleep `i`. -/
def pollSleep (w : World ν π φ) (i : Nat) : World ν π φ :=
  match w.sleeps i with
  | none => w
  | some sleep =>
    if w.inContext then
      let target := sleep.targetTime.getD (w.now + .fromDuration sleep.duration)
      if target ≤ w.now then w.setSleep i (some { sleep with targetTime := some target, timerScheduled := false })
      else
        let w := if sleep.timerScheduled then w else w.registerTimerAt target
        (w.setSleep i (some { sleep with targetTime := some target, timerScheduled := true })).log
          (.sleepPending i w.pollContext)
    else w

/-- `Drop for SimSleep`, of the sleep `i`. -/
def dropSleep (w : World ν π φ) (i : Nat) : World ν π φ :=
  match w.sleeps i with
  | none => w
  | some sleep =>
    let w := w.setSleep i none
    if sleep.timerScheduled then
      match sleep.targetTime with
      | some target => w.cancelTimerAt target
      | none => w
    else w

/-- One call. -/
def act (w : World ν π φ) : Action ν → World ν π φ
  | .schedule delay message => w.schedule delay message
  | .scheduleTask delay => { w with scheduler := (w.scheduler.scheduleTask delay ()).2 }
  | .cancelTask taskId => { w with scheduler := (w.scheduler.cancelTask taskId).2 }
  | .deferWakeAfter delay message => w.deferWakeAfter delay message
  | .spawn => w.spawn
  | .spawnLocal => w.spawnLocal
  | .cancel taskId => w.cancel taskId
  | .cancelLocal taskId => w.cancelLocal taskId
  | .newSleep sleep => w.newSleep sleep
  | .pollSleep i => w.pollSleep i
  | .dropSleep i => w.dropSleep i
  | .call call => w.log (.called call w.pollContext (if w.inContext then some w.now else none))

/-- The calls that some code makes. -/
def acts (w : World ν π φ) (actions : List (Action ν)) : World ν π φ := actions.foldl act w

/-! ## The runtime's events -/

/-- `DesRuntime::poll_task`: the poll's outcome, if there was one. -/
def pollTask (w : World ν π φ) (taskId : AsyncRuntime.TaskId) (script : PollScript ν) : Option Bool × World ν π φ :=
  match w.runtime.runtimeKey, w.runtime.tasks taskId with
  | some _, some _ =>
    let w := ({ w with pollContext := some taskId }.log (.polled taskId)).acts script.actions
    (some script.ready, { w with pollContext := none })
  | _, _ => (none, w)

/-- The choice in the loop of `poll_ready_tasks`: an index out of range means the last task. -/
def chooseTask [ReadyTaskPolicy π] (w : World ν π φ) (pollSet : List AsyncRuntime.TaskId) : Nat × World ν π φ :=
  let (chosen, policy) := ReadyTaskPolicy.choose w.runtime.readyTaskPolicy w.now pollSet
  (min chosen (pollSet.length - 1), w.setRuntime (w.runtime.setReadyTaskPolicy policy))

/-- The rest of an iteration of that loop, for a task that is still there: it is marked as no longer
queued and polled, and removed when it is done. -/
def pollOne (w : World ν π φ) (taskId : AsyncRuntime.TaskId) (task : Task) (script : PollScript ν) : World ν π φ :=
  let w := w.setRuntime (w.runtime.unqueue taskId task)
  let (result, w) := w.pollTask taskId script
  if result = some true then (w.setRuntime (w.runtime.removeTask taskId)).acts script.drop else w

/-- The loop of `poll_ready_tasks` over the tasks `pollSet`. It runs once for each of them. -/
def pollLoop [ReadyTaskPolicy π] :
    Nat → (Nat → PollScript ν) → List AsyncRuntime.TaskId → World ν π φ → World ν π φ
  | 0, _, _, w => w
  | n + 1, polls, pollSet, w =>
    let (chosen, w) := w.chooseTask pollSet
    match pollSet[chosen]? with
    | none => w
    | some taskId =>
      let pollSet := Vec.swapRemove pollSet chosen
      match w.runtime.tasks taskId with
      | none => pollLoop n polls pollSet w
      | some task => pollLoop n (fun i => polls (i + 1)) pollSet (w.pollOne taskId task (polls 0))

/-- `DesRuntime::poll_ready_tasks`. -/
def pollReadyTasks [ReadyTaskPolicy π] (w : World ν π φ) (polls : Nat → PollScript ν) : World ν π φ :=
  let rt := w.runtime.drainSpawnQueues
  pollLoop rt.readyQueue.length polls rt.readyQueue (w.setRuntime { rt with readyQueue := [] })

/-- `DesRuntime::schedule_next_timer_tick`. -/
def scheduleNextTimerTick (w : World ν π φ) : World ν π φ :=
  let nextDeadline := w.runtime.timers.firstKey?
  if nextDeadline = w.runtime.nextTimerDeadline then w
  else
    let w := w.setRuntime { w.runtime with nextTimerDeadline := nextDeadline }
    match nextDeadline with
    | none => w
    | some deadline =>
      w.schedule (if deadline ≤ w.now then .zero else .fromDuration (deadline.durationSince w.now)) (.runtime .timerTick)

/-- `DesRuntime::register_timer`. -/
def registerTimer (w : World ν π φ) (taskId : AsyncRuntime.TaskId) (deadline : SimTime) : World ν π φ :=
  match w.runtime.tasks taskId with
  | none => w
  | some _ =>
    ((w.setRuntime (w.runtime.pushTimer taskId deadline)).log (.registered taskId deadline w.now)).scheduleNextTimerTick

/-- `DesRuntime::cancel_timer`. -/
def cancelTimer (w : World ν π φ) (taskId : AsyncRuntime.TaskId) (deadline : SimTime) : World ν π φ :=
  match w.runtime.timers.get? deadline with
  | none => w
  | some tasks =>
    match DesRuntime.retainNot taskId tasks with
    | some tasks => w.setRuntime { w.runtime with timers := w.runtime.timers.insert deadline tasks }
    | none => (w.setRuntime { w.runtime with timers := w.runtime.timers.erase deadline }).scheduleNextTimerTick

/-- A timer that is due wakes its task. -/
def fire (deadline : SimTime) (w : World ν π φ) (taskId : AsyncRuntime.TaskId) : World ν π φ :=
  (w.setRuntime (w.runtime.wakeTask taskId)).log (.woken taskId deadline w.now)

/-- The loop of `handle_timer_tick`. It runs at most once for each deadline. -/
def fireTimers : Nat → World ν π φ → World ν π φ
  | 0, w => w
  | n + 1, w =>
    match w.runtime.timers.popFirst? with
    | none => w
    | some ((deadline, tasks), timers) =>
      if w.now < deadline then w
      else fireTimers n (tasks.foldl (fire deadline) (w.setRuntime { w.runtime with timers }))

/-- `DesRuntime::handle_timer_tick`. -/
def handleTimerTick [ReadyTaskPolicy π] (w : World ν π φ) (polls : Nat → PollScript ν) : World ν π φ :=
  let w := w.setRuntime { w.runtime with nextTimerDeadline := none }
  ((w.fireTimers w.runtime.timers.len).scheduleNextTimerTick).pollReadyTasks polls

/-- `DesRuntime::cancel_task`. -/
def cancelTask (w : World ν π φ) (taskId : AsyncRuntime.TaskId) (drop : List (Action ν)) : World ν π φ :=
  let w := (w.setRuntime (w.runtime.removeTask taskId)).acts
    (if (w.runtime.tasks taskId).isSome then drop else [])
  (w.setRuntime (w.runtime.removeTimers taskId)).scheduleNextTimerTick

/-- `DesRuntime::process_event`, up to its last step. -/
def dispatch [ReadyTaskPolicy π] (w : World ν π φ) (event : RuntimeEvent) (script : Script ν) : World ν π φ :=
  match event with
  | .poll => w.pollReadyTasks script.polls
  | .wake taskId => (w.setRuntime (w.runtime.wakeTask taskId)).pollReadyTasks script.polls
  | .cancel taskId => w.cancelTask taskId script.drop
  | .registerTimer taskId deadline => w.registerTimer taskId deadline
  | .cancelTimer taskId deadline => w.cancelTimer taskId deadline
  | .timerTick => w.handleTimerTick script.polls

/-- The runtime stores its key on its first event. -/
def storeKey (w : World ν π φ) : World ν π φ :=
  w.setRuntime { w.runtime with runtimeKey := w.runtime.runtimeKey.or (some w.key) }

/-- `DesRuntime::process_event`. -/
def processEvent [ReadyTaskPolicy π] (w : World ν π φ) (event : RuntimeEvent) (script : Script ν) : World ν π φ :=
  let w := w.storeKey.dispatch event script
  if w.runtime.readyQueue = [] then w else w.schedule .zero (.runtime .poll)

/-! ## The simulation -/

/-- The end of `Scheduler::execute_task`, before which the task may have scheduled itself again. -/
def finishTask (w : World ν π φ) (taskId : DesCartes.TaskId) (previous : Option DesCartes.TaskId) (script : Script ν) :
    World ν π φ :=
  let s := match script.again with
    | none => w.scheduler
    | some delay => w.scheduler.scheduleTaskAt (w.now + delay) taskId ()
  { w with scheduler := s.endTask taskId previous script.result }

/-- `Scheduler::execute_task`. -/
def executeTask (w : World ν π φ) (taskId : DesCartes.TaskId) (script : Script ν) : World ν π φ :=
  match w.scheduler.beginTask taskId with
  | (none, s) => { w with scheduler := s }
  | (some _, s) =>
    ({ w with scheduler := s }.acts script.handler).finishTask taskId w.scheduler.executingTaskId script

/-- The runtime's event in an entry of the heap, if it is one. -/
def runtimeEvent? : EventEntry (Payload ν) → Option RuntimeEvent
  | .component _ _ _ (.runtime event) => some event
  | _ => none

/-- `Components::process_event_entry`. -/
def processEventEntry [ReadyTaskPolicy π] (w : World ν π φ) (event : EventEntry (Payload ν)) (script : Script ν) :
    World ν π φ :=
  match event with
  | .component _ _ _ (.runtime event) => w.processEvent event script
  | .component _ _ _ (.other _) => w.acts script.handler
  | .task _ _ taskId => w.executeTask taskId script

/-- `Simulation::step`. -/
def step [ReadyTaskPolicy π] [EventFrontierPolicy φ] (w : World ν π φ) (script : Script ν) : Bool × World ν π φ :=
  match w.scheduler.popWithPolicy w.frontierPolicy with
  | (none, s, policy) => (false, { w with scheduler := s, frontierPolicy := policy })
  | (some event, s, policy) =>
    let w := { w with scheduler := s, frontierPolicy := policy, inContext := true }.log
      (.processed (runtimeEvent? event) s.clock)
    let w := { w.processEventEntry event script with inContext := false }
    (true, w.drainDeferredWakes)

/-- The `step_fn` of `run_with`: a step, and the executor's side effect when it found an event. -/
def stepFn [ReadyTaskPolicy π] [EventFrontierPolicy φ] (w : World ν π φ) (script : Script ν)
    (sideEffect : List (Action ν)) : Bool × World ν π φ :=
  let (result, w) := w.step script
  (result, if result then w.acts sideEffect else w)

/-- The condition of the loop of `execute_until`, by `peek_next_event_time`. -/
def nextEventBy (w : World ν π φ) (time : SimTime) : Bool := w.scheduler.peek.any fun event => event.time ≤ time

/-- `execute_until`: each iteration has its script, and its side effect. A list of iterations is as
much of the loop as they are. -/
def executeUntil [ReadyTaskPolicy π] [EventFrontierPolicy φ] (time : SimTime) :
    List (Script ν × List (Action ν)) → World ν π φ → World ν π φ
  | [], w => w
  | (script, sideEffect) :: iterations, w =>
    if w.nextEventBy time then executeUntil time iterations (w.stepFn script sideEffect).2 else w

/-- `install`, into a simulation that has the scheduler `s`, of a runtime on which `spawn` was called
`spawned` times. -/
def install (s : Scheduler (Payload ν) Unit Unit) (frontierPolicy : φ) (deferred : List (SimTime × Message ν))
    (key : Uuid) (readyTaskPolicy : π) (spawned : Nat) : World ν π φ :=
  World.schedule {
    scheduler := s
    frontierPolicy
    key
    runtime := DesRuntime.spawn^[spawned] (.new readyTaskPolicy)
    inContext := false
    deferred
    pollContext := none
    sleeps := fun _ => none
    nextSleep := 0
    trace := [] } .zero (.runtime .poll)

/-- What the owner of the simulation does with it. -/
inductive Move (ν π φ : Type) where
  /-- A call outside event processing. -/
  | act (action : Action ν)
  /-- `DesRuntime::spawn`, on the installed runtime. -/
  | spawnDirect
  /-- `DesRuntime::wake_task`, on the installed runtime. -/
  | wakeDirect (taskId : AsyncRuntime.TaskId)
  | setReadyTaskPolicy (policy : π)
  | setFrontierPolicy (policy : φ)
  | step (script : Script ν)

/-- One move. -/
def move [ReadyTaskPolicy π] [EventFrontierPolicy φ] (w : World ν π φ) : Move ν π φ → World ν π φ
  | .act action => w.act action
  | .spawnDirect => w.setRuntime w.runtime.spawn
  | .wakeDirect taskId => w.setRuntime (w.runtime.wakeTask taskId)
  | .setReadyTaskPolicy policy => w.setRuntime (w.runtime.setReadyTaskPolicy policy)
  | .setFrontierPolicy policy => { w with frontierPolicy := policy }
  | .step script => (w.step script).2

/-- A run: any moves, one after the other. -/
def run [ReadyTaskPolicy π] [EventFrontierPolicy φ] (w : World ν π φ) (moves : List (Move ν π φ)) : World ν π φ :=
  moves.foldl move w

end World

end DesCartes
