import DesCartes.Framework.Client
import DesCartes.Impl.Simulation

/-!
# A simulation as a client of its policies

`World.step` is given what the code does that a step runs. Here that code is deterministic: a
`Program` is made of functions of the code's own state `κ` and of the simulation as it is when the
code is called. What is left open in a step are then the choices of the frontier policy and of the
ready-task policy, which are asked for them: `Program.step` is `Simulation::step` as a `Client`
whose questions are the calls of the two `choose`. The world has no policies of its own.
-/

namespace DesCartes

open AsyncRuntime

/-- A call of `EventFrontierPolicy::choose` or `ReadyTaskPolicy::choose`. -/
inductive Question where
  | frontier (time : SimTime) (frontier : List FrontierEvent)
  | ready (time : SimTime) (ready : List AsyncRuntime.TaskId)
deriving DecidableEq

/-- What the owner of a simulation does with it between steps. -/
inductive OwnerCall (ν : Type) where
  /-- A call outside event processing. -/
  | act (action : Action ν)
  /-- `DesRuntime::spawn`, on the installed runtime. -/
  | spawnDirect
  /-- `DesRuntime::wake_task`, on the installed runtime. -/
  | wakeDirect (taskId : AsyncRuntime.TaskId)

/-- One of these. -/
def World.ownerCall {ν π φ : Type} (w : World ν π φ) : OwnerCall ν → World ν π φ
  | .act action => w.act action
  | .spawnDirect => w.setRuntime w.runtime.spawn
  | .wakeDirect taskId => w.setRuntime (w.runtime.wakeTask taskId)

/-- The code that a simulation runs. -/
structure Program (κ ν : Type) where
  /-- The handler of another component. -/
  handle : κ → World ν Unit Unit → Uuid → ν → κ × List (Action ν)
  /-- A one-shot task; no use is made of the script's polls and drop. -/
  execute : κ → World ν Unit Unit → DesCartes.TaskId → κ × Script ν
  /-- A poll of the future of a task. -/
  poll : κ → World ν Unit Unit → AsyncRuntime.TaskId → κ × PollScript ν
  /-- Dropping the future of a task that is cancelled. -/
  drop : κ → World ν Unit Unit → AsyncRuntime.TaskId → κ × List (Action ν)
  /-- The owner of the simulation, before a step. -/
  owner : κ → World ν Unit Unit → κ × List (OwnerCall ν)

/-- `Scheduler::pop_with_policy`. -/
def Scheduler.askPolicy {ε τ ρ : Type} (s : Scheduler ε τ ρ) :
    Client Question Nat (Option (EventEntry ε) × Scheduler ε τ ρ) :=
  match popLive s.events.len s with
  | (none, s) => .done (none, s)
  | (some first, s) =>
    let (entries, s) := collectFrontier first.time s.events.len s [first]
    let take chosen :=
      let chosen := min chosen (entries.length - 1)
      .done (entries[chosen]?,
        { s with events := s.events.pushAll (Vec.swapRemove entries chosen), clock := first.time })
    if entries.length ≤ 1 then take 0
    else .ask (.frontier first.time (entries.map EventEntry.toFrontierEvent)) take

namespace Program

variable {κ ν : Type} (program : Program κ ν)

/-- The loop of `poll_ready_tasks` over the tasks `pollSet`. -/
def pollLoop : Nat → List AsyncRuntime.TaskId → κ → World ν Unit Unit → Client Question Nat (κ × World ν Unit Unit)
  | 0, _, k, w => .done (k, w)
  | n + 1, pollSet, k, w => .ask (.ready w.now pollSet) fun chosen =>
    let chosen := min chosen (pollSet.length - 1)
    match pollSet[chosen]? with
    | none => .done (k, w)
    | some taskId =>
      let pollSet := Vec.swapRemove pollSet chosen
      match w.runtime.tasks taskId with
      | none => pollLoop n pollSet k w
      | some task =>
        let (k, script) := program.poll k w taskId
        pollLoop n pollSet k (w.pollOne taskId task script)

/-- `DesRuntime::poll_ready_tasks`. -/
def pollReadyTasks (k : κ) (w : World ν Unit Unit) : Client Question Nat (κ × World ν Unit Unit) :=
  let rt := w.runtime.drainSpawnQueues
  program.pollLoop rt.readyQueue.length rt.readyQueue k (w.setRuntime { rt with readyQueue := [] })

/-- `DesRuntime::cancel_task`. -/
def cancelTask (k : κ) (w : World ν Unit Unit) (taskId : AsyncRuntime.TaskId) : κ × World ν Unit Unit :=
  match w.runtime.tasks taskId with
  | none => (k, w.cancelTask taskId [])
  | some _ =>
    let (k, drop) := program.drop k w taskId
    (k, w.cancelTask taskId drop)

/-- `DesRuntime::process_event`, up to its last step. -/
def dispatch (k : κ) (w : World ν Unit Unit) : RuntimeEvent → Client Question Nat (κ × World ν Unit Unit)
  | .poll => program.pollReadyTasks k w
  | .wake taskId => program.pollReadyTasks k (w.setRuntime (w.runtime.wakeTask taskId))
  | .cancel taskId => .done (program.cancelTask k w taskId)
  | .registerTimer taskId deadline => .done (k, w.registerTimer taskId deadline)
  | .cancelTimer taskId deadline => .done (k, w.cancelTimer taskId deadline)
  | .timerTick =>
    let w := w.setRuntime { w.runtime with nextTimerDeadline := none }
    program.pollReadyTasks k (w.fireTimers w.runtime.timers.len).scheduleNextTimerTick

/-- `DesRuntime::process_event`. -/
def processEvent (k : κ) (w : World ν Unit Unit) (event : RuntimeEvent) : Client Question Nat (κ × World ν Unit Unit) :=
  (program.dispatch k w.storeKey event).bind fun (k, w) =>
    .done (k, if w.runtime.readyQueue = [] then w else w.schedule .zero (.runtime .poll))

/-- `Scheduler::execute_task`. -/
def executeTask (k : κ) (w : World ν Unit Unit) (taskId : DesCartes.TaskId) : κ × World ν Unit Unit :=
  match w.scheduler.beginTask taskId with
  | (none, _) => (k, w.executeTask taskId .idle)
  | (some _, _) =>
    let (k, script) := program.execute k w taskId
    (k, w.executeTask taskId script)

/-- `Components::process_event_entry`. -/
def processEventEntry (k : κ) (w : World ν Unit Unit) :
    EventEntry (Payload ν) → Client Question Nat (κ × World ν Unit Unit)
  | .component _ _ _ (.runtime event) => program.processEvent k w event
  | .component _ _ key (.other event) =>
    let (k, actions) := program.handle k w key event
    .done (k, w.acts actions)
  | .task _ _ taskId => .done (program.executeTask k w taskId)

/-- `Simulation::step`, and the event it pops. -/
def step (k : κ) (w : World ν Unit Unit) :
    Client Question Nat (Option (EventEntry (Payload ν)) × κ × World ν Unit Unit) :=
  w.scheduler.askPolicy.bind fun
    | (none, s) => .done (none, k, { w with scheduler := s })
    | (some event, s) =>
      let w := { w with scheduler := s, inContext := true }.log (.processed (World.runtimeEvent? event) s.clock)
      (program.processEventEntry k w event).bind fun (k, w) =>
        .done (some event, k, { w with inContext := false }.drainDeferredWakes)

/-- What the owner does before a step. -/
def prepare (k : κ) (w : World ν Unit Unit) : κ × World ν Unit Unit :=
  let (k, calls) := program.owner k w
  (k, calls.foldl World.ownerCall w)

/-- A number of steps, and the events that they pop. -/
def run : Nat → κ → World ν Unit Unit → Client Question Nat (List (EventEntry (Payload ν)) × κ × World ν Unit Unit)
  | 0, k, w => .done ([], k, w)
  | n + 1, k, w =>
    let (k, w) := program.prepare k w
    (program.step k w).bind fun (event, k, w) =>
      (run n k w).bind fun (events, k, w) => .done (event.toList ++ events, k, w)

end Program

end DesCartes
