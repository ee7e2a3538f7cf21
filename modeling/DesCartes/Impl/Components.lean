import DesCartes.Impl.Scheduler

/-!
# Components, and the simulations of a thread (`des-core/src/lib.rs`, `scheduler.rs`)

A `Simulation` with its components, of any type `κ`. What the code of a component or of a one-shot
task does is a parameter (`Code`), a function of what it is called with. A `Thread` is the
simulations in use on a thread, each by its number, and the one buffer of deferred wakes that they
share. The other thread-locals are set only while an event is processed.

Some of this is not part of the program: the number of the call that registered a component and of the
simulation that was in use when a wake was deferred, and what the calls return besides a key or a task.
-/

namespace DesCartes

/-- `DeferredWake`. -/
structure DeferredWake (ε : Type) where
  delay : SimTime
  component : Uuid
  event : ε
deriving DecidableEq

/-- The code of the components and the one-shot tasks. -/
structure Code (κ ε τ ρ : Type) where
  /-- `Component::process_event`: the component and the scheduler afterwards, and the wakes it defers. -/
  processEvent : κ → Uuid → ε → Scheduler ε τ ρ → κ × Scheduler ε τ ρ × List (DeferredWake ε)
  /-- `TaskExecution::execute`: the result, unless it is `()`, the scheduler afterwards, and the
  wakes it defers. -/
  execute : τ → Scheduler ε τ ρ → Option ρ × Scheduler ε τ ρ × List (DeferredWake ε)

/-- Code that does nothing. -/
def Code.inert : Code Unit Unit Unit Unit := ⟨fun component _ _ s => (component, s, []), fun _ s => (none, s, [])⟩

/-! ## Components -/

/-- A component, and the number of the call that registered it. -/
structure Registered (κ : Type) where
  component : κ
  number : Nat
deriving DecidableEq

/-- `Components`. -/
structure Components (κ : Type) where
  components : Uuid → Option (Registered κ)
  nextComponentId : Nat
  idSeed : BitVec 64

namespace Components

variable {κ ε τ ρ : Type}

/-- `Components::default`. -/
def default : Components κ := ⟨fun _ => none, 0, 0⟩

/-- The `n`th component id of a generator. -/
def idAt (seed : BitVec 64) (n : Nat) : Uuid := Ids.deterministicUuid seed Ids.uuidDomainComponent (BitVec.ofNat 64 n)

/-- `Components::register_with_id`. -/
def registerWithId (c : Components κ) (id : Uuid) (component : Registered κ) : Components κ :=
  { c with components := Function.update c.components id (some component) }

/-- `Scheduler::execute_task`. -/
def executeTask (code : Code κ ε τ ρ) (s : Scheduler ε τ ρ) (taskId : TaskId) :
    Scheduler ε τ ρ × List (DeferredWake ε) :=
  match s.beginTask taskId with
  | (none, s) => (s, [])
  | (some task, s') =>
    let (result, s', wakes) := code.execute task s'
    (s'.endTask taskId s.executingTaskId result, wakes)

/-- `Components::process_event_entry`, and the wakes that are deferred. -/
def processEventEntry (code : Code κ ε τ ρ) (c : Components κ) (s : Scheduler ε τ ρ) :
    EventEntry ε → Components κ × Scheduler ε τ ρ × List (DeferredWake ε)
  | .component _ _ key event =>
    match c.components key with
    | none => (c, s, [])
    | some r =>
      let (component, s, wakes) := code.processEvent r.component key event s
      ({ c with components := Function.update c.components key (some { r with component }) }, s, wakes)
  | .task _ _ taskId =>
    let (s, wakes) := executeTask code s taskId
    (c, s, wakes)

end Components

/-! ## A simulation -/

/-- `Simulation`. -/
structure Simulation (κ ε τ ρ φ : Type) where
  scheduler : Scheduler ε τ ρ
  frontierPolicy : φ
  nextComponentId : Nat
  components : Components κ
  /-- `config.seed`. -/
  seed : BitVec 64

/-- A call on a simulation, or of code that is about it. -/
inductive Call (κ ε τ φ : Type) where
  | setFrontierPolicy (policy : φ)
  | addComponent (component : κ)
  /-- `Components::register`, on `sim.components`. -/
  | register (component : κ)
  | schedule (time : SimTime) (component : Uuid) (event : ε)
  | scheduleTask (delay : SimTime) (task : τ)
  /-- `defer_wake_after`, outside event processing. -/
  | deferWakeAfter (wake : DeferredWake ε)
  | step

/-- What a call returns. -/
inductive Returned (ε : Type) where
  | done
  /-- The id of the new component's key, and whether it was in use. -/
  | key (id : Uuid) (replaced : Bool)
  | task (taskId : TaskId)
  /-- The event that a step processed, which component got it, and the wakes it scheduled. -/
  | stepped (event : Option (EventEntry ε)) (receiver : Option Nat) (drained : List (Nat × DeferredWake ε))
deriving DecidableEq

namespace Simulation

variable {κ ε τ ρ φ : Type}

/-- `Simulation::new`, and `set_frontier_policy`. -/
def new (seed : BitVec 64) (policy : φ) : Simulation κ ε τ ρ φ := ⟨.withSeed seed, policy, 0, .default, seed⟩

/-- How many components were registered. -/
def registrations (sim : Simulation κ ε τ ρ φ) : Nat := sim.nextComponentId + sim.components.nextComponentId

/-- The component with the id, and what a call that registered it returns. -/
def insert (sim : Simulation κ ε τ ρ φ) (id : Uuid) (component : κ) : Simulation κ ε τ ρ φ × Returned ε :=
  ({ sim with components := sim.components.registerWithId id ⟨component, sim.registrations⟩ },
    .key id (sim.components.components id).isSome)

/-- `Simulation::add_component`; none where the counter overflows. -/
def addComponent (sim : Simulation κ ε τ ρ φ) (component : κ) : Option (Simulation κ ε τ ρ φ × Returned ε) :=
  if sim.nextComponentId < u64Max then
    let (sim', returned) := sim.insert (Components.idAt sim.seed (sim.nextComponentId + 1)) component
    some ({ sim' with nextComponentId := sim.nextComponentId + 1 }, returned)
  else none

/-- `Components::register`; none where the counter overflows. -/
def register (sim : Simulation κ ε τ ρ φ) (component : κ) : Option (Simulation κ ε τ ρ φ × Returned ε) :=
  let n := sim.components.nextComponentId
  if n < u64Max then
    let (sim', returned) := sim.insert (Components.idAt sim.components.idSeed (n + 1)) component
    some ({ sim' with components := { sim'.components with nextComponentId := n + 1 } }, returned)
  else none

/-- The component that gets an event. -/
def receiver? (sim : Simulation κ ε τ ρ φ) : EventEntry ε → Option Nat
  | .component _ _ key _ => (sim.components.components key).map (·.number)
  | .task .. => none

/-- `drain_deferred_wakes`. -/
def drain (s : Scheduler ε τ ρ) (wakes : List (DeferredWake ε)) : Scheduler ε τ ρ :=
  wakes.foldl (fun s wake => s.schedule wake.delay wake.component wake.event) s

/-- `Simulation::step`, of the simulation with the number `self`, with the buffer of deferred wakes. -/
def step [EventFrontierPolicy φ] (code : Code κ ε τ ρ) (self : Nat) (sim : Simulation κ ε τ ρ φ)
    (deferred : List (Nat × DeferredWake ε)) : (Simulation κ ε τ ρ φ × List (Nat × DeferredWake ε)) × Returned ε :=
  match sim.scheduler.popWithPolicy sim.frontierPolicy with
  | (none, scheduler, frontierPolicy) => (({ sim with scheduler, frontierPolicy }, deferred), .stepped none none [])
  | (some event, scheduler, frontierPolicy) =>
    let (components, scheduler, wakes) := Components.processEventEntry code sim.components scheduler event
    let deferred := deferred ++ wakes.map (self, ·)
    (({ sim with components, scheduler := drain scheduler (deferred.map (·.2)), frontierPolicy }, []),
      .stepped (some event) (sim.receiver? event) deferred)

/-- One call; none where it panics. -/
def call [EventFrontierPolicy φ] (code : Code κ ε τ ρ) (self : Nat) :
    Simulation κ ε τ ρ φ × List (Nat × DeferredWake ε) → Call κ ε τ φ →
      Option ((Simulation κ ε τ ρ φ × List (Nat × DeferredWake ε)) × Returned ε)
  | (sim, deferred), .setFrontierPolicy policy => some (({ sim with frontierPolicy := policy }, deferred), .done)
  | (sim, deferred), .addComponent component =>
    (sim.addComponent component).map fun (sim, returned) => ((sim, deferred), returned)
  | (sim, deferred), .register component =>
    (sim.register component).map fun (sim, returned) => ((sim, deferred), returned)
  | (sim, deferred), .schedule time component event =>
    some (({ sim with scheduler := sim.scheduler.schedule time component event }, deferred), .done)
  | (sim, deferred), .scheduleTask delay task =>
    let (taskId, scheduler) := sim.scheduler.scheduleTask delay task
    some (({ sim with scheduler }, deferred), .task taskId)
  | (sim, deferred), .deferWakeAfter wake => some ((sim, deferred ++ [(self, wake)]), .done)
  | (sim, deferred), .step => some (sim.step code self deferred)

end Simulation

/-! ## A thread -/

/-- The simulations in use on a thread, and `DEFERRED_WAKES`. -/
structure Thread (κ ε τ ρ φ : Type) where
  sims : Nat → Option (Simulation κ ε τ ρ φ)
  deferred : List (Nat × DeferredWake ε)

namespace Thread

variable {κ ε τ ρ φ : Type}

/-- A use of a simulation. -/
inductive Use (κ ε τ φ : Type) where
  | new (seed : BitVec 64) (policy : φ)
  | call (call : Call κ ε τ φ)
  /-- `Simulation::remove_component`. -/
  | removeComponent (key : Uuid)
  /-- The simulation is dropped, or what is left of it; components, tasks and futures may then defer wakes. -/
  | drop (wakes : List (DeferredWake ε))

/-- Before a simulation is used. -/
def empty : Thread κ ε τ ρ φ := ⟨fun _ => none, []⟩

/-- The simulation `k` is used. -/
def use [EventFrontierPolicy φ] (code : Code κ ε τ ρ) (t : Thread κ ε τ ρ φ) :
    Nat × Use κ ε τ φ → Option (Thread κ ε τ ρ φ × Nat × Returned ε)
  | (k, .new seed policy) => some ({ t with sims := Function.update t.sims k (some (.new seed policy)) }, k, .done)
  | (k, .call call) =>
    match t.sims k with
    | none => some (t, k, .done)
    | some sim => (Simulation.call code k (sim, t.deferred) call).map fun ((sim, deferred), returned) =>
        (⟨Function.update t.sims k (some sim), deferred⟩, k, returned)
  | (k, .removeComponent key) =>
    match t.sims k with
    | none => some (t, k, .done)
    | some sim =>
      let components := { sim.components with components := Function.update sim.components.components key none }
      some ({ t with sims := Function.update t.sims k (some { sim with components }) }, k, .done)
  | (k, .drop wakes) =>
    some (⟨Function.update t.sims k none, t.deferred ++ wakes.map (k, ·)⟩, k, .done)

end Thread

end DesCartes
