import DesCartes.Framework.BinaryHeap
import DesCartes.Framework.Vec
import DesCartes.Impl.Time
import DesCartes.Impl.Ids
import Mathlib.Data.Finset.Basic
import Mathlib.Data.List.MinMax
import Mathlib.Logic.Function.Basic

/-!
# The scheduler (`des-core/src/scheduler.rs`)

The event queue, the clock and the one-shot tasks of a simulation. Events carry a payload `ε`
(`Box<dyn Any>`), pending tasks are values of `τ` (`Box<dyn TaskExecution>`) and stored results
values of `ρ`. A hash map is the function that looks a key up in it, a hash set a finite set.
The counters of events and tasks are natural numbers; where it matters that they are `u64`, the
operation that would overflow one is said to panic (`Session.step`).

What a task does when it runs is not a function of the scheduler alone, so `execute_task` is
given in two halves, `beginTask` before and `endTask` after the task's own code.
-/

namespace DesCartes

/-- `task::TaskId`. -/
structure TaskId where
  uuid : Uuid
deriving DecidableEq

/-! ## Events -/

/-- `FrontierEventKind`. -/
inductive FrontierEventKind where
  | component
  | task
deriving DecidableEq

/-- `FrontierEvent`: what a frontier policy sees of an event. -/
structure FrontierEvent where
  seq : Nat
  kind : FrontierEventKind
  componentId : Option Uuid
  taskId : Option TaskId
deriving DecidableEq

/-- `EventEntry`. -/
inductive EventEntry (ε : Type) where
  | component (eventId : Nat) (time : SimTime) (component : Uuid) (inner : ε)
  | task (eventId : Nat) (time : SimTime) (taskId : TaskId)
deriving DecidableEq

namespace EventEntry

variable {ε : Type}

/-- `EventEntry::time`. -/
def time : EventEntry ε → SimTime
  | component _ t _ _ => t
  | task _ t _ => t

/-- `EventEntry::seq`. -/
def seq : EventEntry ε → Nat
  | component i _ _ _ => i
  | task i _ _ => i

/-- `EventEntry::task_id`. -/
def taskId : EventEntry ε → Option TaskId
  | component .. => none
  | task _ _ id => some id

/-- `EventEntry::to_frontier_event`. -/
def toFrontierEvent : EventEntry ε → FrontierEvent
  | component i _ c _ => ⟨i, .component, some c, none⟩
  | task i _ id => ⟨i, .task, none, some id⟩

@[simp] theorem seq_toFrontierEvent (e : EventEntry ε) : e.toFrontierEvent.seq = e.seq := by cases e <;> rfl

/-- `Ord for EventEntry`, reversed so that the earliest event is the greatest. -/
instance : Ord (EventEntry ε) :=
  ⟨fun a b => (compare b.time a.time).then (compare b.seq a.seq)⟩

theorem compare_def (a b : EventEntry ε) :
    compare a b = (compare b.time a.time).then (compare b.seq a.seq) := rfl

/-- The lexicographic order of time and sequence number. -/
def Before (a b : EventEntry ε) : Prop := a.time < b.time ∨ a.time = b.time ∧ a.seq ≤ b.seq

instance (a b : EventEntry ε) : Decidable (Before a b) :=
  inferInstanceAs (Decidable (a.time < b.time ∨ a.time = b.time ∧ a.seq ≤ b.seq))

theorem isLE_compare {a b : EventEntry ε} : (compare b a).isLE ↔ Before a b := by
  rw [compare_def, Before]
  rcases lt_trichotomy a.time b.time with h | h | h
  · simp [compare_lt_iff_lt.mpr h, h]
  · simp [h, Nat.isLE_compare]
  · simp [compare_gt_iff_gt.mpr h, h.not_gt, h.ne']

theorem Before.trans {a b c : EventEntry ε} (h₁ : Before a b) (h₂ : Before b c) : Before a c := by
  unfold Before at *
  rcases h₁ with h₁ | ⟨h₁, g₁⟩
  · rcases h₂ with h₂ | ⟨h₂, -⟩
    · exact .inl (h₁.trans h₂)
    · exact .inl (h₂ ▸ h₁)
  · rcases h₂ with h₂ | ⟨h₂, g₂⟩
    · exact .inl (h₁ ▸ h₂)
    · exact .inr ⟨h₁.trans h₂, g₁.trans g₂⟩

instance : Std.TransOrd (EventEntry ε) where
  eq_swap {a b} := by
    rw [compare_def, compare_def, Ordering.swap_then, Nat.compare_swap, ← Std.OrientedOrd.eq_swap]
  isLE_trans h₁ h₂ := isLE_compare.mpr ((isLE_compare.mp h₂).trans (isLE_compare.mp h₁))

end EventEntry

/-! ## Frontier policies -/

/-- `EventFrontierPolicy`: the index of the event to run next, and the policy afterwards. -/
class EventFrontierPolicy (φ : Type) where
  choose : φ → SimTime → List FrontierEvent → Nat × φ

/-- `FifoFrontierPolicy`. -/
structure FifoFrontierPolicy where
deriving DecidableEq

/-- `FifoFrontierPolicy::choose`: the position of the least sequence number. -/
def FifoFrontierPolicy.index (frontier : List FrontierEvent) : Nat :=
  ((frontier.zipIdx.argmin fun p => p.1.seq).map (·.2)).getD 0

instance : EventFrontierPolicy FifoFrontierPolicy := ⟨fun p _ frontier => (FifoFrontierPolicy.index frontier, p)⟩

/-! ## The scheduler -/

/-- `Scheduler`. -/
structure Scheduler (ε τ ρ : Type) where
  nextEventId : Nat
  idSeed : BitVec 64
  nextTaskId : Nat
  events : BinaryHeap (EventEntry ε)
  clock : SimTime
  pendingTasks : TaskId → Option τ
  completedTaskResults : TaskId → Option ρ
  cancelledTasks : Finset TaskId
  executingTaskId : Option TaskId

namespace Scheduler

variable {ε τ ρ φ : Type}

/-- `Scheduler::with_seed`. -/
def withSeed (idSeed : BitVec 64) : Scheduler ε τ ρ where
  nextEventId := 0
  idSeed := idSeed
  nextTaskId := 0
  events := .empty
  clock := .zero
  pendingTasks := fun _ => none
  completedTaskResults := fun _ => none
  cancelledTasks := ∅
  executingTaskId := none

/-- The event `schedule` adds. -/
def scheduledEvent (s : Scheduler ε τ ρ) (time : SimTime) (component : Uuid) (event : ε) : EventEntry ε :=
  .component (s.nextEventId + 1) (s.clock + time) component event

/-- `Scheduler::schedule`. -/
def schedule (s : Scheduler ε τ ρ) (time : SimTime) (component : Uuid) (event : ε) : Scheduler ε τ ρ :=
  { s with
    nextEventId := s.nextEventId + 1
    events := s.events.push (s.scheduledEvent time component event) }

/-- `Scheduler::schedule_now`. -/
def scheduleNow (s : Scheduler ε τ ρ) (component : Uuid) (event : ε) : Scheduler ε τ ρ :=
  s.schedule .zero component event

/-- `Scheduler::peek`. -/
def peek (s : Scheduler ε τ ρ) : Option (EventEntry ε) := s.events.peek

/-- `Scheduler::is_cancelled_task_event`: the mark of a cancelled task is taken on first sight. -/
def isCancelledTaskEvent (s : Scheduler ε τ ρ) (event : EventEntry ε) : Bool × Scheduler ε τ ρ :=
  match event with
  | .task _ _ id =>
    if id ∈ s.cancelledTasks then (true, { s with cancelledTasks := s.cancelledTasks.erase id }) else (false, s)
  | .component .. => (false, s)

/-- The loop of `pop` and the first loop of `pop_with_policy`: events are popped until one is not
that of a cancelled task. It runs at most as often as there are events. -/
def popLive : Nat → Scheduler ε τ ρ → Option (EventEntry ε) × Scheduler ε τ ρ
  | 0, s => (none, s)
  | n + 1, s =>
    match s.events.pop with
    | none => (none, s)
    | some (event, events) =>
      match ({ s with events } : Scheduler ε τ ρ).isCancelledTaskEvent event with
      | (true, s) => popLive n s
      | (false, s) => (some event, s)

/-- `Scheduler::pop`. -/
def pop (s : Scheduler ε τ ρ) : Option (EventEntry ε) × Scheduler ε τ ρ :=
  match popLive s.events.len s with
  | (none, s) => (none, s)
  | (some event, s) => (some event, { s with clock := event.time })

/-- The second loop of `pop_with_policy`: the other events of the frontier's time that are not
those of cancelled tasks, after the entries collected so far. -/
def collectFrontier (time : SimTime) :
    Nat → Scheduler ε τ ρ → List (EventEntry ε) → List (EventEntry ε) × Scheduler ε τ ρ
  | 0, s, entries => (entries, s)
  | n + 1, s, entries =>
    match s.events.pop with
    | none => (entries, s)
    | some (event, events) =>
      -- The event is only peeked at when its time is another.
      if event.time ≠ time then (entries, s)
      else
        match ({ s with events } : Scheduler ε τ ρ).isCancelledTaskEvent event with
        | (true, s) => collectFrontier time n s entries
        | (false, s) => collectFrontier time n s (entries ++ [event])

/-- The policy's choice among the frontier: it is only asked when there is one to make, and an
index out of range means the last entry. -/
def chooseIndex [EventFrontierPolicy φ] (policy : φ) (time : SimTime) (entries : List (EventEntry ε)) : Nat × φ :=
  let (chosen, policy) :=
    if entries.length ≤ 1 then (0, policy)
    else EventFrontierPolicy.choose policy time (entries.map EventEntry.toFrontierEvent)
  (min chosen (entries.length - 1), policy)

/-- `Scheduler::pop_with_policy`. -/
def popWithPolicy [EventFrontierPolicy φ] (s : Scheduler ε τ ρ) (policy : φ) :
    Option (EventEntry ε) × Scheduler ε τ ρ × φ :=
  match popLive s.events.len s with
  | (none, s) => (none, s, policy)
  | (some first, s) =>
    let (entries, s) := collectFrontier first.time s.events.len s [first]
    let (chosen, policy) := chooseIndex policy first.time entries
    let s := { s with events := s.events.pushAll (Vec.swapRemove entries chosen), clock := first.time }
    (entries[chosen]?, s, policy)

/-! ## Tasks -/

/-- The `n`th id `schedule_task` allocates. -/
def taskIdAt (idSeed : BitVec 64) (n : Nat) : TaskId :=
  ⟨Ids.deterministicUuid idSeed Ids.uuidDomainTask (BitVec.ofNat 64 n)⟩

/-- `Scheduler::schedule_task_at`. -/
def scheduleTaskAt (s : Scheduler ε τ ρ) (time : SimTime) (taskId : TaskId) (task : τ) : Scheduler ε τ ρ :=
  { s with
    pendingTasks := Function.update s.pendingTasks taskId (some task)
    nextEventId := s.nextEventId + 1
    events := s.events.push (.task (s.nextEventId + 1) time taskId) }

/-- `Scheduler::schedule_task`, of which `schedule_closure` and `timeout` are the cases of a
`ClosureTask` and a `TimeoutTask`, with the id of the handle it returns. -/
def scheduleTask (s : Scheduler ε τ ρ) (delay : SimTime) (task : τ) : TaskId × Scheduler ε τ ρ :=
  let s := { s with nextTaskId := s.nextTaskId + 1 }
  let taskId := taskIdAt s.idSeed s.nextTaskId
  (taskId, s.scheduleTaskAt (s.clock + delay) taskId task)

/-- `Scheduler::cancel_task`. -/
def cancelTask (s : Scheduler ε τ ρ) (taskId : TaskId) : Bool × Scheduler ε τ ρ :=
  let wasPending := (s.pendingTasks taskId).isSome
  let s := { s with pendingTasks := Function.update s.pendingTasks taskId none }
  (wasPending, if wasPending then { s with cancelledTasks := insert taskId s.cancelledTasks } else s)

/-- `Scheduler::execute_task` up to the call of the task: the task to run, if any. -/
def beginTask (s : Scheduler ε τ ρ) (taskId : TaskId) : Option τ × Scheduler ε τ ρ :=
  if taskId ∈ s.cancelledTasks then
    (none, { s with cancelledTasks := s.cancelledTasks.erase taskId })
  else
    match s.pendingTasks taskId with
    | none => (none, s)
    | some task =>
      (some task, { s with
        pendingTasks := Function.update s.pendingTasks taskId none
        executingTaskId := some taskId })

/-- `Scheduler::execute_task` after the task has returned: its result is stored unless it is `()`
(none) or the task is pending again under the same id. -/
def endTask (s : Scheduler ε τ ρ) (taskId : TaskId) (previous : Option TaskId) (result : Option ρ) :
    Scheduler ε τ ρ :=
  let s := { s with executingTaskId := previous }
  if (s.pendingTasks taskId).isSome then s
  else
    match result with
    | none => s
    | some r => { s with completedTaskResults := Function.update s.completedTaskResults taskId (some r) }

/-- `Scheduler::get_task_result`. -/
def getTaskResult (s : Scheduler ε τ ρ) (taskId : TaskId) : Option ρ × Scheduler ε τ ρ :=
  (s.completedTaskResults taskId,
    { s with completedTaskResults := Function.update s.completedTaskResults taskId none })

end Scheduler

end DesCartes
