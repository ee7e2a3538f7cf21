import DesCartes.Framework.Table

/-!
# Joining and aborting tasks (`des-tokio/src/task.rs`)

`Tasks` is what there is of the tasks that were spawned: of each its `JoinState`, where its future is
and who holds its `JoinHandle`, and the `JoinSet`s, each a list of the tasks of its handles. An
`AbortHandle` can be made of every task, and be kept. The runtime's part is three operations: the
spawn queues are drained, the future of a task returns, and a `RuntimeEvent::Cancel` that was
deferred is processed. What is done with the tasks is a list of operations; `step` performs one of
them, and panics where the code does.

Of each task the waker of the last poll of its `JoinHandle` is kept when that was pending, and
whether that has been woken since; these two are not part of the program.
-/

namespace DesCartes

namespace Tasks

/-- `JoinError`. -/
inductive JoinError where
  | cancelled
deriving DecidableEq

/-- `JoinState`. -/
structure JoinState (τ ω : Type) where
  completed : Bool
  cancelled : Bool
  result : Option τ
  waker : Option ω
deriving DecidableEq

namespace JoinState

variable {τ ω : Type}

/-- `JoinState::new`. -/
def new : JoinState τ ω := ⟨false, false, none, none⟩

/-- The waker is taken, to be woken. -/
def takeWaker (s : JoinState τ ω) : JoinState τ ω × List ω := ({ s with waker := none }, s.waker.toList)

/-- `JoinState::complete`, and the waker that is woken. -/
def complete (s : JoinState τ ω) (value : τ) : JoinState τ ω × List ω :=
  { s with result := some value, completed := true }.takeWaker

/-- `JoinState::set_cancelled`, and the waker that is woken. -/
def setCancelled (s : JoinState τ ω) : JoinState τ ω × List ω := { s with cancelled := true }.takeWaker

/-- `JoinHandle::poll`; a panic when the result has been taken already. -/
def poll (s : JoinState τ ω) (waker : ω) : Option (JoinState τ ω × Poll (Except JoinError τ)) :=
  if s.cancelled then some (s, .ready (.error .cancelled))
  else if s.completed then s.result.map fun value => ({ s with result := none }, .ready (.ok value))
  else some ({ s with waker := some waker }, .pending)

end JoinState

/-- Who has the `JoinHandle` of a task. -/
inductive Holder where
  | nobody
  | caller
  | joinSet (set : Nat)
deriving DecidableEq

/-- Where the future of a task is. -/
inductive Place where
  /-- In a spawn queue. -/
  | queued
  /-- Among the tasks of the runtime. -/
  | installed
  /-- It has returned, or been dropped. -/
  | gone
deriving DecidableEq

/-- A task that was spawned. -/
structure Spawned (τ ω : Type) where
  state : JoinState τ ω
  future : Place
  holder : Holder
  /-- The waker of the last poll of its handle, when that was pending. -/
  pending : Option ω
  /-- Whether that has been woken since. -/
  woken : Bool
deriving DecidableEq

/-- An operation on tasks. -/
inductive Op (τ ω : Type) where
  /-- `spawn` and `spawn_local`. -/
  | spawn
  /-- `JoinHandle::poll`. -/
  | poll (task : Nat) (waker : ω)
  /-- `JoinHandle::abort`. -/
  | abort (task : Nat)
  /-- `AbortHandle::abort`. -/
  | abortDetached (task : Nat)
  | dropHandle (task : Nat)
  /-- `JoinSet::new`. -/
  | newSet
  /-- `JoinSet::spawn` and `JoinSet::spawn_local`. -/
  | spawnInto (set : Nat)
  | pollJoinNext (set : Nat) (waker : ω)
  | abortAll (set : Nat)
  | detachAll (set : Nat)
  | dropSet (set : Nat)
  /-- `DesRuntime::poll_ready_tasks` drains the spawn queues. -/
  | drainSpawnQueues
  /-- The future of the task, polled by the runtime, returns. -/
  | complete (task : Nat) (value : τ)
  /-- The runtime processes a `RuntimeEvent::Cancel` of the task. -/
  | cancel (task : Nat)
  /-- Something else wakes a waker. -/
  | wake (waker : ω)

/-- What an operation returns. -/
inductive Answer (τ : Type) where
  | done
  | polled (task : Nat) (result : Poll (Except JoinError τ))
  | joined (set : Nat) (result : Poll (Option (Except JoinError τ)))

end Tasks

/-- The tasks that were spawned, the `JoinSet`s, and the tasks for which a `RuntimeEvent::Cancel` is
deferred. -/
structure Tasks (τ ω : Type) where
  tasks : Table (Tasks.Spawned τ ω)
  sets : Table (List Nat)
  cancels : List Nat

namespace Tasks

variable {τ ω : Type}

/-- Before a task is spawned. -/
def empty : Tasks τ ω := ⟨.empty, .empty, []⟩

/-- `spawn_inner`, and who gets the handle. -/
def spawn (s : Tasks τ ω) (holder : Holder) : Tasks τ ω :=
  { s with tasks := s.tasks.insert ⟨.new, .queued, holder, none, false⟩ }

/-- The handle of the task is dropped, wherever it is. -/
def dropHandle (s : Tasks τ ω) (t : Nat) : Tasks τ ω :=
  match s.tasks.get t with
  | none => s
  | some q => { s with tasks := s.tasks.set t { q with holder := .nobody, pending := none, woken := false } }

/-- `JoinHandle::poll`, of the handle of the task. When it is ready the handle is dropped. -/
def pollHandle (s : Tasks τ ω) (t : Nat) (waker : ω) : Option (Tasks τ ω × Poll (Except JoinError τ)) :=
  match s.tasks.get t with
  | none => none
  | some q => (q.state.poll waker).map fun (state, result) =>
    match result with
    | .pending => ({ s with tasks := s.tasks.set t { q with state, pending := some waker, woken := false } }, .pending)
    | .ready value =>
      ({ s with tasks := s.tasks.set t { q with state, holder := .nobody, pending := none, woken := false } }, .ready value)

/-- The loop of `poll_join_next`, and the handles that are left in the set. -/
def pollSet (waker : ω) :
    Nat → Tasks τ ω → List Nat → Option (Tasks τ ω × List Nat × Poll (Option (Except JoinError τ)))
  | 0, s, handles => some (s, handles, .pending)
  | _ + 1, _, [] => none
  | n + 1, s, t :: handles =>
    match s.pollHandle t waker with
    | none => none
    | some (s, .ready result) => some (s, handles, .ready (some result))
    | some (s, .pending) => pollSet waker n s (handles ++ [t])

/-- `JoinSet::poll_join_next`, of the set `k` with the handles. -/
def pollJoinNext (s : Tasks τ ω) (k : Nat) (handles : List Nat) (waker : ω) : Option (Tasks τ ω × Answer τ) :=
  if handles = [] then some (s, .joined k (.ready none))
  else (pollSet waker handles.length s handles).map fun (s, handles, result) =>
    ({ s with sets := s.sets.set k handles }, .joined k result)

/-- `AbortHandle::abort`. -/
def abortDetached (s : Tasks τ ω) (t : Nat) : Tasks τ ω :=
  match s.tasks.get t with
  | none => s
  | some q =>
    { s with
      tasks := s.tasks.set t { q with state := { q.state with cancelled := true } }
      cancels := s.cancels ++ [t] }

/-- A future that was in a spawn queue is among the tasks of the runtime. -/
def Spawned.install (q : Spawned τ ω) : Spawned τ ω :=
  if q.future = .queued then { q with future := .installed } else q

/-- The loops at the start of `DesRuntime::poll_ready_tasks`, for both spawn queues. -/
def drainSpawnQueues (s : Tasks τ ω) : Tasks τ ω := { s with tasks := s.tasks.map Spawned.install }

/-- `DesRuntime::cancel_task`, of the task's future: one that is in a spawn queue stays there. -/
def Spawned.remove (q : Spawned τ ω) : Spawned τ ω :=
  if q.future = .installed then { q with future := .gone } else q

/-- The runtime processes a `RuntimeEvent::Cancel`, if it is deferred. -/
def cancel (s : Tasks τ ω) (t : Nat) : Tasks τ ω :=
  match s.tasks.get t with
  | none => s
  | some q =>
    if t ∈ s.cancels then { s with tasks := s.tasks.set t q.remove, cancels := s.cancels.erase t } else s

variable [DecidableEq ω]

/-- `Waker::wake`, of each of the wakers. -/
def wake (s : Tasks τ ω) (wakers : List ω) : Tasks τ ω :=
  { s with tasks := s.tasks.map fun q => if ∃ w ∈ wakers, q.pending = some w then { q with woken := true } else q }

/-- `JoinHandle::abort`. -/
def abort (s : Tasks τ ω) (t : Nat) : Tasks τ ω :=
  match s.tasks.get t with
  | none => s
  | some q =>
    let (state, woken) := q.state.setCancelled
    wake { s with tasks := s.tasks.set t { q with state }, cancels := s.cancels ++ [t] } woken

/-- The future of the task returns, if the runtime has it. -/
def complete (s : Tasks τ ω) (t : Nat) (value : τ) : Tasks τ ω :=
  match s.tasks.get t with
  | none => s
  | some q =>
    if q.future = .installed then
      let (state, woken) := q.state.complete value
      wake { s with tasks := s.tasks.set t { q with state, future := .gone } } woken
    else s

/-- `f`, if the caller has the handle of the task. -/
def ofCaller {β : Type} (s : Tasks τ ω) (t : Nat) (f otherwise : β) : β :=
  if (s.tasks.get t).any (·.holder = .caller) then f else otherwise

/-- `f` of the handles of the set, if it is alive. -/
def ofSet (s : Tasks τ ω) (k : Nat) (f : List Nat → Option (Tasks τ ω × Answer τ)) : Option (Tasks τ ω × Answer τ) :=
  match s.sets.get k with
  | none => some (s, .done)
  | some handles => f handles

/-- One operation; none where it panics. -/
def step (s : Tasks τ ω) : Op τ ω → Option (Tasks τ ω × Answer τ)
  | .spawn => some (s.spawn .caller, .done)
  | .poll t waker => s.ofCaller t ((s.pollHandle t waker).map fun (s, result) => (s, .polled t result)) (some (s, .done))
  | .abort t => some (s.ofCaller t (s.abort t) s, .done)
  | .abortDetached t => some (s.abortDetached t, .done)
  | .dropHandle t => some (s.ofCaller t (s.dropHandle t) s, .done)
  | .newSet => some ({ s with sets := s.sets.insert [] }, .done)
  | .spawnInto k => s.ofSet k fun handles =>
      some ({ s.spawn (.joinSet k) with sets := s.sets.set k (handles ++ [s.tasks.next]) }, .done)
  | .pollJoinNext k waker => s.ofSet k fun handles => s.pollJoinNext k handles waker
  | .abortAll k => s.ofSet k fun handles => some (handles.foldl abort s, .done)
  | .detachAll k => s.ofSet k fun handles => some ({ handles.foldl dropHandle s with sets := s.sets.set k [] }, .done)
  | .dropSet k => s.ofSet k fun handles =>
      some ({ handles.foldl dropHandle (handles.foldl abort s) with sets := s.sets.erase k }, .done)
  | .drainSpawnQueues => some (s.drainSpawnQueues, .done)
  | .complete t value => some (s.complete t value, .done)
  | .cancel t => some (s.cancel t, .done)
  | .wake waker => some (s.wake [waker], .done)

end Tasks

end DesCartes
