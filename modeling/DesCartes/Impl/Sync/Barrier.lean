import DesCartes.Framework.Table
import DesCartes.Impl.AsyncRuntime

/-!
# The barrier (`des-tokio/src/sync/barrier.rs`)

`State` is what the lock inside a `Barrier` guards. A `Barrier` is the state together with its
`Wait` futures that are alive. What the program does with it is a list of operations; `step`
performs one of them, and panics where the code does.

Some of this is not part of the program: the number of generations that were released (`generation`
is that number, as a `u64`), and of each future the number of the generation it was created in and
of the one in which it was counted as an arrival, the waker of its last poll that was pending, and
whether the barrier has woken that.
-/

namespace DesCartes

namespace Barrier

/-- `Waiter`. -/
structure Waiter (ω : Type) where
  taskId : AsyncRuntime.TaskId
  waker : ω
deriving DecidableEq

/-- `State`. -/
structure State (ω : Type) where
  parties : Nat
  arrived : Nat
  generation : Nat
  waiters : List (Waiter ω)
deriving DecidableEq

/-- `Wait`. -/
structure Wait (ω : Type) where
  generation : Nat
  taskId : Option AsyncRuntime.TaskId
  registered : Bool
  /-- The generation that it was created in. -/
  created : Nat
  /-- The generation in which it was counted as an arrival. -/
  counted : Option Nat
  /-- The waker of its last poll. -/
  waker : Option ω
  /-- Whether that has been woken since. -/
  woken : Bool
deriving DecidableEq

/-- An operation on a barrier. -/
inductive Op (ω : Type) where
  /-- `Barrier::wait`. -/
  | wait
  /-- `Wait::poll`, when the task is being polled, if any is. -/
  | poll (wait : Nat) (task : Option AsyncRuntime.TaskId) (waker : ω)
  /-- A `Wait` is dropped before it is done. -/
  | drop (wait : Nat)
deriving DecidableEq

/-- What an operation returns. -/
inductive Answer where
  | done
  /-- A poll, of a future that was counted in the generation if in any; `is_leader` when it is done. -/
  | polled (wait : Nat) (counted : Option Nat) (isLeader : Poll Bool)
  /-- A future was dropped that was counted in the generation if in any, after so many releases. -/
  | dropped (wait : Nat) (counted : Option Nat) (releases : Nat)
deriving DecidableEq

end Barrier

/-- A barrier, how many generations it has released, and its futures that are alive. -/
structure Barrier (ω : Type) where
  state : Barrier.State ω
  releases : Nat
  waits : Table (Barrier.Wait ω)

namespace Barrier

variable {ω : Type}

/-- `Barrier::new`. -/
def new (parties : Nat) : Option (Barrier ω) := if 0 < parties then some ⟨⟨parties, 0, 0, []⟩, 0, .empty⟩ else none

/-- `Barrier::wait`. -/
def wait (b : Barrier ω) : Barrier ω :=
  { b with waits := b.waits.insert ⟨b.state.generation, none, false, b.releases, none, none, false⟩ }

/-- A poll that finds the generation released: the future is done. -/
def pass (b : Barrier ω) (i : Nat) (p : Wait ω) : Barrier ω × Answer :=
  ({ b with waits := b.waits.erase i }, .polled i p.counted (.ready false))

/-- A poll of a future that is registered: the first entry of its task gets the waker. -/
def renew (b : Barrier ω) (i : Nat) (p : Wait ω) (taskId : AsyncRuntime.TaskId) (waker : ω) : Barrier ω × Answer :=
  let waiters := match b.state.waiters.findIdx? (·.taskId = taskId) with
    | some k => b.state.waiters.modify k fun w => { w with waker }
    | none => b.state.waiters
  ({ b with
    state := { b.state with waiters }
    waits := b.waits.set i { p with waker := some waker, woken := false } }, .polled i p.counted .pending)

/-- The last arrival: the generation is released, and the future is done. -/
def release [DecidableEq ω] (b : Barrier ω) (i : Nat) : Barrier ω × Answer :=
  let wakers := b.state.waiters.map (·.waker)
  ({ state := { b.state with generation := (b.state.generation + 1) % 2 ^ 64, arrived := 0, waiters := [] }
     releases := b.releases + 1
     waits := (b.waits.erase i).map fun p => if ∃ w ∈ wakers, p.waker = some w then { p with woken := true } else p },
    .polled i (some b.releases) (.ready true))

/-- Another arrival: the future is registered. -/
def arrive (b : Barrier ω) (i : Nat) (p : Wait ω) (taskId : AsyncRuntime.TaskId) (waker : ω) : Barrier ω × Answer :=
  ({ b with
    state := { b.state with arrived := b.state.arrived + 1, waiters := b.state.waiters ++ [⟨taskId, waker⟩] }
    waits := b.waits.set i
      { p with taskId := some taskId, registered := true, counted := some b.releases, waker := some waker, woken := false } },
    .polled i (some b.releases) .pending)

/-- `Wait::poll`, of the future `i`; none where there is no task. -/
def poll [DecidableEq ω] (b : Barrier ω) (i : Nat) (p : Wait ω) (task : Option AsyncRuntime.TaskId) (waker : ω) :
    Option (Barrier ω × Answer) :=
  (p.taskId.or task).map fun taskId =>
    if b.state.generation ≠ p.generation then b.pass i p
    else if p.registered then b.renew i p taskId waker
    else if b.state.arrived + 1 = b.state.parties then b.release i
    else b.arrive i p taskId waker

/-- `Drop for Wait`, on the state. -/
def State.leave (s : State ω) (p : Wait ω) : State ω :=
  if p.registered = false then s
  else
    match p.taskId with
    | none => s
    | some taskId =>
      if s.generation ≠ p.generation then s
      else
        match s.waiters.findIdx? (·.taskId = taskId) with
        | none => s
        | some k => { s with waiters := s.waiters.eraseIdx k, arrived := s.arrived - 1 }

/-- One operation; none where it panics. -/
def step [DecidableEq ω] (b : Barrier ω) : Op ω → Option (Barrier ω × Answer)
  | .wait => some (b.wait, .done)
  | .poll i task waker =>
    match b.waits.get i with
    | none => some (b, .done)
    | some p => b.poll i p task waker
  | .drop i =>
    match b.waits.get i with
    | none => some (b, .done)
    | some p =>
      some ({ b with state := b.state.leave p, waits := b.waits.erase i }, .dropped i p.counted b.releases)

end Barrier

end DesCartes
