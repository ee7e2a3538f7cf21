import Mathlib.Algebra.GroupWithZero.Nat
import DesCartes.Framework.Table
import DesCartes.Impl.AsyncRuntime

/-!
# The batch semaphore (`des-tokio/src/sync/batch_semaphore.rs`, `semaphore.rs`)

`State` is what the semaphore's lock guards, and `Acquire` the future that waits for permits. A
`Semaphore` is the state together with what is alive of it: the futures of `acquire_many`, each with
its `Acquire`, and the `SemaphorePermit`s. What the program does with them is a list of operations
(`Op`), in any order; `step` performs one of them, and panics where the code does.

A `usize` has 64 bits; the ids of waiters are natural numbers, since a run does not queue `2^64`
waiters. The `trace` and the totals `added`, `forgotten` and `lost` are not part of the program.
-/

namespace DesCartes.BatchSemaphore

/-- `usize::MAX`. -/
def usizeMax : Nat := 2 ^ 64 - 1

inductive TryAcquireError where
  | closed
  | noPermits
deriving DecidableEq

/-- `AcquireError`. -/
structure AcquireError where
deriving DecidableEq

/-- `Waiter`. -/
structure Waiter (ω : Type) where
  waiterId : Nat
  required : Nat
  remaining : Nat
  waker : ω
deriving DecidableEq

/-- A record of what happened to a waiter. -/
inductive Event where
  /-- It was put into the queue. -/
  | queued (waiterId : Nat)
  /-- All its permits were assigned to it. -/
  | satisfied (waiterId : Nat)
  /-- Its future was dropped. -/
  | cancelled (waiterId : Nat)
  /-- The semaphore was closed. -/
  | closed
  /-- It was polled when it was neither queued nor ready. -/
  | untracked (waiterId : Nat)
deriving DecidableEq

/-- `State`. -/
structure State (ω : Type) where
  permits : Nat
  closed : Bool
  nextWaiterId : Nat
  queue : List (Waiter ω)
  ready : Finset Nat
  trace : List Event

namespace State

variable {ω : Type}

/-- `State::new`. -/
def new (permits : Nat) : State ω := ⟨permits, false, 0, [], ∅, []⟩

def log (s : State ω) (event : Event) : State ω := { s with trace := s.trace ++ [event] }

/-- The loop of `add_permits_locked`, over the queue. -/
def addPermitsLoop : Nat → List (Waiter ω) → State ω → State ω × List ω
  | available, [], s => ({ s with permits := available, queue := [] }, [])
  | available, front :: queue, s =>
    if available = 0 then ({ s with queue := front :: queue }, [])
    else
      let give := min available front.remaining
      let front := { front with remaining := front.remaining - give }
      if front.remaining = 0 then
        let s := { s with ready := insert front.waiterId s.ready }.log (.satisfied front.waiterId)
        let (s, toWake) := addPermitsLoop (available - give) queue s
        (s, front.waker :: toWake)
      else ({ s with queue := front :: queue }, [])

/-- `add_permits_locked`: the state and the wakers to wake. -/
def addPermitsLocked (s : State ω) (added : Nat) : Option (State ω × List ω) :=
  if s.permits + added ≤ usizeMax then some (addPermitsLoop (s.permits + added) s.queue { s with permits := 0 })
  else none

/-- `remove_waiter_locked`. -/
def removeWaiterLocked (s : State ω) (waiterId : Nat) : Option (Waiter ω) × State ω :=
  (s.queue.find? (·.waiterId = waiterId), { s with queue := s.queue.eraseP (·.waiterId = waiterId) })

/-- `Semaphore::try_acquire`. -/
def tryAcquire (s : State ω) (permits : Nat) : Except TryAcquireError Unit × State ω :=
  if permits = 0 then (.ok (), s)
  else if s.closed then (.error .closed, s)
  else if s.queue ≠ [] then (.error .noPermits, s)
  else if s.permits < permits then (.error .noPermits, s)
  else (.ok (), { s with permits := s.permits - permits })

/-- `Semaphore::add_permits`. -/
def addPermits (s : State ω) (permits : Nat) : Option (State ω × List ω) :=
  if permits = 0 then some (s, []) else s.addPermitsLocked permits

/-- `Semaphore::close`. -/
def close (s : State ω) : State ω × List ω :=
  if s.closed then (s, [])
  else ({ s with closed := true, queue := [] }.log .closed, s.queue.map (·.waker))

/-- The permits assigned to the waiters of the queue. -/
def assigned (s : State ω) : Nat := (s.queue.map fun w => w.required - w.remaining).sum

/-- A waiter is put at the end of the queue. -/
def pushWaiter (s : State ω) (required remaining : Nat) (waker : ω) : State ω :=
  let waiter : Waiter ω := ⟨s.nextWaiterId, required, remaining, waker⟩
  { s with nextWaiterId := s.nextWaiterId + 1, queue := s.queue ++ [waiter] }.log (.queued s.nextWaiterId)

end State

/-- `Acquire`. -/
structure Acquire where
  permits : Nat
  waiterId : Option Nat
  completed : Bool
deriving DecidableEq

namespace Acquire

variable {ω : Type}

/-- `Acquire::new`. -/
def new (permits : Nat) : Acquire := ⟨permits, none, false⟩

/-- `Acquire::cancel_locked`. -/
def cancelLocked (a : Acquire) (s : State ω) : Option (State ω × List ω) :=
  match a.waiterId with
  | none => some (s, [])
  | some waiterId =>
    if waiterId ∈ s.ready then
      ({ s with ready := s.ready.erase waiterId }.log (.cancelled waiterId)).addPermitsLocked a.permits
    else
      match s.removeWaiterLocked waiterId with
      | (none, s) => some (s, [])
      | (some waiter, s) =>
        let s := s.log (.cancelled waiterId)
        let acquired := waiter.required - waiter.remaining
        if acquired = 0 then some (s, []) else s.addPermitsLocked acquired

/-- `Drop for Acquire`. -/
def drop (a : Acquire) (s : State ω) : Option (State ω × List ω) :=
  if a.completed then some (s, []) else a.cancelLocked s

/-- `Acquire::poll`, by the task `task` with the waker `waker`. It panics outside the poll of a task. -/
def poll (a : Acquire) (task : Option AsyncRuntime.TaskId) (waker : ω) (s : State ω) :
    Option (Poll (Except AcquireError Unit) × Acquire × State ω) :=
  if a.completed then some (.ready (.ok ()), a, s)
  else if task = none then none
  else if s.closed then some (.ready (.error ⟨⟩), a, s)
  else
    match a.waiterId with
    | some waiterId =>
      if waiterId ∈ s.ready then
        some (.ready (.ok ()), { a with waiterId := none, completed := true },
          { s with ready := s.ready.erase waiterId })
      else
        match s.queue.findIdx? (·.waiterId = waiterId) with
        | some k => some (.pending, a, { s with queue := s.queue.modify k fun w => { w with waker } })
        -- "treat as ready to avoid deadlock"
        | none => some (.ready (.ok ()), { a with waiterId := none, completed := true }, s.log (.untracked waiterId))
    | none =>
      if s.queue = [] then
        if a.permits ≤ s.permits then
          some (.ready (.ok ()), { a with completed := true }, { s with permits := s.permits - a.permits })
        else
          some (.pending, { a with waiterId := some s.nextWaiterId },
            { s with permits := 0 }.pushWaiter a.permits (a.permits - s.permits) waker)
      else
        some (.pending, { a with waiterId := some s.nextWaiterId }, s.pushWaiter a.permits a.permits waker)

end Acquire

/-- A semaphore, and what is alive of it. -/
structure Semaphore (ω : Type) where
  state : State ω
  /-- The futures of `acquire_many`. -/
  acquires : Table Acquire
  /-- The `SemaphorePermit`s, by their `permits`. -/
  permits : Table Nat
  /-- The permits that `add_permits` added. -/
  added : Nat
  /-- The permits of the `SemaphorePermit`s that were forgotten. -/
  forgotten : Nat
  /-- The permits that were assigned to the waiters that `close` removed. -/
  lost : Nat

/-- An operation on a semaphore. -/
inductive Op (ω : Type) where
  | acquireMany (permits : Nat)
  /-- A future of `acquire_many` is polled. -/
  | poll (acquire : Nat) (task : Option AsyncRuntime.TaskId) (waker : ω)
  /-- A future of `acquire_many` is dropped before it is done. -/
  | dropAcquire (acquire : Nat)
  | tryAcquireMany (permits : Nat)
  | addPermits (permits : Nat)
  | dropPermit (permit : Nat)
  | forget (permit : Nat)
  | close
deriving DecidableEq

/-- What an operation returns, and the wakers that it wakes. -/
inductive Answer (ω : Type) where
  | done (woken : List ω)
  /-- A poll, and the new permit if there is one. -/
  | polled (result : Poll (Except AcquireError Nat)) (woken : List ω)
  /-- `try_acquire_many`, and the new permit if there is one. -/
  | tried (result : Except TryAcquireError Nat)

namespace Semaphore

variable {ω : Type}

/-- `Semaphore::new`. -/
def new (permits : Nat) : Semaphore ω := ⟨.new permits, .empty, .empty, 0, 0, 0⟩

/-- A poll of the future `i` of `Semaphore::acquire_many`. Once its `Acquire` is ready that is dropped. -/
def poll (m : Semaphore ω) (i : Nat) (task : Option AsyncRuntime.TaskId) (waker : ω) :
    Option (Semaphore ω × Answer ω) :=
  match m.acquires.get i with
  | none => some (m, .done [])
  | some a =>
    if a.permits = 0 then
      some ({ m with acquires := m.acquires.erase i, permits := m.permits.insert 0 },
        .polled (.ready (.ok m.permits.next)) [])
    else
      (a.poll task waker m.state).bind fun (result, a, state) =>
        match result with
        | .pending => some ({ m with state, acquires := m.acquires.set i a }, .polled .pending [])
        | .ready result =>
          (a.drop state).map fun (state, woken) =>
            let m := { m with state, acquires := m.acquires.erase i }
            match result with
            | .ok () => ({ m with permits := m.permits.insert a.permits },
                .polled (.ready (.ok m.permits.next)) woken)
            | .error e => (m, .polled (.ready (.error e)) woken)

/-- `Drop` of the future `i` of `acquire_many`: its `Acquire` is dropped. -/
def dropAcquire (m : Semaphore ω) (i : Nat) : Option (Semaphore ω × Answer ω) :=
  match m.acquires.get i with
  | none => some (m, .done [])
  | some a => (a.drop m.state).map fun (state, woken) =>
      ({ m with state, acquires := m.acquires.erase i }, .done woken)

/-- `Semaphore::try_acquire_many`. -/
def tryAcquireMany (m : Semaphore ω) (permits : Nat) : Semaphore ω × Answer ω :=
  match m.state.tryAcquire permits with
  | (.error e, state) => ({ m with state }, .tried (.error e))
  | (.ok (), state) => ({ m with state, permits := m.permits.insert permits }, .tried (.ok m.permits.next))

/-- `Semaphore::add_permits`. -/
def addPermits (m : Semaphore ω) (permits : Nat) : Option (Semaphore ω × Answer ω) :=
  (m.state.addPermits permits).map fun (state, woken) =>
    ({ m with state, added := m.added + permits }, .done woken)

/-- `Drop for SemaphorePermit`, of the permit `j`. -/
def dropPermit (m : Semaphore ω) (j : Nat) : Option (Semaphore ω × Answer ω) :=
  match m.permits.get j with
  | none => some (m, .done [])
  | some permits => (m.state.addPermits permits).map fun (state, woken) =>
      ({ m with state, permits := m.permits.erase j }, .done woken)

/-- `SemaphorePermit::forget`, of the permit `j`: with its `permits` set to 0 it is dropped. -/
def forget (m : Semaphore ω) (j : Nat) : Option (Semaphore ω × Answer ω) :=
  match m.permits.get j with
  | none => some (m, .done [])
  | some permits =>
    { m with permits := m.permits.set j 0, forgotten := m.forgotten + permits }.dropPermit j

/-- `Semaphore::close`. -/
def close (m : Semaphore ω) : Semaphore ω × Answer ω :=
  let (state, woken) := m.state.close
  ({ m with state, lost := m.lost + if m.state.closed then 0 else m.state.assigned }, .done woken)

/-- One operation; none where it panics. -/
def step (m : Semaphore ω) : Op ω → Option (Semaphore ω × Answer ω)
  | .acquireMany permits => some ({ m with acquires := m.acquires.insert (.new permits) }, .done [])
  | .poll i task waker => m.poll i task waker
  | .dropAcquire i => m.dropAcquire i
  | .tryAcquireMany permits => some (m.tryAcquireMany permits)
  | .addPermits permits => m.addPermits permits
  | .dropPermit j => m.dropPermit j
  | .forget j => m.forget j
  | .close => some m.close

end Semaphore

end DesCartes.BatchSemaphore
