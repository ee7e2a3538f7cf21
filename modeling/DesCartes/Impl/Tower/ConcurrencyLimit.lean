import DesCartes.Impl.Tower.Basic

/-!
# The limits on concurrency (`des-tower/src/tower/limit/{concurrency,global_concurrency}/mod.rs`)

The services that share a limit, and the futures that they have returned. A `DesConcurrencyLimit`
shares its limit with its clones; a `DesGlobalConcurrencyLimit` is also made for a limit that is
there already. What the inner services and their futures answer is given with each operation, and
also whether an exchange of the counter succeeds that need not (`compare_exchange_weak`).
-/

namespace DesCartes.Tower

/-- `GlobalConcurrencyLimitState`, and what the clones of a `DesConcurrencyLimit` share, with wakers
of type `w`. -/
structure LimitState (w : Type) where
  maxConcurrency : Nat
  currentConcurrency : Nat
  waiters : List w
deriving DecidableEq

namespace LimitState

variable {w : Type}

/-- `GlobalConcurrencyLimitState::new`. -/
def new (maxConcurrency : Nat) : LimitState w := ⟨maxConcurrency, 0, []⟩

/-- `try_acquire`, where it succeeds. -/
def tryAcquire (s : LimitState w) (exchanged : Bool) : Option (LimitState w) :=
  if s.currentConcurrency < s.maxConcurrency then
    if exchanged then some { s with currentConcurrency := s.currentConcurrency + 1 } else none
  else none

/-- `release`: a slot is given back, and who waits is woken. -/
def release (s : LimitState w) : LimitState w × List w :=
  let currentConcurrency := if s.currentConcurrency = 0 then u64Max else s.currentConcurrency - 1
  ({ s with currentConcurrency, waiters := [] }, s.waiters)

/-- `register_waker`. -/
def registerWaker (s : LimitState w) (waker : w) : LimitState w := { s with waiters := s.waiters ++ [waker] }

end LimitState

/-- `DesConcurrencyLimit`, `DesGlobalConcurrencyLimit`. -/
structure LimitService where
  permit : Bool
deriving DecidableEq

/-- `DesConcurrencyLimitFuture`, `DesGlobalConcurrencyLimitFuture`, with an inner future of type `φ`. -/
structure LimitFuture (φ : Type) where
  inner : Option φ
  acquired : Bool
  immediateError : Option ServiceError
deriving DecidableEq

/-- Which limit it is. -/
inductive Limiter where
  | concurrency
  | globalConcurrency
deriving DecidableEq

/-- A limit, the services that share it, and their futures. -/
structure ConcurrencyLimit (φ w : Type) where
  state : LimitState w
  services : Table LimitService
  futures : Table (LimitFuture φ)

namespace ConcurrencyLimit

variable {φ ρ w : Type}

/-- `DesConcurrencyLimit::new`, the service of which is the first one, or
`GlobalConcurrencyLimitState::new`. -/
def new (limiter : Limiter) (maxConcurrency : Nat) : ConcurrencyLimit φ w where
  state := .new maxConcurrency
  services :=
    match limiter with
    | .concurrency => Table.empty.insert ⟨false⟩
    | .globalConcurrency => .empty
  futures := .empty

/-- An operation on the services of a limit and their futures. -/
inductive Op (φ ρ w : Type) where
  /-- `DesGlobalConcurrencyLimit::new`. -/
  | new
  | clone (service : Nat)
  | pollReady (service : Nat) (waker : w) (inner : Poll (Except ServiceError Unit)) (exchanged : Bool)
  | call (service : Nat) (inner : φ) (exchanged : Bool)
  | dropService (service : Nat)
  | poll (future : Nat) (inner : Poll (Except ServiceError ρ))
  | drop (future : Nat)

/-- What an operation returns. -/
inductive Output (φ ρ w : Type) where
  | done
  | ready (service : Nat) (waker : w) (inner result : Poll (Except ServiceError Unit))
  | called (service future : Nat) (value : LimitFuture φ)
  | droppedService (service : Nat) (value : LimitService)
  | polled (future : Nat) (result : Poll (Except ServiceError ρ))
  | dropped (future : Nat)
deriving DecidableEq

/-- The counter before and after an operation, whom it has woken if it has given back a slot, and
what it has returned. -/
structure Answer (φ ρ w : Type) where
  before : Nat
  after : Nat
  released : Option (List w)
  output : Output φ ρ w
deriving DecidableEq

/-- `poll_ready`, of the service `i`. -/
def pollReady (l : ConcurrencyLimit φ w) (i : Nat) (service : LimitService) (waker : w)
    (inner : Poll (Except ServiceError Unit)) (exchanged : Bool) : ConcurrencyLimit φ w × Poll (Except ServiceError Unit) :=
  match inner with
  | .ready (.ok ()) =>
    if service.permit then (l, .ready (.ok ()))
    else
      match l.state.tryAcquire exchanged with
      | some state => ({ l with state, services := l.services.set i ⟨true⟩ }, .ready (.ok ()))
      | none => ({ l with state := l.state.registerWaker waker }, .pending)
  | .ready (.error e) => (l, .ready (.error e))
  | .pending => (l, .pending)

/-- `call`, of the service `i`. -/
def call (l : ConcurrencyLimit φ w) (i : Nat) (service : LimitService) (inner : φ) (exchanged : Bool) :
    ConcurrencyLimit φ w × LimitFuture φ :=
  let acquired := if service.permit then some l.state else l.state.tryAcquire exchanged
  match acquired with
  | none => (l, ⟨none, false, some .notReady⟩)
  | some state => ({ l with state, services := l.services.set i ⟨false⟩ }, ⟨some inner, true, none⟩)

/-- `poll`, of the future `i`. -/
def poll (l : ConcurrencyLimit φ w) (i : Nat) (future : LimitFuture φ) (inner : Poll (Except ServiceError ρ)) :
    ConcurrencyLimit φ w × Option (List w) × Poll (Except ServiceError ρ) :=
  match future.immediateError with
  | some error => ({ l with futures := l.futures.set i { future with immediateError := none } }, none, .ready (.error error))
  | none =>
    match future.inner with
    | none => (l, none, .ready (.error .notReady))
    | some _ =>
      match inner with
      | .pending => (l, none, .pending)
      | .ready result =>
        if future.acquired then
          let (state, woken) := l.state.release
          ({ l with state, futures := l.futures.set i { future with acquired := false } }, some woken, .ready result)
        else (l, none, .ready result)

/-- `PinnedDrop::drop`, of the future `i`. -/
def drop (l : ConcurrencyLimit φ w) (i : Nat) (future : LimitFuture φ) : ConcurrencyLimit φ w × Option (List w) :=
  if future.acquired then
    let (state, woken) := l.state.release
    ({ l with state, futures := l.futures.erase i }, some woken)
  else ({ l with futures := l.futures.erase i }, none)

/-- What an operation does, whom it wakes if it gives back a slot, and what it returns; none where
its service or future is not alive, and for the operation that only one of the limits has. -/
def perform (limiter : Limiter) (l : ConcurrencyLimit φ w) :
    Op φ ρ w → Option (ConcurrencyLimit φ w × Option (List w) × Output φ ρ w)
  | .new =>
    match limiter with
    | .concurrency => none
    | .globalConcurrency => some ({ l with services := l.services.insert ⟨false⟩ }, none, .done)
  | .clone i => (l.services.get i).map fun _ => ({ l with services := l.services.insert ⟨false⟩ }, none, .done)
  | .pollReady i waker inner exchanged => (l.services.get i).map fun service =>
    let (l, result) := l.pollReady i service waker inner exchanged
    (l, none, .ready i waker inner result)
  | .call i inner exchanged => (l.services.get i).map fun service =>
    let (l', future) := l.call i service inner exchanged
    ({ l' with futures := l'.futures.insert future }, none, .called i l.futures.next future)
  | .dropService i => (l.services.get i).map fun service =>
    ({ l with services := l.services.erase i }, none, .droppedService i service)
  | .poll i inner => (l.futures.get i).map fun future =>
    let (l, released, result) := l.poll i future inner
    (l, released, .polled i result)
  | .drop i => (l.futures.get i).map fun future =>
    let (l, released) := l.drop i future
    (l, released, .dropped i)

/-- One operation. -/
def step (limiter : Limiter) (l : ConcurrencyLimit φ w) (op : Op φ ρ w) : Option (ConcurrencyLimit φ w × Answer φ ρ w) :=
  (l.perform limiter op).map fun (l', released, output) =>
    (l', ⟨l.state.currentConcurrency, l'.state.currentConcurrency, released, output⟩)

end ConcurrencyLimit

end DesCartes.Tower
