import DesCartes.Impl.Tower.Basic

/-!
# The circuit breaker (`des-tower/src/tower/circuit_breaker/mod.rs`)

The clones of a service and their futures share a state, and have the same threshold and timeout.
What the inner service and its futures answer is given with each operation, and the tasks that a
breaker spawns may be polled at any time.
-/

namespace DesCartes.Tower

open AsyncRuntime (SimSleep)

/-- `CircuitBreakerState`. -/
inductive CircuitBreakerState where
  | closed (failureCount : Nat)
  | opened (generation : Nat)
  | halfOpen
deriving DecidableEq

namespace CircuitBreakerState

/-- `DesCircuitBreaker::should_allow_request`. -/
def shouldAllowRequest : CircuitBreakerState → Bool
  | closed _ => true
  | halfOpen => true
  | opened _ => false

/-- The generation with which a breaker is opened that has counted failures. -/
def nextGeneration : CircuitBreakerState → Nat
  | opened generation => generation + 1
  | _ => 1

/-- The state after the failure of a request, and the generation whose recovery is to be scheduled. -/
def fail (failureThreshold : Nat) (state : CircuitBreakerState) : CircuitBreakerState × Option Nat :=
  match state with
  | closed failureCount =>
    let newCount := failureCount + 1
    if failureThreshold ≤ newCount then (opened state.nextGeneration, some state.nextGeneration) else (closed newCount, none)
  | halfOpen => (opened 1, some 1)
  | opened generation => (opened generation, none)

end CircuitBreakerState

/-- `DesCircuitBreakerFuture`, with an inner future of type `φ`. -/
structure CircuitBreakerFuture (φ : Type) where
  inner : Option φ
  immediateError : Option ServiceError
deriving DecidableEq

/-- The task that an opening spawns. -/
structure Recovery where
  generation : Nat
  sleep : SimSleep
deriving DecidableEq

/-- The services with one state, the futures that they have returned, and the tasks that these have
spawned. -/
structure CircuitBreaker (φ : Type) where
  clock : SimTime
  state : CircuitBreakerState
  futures : Table (CircuitBreakerFuture φ)
  recoveries : Table Recovery

namespace CircuitBreaker

variable {φ ω : Type}

/-- `DesCircuitBreaker::new`. -/
def new : CircuitBreaker φ := ⟨.zero, .closed 0, .empty, .empty⟩

/-- An operation on a breaker. -/
inductive Op (φ ω : Type) where
  /-- Time passes. -/
  | advance (delay : SimTime)
  | pollReady (inner : Poll (Except ServiceError Unit))
  | call (inner : φ)
  | poll (future : Nat) (inner : Poll (Except ServiceError ω))
  | drop (future : Nat)
  /-- The runtime polls a task. -/
  | recover (task : Nat)

/-- What an operation returns. -/
inductive Output (φ ω : Type) where
  | done
  | ready (result : Poll (Except ServiceError Unit))
  | called (future : CircuitBreakerFuture φ)
  | polled (result : Poll (Except ServiceError ω))
deriving DecidableEq

/-- When an operation was performed, the state before and after it, and what it has returned. -/
structure Answer (φ ω : Type) where
  now : SimTime
  before : CircuitBreakerState
  after : CircuitBreakerState
  output : Output φ ω

/-- `DesCircuitBreaker::poll_ready`. -/
def pollReady (b : CircuitBreaker φ) (inner : Poll (Except ServiceError Unit)) : Poll (Except ServiceError Unit) :=
  if b.state.shouldAllowRequest then inner else .ready (.error .overloaded)

/-- `DesCircuitBreaker::call`. -/
def call (b : CircuitBreaker φ) (inner : φ) : CircuitBreakerFuture φ :=
  if b.state.shouldAllowRequest then ⟨some inner, none⟩ else ⟨none, some .overloaded⟩

/-- The task `i` is polled: it waits, and then the breaker is half open if its generation is still
the same. -/
def recover (b : CircuitBreaker φ) (i : Nat) (recovery : Recovery) : CircuitBreaker φ :=
  match pollSleep recovery.sleep b.clock with
  | (.pending, sleep) => { b with recoveries := b.recoveries.set i { recovery with sleep } }
  | (.ready _, _) =>
    { b with
      state := if b.state = .opened recovery.generation then .halfOpen else b.state
      recoveries := b.recoveries.erase i }

variable (failureThreshold recoveryTimeout : Nat)

/-- The task that lets the breaker recover is spawned. -/
def spawnRecovery (b : CircuitBreaker φ) : Option Nat → CircuitBreaker φ
  | none => b
  | some generation => { b with recoveries := b.recoveries.insert ⟨generation, .new recoveryTimeout⟩ }

/-- `DesCircuitBreakerFuture::poll`, of the future `i`. -/
def poll (b : CircuitBreaker φ) (i : Nat) (future : CircuitBreakerFuture φ) (inner : Poll (Except ServiceError ω)) :
    CircuitBreaker φ × Poll (Except ServiceError ω) :=
  match future.immediateError with
  | some error => ({ b with futures := b.futures.set i { future with immediateError := none } }, .ready (.error error))
  | none =>
    match future.inner with
    | none => (b, .ready (.error .circuitBreakerInvalidState))
    | some _ =>
      match inner with
      | .ready (.ok response) => ({ b with state := .closed 0 }, .ready (.ok response))
      | .ready (.error err) =>
        let (state, toSchedule) := b.state.fail failureThreshold
        ({ b with state }.spawnRecovery recoveryTimeout toSchedule, .ready (.error err))
      | .pending => (b, .pending)

/-- What an operation does and returns; none where its future or task is not alive. -/
def perform (b : CircuitBreaker φ) : Op φ ω → Option (CircuitBreaker φ × Output φ ω)
  | .advance delay => some ({ b with clock := b.clock + delay }, .done)
  | .pollReady inner => some (b, .ready (b.pollReady inner))
  | .call inner => some ({ b with futures := b.futures.insert (b.call inner) }, .called (b.call inner))
  | .poll i inner => (b.futures.get i).map fun future =>
    let (b, result) := b.poll failureThreshold recoveryTimeout i future inner
    (b, .polled result)
  | .drop i => (b.futures.get i).map fun _ => ({ b with futures := b.futures.erase i }, .done)
  | .recover i => (b.recoveries.get i).map fun recovery => (b.recover i recovery, .done)

/-- One operation. -/
def step (b : CircuitBreaker φ) (op : Op φ ω) : Option (CircuitBreaker φ × Answer φ ω) :=
  (b.perform failureThreshold recoveryTimeout op).map fun (b', output) => (b', ⟨b.clock, b.state, b'.state, output⟩)

end CircuitBreaker

end DesCartes.Tower
