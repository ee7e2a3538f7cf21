import DesCartes.Impl.Tower.Service

/-!
# Retries (`des-tower/src/tower/retry/mod.rs`)

The clones of a `DesRetry` share its service. Between the two there may be other layers that pass
each call on and answer it in their own time, as a timeout does, so what the inner futures answer is
given with each poll. The counter of the ids of retries is that of the process: other retries take
ids from it, too.
-/

namespace DesCartes.Tower

open AsyncRuntime (SimSleep)
open Service (Event RequestAttempt RequestId ServiceTimeDistribution)

/-- `tower::retry::Policy`: whether to retry, the policy afterwards and what it makes of the request. -/
class TowerPolicy (P σ : Type) where
  retry : P → Request → Except ServiceError (HttpResponse σ) → Bool × P × Request

/-- `DesRetryPolicy`. -/
structure DesRetryPolicy where
  maxRetries : Nat
  currentAttempts : Nat
deriving DecidableEq

namespace DesRetryPolicy

/-- `DesRetryPolicy::new`. -/
def new (maxRetries : Nat) : DesRetryPolicy := ⟨maxRetries, 0⟩

/-- The errors that are retried. -/
def shouldRetry {σ : Type} : Except ServiceError (HttpResponse σ) → Bool
  | .ok _ => false
  | .error error =>
    match error with
    | .timeout _ => true
    | .overloaded => true
    | .internal _ => true
    | .notReady => true
    | .cancelled => false
    | .http _ => false
    | .circuitBreakerInvalidState => true
    | .rateLimiterInvalidState => true
    | .httpResponseBuilder _ => false

instance {σ : Type} : TowerPolicy DesRetryPolicy σ where
  retry p request result :=
    if p.maxRetries ≤ p.currentAttempts then (false, p, request)
    else if shouldRetry result then (true, { p with currentAttempts := p.currentAttempts + 1 }, request)
    else (false, p, request)

end DesRetryPolicy

/-- `RetryState`; of the inner future, the one of the service is kept. -/
inductive RetryState where
  | calling (future : Nat)
  | checking (error : ServiceError)
  | sleeping (sleep : SimSleep)
  | done

/-- `DesRetryFuture`. -/
structure DesRetryFuture (P : Type) where
  policy : P
  originalRequest : Request
  currentRequest : Request
  state : RetryState
  retryMetadata : Option RetryMetadata

namespace DesRetryFuture

variable {P : Type}

/-- `DesRetryFuture::new`. -/
def new (policy : P) (request : Request) (future : Nat) : DesRetryFuture P :=
  ⟨policy, request, request, .calling future, Metadata.getRetryMetadata request⟩

/-- `DesRetryFuture::create_retry_request`, and the counter of the ids of retries. -/
def createRetryRequest (f : DesRetryFuture P) (retryAttemptId : Nat) : Request × DesRetryFuture P × Nat :=
  let (retryMeta, retryAttemptId) :=
    match f.retryMetadata with
    | some existingMeta => (existingMeta.nextAttempt, retryAttemptId)
    | none => ((RetryMetadata.new ⟨retryAttemptId⟩).nextAttempt, retryAttemptId + 1)
  (Metadata.createRetryRequest f.originalRequest retryMeta, { f with retryMetadata := some retryMeta }, retryAttemptId)

end DesRetryFuture

/-- A `DesRetry`, the futures that it and its clones have returned, the service, and
`NEXT_RETRY_ATTEMPT_ID`. -/
structure DesRetry (P χ δ τ ρ w : Type) where
  policy : P
  service : DesService χ δ τ ρ w
  futures : Table (DesRetryFuture P)
  retryAttemptId : Nat

namespace DesRetry

variable {P χ δ τ ρ φ σ w : Type}

/-- `DesRetry::new`, of a new service, in a process in which some ids of retries may have been taken. -/
def new (policy : P) (service : DesService χ δ τ ρ w) (taken : Nat) : DesRetry P χ δ τ ρ w :=
  ⟨policy, service, .empty, 1000000 + taken⟩

/-- An operation on the services or their futures. -/
inductive Op (τ ρ φ σ w : Type) where
  /-- An operation on the inner service or on its simulation. -/
  | service (op : DesService.Op τ ρ φ w)
  /-- Another `DesRetry` takes an id. -/
  | takeId
  | call (inside : Bool) (request : Request)
  /-- One round of the loop in which a future is polled, with what its inner future answers. -/
  | poll (future : Nat) (inside : Bool) (inner : Poll (Except ServiceError (HttpResponse σ)))
  | drop (future : Nat)

/-- What an operation returns; for an attempt, also from which counter its id may be. -/
inductive Output (σ : Type) where
  | done
  | polled (future : Nat) (result : Poll (Except ServiceError (HttpResponse σ)))
  | called (future : Nat) (request : Request) (nextRequestId : Nat) (attempt : RequestAttempt)
  | retried (future : Nat) (retryMetadata : Option RetryMetadata) (retryAttemptId : Nat) (attempt : RequestAttempt)

variable [Oneshot χ]

/-- `DesRetry::call`. -/
def call (s : DesRetry P χ δ τ ρ w) (inside : Bool) (request : Request) : Option (DesRetry P χ δ τ ρ w × Output σ) :=
  (s.service.call inside request).map fun (service, attempt) =>
    ({ s with service, futures := s.futures.insert (.new s.policy request s.service.futures.next) },
      .called s.futures.next request s.service.handle.nextRequestId attempt)

variable [TowerPolicy P σ]

/-- One round of the loop of `DesRetryFuture::poll`, of the future `i`. -/
def poll (s : DesRetry P χ δ τ ρ w) (i : Nat) (future : DesRetryFuture P) (inside : Bool)
    (inner : Poll (Except ServiceError (HttpResponse σ))) : Option (DesRetry P χ δ τ ρ w × Output σ) :=
  match future.state with
  | .calling _ =>
    match inner with
    | .ready (.ok response) =>
      some ({ s with futures := s.futures.set i { future with state := .done } }, .polled i (.ready (.ok response)))
    | .ready (.error error) => some ({ s with futures := s.futures.set i { future with state := .checking error } }, .done)
    | .pending => some (s, .polled i .pending)
  | .checking error =>
    let (shouldRetry, policy, currentRequest) := TowerPolicy.retry future.policy future.currentRequest (.error error : Except ServiceError (HttpResponse σ))
    if shouldRetry then
      let state := .sleeping (.new (100 * nanosPerMilli))
      some ({ s with futures := s.futures.set i { future with policy, currentRequest, state } }, .done)
    else
      some ({ s with futures := s.futures.set i { future with policy, currentRequest, state := .done } },
        .polled i (.ready (.error error)))
  | .sleeping sleep =>
    match pollSleep sleep s.service.session.scheduler.clock with
    | (.ready (), _) =>
      let (retryRequest, future', retryAttemptId) := future.createRetryRequest s.retryAttemptId
      (s.service.call inside retryRequest).map fun (service, attempt) =>
        ({ s with
          service
          futures := s.futures.set i { future' with currentRequest := retryRequest, state := .calling s.service.futures.next }
          retryAttemptId }, .retried i future.retryMetadata s.retryAttemptId attempt)
    | (.pending, sleep) => some ({ s with futures := s.futures.set i { future with state := .sleeping sleep } }, .polled i .pending)
  | .done => some (s, .polled i .pending)

variable [ServiceTimeDistribution δ] [EventFrontierPolicy φ]

/-- One operation; none where it panics or is not possible. -/
def step [StatusCode σ] (s : DesRetry P χ δ τ ρ w) : Op τ ρ φ σ w → Option (DesRetry P χ δ τ ρ w × Output σ)
  | .service op => (s.service.step op).map fun (service, (_ : DesService.Answer σ w)) => ({ s with service }, .done)
  | .takeId => some ({ s with retryAttemptId := s.retryAttemptId + 1 }, .done)
  | .call inside request => s.call inside request
  | .poll i inside inner => (s.futures.get i).bind fun future => s.poll i future inside inner
  | .drop i => (s.futures.get i).map fun _ => ({ s with futures := s.futures.erase i }, .done)

end DesRetry

end DesCartes.Tower
