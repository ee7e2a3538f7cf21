import DesCartes.Framework.Table
import DesCartes.Impl.Http
import DesCartes.Impl.Tower.Metadata

/-!
# The service (`des-tower/src/tower/service/mod.rs`)

The clones of a `DesService` share a handle; with it go its server, its router, its futures and the
scheduler of their simulation. Everything else in the simulation is the operations of other code on
the scheduler, which has the keys neither of the server nor of the router. An event for one of the
two is processed when it is popped. What is called in scheduler context is scheduled when the
deferred wakes are drained.

The channels of `tokio` are a parameter (`Oneshot`), and so are the status codes of the `http`
crate. The counters of the ids do not overflow before that of the events does.
-/

namespace DesCartes.Tower

open Service (Event Response RequestAttempt RequestAttemptId RequestId Server ServiceTimeDistribution)

/-- `tokio::sync::oneshot`: a channel for one response, whose receiver is polled. -/
class Oneshot (χ : Type) where
  channel : χ
  send : χ → Response → χ
  dropSender : χ → χ
  poll : χ → Poll (Except Unit Response) × χ

/-- A receiver waits while nothing is sent, and is ready with what is sent. -/
class LawfulOneshot (χ : Type) [Oneshot χ] where
  Waiting : χ → Prop
  waiting_channel : Waiting (Oneshot.channel : χ)
  poll_pending : ∀ c : χ, Waiting c → (Oneshot.poll c).1 = .pending ∧ Waiting (Oneshot.poll c).2
  poll_send : ∀ (c : χ) (response : Response), Waiting c → (Oneshot.poll (Oneshot.send c response)).1 = .ready (.ok response)

/-! ## Responses -/

/-- `http::Response<SimBody>`. -/
structure HttpResponse (σ : Type) where
  status : σ
  body : List UInt8
deriving DecidableEq

/-- `response_to_http`. What is built of a status code and a body is always a response. -/
def responseToHttp {σ : Type} [StatusCode σ] (response : Response) : Except ServiceError (HttpResponse σ) :=
  match response.status with
  | .ok => .ok ⟨StatusCode.ok, if response.payload = [] then Utf8.encode "OK".toList else response.payload⟩
  | .error code message =>
    .ok ⟨(StatusCode.fromU16 (.ofNat code)).getD StatusCode.internalServerError, Utf8.encode message⟩

/-! ## The handle and the router -/

/-- The keys of a server and a router, which are those of two components. -/
structure ServiceKeys where
  server : Uuid
  router : Uuid
  ne : server ≠ router

/-- `TowerSchedulerHandle`, and what the `ResponseRouter` shares with it. A sender is known by the
future that has its receiver. -/
structure TowerSchedulerHandle (w : Type) where
  keys : ServiceKeys
  pendingResponses : AList fun _ : RequestAttemptId => Nat
  nextRequestId : Nat
  nextAttemptId : Nat
  currentLoad : Nat
  capacity : Nat
  wakers : List w

namespace TowerSchedulerHandle

variable {w : Type}

/-- `TowerSchedulerHandle::new`. -/
def new (keys : ServiceKeys) (capacity : Nat) : TowerSchedulerHandle w := ⟨keys, ∅, 1, 1, 0, capacity, []⟩

/-- `TowerSchedulerHandle::has_capacity`. -/
def hasCapacity (h : TowerSchedulerHandle w) : Bool := h.currentLoad < h.capacity

/-- `TowerSchedulerHandle::register_waker`. -/
def registerWaker (h : TowerSchedulerHandle w) (waker : w) : TowerSchedulerHandle w := { h with wakers := h.wakers ++ [waker] }

/-- `TowerSchedulerHandle::create_request_attempt`. -/
def createRequestAttempt (h : TowerSchedulerHandle w) (req : Request) : RequestAttempt × TowerSchedulerHandle w :=
  match Metadata.getRetryMetadata req with
  | some retryMeta =>
    (.new ⟨h.nextAttemptId⟩ retryMeta.originalRequestId retryMeta.attemptNumber (.fromDuration 0) (serializeHttpRequest req.http),
      { h with nextAttemptId := h.nextAttemptId + 1 })
  | none =>
    (.new ⟨h.nextAttemptId⟩ ⟨h.nextRequestId⟩ 1 (.fromDuration 0) (serializeHttpRequest req.http),
      { h with nextRequestId := h.nextRequestId + 1, nextAttemptId := h.nextAttemptId + 1 })

/-- The event that `schedule_request` schedules. -/
def processRequest (h : TowerSchedulerHandle w) (attempt : RequestAttempt) : Send Event :=
  ⟨.zero, h.keys.server, .server (.processRequest attempt h.keys.router)⟩

end TowerSchedulerHandle

/-- A `DesService` with its server and its futures, and the scheduler of its simulation. -/
structure DesService (χ δ τ ρ w : Type) where
  server : Server δ
  handle : TowerSchedulerHandle w
  /-- The receiver of each `DesServiceFuture`. -/
  futures : Table χ
  /-- The deferred wakes. -/
  deferred : List (Send Event)
  session : Session Event τ ρ

namespace DesService

variable {χ δ τ ρ φ σ w : Type}

/-- `DesServiceBuilder::build`, in a new simulation. -/
def build (keys : ServiceKeys) (threadCapacity : Nat) (serviceTimeDistribution : δ) (idSeed : BitVec 64) : DesService χ δ τ ρ w :=
  ⟨.new threadCapacity serviceTimeDistribution none, .new keys threadCapacity, .empty, [], .fresh idSeed⟩

/-- An operation on the service, its futures, or the scheduler. -/
inductive Op (τ ρ φ w : Type) where
  /-- An operation of other code. -/
  | other (op : DesCartes.Op Event τ ρ φ)
  | pollReady (waker : w)
  /-- A call, in scheduler context or not. -/
  | call (inside : Bool) (req : Request)
  | poll (future : Nat)
  | drop (future : Nat)
  /-- The deferred wakes are drained. -/
  | drain

/-- What an operation returns, or what has been done with the event that it has popped. -/
inductive Output (σ w : Type) where
  | done
  | ready (waker : w) (result : Poll (Except ServiceError Unit))
  | called (future : Nat) (attempt : RequestAttempt) (hadCapacity : Bool)
  | polled (future : Nat) (result : Poll (Except ServiceError (HttpResponse σ)))
  | served
  /-- The router has processed a response, and woken these. -/
  | routed (response : Response) (woken : List w)

/-- The load before and after an operation, and what it has returned. -/
structure Answer (σ w : Type) where
  before : Nat
  after : Nat
  output : Output σ w

/-- The operation schedules no event for the component with the key. -/
def Spares (key : Uuid) : DesCartes.Op Event τ ρ φ → Bool
  | .schedule _ component _ => component ≠ key
  | _ => true

/-- `poll_ready`. -/
def pollReady (s : DesService χ δ τ ρ w) (waker : w) : DesService χ δ τ ρ w × Poll (Except ServiceError Unit) :=
  if s.handle.hasCapacity then (s, .ready (.ok ())) else ({ s with handle := s.handle.registerWaker waker }, .pending)

variable [Oneshot χ]

/-- A sender is dropped. -/
def dropSender (futures : Table χ) : Option Nat → Table χ
  | none => futures
  | some i => ((futures.get i).map fun receiver => futures.set i (Oneshot.dropSender receiver)).getD futures

/-- `TowerSchedulerHandle::schedule_request`, with the sender of the future `i`. -/
def scheduleRequest (s : DesService χ δ τ ρ w) (inside : Bool) (attempt : RequestAttempt) (i : Nat) :
    Option (DesService χ δ τ ρ w) :=
  let s := { s with
    handle.currentLoad := s.handle.currentLoad + 1
    handle.pendingResponses := s.handle.pendingResponses.insert attempt.id i
    futures := dropSender s.futures (s.handle.pendingResponses.lookup attempt.id) }
  let send := s.handle.processRequest attempt
  if inside then some { s with deferred := s.deferred ++ [send] }
  else (s.session.sendAll [send]).map fun session => { s with session }

/-- `call`. -/
def call (s : DesService χ δ τ ρ w) (inside : Bool) (req : Request) : Option (DesService χ δ τ ρ w × RequestAttempt) :=
  let (attempt, handle) := s.handle.createRequestAttempt req
  ({ s with handle, futures := s.futures.insert Oneshot.channel }.scheduleRequest inside attempt s.futures.next).map (·, attempt)

/-- `DesServiceFuture::poll`, of the future `i`. A future that is done is gone. -/
def poll (σ : Type) [StatusCode σ] (s : DesService χ δ τ ρ w) (i : Nat) (receiver : χ) :
    DesService χ δ τ ρ w × Poll (Except ServiceError (HttpResponse σ)) :=
  match Oneshot.poll receiver with
  | (.ready (.ok response), _) => ({ s with futures := s.futures.erase i }, .ready (responseToHttp response))
  | (.ready (.error ()), _) => ({ s with futures := s.futures.erase i }, .ready (.error .cancelled))
  | (.pending, receiver) => ({ s with futures := s.futures.set i receiver }, .pending)

/-- What is sent to the receiver of a future, if there is still one. -/
def sendTo (futures : Table χ) (response : Response) : Option Nat → Table χ
  | none => futures
  | some i => ((futures.get i).map fun receiver => futures.set i (Oneshot.send receiver response)).getD futures

/-- `ResponseRouter::process_event`; none where the event is not one for a client. -/
def route (s : DesService χ δ τ ρ w) : Event → Option (DesService χ δ τ ρ w × Output σ w)
  | .client (.responseReceived response) =>
    some ({ s with
      handle.currentLoad := if s.handle.currentLoad = 0 then u64Max else s.handle.currentLoad - 1
      handle.pendingResponses := s.handle.pendingResponses.erase response.attemptId
      handle.wakers := []
      futures := sendTo s.futures response (s.handle.pendingResponses.lookup response.attemptId) },
      .routed response s.handle.wakers)
  | .client _ => some (s, .done)
  | .server _ => none

variable [ServiceTimeDistribution δ]

/-- The server processes an event; none where the event is not one for a server. -/
def serve (s : DesService χ δ τ ρ w) (event : Event) : Option (DesService χ δ τ ρ w × Output σ w) :=
  (Server.code.processEvent s.server s.handle.keys.server event s.session.scheduler.clock).bind fun (server, sends) =>
    (s.session.sendAll sends).map fun session => ({ s with server, session }, .served)

/-- An event that was popped is processed, if it is for the server or the router. -/
def deliver (s : DesService χ δ τ ρ w) (popped : Option (EventEntry Event)) : Option (DesService χ δ τ ρ w × Output σ w) :=
  match popped.bind (EventEntry.eventFor s.handle.keys.server) with
  | some event => s.serve event
  | none =>
    match popped.bind (EventEntry.eventFor s.handle.keys.router) with
    | some event => s.route event
    | none => some (s, .done)

variable [EventFrontierPolicy φ] [StatusCode σ]

/-- What an operation does and returns; none where it panics or is not possible. -/
def perform (s : DesService χ δ τ ρ w) : Op τ ρ φ w → Option (DesService χ δ τ ρ w × Output σ w)
  | .other op =>
    if Spares s.handle.keys.server op && Spares s.handle.keys.router op then
      (s.session.step op).bind fun (session, answer) => { s with session }.deliver answer.popped?
    else none
  | .pollReady waker =>
    let (s, result) := s.pollReady waker
    some (s, .ready waker result)
  | .call inside req =>
    (s.call inside req).map fun (s', attempt) => (s', .called s.futures.next attempt s.handle.hasCapacity)
  | .poll i => (s.futures.get i).map fun receiver =>
    let (s, result) := s.poll σ i receiver
    (s, .polled i result)
  | .drop i => (s.futures.get i).map fun _ => ({ s with futures := s.futures.erase i }, .done)
  | .drain => (s.session.sendAll s.deferred).map fun session => ({ s with session, deferred := [] }, .done)

/-- One operation. -/
def step (s : DesService χ δ τ ρ w) (op : Op τ ρ φ w) : Option (DesService χ δ τ ρ w × Answer σ w) :=
  (s.perform op).map fun (s', output) => (s', ⟨s.handle.currentLoad, s'.handle.currentLoad, output⟩)

end DesService

end DesCartes.Tower
