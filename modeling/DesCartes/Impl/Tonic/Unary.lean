import DesCartes.Impl.Sync.Oneshot
import DesCartes.Impl.Tonic.Wire
import DesCartes.Impl.Transport.Endpoints

/-!
# Unary calls (`des-tonic/src/channel.rs`, `server.rs`, `transport.rs`)

The clients and servers of a simulation, its transport, and their unary calls. An event that was
scheduled is not taken away when it is processed: so messages come late, in any order and more than
once. What a handler returns is part of the operation with which it returns.

The call that an event or a handler is about is not part of the program.
-/

namespace DesCartes.Tonic

open Transport (ClientEndpoint Component EndpointId EndpointInfo Endpoints SimEndpointRegistry SimTransport TransportEvent TransportMessage NetworkModel)
open Transport.Endpoints (clientEndpointId)

/-- `tonic::metadata::MetadataMap`. -/
class TonicMetadata (μ : Type) where
  /-- The entries are inserted into an empty map, except for those that do not parse. -/
  fromEntries : Entries → μ
  /-- The ASCII entries whose values are strings. -/
  toEntries : μ → Entries

/-- `tonic::Request<Bytes>`. -/
structure Request (μ : Type) where
  metadata : μ
  payload : List UInt8

/-- `tonic::Response<Bytes>`. -/
structure Response (μ : Type) where
  metadata : μ
  payload : List UInt8
deriving DecidableEq

/-- What a call returns. -/
abbrev UnaryResult (κ μ : Type) := Except (Status κ) (Response μ)

/-- A call, with its `oneshot` channel. -/
structure Call (κ μ ω : Type) where
  client : Uuid
  correlationId : List Char
  response : Oneshot.State (UnaryResult κ μ) ω

/-- A task that a server has spawned for a request. -/
structure Handling where
  call : Nat
  unary : List Char → Bool
  src : EndpointId
  dst : EndpointId
  correlationId : List Char
  encodedReq : List UInt8

/-- An event that was scheduled, and the call that it is about. -/
structure Scheduled where
  call : Nat
  send : Send TransportEvent

/-- A simulation with a `Transport`. A server has handlers for some methods. -/
structure Simulated (ν κ μ ω : Type) extends Endpoints ν (List Char → Bool) where
  calls : Table (Call κ μ ω)
  handlings : Table Handling
  events : List Scheduled

namespace Simulated

variable {ν κ μ ω : Type}

/-- `Transport::install`, in a simulation with `n` components. -/
def new (seed : BitVec 64) (n : Nat) (networkModel : ν) : Simulated ν κ μ ω :=
  { Endpoints.new seed n networkModel with calls := .empty, handlings := .empty, events := [] }

/-- An operation. -/
inductive Op (κ μ ω : Type) where
  /-- Another component is added. -/
  | addComponent
  /-- `ServerBuilder::install`. -/
  | serve (serviceName instanceName : List Char) (unary : List Char → Bool)
  /-- `ClientBuilder::install`. -/
  | install (serviceName clientName : List Char) (endpointId : Option EndpointId)
  /-- `Transport::connect_socket_addr`. -/
  | connect (serviceName instanceName : List Char)
  /-- `Channel::unary`, which has got an endpoint to send to. -/
  | unary (client : Uuid) (path : List Char) (request : Request μ) (now : SimTime)
  /-- The future of a call is polled; `elapsed` tells whether the sleep of its timeout is over. -/
  | poll (call : Nat) (waker : ω) (elapsed : Bool)
  /-- The future of a call is dropped. -/
  | drop (call : Nat)
  /-- An event that was scheduled is processed. -/
  | process (event : Nat) (now : SimTime)
  /-- A handler returns. -/
  | respond (handling : Nat) (result : UnaryResult κ μ) (now : SimTime)

/-- What an operation returns. -/
inductive Output (κ μ : Type) where
  | done
  | refused (status : Status κ)
  | installed (key : Uuid)
  | called (call : Nat)
  | polled (call : Nat) (result : Poll (UnaryResult κ μ))
  | responded (call : Nat) (response : UnaryResponseWire κ)
deriving DecidableEq

/-- A component is added, and gets the messages for the endpoint. -/
def addEndpoint (s : Simulated ν κ μ ω) (component : Component (List Char → Bool)) (endpointId : EndpointId) :
    Option (Simulated ν κ μ ω × Output κ μ) :=
  (s.toEndpoints.addEndpoint component endpointId).map fun (endpoints, key) =>
    ({ s with toEndpoints := endpoints }, .installed key)

variable [TonicCode κ]

/-- `ServerEndpoint::start`. -/
def start (r : SimEndpointRegistry) (serviceName instanceName : List Char) : Except (Status κ) SimEndpointRegistry :=
  let info := EndpointInfo.new serviceName instanceName
  match r.registerEndpoint ((info.withMetadata "type".toList "grpc".toList).withMetadata "endpoint_id".toList
    (Nat.toDigits 10 info.id.id)) with
  | .ok r => .ok r
  | .error e => .error (.internal ("failed to register endpoint: ".toList ++ e))

/-- `ServerBuilder::install`. -/
def serve (s : Simulated ν κ μ ω) (serviceName instanceName : List Char) (unary : List Char → Bool) :
    Option (Simulated ν κ μ ω × Output κ μ) :=
  match start s.endpointRegistry serviceName instanceName with
  | .error status => some (s, .refused status)
  | .ok endpointRegistry => { s with endpointRegistry }.addEndpoint (.server unary) (EndpointInfo.new serviceName instanceName).id

/-- `ClientBuilder::install`. -/
def install (s : Simulated ν κ μ ω) (serviceName clientName : List Char) (endpointId : Option EndpointId) :
    Option (Simulated ν κ μ ω × Output κ μ) :=
  let endpointId := endpointId.getD (clientEndpointId clientName)
  s.addEndpoint (.client ⟨serviceName, endpointId, ∅, 0, none⟩) endpointId

/-- `Transport::connect_socket_addr`; none where the counter overflows. -/
def connect (s : Simulated ν κ μ ω) (serviceName instanceName : List Char) : Option (Simulated ν κ μ ω × Output κ μ) :=
  if s.nextClientId < u64Max then
    let clientName := s.nextClientName serviceName
    let s := { s with nextClientId := s.nextClientId + 1 }
    let targetEndpoint := (EndpointInfo.new serviceName instanceName).id
    if (s.endpointRegistry.findEndpoints serviceName).any (·.id = targetEndpoint) then
      s.addEndpoint (.client ⟨serviceName, clientEndpointId clientName, ∅, 0, some targetEndpoint⟩) (clientEndpointId clientName)
    else some (s, .refused ⟨TonicCode.unavailable, "service not found at ".toList ++ instanceName ++ " (".toList ++ serviceName ++
      ")".toList⟩)
  else none

/-- `Channel::select_target`; none where it waits. -/
def selectTarget (r : SimEndpointRegistry) (c : ClientEndpoint) : SimEndpointRegistry × Option (Except (Status κ) EndpointId) :=
  match c.targetEndpoint with
  | some target =>
    if (r.findEndpoints c.serviceName).any (·.id = target) then (r, some (.ok target))
    else (r, some (.error ⟨TonicCode.unavailable, "service not found at fixed address: ".toList ++ c.serviceName⟩))
  | none =>
    let (r, endpoint) := r.getEndpointForService c.serviceName
    (r, endpoint.map fun endpoint => .ok endpoint.id)

/-- The sender of a call is dropped. -/
def dropTx (calls : Table (Call κ μ ω)) : Option Nat → Table (Call κ μ ω)
  | none => calls
  | some k => ((calls.get k).map fun call => calls.set k { call with response := call.response.dropSender.1 }).getD calls

/-- A message of a call is given to the transport. -/
def scheduleTransport (s : Simulated ν κ μ ω) (call : Nat) (message : TransportMessage) : Simulated ν κ μ ω :=
  { s with events := s.events ++ [⟨call, ⟨.zero, s.transportKey, .sendMessage message⟩⟩] }

variable [TonicMetadata μ]

/-- `Channel::unary`, up to where it waits for the response. -/
def unary (s : Simulated ν κ μ ω) (client : Uuid) (path : List Char) (request : Request μ) (now : SimTime) :
    Option (Simulated ν κ μ ω × Output κ μ) :=
  match s.components.lookup client with
  | some (.client c) =>
    match selectTarget s.endpointRegistry c with
    | (_, none) => none
    | (endpointRegistry, some (.error status)) => some ({ s with endpointRegistry }, .refused status)
    | (endpointRegistry, some (.ok target)) => c.nextCorrelationId.map fun (c, correlationId) =>
      let k := s.calls.next
      let payload := encodeUnaryRequest ⟨path, TonicMetadata.toEntries request.metadata, request.payload⟩
      let calls := (dropTx s.calls (c.pending.lookup correlationId)).insert ⟨client, correlationId, .new⟩
      let components := s.components.insert client (.client { c with pending := c.pending.insert correlationId k })
      ({ s with endpointRegistry, calls, components }.scheduleTransport k
        ((TransportMessage.new 0 c.clientEndpoint target payload now .unaryRequest).withCorrelationId correlationId), .called k)
  | _ => none

/-- `pending.remove`, of a client, and the sender that is taken out. -/
def removePending (s : Simulated ν κ μ ω) (client : Uuid) (correlationId : List Char) : Simulated ν κ μ ω × Option Nat :=
  match s.components.lookup client with
  | some (.client c) =>
    ({ s with components := s.components.insert client (.client { c with pending := c.pending.erase correlationId }) },
      c.pending.lookup correlationId)
  | _ => (s, none)

/-- The future of `Channel::unary`, which waits for the response. -/
def poll (s : Simulated ν κ μ ω) (k : Nat) (call : Call κ μ ω) (waker : ω) (elapsed : Bool) : Simulated ν κ μ ω × Output κ μ :=
  match call.response.poll waker with
  | (response, .ready (.ok result)) =>
    ({ s with calls := s.calls.set k { call with response := response.dropReceiver } }, .polled k (.ready result))
  | (response, .ready (.error ())) =>
    let (s, tx) := { s with calls := s.calls.set k { call with response := response.dropReceiver } }.removePending call.client
      call.correlationId
    ({ s with calls := dropTx s.calls tx }, .polled k (.ready (.error ⟨TonicCode.cancelled, "request cancelled".toList⟩)))
  | (response, .pending) =>
    if elapsed then
      ({ s with calls := s.calls.set k { call with response := response.dropReceiver } },
        .polled k (.ready (.error ⟨TonicCode.deadlineExceeded, "request timed out".toList⟩)))
    else ({ s with calls := s.calls.set k { call with response } }, .polled k .pending)

/-- What a call returns for a response. -/
def unaryResult : Except (Status κ) (UnaryResponseWire κ) → UnaryResult κ μ
  | .ok wire =>
    if wire.ok then .ok ⟨TonicMetadata.fromEntries wire.metadata, wire.payload⟩ else .error ⟨wire.code, wire.message⟩
  | .error status => .error status

/-- `ClientEndpoint::process_event`, of a response. -/
def resolve (s : Simulated ν κ μ ω) (client : Uuid) (correlationId : List Char) (payload : List UInt8) : Simulated ν κ μ ω :=
  let (s, tx) := s.removePending client correlationId
  match tx with
  | none => s
  | some k =>
    match s.calls.get k with
    | none => s
    | some call =>
      let (response, _, _) := call.response.send (unaryResult (decodeUnaryResponse payload))
      { s with calls := s.calls.set k { call with response } }

/-- `ClientEndpoint::process_event` and `ServerEndpoint::process_event`, of the messages of unary calls. -/
def processEvent (s : Simulated ν κ μ ω) (k : Nat) (target : Uuid) (event : TransportEvent) : Simulated ν κ μ ω :=
  match event, s.components.lookup target with
  | .messageDelivered message, some (.client _) =>
    match message.messageType, message.correlationId with
    | .unaryResponse, some correlationId => s.resolve target correlationId message.payload
    | _, _ => s
  | .messageDelivered message, some (.server unary) =>
    match message.messageType, message.correlationId with
    | .unaryRequest, some correlationId =>
      { s with handlings := s.handlings.insert ⟨k, unary, message.source, message.destination, correlationId, message.payload⟩ }
    | _, _ => s
  | _, _ => s

/-- The response to a request whose handler, if there is one, returns `result`. -/
def responseWire (unary : List Char → Bool) (encodedReq : List UInt8) (result : UnaryResult κ μ) : UnaryResponseWire κ :=
  match decodeUnaryRequest encodedReq with
  | .ok reqWire =>
    if unary reqWire.method then
      match result with
      | .ok resp => ⟨true, TonicCode.ok, [], TonicMetadata.toEntries resp.metadata, resp.payload⟩
      | .error status => ⟨false, status.code, status.message, [], []⟩
    else ⟨false, TonicCode.unimplemented, "method not found: ".toList ++ reqWire.method, [], []⟩
  | .error status => ⟨false, status.code, status.message, [], []⟩

variable [NetworkModel ν]

/-- One operation; none where it is not possible, or panics. -/
def step (s : Simulated ν κ μ ω) : Op κ μ ω → Option (Simulated ν κ μ ω × Output κ μ)
  | .addComponent => (s.toEndpoints.addComponent .other).map fun (endpoints, key) =>
    ({ s with toEndpoints := endpoints }, .installed key)
  | .serve serviceName instanceName unary => s.serve serviceName instanceName unary
  | .install serviceName clientName endpointId => s.install serviceName clientName endpointId
  | .connect serviceName instanceName => s.connect serviceName instanceName
  | .unary client path request now => s.unary client path request now
  | .poll k waker elapsed => (s.calls.get k).bind fun call =>
    if call.response.receiverAlive then some (s.poll k call waker elapsed) else none
  | .drop k => (s.calls.get k).bind fun call =>
    if call.response.receiverAlive then
      some ({ s with calls := s.calls.set k { call with response := call.response.dropReceiver } }, .done)
    else none
  | .process i now => s.events[i]?.bind fun e =>
    if e.send.target = s.transportKey then
      ((SimTransport.code fun (networkModel : ν) (_ : Empty) =>
        networkModel).processEvent s.transport s.transportKey e.send.event now).map
        fun (transport, sends) => ({ s with transport, events := s.events ++ sends.map (⟨e.call, ·⟩) }, .done)
    else some (s.processEvent e.call e.send.target e.send.event, .done)
  | .respond j result now => (s.handlings.get j).map fun handling =>
    let response := responseWire handling.unary handling.encodedReq result
    ({ s with handlings := s.handlings.erase j }.scheduleTransport handling.call
      ((TransportMessage.new 0 handling.dst handling.src (encodeUnaryResponse response) now .unaryResponse).withCorrelationId
        handling.correlationId), .responded handling.call response)

end Simulated

end DesCartes.Tonic
