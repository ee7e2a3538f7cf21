import DesCartes.Impl.Axum.Http
import DesCartes.Impl.Sync.Oneshot
import DesCartes.Impl.Transport.Endpoints

/-!
# Requests and responses (`des-axum/src/client.rs`, `server.rs`, `transport.rs`)

The clients and servers of a simulation with a `Transport`, and the requests that are made. `tasks`
is what is still to be done for them, in any order: an event that was scheduled is processed, a task
that a server has spawned comes past its delay, a router returns. What a router returns, and whether
a body can be collected, is part of the operation.

The request that a task is about is not part of the program. The parsing of socket addresses is left
out, as are the names of servers and their delays.
-/

namespace DesCartes.Axum

open Transport (ClientEndpoint EndpointId EndpointInfo Endpoints SimEndpointRegistry SimTransport TransportEvent TransportMessage NetworkModel)
open Transport.Endpoints (clientEndpointId)

/-- How far `Client::request` has come. -/
inductive Stage (http : HttpCrate) (ω : Type) where
  /-- It selects an endpoint; `waits` tells whether it waits for a change of the registry. -/
  | selecting (waits : Bool)
  /-- It collects the body, to send it to the endpoint. -/
  | collecting (target : EndpointId)
  /-- It has sent the request. -/
  | sent (response : Oneshot.State (Except Error (Response http)) ω)
  /-- It has returned, or was dropped, before it sent anything. -/
  | ended

/-- A future of `Client::request`; `number` is the one in its correlation id, and `timeout` is in
nanoseconds. -/
structure Call (http : HttpCrate) (ω : Type) where
  client : Uuid
  number : Nat
  request : Request http
  timeout : Option Nat
  stage : Stage http ω

/-- What is to be done. -/
inductive Work where
  /-- An event that was scheduled. -/
  | event (send : Send TransportEvent)
  /-- The task that a server has spawned for a request. -/
  | handle (src dst : EndpointId) (correlationId : List Char) (encodedReq : List UInt8)
  /-- The same task, while its router handles the request. -/
  | route (src dst : EndpointId) (correlationId : List Char)

/-- Something that is to be done, and the request that it is about. -/
structure Task where
  call : Nat
  work : Work

/-- A simulation with a `Transport`. -/
structure Exchanges (ν : Type) (http : HttpCrate) (ω : Type) extends Endpoints ν Unit where
  calls : Table (Call http ω)
  tasks : List Task

/-- What the service of a router returns. -/
inductive Routed (http : HttpCrate) where
  | response (resp : Response http)
  /-- The body of the response cannot be collected. -/
  | bodyError (text : List Char)
  | serviceError (text : List Char)

/-- What a server makes of it. -/
def Routed.respWire {http : HttpCrate} : Routed http → Except Error HttpResponseWire
  | .response resp => .ok (responseToWire resp)
  | .bodyError text => .error (.internal ("response body error: ".toList ++ text))
  | .serviceError text => .error (.internal ("service error: ".toList ++ text))

/-- A decimal number; `frac` is the number of its `width` digits behind the point. -/
def fmtDecimal (int frac width : Nat) : List Char :=
  let digits := Nat.toDigits 10 frac
  Nat.toDigits 10 int ++ if frac = 0 then [] else
    '.' :: ((List.replicate (width - digits.length) '0' ++ digits).reverse.dropWhile (· = '0')).reverse

/-- `Debug for Duration`. -/
def debugDuration (nanos : Nat) : List Char :=
  if 1000000000 ≤ nanos then fmtDecimal (nanos / 1000000000) (nanos % 1000000000) 9 ++ "s".toList
  else if 1000000 ≤ nanos then fmtDecimal (nanos / 1000000) (nanos % 1000000) 6 ++ "ms".toList
  else if 1000 ≤ nanos then fmtDecimal (nanos / 1000) (nanos % 1000) 3 ++ "µs".toList
  else fmtDecimal nanos 0 1 ++ "ns".toList

namespace Exchanges

variable {ν ω : Type} {http : HttpCrate}

/-- `Transport::install`, in a simulation with `n` components. -/
def new (seed : BitVec 64) (n : Nat) (networkModel : ν) : Exchanges ν http ω :=
  { Endpoints.new seed n networkModel with calls := .empty, tasks := [] }

/-- An operation. -/
inductive Op (http : HttpCrate) (ω : Type) where
  /-- Another component is added. -/
  | addComponent
  /-- A call of other code on the endpoint registry. -/
  | registry (op : SimEndpointRegistry.Op)
  /-- `ServerBuilder::install`. -/
  | serve (serviceName instanceName : List Char)
  /-- `ClientBuilder::install`. -/
  | install (serviceName clientName : List Char) (endpointId targetEndpoint : Option EndpointId)
  /-- `Transport::connect`. -/
  | connect (serviceName : List Char)
  /-- `Transport::connect_socket_addr`. -/
  | connectSocketAddr (serviceName instanceName : List Char)
  /-- The future of `Client::request` is polled for the first time. -/
  | request (client : Uuid) (request : Request http) (timeout : Option Nat)
  /-- It looks for an endpoint: `changed` tells whether the registry has changed, if it waits for that,
  and `elapsed` whether the deadline has come. -/
  | select (call : Nat) (changed elapsed : Bool)
  /-- The body is collected, or it is not, with the text of an error. -/
  | send (call : Nat) (bodyError : Option (List Char)) (now : SimTime)
  /-- The future waits for the response; `elapsed` tells whether the sleep of its timeout is over. -/
  | poll (call : Nat) (waker : ω) (elapsed : Bool)
  /-- The future is dropped. -/
  | drop (call : Nat)
  /-- One of the tasks is gone on with. -/
  | run (task : Nat) (now : SimTime)
  /-- A router returns. -/
  | respond (task : Nat) (routed : Routed http) (now : SimTime)

/-- What an operation returns. -/
inductive Output (http : HttpCrate) where
  | done
  | refused (e : Error)
  | installed (key : Uuid)
  | requested (call : Nat)
  /-- The future of the request has not returned. -/
  | pending (call : Nat)
  | returned (call : Nat) (result : Except Error (Response http))
  /-- The router is called with the request. -/
  | routed (call : Nat) (req : Request http)
  /-- The response is sent. -/
  | responded (call : Nat) (respWire : Except Error HttpResponseWire)

/-- A component is added, and gets the messages for the endpoint. -/
def addEndpoint (s : Exchanges ν http ω) (component : Transport.Component Unit) (endpointId : EndpointId) :
    Option (Exchanges ν http ω × Output http) :=
  (s.toEndpoints.addEndpoint component endpointId).map fun (endpoints, key) =>
    ({ s with toEndpoints := endpoints }, .installed key)

/-- `ServerEndpoint::start`. -/
def start (r : SimEndpointRegistry) (serviceName instanceName : List Char) :
    Except Error SimEndpointRegistry :=
  let info := EndpointInfo.new serviceName instanceName
  match r.registerEndpoint ((info.withMetadata "type".toList "http".toList).withMetadata "endpoint_id".toList
    (Nat.toDigits 10 info.id.id)) with
  | .ok r => .ok r
  | .error e =>
    .error (if "already registered".toList <:+: e then .alreadyExists e
      else .internal ("failed to register endpoint: ".toList ++ e))

/-- `ServerBuilder::install`. -/
def serve (s : Exchanges ν http ω) (serviceName instanceName : List Char) :
    Option (Exchanges ν http ω × Output http) :=
  match start s.endpointRegistry serviceName instanceName with
  | .error e => some (s, .refused e)
  | .ok endpointRegistry =>
    { s with endpointRegistry }.addEndpoint (.server ()) (EndpointInfo.new serviceName instanceName).id

/-- `ClientBuilder::install`. -/
def install (s : Exchanges ν http ω) (serviceName clientName : List Char)
    (endpointId targetEndpoint : Option EndpointId) :
    Option (Exchanges ν http ω × Output http) :=
  let endpointId := endpointId.getD (clientEndpointId clientName)
  s.addEndpoint (.client ⟨serviceName, endpointId, ∅, 0, targetEndpoint⟩) endpointId

/-- A client with the next name; none where the counter overflows. -/
def installNext (s : Exchanges ν http ω) (serviceName : List Char)
    (targetEndpoint : Option EndpointId) :
    Option (Exchanges ν http ω × Output http) :=
  if s.nextClientId < u64Max then
    { s with nextClientId := s.nextClientId + 1 }.install serviceName (s.nextClientName serviceName)
      none targetEndpoint
  else none

/-- `Transport::connect_socket_addr`. -/
def connectSocketAddr (s : Exchanges ν http ω) (serviceName instanceName : List Char) :
    Option (Exchanges ν http ω × Output http) :=
  let targetEndpoint := (EndpointInfo.new serviceName instanceName).id
  if (s.endpointRegistry.findEndpoints serviceName).any (·.id = targetEndpoint) then
    s.installNext serviceName (some targetEndpoint)
  else
    some (s, .refused (.notFound
      ("service not found at ".toList ++ instanceName ++ " (".toList ++ serviceName ++ ")".toList)))

/-- The request is another one. -/
def setStage (s : Exchanges ν http ω) (k : Nat) (call : Call http ω) (stage : Stage http ω) :
    Exchanges ν http ω :=
  { s with calls := s.calls.set k { call with stage } }

/-- The client is another one. -/
def setClient (s : Exchanges ν http ω) (key : Uuid) (c : ClientEndpoint) : Exchanges ν http ω :=
  { s with toEndpoints := s.toEndpoints.setClient key c }

/-- `Client::request`, up to where it selects an endpoint; none where the counter overflows. -/
def request (s : Exchanges ν http ω) (client : Uuid) (request : Request http)
    (timeout : Option Nat) :
    Option (Exchanges ν http ω × Output http) :=
  match s.components.lookup client with
  | some (.client c) =>
    if c.nextCounter < u64Max then
      some ({ s with calls := s.calls.insert ⟨client, c.nextCounter + 1, request, timeout, .selecting false⟩ }.setClient client
        { c with nextCounter := c.nextCounter + 1 }, .requested s.calls.next)
    else none
  | _ => none

/-- The error where there is no endpoint at the deadline. -/
def noEndpoints (c : ClientEndpoint) : Error := .timeout ("no endpoints for '".toList ++ c.serviceName ++ "'".toList)

/-- `Client::select_target`, as far as it goes at once; none where it waits. A client that waits does
not look at the registry unless that has changed, not even at its deadline. -/
def selectTarget (r : SimEndpointRegistry) (c : ClientEndpoint) (waits changed deadline : Bool) :
    SimEndpointRegistry × Option (Except Error EndpointId) :=
  match c.targetEndpoint with
  | some target =>
    if (r.findEndpoints c.serviceName).any (·.id = target) then (r, some (.ok target))
    else
      (r, some (.error (.notFound
        ("service not found at pinned endpoint (".toList ++ Nat.toDigits 10 target.id ++ ")".toList))))
  | none =>
    if waits && !changed then (r, if deadline then some (.error (noEndpoints c)) else none)
    else
      match r.getEndpointForService c.serviceName with
      | (r, some ep) => (r, some (.ok ep.id))
      | (r, none) => (r, if deadline then some (.error (noEndpoints c)) else none)

/-- The endpoint is selected, or the deadline has come. -/
def select (s : Exchanges ν http ω) (k : Nat) (call : Call http ω) (c : ClientEndpoint) (waits changed elapsed : Bool) :
    Exchanges ν http ω × Output http :=
  match selectTarget s.endpointRegistry c waits changed (call.timeout.isSome && elapsed) with
  | (endpointRegistry, none) => ({ s with endpointRegistry }.setStage k call (.selecting true), .pending k)
  | (endpointRegistry, some (.ok target)) =>
    ({ s with endpointRegistry }.setStage k call (.collecting target), .pending k)
  | (endpointRegistry, some (.error e)) =>
    ({ s with endpointRegistry }.setStage k call .ended, .returned k (.error e))

/-- The sender of a request is dropped. -/
def dropTx (calls : Table (Call http ω)) : Option Nat → Table (Call http ω)
  | none => calls
  | some k =>
    match calls.get k with
    | some call =>
      match call.stage with
      | .sent response => calls.set k { call with stage := .sent response.dropSender.1 }
      | _ => calls
    | none => calls

/-- A message is given to the transport. -/
def scheduleTransport (s : Exchanges ν http ω) (call : Nat) (message : TransportMessage) :
    Exchanges ν http ω :=
  { s with tasks := s.tasks ++ [⟨call, .event ⟨.zero, s.transportKey, .sendMessage message⟩⟩] }

/-- `pending.remove`, of a client; the sender is dropped. -/
def removePending (s : Exchanges ν http ω) (key : Uuid) (c : ClientEndpoint) (correlationId : List Char) :
    Exchanges ν http ω :=
  { s with calls := dropTx s.calls (c.pending.lookup correlationId) }.setClient key
    { c with pending := c.pending.erase correlationId }

/-- The future of `Client::request`, which waits for the response. -/
def poll (s : Exchanges ν http ω) (k : Nat) (call : Call http ω) (c : ClientEndpoint)
    (response : Oneshot.State (Except Error (Response http)) ω) (waker : ω) (elapsed : Bool) :
    Exchanges ν http ω × Output http :=
  match response.poll waker with
  | (response, .ready (.ok result)) =>
    (s.setStage k call (.sent response.dropReceiver), .returned k result)
  | (response, .ready (.error ())) =>
    (s.setStage k call (.sent response.dropReceiver), .returned k (.error .cancelled))
  | (response, .pending) =>
    match call.timeout, elapsed with
    | some d, true =>
      ((s.setStage k call (.sent response.dropReceiver)).removePending call.client c
        (c.correlationId call.number),
        .returned k (.error (.timeout ("request timed out after ".toList ++ debugDuration d))))
    | _, _ => (s.setStage k call (.sent response), .pending k)

section
variable [Bincode HttpRequestWire] [Bincode HttpResponseWire]

omit [Bincode HttpResponseWire] in
/-- The body is collected: the request is sent. -/
def send (s : Exchanges ν http ω) (k : Nat) (call : Call http ω) (c : ClientEndpoint) (target : EndpointId)
    (bodyError : Option (List Char)) (now : SimTime) : Exchanges ν http ω × Output http :=
  match bodyError with
  | some text => (s.setStage k call .ended, .returned k (.error (.internal ("request body error: ".toList ++ text))))
  | none =>
    match Bincode.serialize (requestToWire call.request) with
    | .error text => (s.setStage k call .ended, .returned k (.error (.internal ("encode: ".toList ++ text))))
    | .ok payload =>
      let correlationId := c.correlationId call.number
      let s := { s with calls := dropTx s.calls (c.pending.lookup correlationId) }.setStage k call (.sent .new)
      ((s.setClient call.client { c with pending := c.pending.insert correlationId k }).scheduleTransport k
        ((TransportMessage.new 0 c.clientEndpoint target payload now .unaryRequest).withCorrelationId correlationId), .pending k)

omit [Bincode HttpRequestWire] in
/-- `ClientEndpoint::process_event`, of a response. -/
def resolve (s : Exchanges ν http ω) (key : Uuid) (c : ClientEndpoint) (correlationId : List Char)
    (payload : List UInt8) :
    Exchanges ν http ω :=
  match c.pending.lookup correlationId with
  | none => s
  | some k =>
    let s := s.setClient key { c with pending := c.pending.erase correlationId }
    match s.calls.get k with
    | some call =>
      match call.stage with
      | .sent response => s.setStage k call (.sent (response.send (responseResult payload)).1)
      | _ => s
    | none => s

omit [Bincode HttpRequestWire] in
/-- `ClientEndpoint::process_event` and `ServerEndpoint::process_event`. -/
def processEvent (s : Exchanges ν http ω) (k : Nat) (target : Uuid) (event : TransportEvent) :
    Exchanges ν http ω :=
  match event, s.components.lookup target with
  | .messageDelivered message, some (.client c) =>
    if message.messageType = .unaryResponse ∧ message.destination = c.clientEndpoint then
      match message.correlationId with
      | some correlationId => s.resolve target c correlationId message.payload
      | none => s
    else s
  | .messageDelivered message, some (.server ()) =>
    if message.messageType = .unaryRequest then
      match message.correlationId with
      | some correlationId =>
        { s with
          tasks := s.tasks ++
            [⟨k, .handle message.source message.destination correlationId message.payload⟩] }
      | none => s
    else s
  | _, _ => s

omit [Bincode HttpRequestWire] in
/-- The response is sent. -/
def respond (s : Exchanges ν http ω) (k : Nat) (src dst : EndpointId) (correlationId : List Char)
    (respWire : Except Error HttpResponseWire) (now : SimTime) : Exchanges ν http ω × Output http :=
  (s.scheduleTransport k
    ((TransportMessage.new 0 dst src (responsePayload respWire) now .unaryResponse).withCorrelationId
    correlationId), .responded k respWire)

variable [NetworkModel ν]

/-- One of the tasks is gone on with: it is the task `k`, and is not among those of `s` any more. -/
def run (s : Exchanges ν http ω) (task : Task) (now : SimTime) :
    Option (Exchanges ν http ω × Output http) :=
  match task.work with
  | .event e =>
    if e.target = s.transportKey then
      ((SimTransport.code fun (networkModel : ν) (_ : Empty) => networkModel).processEvent s.transport
        s.transportKey e.event now).map
        fun (transport, sends) => ({ s with transport, tasks := s.tasks ++ sends.map (⟨task.call, .event ·⟩) }, .done)
    else some (s.processEvent task.call e.target e.event, .done)
  | .handle src dst correlationId encodedReq =>
    match requestResult encodedReq with
    | .ok req =>
      some ({ s with tasks := s.tasks ++ [⟨task.call, .route src dst correlationId⟩] },
        .routed task.call req)
    | .error e => some (s.respond task.call src dst correlationId (.error e) now)
  | .route .. => none

/-- One operation; none where it is not possible, or panics. -/
def step (s : Exchanges ν http ω) : Op http ω → Option (Exchanges ν http ω × Output http)
  | .addComponent => (s.toEndpoints.addComponent .other).map fun (endpoints, key) =>
    ({ s with toEndpoints := endpoints }, .installed key)
  | .registry op => some ({ s with endpointRegistry := (s.endpointRegistry.perform op).1 }, .done)
  | .serve serviceName instanceName => s.serve serviceName instanceName
  | .install serviceName clientName endpointId targetEndpoint =>
    s.install serviceName clientName endpointId targetEndpoint
  | .connect serviceName => s.installNext serviceName none
  | .connectSocketAddr serviceName instanceName => s.connectSocketAddr serviceName instanceName
  | .request client request timeout => s.request client request timeout
  | .select k changed elapsed => (s.calls.get k).bind fun call =>
    match call.stage, s.components.lookup call.client with
    | .selecting waits, some (.client c) => some (s.select k call c waits changed elapsed)
    | _, _ => none
  | .send k bodyError now => (s.calls.get k).bind fun call =>
    match call.stage, s.components.lookup call.client with
    | .collecting target, some (.client c) => some (s.send k call c target bodyError now)
    | _, _ => none
  | .poll k waker elapsed => (s.calls.get k).bind fun call =>
    match call.stage, s.components.lookup call.client with
    | .sent response, some (.client c) =>
      if response.receiverAlive then some (s.poll k call c response waker elapsed) else none
    | _, _ => none
  | .drop k => (s.calls.get k).bind fun call =>
    match call.stage with
    | .sent response =>
      if response.receiverAlive then some (s.setStage k call (.sent response.dropReceiver), .done)
      else none
    | .ended => none
    | _ => some (s.setStage k call .ended, .done)
  | .run i now => s.tasks[i]?.bind fun task => { s with tasks := s.tasks.eraseIdx i }.run task now
  | .respond i routed now => s.tasks[i]?.bind fun task =>
    match task.work with
    | .route src dst correlationId =>
      some ({ s with tasks := s.tasks.eraseIdx i }.respond task.call src dst correlationId routed.respWire now)
    | _ => none

end

end Exchanges

end DesCartes.Axum
