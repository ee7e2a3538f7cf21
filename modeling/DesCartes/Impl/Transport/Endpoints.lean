import DesCartes.Impl.Components
import DesCartes.Impl.Transport.EndpointRegistry
import DesCartes.Impl.Transport.SimTransport

/-!
# Clients and servers of a transport (`des-tonic/src/channel.rs`, `server.rs`, `transport.rs`)

A simulation with a `Transport`, and the clients and servers that were installed in it, those of
`des-tonic` and those of `des-axum` alike. What a server has is a parameter (`σ`).
-/

namespace DesCartes.Transport

/-- A `ClientEndpoint`, with the `Channel` or `Client` that is made for it. A sender in `pending` is
known by its request. -/
structure ClientEndpoint where
  serviceName : List Char
  clientEndpoint : EndpointId
  pending : AList fun _ : List Char => Nat
  nextCounter : Nat
  targetEndpoint : Option EndpointId

/-- The id of the `n`th request of a client. -/
def ClientEndpoint.correlationId (c : ClientEndpoint) (n : Nat) : List Char :=
  c.serviceName ++ ":".toList ++ Nat.toDigits 10 c.clientEndpoint.id ++ ":".toList ++ Nat.toDigits 10 n

/-- `next_correlation_id`; none where the counter overflows. -/
def ClientEndpoint.nextCorrelationId (c : ClientEndpoint) : Option (ClientEndpoint × List Char) :=
  if c.nextCounter < u64Max then
    some ({ c with nextCounter := c.nextCounter + 1 }, c.correlationId (c.nextCounter + 1))
  else none

/-- A component of the simulation: a `ClientEndpoint`, a `ServerEndpoint`, or something else. -/
inductive Component (σ : Type) where
  | client (client : ClientEndpoint)
  | server (server : σ)
  | other

/-- The components of a simulation with a `Transport`. -/
structure Endpoints (ν σ : Type) where
  seed : BitVec 64
  nextComponentId : Nat
  components : AList fun _ : Uuid => Component σ
  transportKey : Uuid
  transport : SimTransport ν
  endpointRegistry : SimEndpointRegistry
  nextClientId : Nat

namespace Endpoints

variable {ν σ : Type}

/-- `Transport::install`, in a simulation with `n` components. -/
def new (seed : BitVec 64) (n : Nat) (networkModel : ν) : Endpoints ν σ :=
  { seed, nextComponentId := n + 1, components := ∅, transportKey := Components.idAt seed (n + 1)
    transport := .new networkModel, endpointRegistry := .new, nextClientId := 0 }

/-- `Simulation::add_component`; none where the counter overflows. -/
def addComponent (s : Endpoints ν σ) (component : Component σ) : Option (Endpoints ν σ × Uuid) :=
  if s.nextComponentId < u64Max then
    let key := Components.idAt s.seed (s.nextComponentId + 1)
    some ({ s with nextComponentId := s.nextComponentId + 1, components := s.components.insert key component }, key)
  else none

/-- A component is added, and gets the messages for the endpoint. -/
def addEndpoint (s : Endpoints ν σ) (component : Component σ) (endpointId : EndpointId) :
    Option (Endpoints ν σ × Uuid) :=
  (s.addComponent component).map fun (s, key) =>
    ({ s with transport := s.transport.registerHandler endpointId key }, key)

/-- The id of the endpoint of a client. -/
def clientEndpointId (clientName : List Char) : EndpointId := .new ("client:".toList ++ clientName)

/-- `Transport::next_client_endpoint_name` and `next_client_name`, without the new counter. -/
def nextClientName (s : Endpoints ν σ) (serviceName : List Char) : List Char :=
  serviceName ++ ":".toList ++ Nat.toDigits 10 (s.nextClientId + 1)

/-- The client with the key is another one. -/
def setClient (s : Endpoints ν σ) (key : Uuid) (c : ClientEndpoint) : Endpoints ν σ :=
  { s with components := s.components.insert key (.client c) }

end Endpoints

end DesCartes.Transport
