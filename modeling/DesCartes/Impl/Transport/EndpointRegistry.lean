import DesCartes.Framework.Utf8
import DesCartes.Impl.Transport.NetworkModel

/-!
# The endpoint registry (`des-components/src/transport/endpoint_registry.rs`)
-/

namespace DesCartes.Transport

namespace EndpointId

/-- `EndpointId::djb2_hash`. -/
def djb2Hash (bytes : List UInt8) : Nat := bytes.foldl (fun hash byte => (hash * 33 + byte.toNat) % 2 ^ 64) 5381

/-- `EndpointId::new`. -/
def new (serviceName : List Char) : EndpointId := ⟨djb2Hash (Utf8.encode serviceName)⟩

/-- `Display for EndpointId`. -/
def display (id : EndpointId) : List Char := "Endpoint(".toList ++ Nat.toDigits 10 id.id ++ ")".toList

end EndpointId

/-- `EndpointInfo`. -/
structure EndpointInfo where
  id : EndpointId
  serviceName : List Char
  instanceName : List Char
  metadata : AList fun _ : List Char => List Char
deriving DecidableEq

namespace EndpointInfo

/-- `EndpointInfo::new`. -/
def new (serviceName instanceName : List Char) : EndpointInfo :=
  ⟨.new (serviceName ++ ":".toList ++ instanceName), serviceName, instanceName, ∅⟩

/-- `EndpointInfo::with_metadata`. -/
def withMetadata (info : EndpointInfo) (key value : List Char) : EndpointInfo :=
  { info with metadata := info.metadata.insert key value }

end EndpointInfo

/-- `SimEndpointRegistry`. -/
structure SimEndpointRegistry where
  endpoints : AList fun _ : EndpointId => EndpointInfo
  services : AList fun _ : List Char => List EndpointId
  roundRobinCounters : AList fun _ : List Char => Nat
deriving DecidableEq

namespace SimEndpointRegistry

/-- `SimEndpointRegistry::new`. -/
def new : SimEndpointRegistry := ⟨∅, ∅, ∅⟩

/-- `register_endpoint`. -/
def registerEndpoint (r : SimEndpointRegistry) (endpoint : EndpointInfo) : Except (List Char) SimEndpointRegistry :=
  if (r.endpoints.lookup endpoint.id).isSome then
    .error ("Endpoint ".toList ++ endpoint.id.display ++ " is already registered".toList)
  else
    .ok ⟨r.endpoints.insert endpoint.id endpoint,
      r.services.insert endpoint.serviceName ((r.services.lookup endpoint.serviceName).getD [] ++ [endpoint.id]),
      r.roundRobinCounters.insert endpoint.serviceName ((r.roundRobinCounters.lookup endpoint.serviceName).getD 0)⟩

/-- `unregister_endpoint`. -/
def unregisterEndpoint (r : SimEndpointRegistry) (endpointId : EndpointId) : Except (List Char) SimEndpointRegistry :=
  match r.endpoints.lookup endpointId with
  | none => .error ("Endpoint ".toList ++ endpointId.display ++ " not found".toList)
  | some endpoint =>
    let r := { r with endpoints := r.endpoints.erase endpointId }
    match r.services.lookup endpoint.serviceName with
    | none => .ok r
    | some endpointList =>
      let endpointList := endpointList.filter (· ≠ endpointId)
      if endpointList = [] then
        .ok { r with
          services := r.services.erase endpoint.serviceName
          roundRobinCounters := r.roundRobinCounters.erase endpoint.serviceName }
      else .ok { r with services := r.services.insert endpoint.serviceName endpointList }

/-- `find_endpoints`. -/
def findEndpoints (r : SimEndpointRegistry) (serviceName : List Char) : List EndpointInfo :=
  ((r.services.lookup serviceName).getD []).filterMap r.endpoints.lookup

/-- `get_endpoint_for_service`. -/
def getEndpointForService (r : SimEndpointRegistry) (serviceName : List Char) : SimEndpointRegistry × Option EndpointInfo :=
  match r.services.lookup serviceName, r.roundRobinCounters.lookup serviceName with
  | some endpointIds, some counter =>
    match endpointIds[counter % endpointIds.length]? with
    | some selectedId =>
      ({ r with roundRobinCounters := r.roundRobinCounters.insert serviceName ((counter + 1) % endpointIds.length) },
        r.endpoints.lookup selectedId)
    | none => (r, none)
  | _, _ => (r, none)

/-! ## Calls -/

/-- A call. -/
inductive Op where
  | registerEndpoint (endpoint : EndpointInfo)
  | unregisterEndpoint (endpointId : EndpointId)
  | getEndpointForService (serviceName : List Char)
deriving DecidableEq

/-- What a call returns. -/
inductive Answer where
  | done
  | refused (error : List Char)
  | got (serviceName : List Char) (endpoint : Option EndpointInfo)
deriving DecidableEq

/-- The registry after a call, and what the call returns. `unregister_endpoint` removes first and
then looks whether there was something to remove. -/
def perform (r : SimEndpointRegistry) : Op → SimEndpointRegistry × Answer
  | .registerEndpoint endpoint =>
    match r.registerEndpoint endpoint with
    | .ok r => (r, .done)
    | .error e => (r, .refused e)
  | .unregisterEndpoint endpointId =>
    match r.unregisterEndpoint endpointId with
    | .ok r => (r, .done)
    | .error e => ({ r with endpoints := r.endpoints.erase endpointId }, .refused e)
  | .getEndpointForService serviceName =>
    let (r, endpoint) := r.getEndpointForService serviceName
    (r, .got serviceName endpoint)

/-- A call, as a step of a machine. -/
def step (r : SimEndpointRegistry) (op : Op) : Option (SimEndpointRegistry × Answer) := some (r.perform op)

end SimEndpointRegistry

end DesCartes.Transport
