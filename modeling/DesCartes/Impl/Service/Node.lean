import DesCartes.Impl.Assembly
import DesCartes.Impl.Service.SimpleClient

/-!
# Servers and clients in one simulation (`des-components/src/server.rs`, `simple_client.rs`)
-/

namespace DesCartes.Service

/-- A component of a simulation of servers and clients. -/
inductive Node (δ P : Type) where
  | server (s : Server δ)
  | client (c : SimpleClient P)

namespace Node

variable {δ P : Type} [ServiceTimeDistribution δ] [RetryPolicy P]

/-- `Component::process_event`, of the one or the other. -/
def code : ComponentCode (Node δ P) Event Empty where
  processEvent node self event now :=
    match node with
    | .server s => (Server.code.processEvent s self event now).map fun (s, sends) => (.server s, sends)
    | .client c =>
      (SimpleClient.code.processEvent c self event now).map fun (c, sends) => (.client c, sends)
  call _ _ method _ := method.elim

end Node

end DesCartes.Service
