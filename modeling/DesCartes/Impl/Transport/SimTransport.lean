import DesCartes.Impl.Hosted
import DesCartes.Impl.Transport.NetworkModel

/-!
# The transport (`des-components/src/transport/sim_transport.rs`)

What is printed is left out, as is the endpoint registry, which the transport only holds. A method
of its owner panics, as the transport does, where the counter of the messages overflows.
-/

namespace DesCartes.Transport

/-- `TransportEvent`. -/
inductive TransportEvent where
  | sendMessage (message : TransportMessage)
  | messageDelivered (message : TransportMessage)
  | messageDropped (message : TransportMessage) (reason : List Char)
deriving DecidableEq

/-- `TransportStats`. -/
structure TransportStats where
  messagesSent : Nat
  messagesDelivered : Nat
  messagesDropped : Nat
  bytesSent : Nat
  bytesDelivered : Nat
deriving DecidableEq

/-- `TransportStats::default`. -/
def TransportStats.default : TransportStats := ⟨0, 0, 0, 0, 0⟩

/-- `SimTransport`. -/
structure SimTransport (ν : Type) where
  networkModel : ν
  nextMessageId : Nat
  messageHandlers : AList fun _ : EndpointId => Uuid
  stats : TransportStats

/-- The methods of a transport; `configure` is a method of its network model. -/
inductive Method (χ : Type) where
  | registerHandler (endpoint : EndpointId) (handler : Uuid)
  | unregisterHandler (endpoint : EndpointId)
  | sendMessage (source destination : EndpointId) (payload : List UInt8) (messageType : MessageType) (selfKey : Uuid)
  | sendMessageWithCorrelation (source destination : EndpointId) (payload : List UInt8) (messageType : MessageType)
    (correlationId : List Char) (selfKey : Uuid)
  | resetStats
  | resetNetworkModel
  | configure (change : χ)

namespace SimTransport

variable {ν χ : Type}

/-- `SimTransport::new`. -/
def new (networkModel : ν) : SimTransport ν := ⟨networkModel, 1, ∅, .default⟩

/-- `SimTransport::register_handler`. -/
def registerHandler (t : SimTransport ν) (endpoint : EndpointId) (handler : Uuid) : SimTransport ν :=
  { t with messageHandlers := t.messageHandlers.insert endpoint handler }

/-- `SimTransport::unregister_handler`. -/
def unregisterHandler (t : SimTransport ν) (endpoint : EndpointId) : SimTransport ν :=
  { t with messageHandlers := t.messageHandlers.erase endpoint }

/-- The number of the next message is taken. -/
def nextId (t : SimTransport ν) : Option (Nat × SimTransport ν) :=
  if t.nextMessageId < u64Max then some (t.nextMessageId, { t with nextMessageId := t.nextMessageId + 1 }) else none

/-- `SimTransport::send_message`. -/
def sendMessage (t : SimTransport ν) (source destination : EndpointId) (payload : List UInt8) (messageType : MessageType)
    (selfKey : Uuid) (now : SimTime) : Option (SimTransport ν × List (Send TransportEvent)) :=
  t.nextId.map fun (messageId, t) =>
    (t, [⟨.zero, selfKey, .sendMessage (.new messageId source destination payload now messageType)⟩])

/-- `SimTransport::send_message_with_correlation`. -/
def sendMessageWithCorrelation (t : SimTransport ν) (source destination : EndpointId) (payload : List UInt8)
    (messageType : MessageType) (correlationId : List Char) (selfKey : Uuid) (now : SimTime) :
    Option (SimTransport ν × List (Send TransportEvent)) :=
  t.nextId.map fun (messageId, t) =>
    (t, [⟨.zero, selfKey,
      .sendMessage ((TransportMessage.new messageId source destination payload now messageType).withCorrelationId correlationId)⟩])

/-- `SimTransport::handle_message_delivered`. -/
def handleMessageDelivered (t : SimTransport ν) (message : TransportMessage) : SimTransport ν × List (Send TransportEvent) :=
  ({ t with stats := { t.stats with
      messagesDelivered := t.stats.messagesDelivered + 1
      bytesDelivered := t.stats.bytesDelivered + message.size } },
    match t.messageHandlers.lookup message.destination with
    | some handlerKey => [⟨.zero, handlerKey, .messageDelivered message⟩]
    | none => [])

/-- The message gets the next number if it has none, and the next number is past its own. -/
def assignId (t : SimTransport ν) (message : TransportMessage) : Option (TransportMessage × SimTransport ν) :=
  if message.id = 0 then t.nextId.map fun (id, t) => ({ message with id }, t)
  else if t.nextMessageId ≤ message.id then
    if message.id < u64Max then some (message, { t with nextMessageId := message.id + 1 }) else none
  else some (message, t)

variable [NetworkModel ν] (configure : ν → χ → ν)

/-- What is done with a message that enters the network. -/
def transmit (t : SimTransport ν) (self : Uuid) (message : TransportMessage) :
    Option (SimTransport ν × List (Send TransportEvent)) :=
  let t := { t with stats := { t.stats with
    messagesSent := t.stats.messagesSent + 1
    bytesSent := t.stats.bytesSent + message.size } }
  match NetworkModel.shouldDropMessage t.networkModel message.source message.destination message with
  | (true, networkModel) =>
    some ({ t with networkModel, stats := { t.stats with messagesDropped := t.stats.messagesDropped + 1 } },
      [⟨.zero, self, .messageDropped message "Network packet loss".toList⟩])
  | (false, networkModel) =>
    match NetworkModel.calculateLatency networkModel message.source message.destination message with
    | none => none
    | some (latency, networkModel) =>
      some ({ t with networkModel }, [⟨.fromDuration latency, self, .messageDelivered message⟩])

/-- `Component for SimTransport`, and its methods. -/
def code : ComponentCode (SimTransport ν) TransportEvent (Method χ) where
  processEvent t self event now :=
    match event with
    | .sendMessage message =>
      match t.assignId message with
      | none => none
      | some (messageWithId, t) => t.transmit self { messageWithId with sentAt := now }
    | .messageDelivered message => some (t.handleMessageDelivered message)
    | .messageDropped _ _ => some (t, [])
  call t _ method now :=
    match method with
    | .registerHandler endpoint handler => some (t.registerHandler endpoint handler, [])
    | .unregisterHandler endpoint => some (t.unregisterHandler endpoint, [])
    | .sendMessage source destination payload messageType selfKey =>
      t.sendMessage source destination payload messageType selfKey now
    | .sendMessageWithCorrelation source destination payload messageType correlationId selfKey =>
      t.sendMessageWithCorrelation source destination payload messageType correlationId selfKey now
    | .resetStats => some ({ t with stats := .default }, [])
    | .resetNetworkModel => some ({ t with networkModel := NetworkModel.reset t.networkModel }, [])
    | .configure change => some ({ t with networkModel := configure t.networkModel change }, [])

end SimTransport

end DesCartes.Transport
