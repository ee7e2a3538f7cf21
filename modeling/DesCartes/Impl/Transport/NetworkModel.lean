import DesCartes.Impl.Time
import Mathlib.Data.List.AList

/-!
# Messages and network models (`des-components/src/transport/mod.rs`, `network_model.rs`)

What a model computes with an `f64` or draws from its random number generator is a parameter. A
model panics where a `Duration` overflows.
-/

namespace DesCartes.Transport

/-- `Duration::MAX`. -/
def durationMax : Nat := u64Max * 1000000000 + 999999999

/-- `EndpointId`. -/
structure EndpointId where
  id : Nat
deriving DecidableEq

/-- `MessageType`. -/
inductive MessageType where
  | unaryRequest
  | unaryResponse
  | rpcStreamFrame
  | streamMessage
  | streamClose
deriving DecidableEq

/-- `TransportMessage`. -/
structure TransportMessage where
  id : Nat
  source : EndpointId
  destination : EndpointId
  payload : List UInt8
  sentAt : SimTime
  correlationId : Option (List Char)
  messageType : MessageType
deriving DecidableEq

namespace TransportMessage

/-- `TransportMessage::new`. -/
def new (id : Nat) (source destination : EndpointId) (payload : List UInt8) (sentAt : SimTime) (messageType : MessageType) :
    TransportMessage :=
  ⟨id, source, destination, payload, sentAt, none, messageType⟩

/-- `TransportMessage::with_correlation_id`. -/
def withCorrelationId (m : TransportMessage) (correlationId : List Char) : TransportMessage :=
  { m with correlationId := some correlationId }

/-- `TransportMessage::size`. -/
def size (m : TransportMessage) : Nat := m.payload.length

end TransportMessage

/-- `NetworkModel`: a latency is a number of nanoseconds; none where its calculation panics. -/
class NetworkModel (ν : Type) where
  calculateLatency : ν → EndpointId → EndpointId → TransportMessage → Option (Nat × ν)
  shouldDropMessage : ν → EndpointId → EndpointId → TransportMessage → Bool × ν
  reset : ν → ν

/-- What a model computes with an `f64` of type `α` and draws from a generator of type `γ`. -/
class NetworkRng (α γ : Type) where
  /-- `jitter_factor > 0.0`. -/
  hasJitter : α → Bool
  /-- A latency in milliseconds, for the base latency in milliseconds and the jitter factor. -/
  sampleMillis : γ → Nat → α → Nat × γ
  /-- `Duration::from_secs_f64(bytes as f64 / bandwidth_bps as f64)`. -/
  bandwidthDelay : Nat → Nat → Nat
  /-- `rng.gen::<f64>() < packet_loss_rate`. -/
  lost : γ → α → Bool × γ
  /-- The generator that takes the place of one that is reset. -/
  fromEntropy : γ → γ

/-! ## A constant latency -/

/-- `SimpleNetworkModel`. -/
structure SimpleNetworkModel (α γ : Type) where
  baseLatency : Nat
  packetLossRate : α
  rng : γ

instance {α γ : Type} [NetworkRng α γ] : NetworkModel (SimpleNetworkModel α γ) where
  calculateLatency m _ _ _ := some (m.baseLatency, m)
  shouldDropMessage m _ _ _ :=
    let (lost, rng) := NetworkRng.lost m.rng m.packetLossRate
    (lost, { m with rng })
  reset m := { m with rng := NetworkRng.fromEntropy α m.rng }

/-! ## Latency and jitter for each link -/

/-- `LatencyConfig`. -/
structure LatencyConfig (α : Type) where
  baseLatency : Nat
  jitterFactor : α
  packetLossRate : α
  bandwidthBps : Nat

/-- A link, from one endpoint to another. -/
abbrev Link := EndpointId × EndpointId

/-- `LatencyJitterModel`. -/
structure LatencyJitterModel (α γ : Type) where
  queueTimes : AList fun _ : Link => Nat
  latencyConfig : AList fun _ : Link => LatencyConfig α
  defaultConfig : LatencyConfig α
  rng : γ

namespace LatencyJitterModel

variable {α γ : Type}

/-- `with_seed`, given the generator of the seed. -/
def withSeed (defaultConfig : LatencyConfig α) (rng : γ) : LatencyJitterModel α γ := ⟨∅, ∅, defaultConfig, rng⟩

/-- `set_latency`. -/
def setLatency (m : LatencyJitterModel α γ) (change : Link × LatencyConfig α) : LatencyJitterModel α γ :=
  { m with latencyConfig := m.latencyConfig.insert change.1 change.2 }

/-- `get_config`. -/
def getConfig (m : LatencyJitterModel α γ) (link : Link) : LatencyConfig α := (m.latencyConfig.lookup link).getD m.defaultConfig

variable [NetworkRng α γ]

/-- The latency of `calculate_latency`, and the generator afterwards. -/
def latency (config : LatencyConfig α) (rng : γ) : Nat × γ :=
  if NetworkRng.hasJitter γ config.jitterFactor then
    let (latencyMs, rng) := NetworkRng.sampleMillis rng (config.baseLatency / nanosPerMilli) config.jitterFactor
    (latencyMs * nanosPerMilli, rng)
  else (config.baseLatency, rng)

/-- `calculate_latency`. -/
def calculateLatency (m : LatencyJitterModel α γ) (source destination : EndpointId) (message : TransportMessage) :
    Option (Nat × LatencyJitterModel α γ) :=
  let key : Link := (source, destination)
  let config := m.getConfig key
  let currentTime := max ((m.queueTimes.lookup key).getD 0) message.sentAt.nanos
  let (latency, rng) := latency config m.rng
  let bwdelay := if 0 < config.bandwidthBps then NetworkRng.bandwidthDelay α γ message.size config.bandwidthBps else 0
  let totalTime := currentTime + latency + bwdelay
  if totalTime ≤ durationMax then some (totalTime, { m with queueTimes := m.queueTimes.insert key totalTime, rng })
  else none

instance : NetworkModel (LatencyJitterModel α γ) where
  calculateLatency := calculateLatency
  shouldDropMessage m source destination _ :=
    let (lost, rng) := NetworkRng.lost m.rng (m.getConfig (source, destination)).packetLossRate
    (lost, { m with rng })
  reset m := { m with rng := NetworkRng.fromEntropy α m.rng }

end LatencyJitterModel

end DesCartes.Transport
