import DesCartes.Impl.Sync.Mpsc
import DesCartes.Impl.Tonic.Wire

/-!
# Typed streams (`des-tonic/src/stream.rs`, and the `_prost` methods of `router.rs` and `channel.rs`)

A typed stream and the stream of bytes that carries it are two channels. A task moves the items of
one to the other, until the first channel has no item left and no sender, or an item ends the
stream.

The messages and their encoding, by `prost`, are a parameter. The task is what alone receives from
the first channel and alone sends to the second; everything else is done on the other ends of them,
in any order. An operation of the task is what a poll of it does between two awaits: it takes an
item, or it polls the future that sends one.
-/

namespace DesCartes

namespace Mpsc

variable {τ ω : Type}

/-- The operations of a receiver. -/
def Op.fromReceiver : Op τ ω → Bool
  | .recv _ | .tryRecv | .dropReceiver => true
  | _ => false

/-- The operations of the senders. -/
def Op.fromSender : Op τ ω → Bool
  | .clone _ | .dropSender _ | .send .. | .trySend .. | .poll .. | .resume _ | .dropSend _ => true
  | _ => false

/-- The result of the future of `send` that is done. -/
def sendResult? (answers : List (Answer τ)) : Option (Except τ Unit) :=
  answers.findSome? fun
    | .polled _ _ (.ready result) => some result
    | _ => none

end Mpsc

namespace Tonic

/-- `prost::Message`, with the text of a `DecodeError`. -/
class ProstMessage (μ : Type) where
  encodeToVec : μ → List UInt8
  decode : List UInt8 → Except (List Char) μ

/-- A message is decoded from its encoding. -/
class LawfulProstMessage (μ : Type) [ProstMessage μ] : Prop where
  decode_encodeToVec : ∀ message : μ, ProstMessage.decode (ProstMessage.encodeToVec message) = .ok message

/-- What the body of the loop does with an item. -/
inductive Forward (β : Type) where
  /-- The item is sent, and the loop goes on. -/
  | send (item : β)
  /-- The item is sent, and the loop is left. -/
  | sendLast (item : β)
  /-- The loop is left. -/
  | leave

/-- The loop of a task. -/
structure Relaying (α β : Type) where
  forward : α → Forward β
  /-- Whether the loop is left where an item cannot be sent. -/
  breaksOnError : Bool
  /-- Whether the sender is a `stream::Sender`, which sends from a clone; or a `DesStreamSender`. -/
  clones : Bool

section
variable {κ μ : Type} [ProstMessage μ]

/-- The loop of `add_server_streaming_prost` and `add_bidi_streaming_prost`, for what the handler
streams. -/
def encodeResponses : Relaying (Except (Status κ) μ) (Item κ) where
  forward
    | .ok message => .send (.ok (ProstMessage.encodeToVec message))
    | .error status => .sendLast (.error status)
  breaksOnError := true
  clones := true

/-- The loop of `add_client_streaming_prost` and `add_bidi_streaming_prost`, for the requests, and of
`server_streaming_prost` and `bidirectional_streaming_prost`, for the responses. -/
def decodeItems [TonicCode κ] : Relaying (Item κ) (Except (Status κ) μ) where
  forward
    | .ok bytes =>
      match ProstMessage.decode bytes with
      | .ok message => .send (.ok message)
      | .error e => .sendLast (.error (.internal ("prost decode error: ".toList ++ e)))
    | .error status => .sendLast (.error status)
  breaksOnError := true
  clones := true

/-- The loop of `client_streaming_prost` and `bidirectional_streaming_prost`, for the requests. -/
def encodeRequests : Relaying (Except (Status κ) μ) (List UInt8) where
  forward
    | .ok message => .send (ProstMessage.encodeToVec message)
    | .error _ => .leave
  breaksOnError := false
  clones := false

end

/-- Where the task stands. -/
inductive Relay.Stage where
  /-- `next`. -/
  | next
  /-- `send` or `send_err`: the clone that sends, its future, and whether the loop is left after. -/
  | send (clone : Option Nat) (send : Nat) (last : Bool)
  | done
deriving DecidableEq

/-- Two channels, and the task between them. -/
structure Relay (α β ω : Type) where
  input : Mpsc α ω
  output : Mpsc β ω
  stage : Relay.Stage

namespace Relay

variable {α β ω : Type}

inductive Op (α β ω : Type) where
  /-- An operation on the first channel, of its senders. -/
  | input (op : Mpsc.Op α ω)
  /-- An operation on the second channel, of its receiver. -/
  | output (op : Mpsc.Op β ω)
  /-- What a poll of the task does up to the next await. -/
  | advance (waker : ω)

/-- What the operations on the two channels answer. -/
abbrev Answers (α β : Type) := List (Mpsc.Answer α) × List (Mpsc.Answer β)

/-- The task is spawned; it has the receiver of the first channel, and the sender of the second. -/
def spawn (input : Mpsc α ω) (output : Mpsc β ω) : Relay α β ω := ⟨input, output, .next⟩

/-- One after the other; none where one of them panics. -/
def andThen (r : Option (Relay α β ω × Answers α β))
    (f : Relay α β ω → Answers α β → Option (Relay α β ω × Answers α β)) :
    Option (Relay α β ω × Answers α β) :=
  r.bind fun (r, ins, outs) =>
    (f r (ins, outs)).map fun (r, ins', outs') => (r, ins ++ ins', outs ++ outs')

variable [DecidableEq ω]

def onInput (r : Relay α β ω) (ops : List (Mpsc.Op α ω)) : Option (Relay α β ω × Answers α β) :=
  (Machine.run Mpsc.step r.input ops).map fun (input, ins) => ({ r with input }, ins, [])

def onOutput (r : Relay α β ω) (ops : List (Mpsc.Op β ω)) : Option (Relay α β ω × Answers α β) :=
  (Machine.run Mpsc.step r.output ops).map fun (output, outs) => ({ r with output }, [], outs)

/-- After the loop: the sender is closed, and the receiver is dropped with the task. -/
def close (r : Relay α β ω) : Option (Relay α β ω × Answers α β) :=
  andThen (onOutput { r with stage := .done } [.dropSender 0]) fun r _ => r.onInput [.dropReceiver]

/-- `send` is called, of `stream::Sender` or of `DesStreamSender`. -/
def send (loop : Relaying α β) (r : Relay α β ω) (item : β) (last : Bool) :
    Option (Relay α β ω × Answers α β) :=
  if loop.clones then
    onOutput { r with stage := .send (some r.output.senders.next) r.output.sends.next last }
      [.clone 0, .send r.output.senders.next item]
  else onOutput { r with stage := .send none r.output.sends.next last } [.send 0 item]

/-- The body of the loop, with an item; or the loop is left. -/
def take (loop : Relaying α β) (r : Relay α β ω) : Option α → Option (Relay α β ω × Answers α β)
  | some item =>
    match loop.forward item with
    | .send item => r.send loop item false
    | .sendLast item => r.send loop item true
    | .leave => r.close
  | none => r.close

/-- An item was sent, or it could not be: the clone is dropped, and the loop goes on or is left. -/
def sent (loop : Relaying α β) (r : Relay α β ω) (clone : Option Nat) (last : Bool)
    (result : Except β Unit) :
    Option (Relay α β ω × Answers α β) :=
  andThen (onOutput { r with stage := .next } (clone.toList.map .dropSender)) fun r _ =>
    match result with
    | .ok _ => if last then r.close else some (r, [], [])
    | .error _ => if last || loop.breaksOnError then r.close else some (r, [], [])

/-- What a poll of the task does up to the next await. -/
def advance (loop : Relaying α β) (r : Relay α β ω) (waker : ω) : Option (Relay α β ω × Answers α β) :=
  match r.stage with
  | .next => andThen (r.onInput [.recv waker]) fun r (ins, _) =>
      match ins with
      | [.received (.ready item)] => r.take loop item
      | _ => some (r, [], [])
  | .send clone send last => andThen (r.onOutput (Mpsc.Op.sections (.poll send waker))) fun r (_, outs) =>
      match Mpsc.sendResult? outs with
      | some result => r.sent loop clone last result
      | none => some (r, [], [])
  | .done => some (r, [], [])

/-- One operation; none where it panics. The ends of the channels that the task has are not anyone
else's. -/
def step (loop : Relaying α β) (r : Relay α β ω) : Op α β ω → Option (Relay α β ω × Answers α β)
  | .input op => if op.fromReceiver then some (r, [], []) else r.onInput [op]
  | .output op => if op.fromSender then some (r, [], []) else r.onOutput [op]
  | .advance waker => r.advance loop waker

end Relay

end Tonic

end DesCartes
