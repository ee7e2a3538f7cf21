import DesCartes.Impl.Sync.Mpsc
import DesCartes.Impl.Tonic.Wire

/-!
# The streams of a client (`des-tonic/src/channel.rs`)

A frame finds the state of its stream by the correlation id of its message, and does nothing to
another one; so what is modelled is one call, with its entry in `pending_streams`, the channel or
the one response that it sends to, and its timer. Who is woken by the channel is not kept.
-/

namespace DesCartes.Tonic

/-- `ClientStreamMode`. -/
inductive ClientStreamMode where
  | client
  | server
  | bidi
deriving DecidableEq

/-- `ClientStreamState`. Of a sender it is known whether it is there. -/
structure ClientStreamState (κ : Type) where
  mode : ClientStreamMode
  nextExpectedS2c : Nat
  sawS2cOpen : Bool
  reorder : BTreeMap Nat (StreamFrameWire κ)
  responseTx : Bool
  responsePayload : Option (List UInt8)
  streamTx : Bool

/-- `MAX_REORDER_FRAMES`. -/
def maxReorderFrames : Nat := 64

/-- A call: its entry in `pending_streams`, the channel of its response stream, the response that
was sent instead of a stream, and what its timer sends. -/
structure StreamCall (κ ω : Type) where
  pending : Option (ClientStreamState κ)
  stream : Mpsc.State (Item κ) ω
  response : Option (Item κ)
  timer : Option (Mpsc.SendFuture (Item κ))

namespace ClientStreamState

variable {κ : Type}

/-- The frame is put into the buffer. Where the first frame is missing and the second one is there,
the stream is open. -/
def receive (state : ClientStreamState κ) (frame : StreamFrameWire κ) : ClientStreamState κ :=
  let state := { state with reorder := state.reorder.insert frame.seq.toNat frame }
  if state.sawS2cOpen = false ∧ state.nextExpectedS2c = 0 ∧ state.reorder.get? 0 = none ∧ (state.reorder.get? 1).isSome then
    { state with sawS2cOpen := true, nextExpectedS2c := 1 }
  else state

/-- The next frame has been taken out of the buffer. -/
def advance (state : ClientStreamState κ) : ClientStreamState κ :=
  { state with reorder := state.reorder.erase state.nextExpectedS2c, nextExpectedS2c := state.nextExpectedS2c + 1 }

end ClientStreamState

namespace StreamCall

variable {κ ω : Type}

/-- A call in the mode, when its state has been inserted. -/
def new (mode : ClientStreamMode) : StreamCall κ ω :=
  ⟨some ⟨mode, 0, false, .empty, mode = .client, none, mode ≠ .client⟩, .new 16, none, none⟩

/-- An operation on a call. -/
inductive Op (ω : Type) where
  /-- A message with a frame is delivered. -/
  | deliver (payload : List UInt8)
  /-- `DesStreaming::next` is polled. -/
  | next (waker : ω)
  /-- The response stream is dropped. -/
  | drop
  /-- The timeout of the call is over. -/
  | expire
  /-- The task of the timer is polled while it sends. -/
  | pollTimer (waker : ω)

/-- What an operation returns; of a delivery, the frames that have been processed. -/
inductive Output (κ : Type) where
  | done
  | processed (frames : List (StreamFrameWire κ))
  | received (item : Poll (Option (Item κ)))
deriving DecidableEq

/-- `pending.remove`. The sender that the state still has goes with it. -/
def remove (c : StreamCall κ ω) (state : ClientStreamState κ) : StreamCall κ ω :=
  { c with pending := none, stream := if state.streamTx then c.stream.dropSender.1 else c.stream }

/-- The sender that the state has sends an error, and the state is removed. -/
def fail (c : StreamCall κ ω) (state : ClientStreamState κ) (status : Status κ) : StreamCall κ ω :=
  match state.mode with
  | .client => { c with response := if state.responseTx then some (.error status) else c.response }.remove state
  | .server | .bidi => { c with stream := if state.streamTx then (c.stream.trySend (.error status)).1 else c.stream }.remove state

/-- The sender that the state has sends a payload; where it cannot, the stream is terminated. -/
def push (c : StreamCall κ ω) (state : ClientStreamState κ) (payload : List UInt8) :
    StreamCall κ ω × Option (ClientStreamState κ) :=
  if state.streamTx then
    match c.stream.trySend (.ok payload) with
    | (stream, _, .ok ()) => ({ c with stream }, some state)
    | (stream, _, .error _) => ({ c with stream }.remove state, none)
  else (c, some state)

variable [TonicCode κ]

/-- What is done with the next frame, and the state with which the loop goes on if it does. -/
def process (c : StreamCall κ ω) (state : ClientStreamState κ) (next : StreamFrameWire κ) :
    StreamCall κ ω × Option (ClientStreamState κ) :=
  match next.kind with
  | .open => (c, some { state with sawS2cOpen := true })
  | .data =>
    if state.sawS2cOpen = false then
      (c.fail state (.internal "stream protocol violation: data before open".toList), none)
    else
      match state.mode with
      | .client =>
        if state.responsePayload.isSome then
          (c.fail state (.internal "stream protocol violation: multiple response data frames".toList), none)
        else (c, some { state with responsePayload := some next.payload })
      | .server | .bidi => c.push state next.payload
  | .close =>
    if next.statusOk then
      match state.mode with
      | .client =>
        ({ c with response := if state.responseTx then some (.ok (state.responsePayload.getD [])) else c.response }.remove state, none)
      | .server | .bidi => (c.remove state, none)
    else (c.fail state ⟨next.statusCode, next.statusMessage⟩, none)
  | .cancel => (c.fail state ⟨TonicCode.cancelled, "stream cancelled".toList⟩, none)

/-- `n` rounds of the loop, and the frames that it has processed. -/
def releases : Nat → StreamCall κ ω → ClientStreamState κ → StreamCall κ ω × List (StreamFrameWire κ)
  | 0, c, state => ({ c with pending := some state }, [])
  | n + 1, c, state =>
    match state.reorder.get? state.nextExpectedS2c with
    | none => ({ c with pending := some state }, [])
    | some next =>
      match c.process state.advance next with
      | (c, some state) =>
        let (c, frames) := releases n c state
        (c, next :: frames)
      | (c, none) => (c, [next])

/-- `ClientEndpoint::process_event`, of a message with a frame. There are not more rounds than
frames in the buffer. -/
def deliver (c : StreamCall κ ω) (payload : List UInt8) : StreamCall κ ω × List (StreamFrameWire κ) :=
  match decodeStreamFrame payload with
  | .error status => (c.pending.elim c fun state => c.fail state status, [])
  | .ok frame =>
    if frame.direction ≠ .serverToClient then (c, [])
    else
      match c.pending with
      | none => (c, [])
      | some state =>
        if maxReorderFrames ≤ state.reorder.len then
          (c.fail state ⟨TonicCode.resourceExhausted, "stream reorder buffer exceeded".toList⟩, [])
        else
          let state := state.receive frame
          c.releases state.reorder.len state

/-- The timer takes the sender, and sends an error with it. -/
def expire (c : StreamCall κ ω) : StreamCall κ ω :=
  match c.pending with
  | none => c
  | some state =>
    let status : Status κ := ⟨TonicCode.deadlineExceeded, "stream timed out".toList⟩
    { c with pending := none, timer := if state.streamTx then some ⟨some (.error status), none⟩ else none }

/-- The `send` of the timer is polled; its sender is dropped when it is done. -/
def pollTimer (c : StreamCall κ ω) (future : Mpsc.SendFuture (Item κ)) (waker : ω) : Option (StreamCall κ ω) :=
  (future.poll c.stream waker).map fun (stream, future, _, result) =>
    match result with
    | .pending => { c with stream, timer := some future }
    | .ready _ => { c with stream := stream.dropSender.1, timer := none }

/-- One operation; none where it is not possible. -/
def step (c : StreamCall κ ω) : Op ω → Option (StreamCall κ ω × Output κ)
  | .deliver payload =>
    let (c, frames) := c.deliver payload
    some (c, .processed frames)
  | .next waker =>
    if c.stream.receiverAlive then
      let (stream, _, item) := c.stream.recv waker
      some ({ c with stream }, .received item)
    else none
  | .drop => if c.stream.receiverAlive then some ({ c with stream := c.stream.dropReceiver.1 }, .done) else none
  | .expire => some (c.expire, .done)
  | .pollTimer waker => c.timer.bind fun future => (c.pollTimer future waker).map (·, .done)

end StreamCall

end DesCartes.Tonic
