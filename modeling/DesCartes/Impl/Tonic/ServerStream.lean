import DesCartes.Impl.Sync.Mpsc
import DesCartes.Impl.Tonic.Wire

/-!
# The streams of a server (`des-tonic/src/server.rs`)

A frame finds the state of its stream by the correlation id of its message, and does nothing to
another one; so what is modelled is one stream id, with its entry in `streams` and the request
streams that handlers have got for it. What the handlers are is not part of this; who is woken by a
channel is not kept.
-/

namespace DesCartes.Tonic

/-- The handlers of `Router`. -/
inductive StreamingKind where
  | bidi
  | server
  | client
deriving DecidableEq

/-- `Router`: for which methods there are handlers of streams. -/
structure Router where
  bidiStreaming : List Char → Bool
  serverStreaming : List Char → Bool
  clientStreaming : List Char → Bool

/-- `ServerClientStreamState` and `ServerBidiStreamState`, which have the same fields. A sender is
known by its channel. -/
structure InboundState (κ : Type) where
  nextExpectedC2s : Nat
  reorder : BTreeMap Nat (StreamFrameWire κ)
  inboundTx : Option Nat

/-- `ServerServerStreamState`. -/
structure ServerServerStreamState (κ : Type) where
  nextExpectedC2s : Nat
  reorder : BTreeMap Nat (StreamFrameWire κ)
  requestPayload : Option (List UInt8)
  inboundClosed : Bool
  openMetadata : Entries
  method : List Char

/-- `ServerStreamState`. -/
inductive ServerStreamState (κ : Type) where
  | client (state : InboundState κ)
  | server (state : ServerServerStreamState κ)
  | bidi (state : InboundState κ)

/-- A stream id, with its entry in `streams` and its request streams. -/
structure ServerStream (κ ω : Type) where
  entry : Option (ServerStreamState κ)
  requests : Table (Mpsc.State (Item κ) ω)

namespace InboundState

variable {κ : Type}

/-- `push_frame`. -/
def pushFrame (state : InboundState κ) (frame : StreamFrameWire κ) : InboundState κ :=
  { state with reorder := state.reorder.insert frame.seq.toNat frame }

/-- The next frame has been taken out of the buffer. -/
def advance (state : InboundState κ) : InboundState κ :=
  { state with reorder := state.reorder.erase state.nextExpectedC2s, nextExpectedC2s := state.nextExpectedC2s + 1 }

end InboundState

namespace ServerStream

variable {κ ω : Type}

/-- `MAX_REORDER_FRAMES`. -/
def maxReorderFrames : Nat := 64

def new : ServerStream κ ω := ⟨none, .empty⟩

/-- What a handler is called with, or the frame that closes the stream. -/
inductive Effect (κ : Type) where
  | handle (kind : StreamingKind) (method : List Char) (metadata : Entries) (request : Nat ⊕ List UInt8)
  | sendClose (status : Status κ)
deriving DecidableEq

/-- An operation on a stream. -/
inductive Op (ω : Type) where
  /-- A message with a frame is delivered. -/
  | deliver (payload : List UInt8)
  /-- A handler polls `next` of its request stream. -/
  | next (request : Nat) (waker : ω)
  /-- A request stream is dropped. -/
  | drop (request : Nat)

/-- What an operation returns. -/
inductive Output (κ : Type) where
  | done
  /-- What the payload is decoded to, and what is done with it. -/
  | delivered (frame : Except (Status κ) (StreamFrameWire κ)) (effects : List (Effect κ))
  | received (request : Nat) (item : Poll (Option (Item κ)))
deriving DecidableEq

/-- A sender is dropped. -/
def dropTx (requests : Table (Mpsc.State (Item κ) ω)) : Option Nat → Table (Mpsc.State (Item κ) ω)
  | none => requests
  | some i => ((requests.get i).map fun channel => requests.set i channel.dropSender.1).getD requests

/-- `try_send`, of a payload. -/
def trySend (requests : Table (Mpsc.State (Item κ) ω)) (i : Nat) (payload : List UInt8) :
    Table (Mpsc.State (Item κ) ω) × Bool :=
  match requests.get i with
  | none => (requests, false)
  | some channel =>
    let (channel, _, result) := channel.trySend (.ok payload)
    (requests.set i channel, result = .ok ())

/-- The loop over the frames that are in order, `n` rounds of it, and whether the stream is to be removed. -/
def release : Nat → Table (Mpsc.State (Item κ) ω) → InboundState κ →
    Table (Mpsc.State (Item κ) ω) × InboundState κ × Bool
  | 0, requests, state => (requests, state, false)
  | n + 1, requests, state =>
    match state.reorder.get? state.nextExpectedC2s with
    | none => (requests, state, false)
    | some next =>
      let state := state.advance
      match next.kind with
      | .open => release n requests state
      | .data =>
        match state.inboundTx with
        | none => release n requests state
        | some i =>
          match trySend requests i next.payload with
          | (requests, true) => release n requests state
          | (requests, false) => (dropTx requests state.inboundTx, { state with inboundTx := none }, true)
      | .close => release n (dropTx requests state.inboundTx) { state with inboundTx := none }
      | .cancel => (dropTx requests state.inboundTx, { state with inboundTx := none }, true)

/-- A frame for a handler that gets a stream; `wrap` says which one. There are not more rounds than
frames in the buffer. -/
def deliverInbound (s : ServerStream κ ω) (wrap : InboundState κ → ServerStreamState κ) (state : InboundState κ)
    (frame : StreamFrameWire κ) : ServerStream κ ω :=
  if maxReorderFrames ≤ state.reorder.len then ⟨none, dropTx s.requests state.inboundTx⟩
  else
    let state := state.pushFrame frame
    let (requests, state, removeStream) := release state.reorder.len s.requests state
    -- what is left in a state that is removed has no sender any more
    if removeStream || (state.inboundTx.isNone && state.reorder.len = 0) then ⟨none, requests⟩
    else ⟨some (wrap state), requests⟩

variable [TonicCode κ]

/-- The loop over the frames of one request, `n` rounds of it; no state where the stream has been removed. -/
def collect : Nat → ServerServerStreamState κ → Option (ServerServerStreamState κ) × List (Effect κ)
  | 0, state => (some state, [])
  | n + 1, state =>
    match state.reorder.get? state.nextExpectedC2s with
    | none => (some state, [])
    | some next =>
      let state := { state with
        reorder := state.reorder.erase state.nextExpectedC2s
        nextExpectedC2s := state.nextExpectedC2s + 1 }
      match next.kind with
      | .open => collect n state
      | .data =>
        if state.requestPayload.isSome then (none, [.sendClose (.internal "multiple request data frames".toList)])
        else collect n { state with requestPayload := some next.payload }
      | .close => collect n { state with inboundClosed := true }
      | .cancel => (none, [])

/-- A frame for a handler that gets one message. -/
def deliverServer (s : ServerStream κ ω) (state : ServerServerStreamState κ) (frame : StreamFrameWire κ) :
    ServerStream κ ω × List (Effect κ) :=
  if maxReorderFrames ≤ state.reorder.len then ({ s with entry := none }, [])
  else
    let state := { state with reorder := state.reorder.insert frame.seq.toNat frame }
    match collect state.reorder.len state with
    | (none, effects) => ({ s with entry := none }, effects)
    | (some state, _) =>
      if state.inboundClosed then
        match state.requestPayload with
        | none => ({ s with entry := none }, [.sendClose (.internal "missing request payload".toList)])
        | some reqPayload => ({ s with entry := none }, [.handle .server state.method state.openMetadata (.inr reqPayload)])
      else ({ s with entry := some (.server state) }, [])

/-- A frame that opens a stream. -/
def deliverOpen (s : ServerStream κ ω) (router : Router) (frame : StreamFrameWire κ) : ServerStream κ ω × List (Effect κ) :=
  match frame.method with
  | none => (s, [.sendClose ⟨TonicCode.invalidArgument, "missing method".toList⟩])
  | some method =>
    if s.entry.isSome then (s, [])
    else if router.bidiStreaming method then
      let i := s.requests.next
      (⟨some (.bidi ⟨1, .empty, some i⟩), s.requests.insert (.new 16)⟩, [.handle .bidi method frame.metadata (.inl i)])
    else if router.serverStreaming method then
      ({ s with entry := some (.server ⟨1, .empty, none, false, frame.metadata, method⟩) }, [])
    else if router.clientStreaming method then
      let i := s.requests.next
      (⟨some (.client ⟨1, .empty, some i⟩), s.requests.insert (.new 16)⟩, [.handle .client method frame.metadata (.inl i)])
    else (s, [.sendClose ⟨TonicCode.unimplemented, "method not found: ".toList ++ method⟩])

/-- `ServerEndpoint::process_event`, of a message with a frame. -/
def deliver (s : ServerStream κ ω) (router : Router) (payload : List UInt8) : ServerStream κ ω × List (Effect κ) :=
  match decodeStreamFrame payload with
  | .error (_ : Status κ) => (s, [])
  | .ok frame =>
    if frame.direction ≠ .clientToServer then (s, [])
    else if frame.kind = .open then s.deliverOpen router frame
    else
      match s.entry with
      | none => (s, [])
      | some (.client state) => (s.deliverInbound .client state frame, [])
      | some (.bidi state) => (s.deliverInbound .bidi state frame, [])
      | some (.server state) => s.deliverServer state frame

/-- One operation; none where it is not possible. -/
def step (router : Router) (s : ServerStream κ ω) : Op ω → Option (ServerStream κ ω × Output κ)
  | .deliver payload =>
    let (s, effects) := s.deliver router payload
    some (s, .delivered (decodeStreamFrame payload) effects)
  | .next i waker => (s.requests.get i).bind fun channel =>
    if channel.receiverAlive then
      let (channel, _, item) := channel.recv waker
      some ({ s with requests := s.requests.set i channel }, .received i item)
    else none
  | .drop i => (s.requests.get i).bind fun channel =>
    if channel.receiverAlive then some ({ s with requests := s.requests.set i channel.dropReceiver.1 }, .done) else none

end ServerStream

end DesCartes.Tonic
