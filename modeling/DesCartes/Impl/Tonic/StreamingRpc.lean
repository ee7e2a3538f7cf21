import DesCartes.Impl.Tonic.ServerStream

/-!
# Streaming calls and their timeouts (`des-tonic/src/channel.rs`)

A call of `Channel::client_streaming`, `server_streaming` or `bidirectional_streaming` that has got
an endpoint to send to, with the stream of that server. The frames to the server are delivered in
any order, or lost. What the server sends is not part of this: the entry of the call in
`pending_streams` may be removed at any time. A call without a timeout is one whose timeout does not
elapse.
-/

namespace DesCartes.Tonic

/-- The id of a stream, with a length that fits on the wire. -/
structure StreamId where
  text : List Char
  fits : (Utf8.encode text).length < 2 ^ 32

/-- What a call is made with, and the id of its stream. -/
structure StreamingCall where
  kind : StreamingKind
  streamId : StreamId
  path : List Char
  /-- The request, where the client sends one message. -/
  request : List UInt8

namespace StreamingCall

variable {κ : Type} [TonicCode κ]

/-- The frame that opens the stream. -/
def openFrame (call : StreamingCall) : StreamFrameWire κ where
  streamId := call.streamId.text
  direction := .clientToServer
  seq := 0
  kind := .open
  method := some call.path
  metadata := []
  payload := []
  statusOk := true
  statusCode := TonicCode.ok
  statusMessage := []

def dataFrame (call : StreamingCall) (seq : UInt64) (payload : List UInt8) : StreamFrameWire κ where
  streamId := call.streamId.text
  direction := .clientToServer
  seq
  kind := .data
  method := none
  metadata := []
  payload
  statusOk := true
  statusCode := TonicCode.ok
  statusMessage := []

def closeFrame (call : StreamingCall) (seq : UInt64) : StreamFrameWire κ where
  streamId := call.streamId.text
  direction := .clientToServer
  seq
  kind := .close
  method := none
  metadata := []
  payload := []
  statusOk := true
  statusCode := TonicCode.ok
  statusMessage := []

/-- What is sent on a timeout. -/
def cancelFrame (call : StreamingCall) : StreamFrameWire κ where
  streamId := call.streamId.text
  direction := .clientToServer
  seq := 0
  kind := .cancel
  method := none
  metadata := []
  payload := []
  statusOk := false
  statusCode := TonicCode.cancelled
  statusMessage := "deadline exceeded".toList

end StreamingCall

/-- How far the timeout of a call is. -/
inductive Timeout where
  | armed
  /-- It sends its status to the caller, before it sends the frame. -/
  | sends
  | done
deriving DecidableEq

/-- A call, with the frames that are on their way, and the stream of the server. -/
structure StreamingRpc (κ ω : Type) where
  /-- The number of the next request. -/
  seq : UInt64
  /-- The task that forwards the requests runs. -/
  forwards : Bool
  /-- The call has an entry in `pending_streams`. -/
  pending : Bool
  timeout : Timeout
  frames : Table (StreamFrameWire κ)
  server : ServerStream κ ω

namespace StreamingRpc

variable {κ ω : Type}

/-- An operation. -/
inductive Op (ω : Type) where
  /-- A request is forwarded. -/
  | forward (payload : List UInt8)
  /-- There are no more requests. -/
  | finish
  /-- The entry in `pending_streams` is removed. -/
  | settle
  /-- The timeout elapses. -/
  | timeout
  /-- The caller has been sent the status. -/
  | cancel
  | deliver (frame : Nat)
  | lose (frame : Nat)
  /-- A handler polls `next` of its request stream. -/
  | next (request : Nat) (waker : ω)
  /-- A request stream is dropped. -/
  | drop (request : Nat)

/-- `send_rpc_stream_frame`. -/
def sendRpcStreamFrame (s : StreamingRpc κ ω) (frame : StreamFrameWire κ) : StreamingRpc κ ω :=
  { s with frames := s.frames.insert frame }

variable [TonicCode κ]

/-- The call is made. One message is sent at once, with the frame that opens the stream. -/
def start (call : StreamingCall) : StreamingRpc κ ω :=
  let s : StreamingRpc κ ω := ⟨1, true, true, .armed, Table.empty.insert call.openFrame, .new⟩
  match call.kind with
  | .client | .bidi => s
  | .server => ({ s with forwards := false }.sendRpcStreamFrame (call.dataFrame 1 call.request)).sendRpcStreamFrame (call.closeFrame 2)

/-- The timeout has elapsed. Where the caller waits for one response, it gets the status when the
frame has been sent. -/
def elapse (call : StreamingCall) (s : StreamingRpc κ ω) : StreamingRpc κ ω :=
  if s.pending then
    match call.kind with
    | .client => { s with pending := false, timeout := .done }.sendRpcStreamFrame call.cancelFrame
    | .server | .bidi => { s with pending := false, timeout := .sends }
  else { s with timeout := .done }

/-- An operation on the stream of the server. -/
def serve (router : Router) (s : StreamingRpc κ ω) (op : ServerStream.Op ω) :
    Option (StreamingRpc κ ω × ServerStream.Output κ) :=
  (s.server.step router op).map fun (server, output) => ({ s with server }, output)

/-- One operation; none where it is not possible. -/
def step (call : StreamingCall) (router : Router) (s : StreamingRpc κ ω) :
    Op ω → Option (StreamingRpc κ ω × ServerStream.Output κ)
  | .forward payload =>
    if s.forwards then some ({ s with seq := s.seq + 1 }.sendRpcStreamFrame (call.dataFrame s.seq payload), .done) else none
  | .finish => if s.forwards then some ({ s with forwards := false }.sendRpcStreamFrame (call.closeFrame s.seq), .done) else none
  | .settle => some ({ s with pending := false }, .done)
  | .timeout => if s.timeout = .armed then some (s.elapse call, .done) else none
  | .cancel =>
    if s.timeout = .sends then some ({ s with timeout := .done }.sendRpcStreamFrame call.cancelFrame, .done) else none
  | .deliver i => (s.frames.get i).bind fun frame =>
    { s with frames := s.frames.erase i }.serve router (.deliver (encodeStreamFrame frame))
  | .lose i => (s.frames.get i).map fun _ => ({ s with frames := s.frames.erase i }, .done)
  | .next i waker => s.serve router (.next i waker)
  | .drop i => s.serve router (.drop i)

end StreamingRpc

end DesCartes.Tonic
