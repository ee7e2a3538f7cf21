import DesCartes.Framework.Reader
import DesCartes.Framework.Utf8

/-!
# The wire format (`des-tonic/src/wire.rs`)

The status codes of `tonic` are a parameter. What is put into a buffer is given as the bytes that
are appended; `usize` has at least 32 bits.
-/

namespace DesCartes.Tonic

/-- `tonic::Code`, its cast to `i32` and `Code::from_i32`. -/
class TonicCode (κ : Type) where
  asI32 : κ → Int32
  fromI32 : Int32 → κ
  ok : κ
  cancelled : κ
  deadlineExceeded : κ
  internal : κ
  invalidArgument : κ
  resourceExhausted : κ
  unavailable : κ
  unimplemented : κ

/-- `Code::from_i32` is the inverse of the cast. -/
class LawfulTonicCode (κ : Type) [TonicCode κ] : Prop where
  fromI32_asI32 : ∀ code : κ, TonicCode.fromI32 (TonicCode.asI32 code) = code

/-- `tonic::Status`. -/
structure Status (κ : Type) where
  code : κ
  message : List Char
deriving DecidableEq

/-- `Status::internal`. -/
def Status.internal {κ : Type} [TonicCode κ] (message : List Char) : Status κ := ⟨TonicCode.internal, message⟩

/-- An item of a stream, or a response. -/
abbrev Item (κ : Type) := Except (Status κ) (List UInt8)

/-- The entries of a metadata map. -/
abbrev Entries := List (List Char × List Char)

structure UnaryRequestWire where
  method : List Char
  metadata : Entries
  payload : List UInt8
deriving DecidableEq

structure UnaryResponseWire (κ : Type) where
  ok : Bool
  code : κ
  message : List Char
  metadata : Entries
  payload : List UInt8
deriving DecidableEq

inductive StreamFrameKind where
  | open
  | data
  | close
  | cancel
deriving DecidableEq

namespace StreamFrameKind

def toU8 : StreamFrameKind → Nat
  | .open => 0
  | .data => 1
  | .close => 2
  | .cancel => 3

def fromU8 : Nat → Except (List Char) StreamFrameKind
  | 0 => .ok .open
  | 1 => .ok .data
  | 2 => .ok .close
  | 3 => .ok .cancel
  | _ => .error "invalid StreamFrameKind".toList

end StreamFrameKind

inductive StreamDirection where
  | clientToServer
  | serverToClient
deriving DecidableEq

namespace StreamDirection

def toU8 : StreamDirection → Nat
  | .clientToServer => 0
  | .serverToClient => 1

def fromU8 : Nat → Except (List Char) StreamDirection
  | 0 => .ok .clientToServer
  | 1 => .ok .serverToClient
  | _ => .error "invalid StreamDirection".toList

end StreamDirection

structure StreamFrameWire (κ : Type) where
  streamId : List Char
  direction : StreamDirection
  seq : UInt64
  kind : StreamFrameKind
  method : Option (List Char)
  metadata : Entries
  payload : List UInt8
  statusOk : Bool
  statusCode : κ
  statusMessage : List Char
deriving DecidableEq

/-! ## Parts -/

/-- A `get` function. -/
abbrev Get := Reader UInt8 (List Char)

def putU8 (v : Nat) : List UInt8 := Reader.littleEndian 1 v

def getU8 : Get Nat := Reader.getLittleEndian "truncated".toList 1

def putU32 (v : Nat) : List UInt8 := Reader.littleEndian 4 v

def getU32 : Get Nat := Reader.getLittleEndian "truncated".toList 4

def putU64 (v : UInt64) : List UInt8 := Reader.littleEndian 8 v.toNat

def getU64 : Get UInt64 := do
  let v ← Reader.getLittleEndian "truncated".toList 8
  pure (.ofNat v)

def putBytes (bytes : List UInt8) : List UInt8 := putU32 bytes.length ++ bytes

def getBytes : Get (List UInt8) := do
  let len ← getU32
  Reader.split "truncated".toList len

def putString (s : List Char) : List UInt8 := putBytes (Utf8.encode s)

/-- `std::str::from_utf8`. -/
def fromUtf8 (b : List UInt8) : Except (List Char) (List Char) :=
  match Utf8.decode? b with
  | some s => .ok s
  | none => .error "invalid utf-8".toList

def getString : Get (List Char) := do
  let b ← getBytes
  liftM (fromUtf8 b)

def putKv (entries : Entries) : List UInt8 :=
  putU32 entries.length ++ entries.flatMap fun (k, v) => putString k ++ putString v

/-- One round of the loop of `get_kv`. -/
def getEntry : Get (List Char × List Char) := do
  let k ← getString
  let v ← getString
  pure (k, v)

def getKv : Get Entries := do
  let n ← getU32
  getEntry.times n

/-! ## Messages -/

variable {κ : Type} [TonicCode κ]

/-- `code as u32`. -/
def codeAsU32 (code : κ) : Nat := (TonicCode.asI32 code).toUInt32.toNat

/-- `Code::from_i32(code_u32 as i32)`. -/
def codeFromU32 (code : Nat) : κ := TonicCode.fromI32 (UInt32.ofNat code).toInt32

/-- A `get` function, whose error is an internal one. -/
def orInternal {α : Type} (get : Get α) : Reader UInt8 (Status κ) α := get.mapError Status.internal

def encodeUnaryRequest (msg : UnaryRequestWire) : List UInt8 :=
  putString msg.method ++ (putKv msg.metadata ++ putBytes msg.payload)

/-- What `decode_unary_request` reads. -/
def readUnaryRequest : Reader UInt8 (Status κ) UnaryRequestWire := do
  let method ← orInternal getString
  let metadata ← orInternal getKv
  let payload ← orInternal getBytes
  pure { method, metadata, payload }

def decodeUnaryRequest (bytes : List UInt8) : Except (Status κ) UnaryRequestWire := readUnaryRequest.run' bytes

def encodeUnaryResponse (msg : UnaryResponseWire κ) : List UInt8 :=
  putU8 msg.ok.toNat ++ (putU32 (codeAsU32 msg.code) ++ (putString msg.message ++ (putKv msg.metadata ++ putBytes msg.payload)))

/-- What `decode_unary_response` reads. -/
def readUnaryResponse : Reader UInt8 (Status κ) (UnaryResponseWire κ) := do
  let ok ← orInternal getU8
  let code ← orInternal getU32
  let message ← orInternal getString
  let metadata ← orInternal getKv
  let payload ← orInternal getBytes
  pure { ok := ok != 0, code := codeFromU32 code, message, metadata, payload }

def decodeUnaryResponse (bytes : List UInt8) : Except (Status κ) (UnaryResponseWire κ) := readUnaryResponse.run' bytes

/-- The method of a frame. One that opens a stream without a method is encoded as an invalid frame. -/
def putMethod (frame : StreamFrameWire κ) : List UInt8 :=
  match frame.kind with
  | .open =>
    match frame.method with
    | some method => putU8 1 ++ putString method
    | none => putU8 0
  | _ => putU8 0

/-- The status of a frame. -/
def putStatus (frame : StreamFrameWire κ) : List UInt8 :=
  if frame.kind = .close ∨ frame.kind = .cancel then
    putU8 frame.statusOk.toNat ++ (putU32 (codeAsU32 frame.statusCode) ++ putString frame.statusMessage)
  else []

def encodeStreamFrame (frame : StreamFrameWire κ) : List UInt8 :=
  putString frame.streamId ++ (putU8 frame.direction.toU8 ++ (putU64 frame.seq ++ (putU8 frame.kind.toU8 ++
    (putMethod frame ++ (putKv frame.metadata ++ (putBytes frame.payload ++ putStatus frame))))))

/-- The method of a frame of the kind. -/
def readMethod (kind : StreamFrameKind) : Reader UInt8 (Status κ) (Option (List Char)) := do
  let methodPresent ← orInternal getU8
  let method ←
    if methodPresent = 0 then pure none
    else if methodPresent = 1 then do
      let method ← orInternal getString
      pure (some method)
    else throw (Status.internal "invalid method flag".toList)
  if kind = .open then
    if method.isNone then throw (Status.internal "Open frame missing method".toList) else pure method
  else if method.isSome then throw (Status.internal "method only allowed for Open".toList)
  else pure method

/-- The status of a frame of the kind. -/
def readStatus (kind : StreamFrameKind) : Reader UInt8 (Status κ) (Bool × κ × List Char) :=
  if kind = .close ∨ kind = .cancel then do
    let statusOk ← orInternal getU8
    let code ← orInternal getU32
    let statusMessage ← orInternal getString
    pure (statusOk != 0, codeFromU32 code, statusMessage)
  else pure (true, TonicCode.ok, [])

/-- What `decode_stream_frame` reads. -/
def readStreamFrame : Reader UInt8 (Status κ) (StreamFrameWire κ) := do
  let streamId ← orInternal getString
  let directionU8 ← orInternal getU8
  let direction ← orInternal (liftM (StreamDirection.fromU8 directionU8))
  let seq ← orInternal getU64
  let kindU8 ← orInternal getU8
  let kind ← orInternal (liftM (StreamFrameKind.fromU8 kindU8))
  let method ← readMethod kind
  let metadata ← orInternal getKv
  let payload ← orInternal getBytes
  let (statusOk, statusCode, statusMessage) ← readStatus kind
  pure { streamId, direction, seq, kind, method, metadata, payload, statusOk, statusCode, statusMessage }

def decodeStreamFrame (bytes : List UInt8) : Except (Status κ) (StreamFrameWire κ) := readStreamFrame.run' bytes

end DesCartes.Tonic
