import DesCartes.Framework.Reader
import DesCartes.Impl.Axum.Http

/-!
# The default format of `bincode`

Numbers have a fixed width and the lowest byte first; a length is a `u64` in front of what it is the
length of; the fields of a structure and the parts of a pair follow each other. What comes behind a
value is not looked at.
-/

namespace DesCartes.Axum.DefaultFormat

open Reader (getLittleEndian littleEndian split)

/-- The text of an error. -/
abbrev Format := Reader UInt8 (List Char)

/-- A length. -/
def putLength (n : Nat) : List UInt8 := littleEndian 8 n

/-- A `Vec<u8>`. -/
def putBytes (bytes : List UInt8) : List UInt8 := putLength bytes.length ++ bytes

/-- A `String`. -/
def putString (text : List Char) : List UInt8 := putBytes (Utf8.encode text)

/-- Headers. -/
def putHeaders (headers : List (List Char × List Char)) : List UInt8 :=
  putLength headers.length ++ headers.flatMap fun e => putString e.1 ++ putString e.2

def getLength : Format Nat := getLittleEndian "unexpected end of file".toList 8

def getBytes : Format (List UInt8) := do
  let n ← getLength
  split "unexpected end of file".toList n

def getString : Format (List Char) := do
  let bytes ← getBytes
  ((Utf8.decode? bytes).elim (.error "invalid utf-8".toList) .ok : Except (List Char) (List Char))

def getHeaders : Format (List (List Char × List Char)) := do
  let n ← getLength
  Reader.times (do
    let k ← getString
    let v ← getString
    pure (k, v)) n

/-- The length is one that a `u64` has. -/
def FitsBytes (bytes : List UInt8) : Prop := bytes.length < 256 ^ 8

/-- The lengths are ones that a `u64` has. -/
def FitsHeaders (headers : List (List Char × List Char)) : Prop :=
  headers.length < 256 ^ 8 ∧ ∀ e ∈ headers, FitsBytes (Utf8.encode e.1) ∧ FitsBytes (Utf8.encode e.2)

instance (bytes : List UInt8) : Decidable (FitsBytes bytes) := inferInstanceAs (Decidable (_ < _))

instance (headers : List (List Char × List Char)) : Decidable (FitsHeaders headers) :=
  inferInstanceAs (Decidable (_ ∧ ∀ e ∈ headers, _ ∧ _))

def putRequest (wire : HttpRequestWire) : List UInt8 :=
  putString wire.method ++ (putString wire.uri ++ (putHeaders wire.headers ++ putBytes wire.body))

def getRequest : Format HttpRequestWire := do
  let method ← getString
  let uri ← getString
  let headers ← getHeaders
  let body ← getBytes
  pure ⟨method, uri, headers, body⟩

instance : Bincode HttpRequestWire where
  serialize wire :=
    if FitsBytes (Utf8.encode wire.method) ∧ FitsBytes (Utf8.encode wire.uri) ∧
        FitsHeaders wire.headers ∧ FitsBytes wire.body then
      .ok (putRequest wire)
    else .error "size limit".toList
  deserialize bytes := (getRequest bytes).map Prod.fst

def putResponse (wire : HttpResponseWire) : List UInt8 :=
  littleEndian 2 wire.status.toNat ++ (putHeaders wire.headers ++ putBytes wire.body)

def getResponse : Format HttpResponseWire := do
  let status ← getLittleEndian "unexpected end of file".toList 2
  let headers ← getHeaders
  let body ← getBytes
  pure ⟨.ofNat status, headers, body⟩

instance : Bincode HttpResponseWire where
  serialize wire :=
    if FitsHeaders wire.headers ∧ FitsBytes wire.body then .ok (putResponse wire)
    else .error "size limit".toList
  deserialize bytes := (getResponse bytes).map Prod.fst

end DesCartes.Axum.DefaultFormat
