import DesCartes.Framework.Utf8
import DesCartes.Impl.Http

/-!
# Requests and responses as bytes (`des-axum/src/wire.rs`, `client.rs`, `server.rs`)

What is sent of a request or a response is its method and URI or its status, its headers, and its
body: neither its version nor its extensions. The `http` crate is a parameter, and so is what
`bincode` makes of the structures of `wire.rs`.
-/

namespace DesCartes.Axum

/-- `des_axum::Error`. -/
inductive Error where
  | invalidArgument (message : List Char)
  | notFound (message : List Char)
  | alreadyExists (message : List Char)
  | timeout (message : List Char)
  | cancelled
  | internal (message : List Char)
deriving DecidableEq

/-- `Display for Error`. -/
def Error.display : Error → List Char
  | .invalidArgument message => "invalid argument: ".toList ++ message
  | .notFound message => "not found: ".toList ++ message
  | .alreadyExists message => "already exists: ".toList ++ message
  | .timeout message => "timeout: ".toList ++ message
  | .cancelled => "cancelled".toList
  | .internal message => "internal error: ".toList ++ message

/-- `http::Request`, with the bytes of its body. -/
structure Request (http : HttpCrate) where
  method : http.Method
  uri : http.Uri
  version : http.Version
  headers : http.HeaderMap
  extensions : http.Extensions
  body : List UInt8

/-- `http::Response`, with the bytes of its body. -/
structure Response (http : HttpCrate) where
  status : http.Status
  version : http.Version
  headers : http.HeaderMap
  extensions : http.Extensions
  body : List UInt8

/-! ## Messages -/

/-- `HttpRequestWire`. -/
structure HttpRequestWire where
  method : List Char
  uri : List Char
  headers : List (List Char × List Char)
  body : List UInt8
deriving DecidableEq

/-- `HttpResponseWire`. -/
structure HttpResponseWire where
  status : UInt16
  headers : List (List Char × List Char)
  body : List UInt8
deriving DecidableEq

/-- `bincode::serialize` and `bincode::deserialize`; an error is its text. -/
class Bincode (α : Type) where
  serialize : α → Except (List Char) (List UInt8)
  deserialize : List UInt8 → Except (List Char) α

section
variable {http : HttpCrate}

/-- The headers, with no text for a value that has none. -/
def headersToWire (headers : http.HeaderMap) : List (List Char × List Char) :=
  (http.headerMap.iter headers).map fun (k, v) => (http.headerName.text k, (http.headerValue.toStr v).getD [])

/-- The `HttpRequestWire` of `Client::request`. -/
def requestToWire (req : Request http) : HttpRequestWire :=
  ⟨http.method.text req.method, http.uri.text req.uri, headersToWire req.headers, req.body⟩

/-- `response_to_wire`, of a response whose body is collected. -/
def responseToWire (resp : Response http) : HttpResponseWire :=
  ⟨StatusCode.asU16 resp.status, headersToWire resp.headers, resp.body⟩

/-- The loop over the headers; `name` and `value` are the errors for those that do not parse. -/
def headersFromWire (name value : List Char → Error) (wire : List (List Char × List Char)) :
    Except Error http.HeaderMap :=
  wire.foldlM (fun headers (k, v) => do
    let n ← (http.headerName.parse k).mapError name
    let v ← (http.headerValue.fromStr v).mapError value
    pure (http.headerMap.append headers n v)) http.headerMap.empty

/-- `request_from_wire`; a builder starts with the default version and without extensions. -/
def requestFromWire (wire : HttpRequestWire) : Except Error (Request http) := do
  let method ← (http.method.parse wire.method).mapError fun e => .invalidArgument ("invalid method: ".toList ++ e)
  let uri ← (http.uri.parse wire.uri).mapError fun e => .invalidArgument ("invalid uri: ".toList ++ e)
  let headers ← headersFromWire (fun e => .invalidArgument ("invalid header name: ".toList ++ e))
    (fun e => .invalidArgument ("invalid header value: ".toList ++ e)) wire.headers
  pure ⟨method, uri, http.version, headers, http.extensions, wire.body⟩

/-- `http_response_from_wire`. -/
def httpResponseFromWire (wire : HttpResponseWire) : Except Error (Response http) :=
  match StatusCode.fromU16 wire.status with
  | none => .error (.internal "response builder headers".toList)
  | some status => do
    let headers ← headersFromWire (fun e => .internal ("header name: ".toList ++ e))
      (fun e => .internal ("header value: ".toList ++ e)) wire.headers
    pure ⟨status, http.version, headers, http.extensions, wire.body⟩

/-! ## Payloads -/

/-- A response with the status 500. -/
def plainError (text : List Char) : HttpResponseWire :=
  ⟨500, [("content-type".toList, "text/plain".toList)], Utf8.encode text⟩

/-- An error is a response as well. -/
def orPlainError : Except Error HttpResponseWire → HttpResponseWire
  | .ok wire => wire
  | .error e => plainError e.display

variable [Bincode HttpResponseWire]

/-- The payload of the message with what a server responds. -/
def responsePayload (respWire : Except Error HttpResponseWire) : List UInt8 :=
  match Bincode.serialize (orPlainError respWire) with
  | .ok payload => payload
  | .error e => ((Bincode.serialize (plainError ("encode: ".toList ++ e))).toOption).getD []

/-- What a client makes of the payload. -/
def responseResult (payload : List UInt8) : Except Error (Response http) := do
  let wire ← (Bincode.deserialize payload).mapError fun e => Error.internal ("decode: ".toList ++ e)
  httpResponseFromWire wire

/-- What a server makes of the payload of a request. -/
def requestResult [Bincode HttpRequestWire] (payload : List UInt8) : Except Error (Request http) := do
  let wire ← (Bincode.deserialize payload).mapError fun e => Error.internal ("decode: ".toList ++ e)
  requestFromWire wire

end

end DesCartes.Axum
