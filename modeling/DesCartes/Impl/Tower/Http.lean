import DesCartes.Impl.Service.Server

/-!
# HTTP requests as payloads (`des-tower/src/tower/mod.rs`)

What a request holds is what the `http` crate lets it hold. Of its parts the payload has a text: the
method, the URI, and the names of the headers with their values where these have one.
-/

namespace DesCartes.Tower

open Service (crlf isWhitespace)

/-- A text without line breaks. -/
def IsLine (text : List Char) : Prop := '\r' ∉ text ∧ '\n' ∉ text

instance (text : List Char) : Decidable (IsLine text) := inferInstanceAs (Decidable (_ ∧ _))

/-- A text without white space. -/
def IsWord (text : List Char) : Prop := text ≠ [] ∧ ∀ c ∈ text, isWhitespace c = false

instance (text : List Char) : Decidable (IsWord text) :=
  decidable_of_iff (text ≠ [] ∧ text.all (fun c => !isWhitespace c) = true) (by simp [IsWord])

/-- A header; its value is what `HeaderValue::to_str` gives, none where it is not visible ASCII. -/
structure Header where
  name : List Char
  value : Option (List Char)
  name_ne : name ≠ []
  name_line : IsLine name
  value_line : ∀ text ∈ value, IsLine text

/-- `http::Request<SimBody>`. -/
structure HttpRequest where
  method : List Char
  uri : List Char
  headers : List Header
  body : List UInt8
  method_word : IsWord method
  uri_line : IsLine uri

/-- The line of a header. -/
def Header.line (h : Header) : List Char := h.name ++ ": ".toList ++ h.value.getD []

/-- What the payload has in front of the body. -/
def HttpRequest.head (req : HttpRequest) : List Char :=
  req.method ++ " ".toList ++ req.uri ++ " HTTP/1.1".toList ++ crlf ++ crlf.intercalate (req.headers.map Header.line) ++ crlf ++ crlf

/-- `serialize_http_request`. -/
def serializeHttpRequest (req : HttpRequest) : List UInt8 := Utf8.encode req.head ++ req.body

end DesCartes.Tower
