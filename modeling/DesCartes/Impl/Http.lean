/-!
# The `http` crate

What the services use of it is a parameter: its types, what is parsed to their values, and the texts
of these. An error is its text.
-/

namespace DesCartes

/-- `http::StatusCode`. -/
class StatusCode (σ : Type) where
  ok : σ
  internalServerError : σ
  /-- `from_u16`, and `try_from`. -/
  fromU16 : UInt16 → Option σ
  asU16 : σ → UInt16

/-- What a type is parsed from, and its texts. -/
structure HttpText (α : Type) where
  parse : List Char → Except (List Char) α
  text : α → List Char

/-- `http::HeaderValue`. -/
structure HttpValue (α : Type) where
  /-- `from_str`. -/
  fromStr : List Char → Except (List Char) α
  /-- `to_str`; none where not all of the value is visible ASCII. -/
  toStr : α → Option (List Char)

/-- `http::HeaderMap`, of names and values. -/
structure HttpHeaders (η α β : Type) where
  empty : η
  append : η → α → β → η
  iter : η → List (α × β)
  getAll : η → α → List β

/-- The types of the crate. -/
structure HttpCrate where
  Method : Type
  Uri : Type
  HeaderName : Type
  HeaderValue : Type
  HeaderMap : Type
  Status : Type
  Version : Type
  Extensions : Type
  [eqHeaderName : DecidableEq HeaderName]
  [statusCode : StatusCode Status]
  method : HttpText Method
  uri : HttpText Uri
  headerName : HttpText HeaderName
  headerValue : HttpValue HeaderValue
  headerMap : HttpHeaders HeaderMap HeaderName HeaderValue
  /-- `Version::default`. -/
  version : Version
  /-- `Extensions::new`. -/
  extensions : Extensions

attribute [instance] HttpCrate.eqHeaderName HttpCrate.statusCode

end DesCartes
