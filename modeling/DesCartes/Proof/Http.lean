import DesCartes.Impl.Http
import DesCartes.Framework.Utf8

/-!
# What is relied on of the `http` crate

* `LawfulStatusCode`: the numbers of status codes;
* `LawfulHttp`: the texts of methods, URIs, names and values are parsed to them, and headers keep the
  values of a name in their order;
* `Plain`: texts, and lists of headers.
-/

namespace DesCartes

/-- A status code is told by its number, which is one from 100 to 999. -/
class LawfulStatusCode (σ : Type) [StatusCode σ] : Prop where
  asU16_ok : StatusCode.asU16 (StatusCode.ok : σ) = 200
  asU16_internalServerError : StatusCode.asU16 (StatusCode.internalServerError : σ) = 500
  fromU16_eq_some : ∀ {code : UInt16} {status : σ}, StatusCode.fromU16 code = some status ↔ StatusCode.asU16 status = code
  fromU16_isSome : ∀ code : UInt16, (StatusCode.fromU16 code : Option σ).isSome = true ↔ 100 ≤ code ∧ code < 1000

/-- What is written is parsed. -/
def HttpText.Lawful {α : Type} (text : HttpText α) : Prop := ∀ a, text.parse (text.text a) = .ok a

/-- A value with a text is the one that is parsed from it; the empty text is the one of a value. -/
structure HttpValue.Lawful {α : Type} (value : HttpValue α) : Prop where
  fromStr_toStr : ∀ v text, value.toStr v = some text → value.fromStr text = .ok v
  fromStr_nil : ∃ v, value.fromStr [] = .ok v ∧ value.toStr v = some []

/-- A value is appended to those of its name; the values of a name are those that come with it. -/
structure HttpHeaders.Lawful {η α β : Type} [DecidableEq α] (map : HttpHeaders η α β) : Prop where
  getAll_empty : ∀ n, map.getAll map.empty n = []
  getAll_append : ∀ headers name value n,
    map.getAll (map.append headers name value) n = map.getAll headers n ++ if name = n then [value] else []
  getAll_eq : ∀ headers n, map.getAll headers n = (map.iter headers).filterMap fun e => if e.1 = n then some e.2 else none

/-- What is documented of the crate. -/
class LawfulHttp (http : HttpCrate) : Prop where
  status : LawfulStatusCode http.Status
  method : http.method.Lawful
  uri : http.uri.Lawful
  headerName : http.headerName.Lawful
  headerValue : http.headerValue.Lawful
  headerMap : http.headerMap.Lawful

attribute [instance] LawfulHttp.status

/-- The header with the name and the value is one of them. -/
theorem HttpHeaders.Lawful.mem_getAll {η α β : Type} [DecidableEq α] {map : HttpHeaders η α β} (h : map.Lawful)
    {headers : η} {n : α} {v : β} : v ∈ map.getAll headers n ↔ (n, v) ∈ map.iter headers := by
  rw [h.getAll_eq, List.mem_filterMap]
  constructor
  · rintro ⟨⟨n', v'⟩, he, heq⟩
    split at heq
    · rename_i hn
      cases hn
      cases heq
      exact he
    · cases heq
  · exact fun he => ⟨(n, v), he, if_pos rfl⟩

/-! ## Texts and lists -/

namespace Plain

/-- A number from 100 to 999. -/
abbrev Status := { code : UInt16 // 100 ≤ code ∧ code < 1000 }

instance : StatusCode Status where
  ok := ⟨200, by decide⟩
  internalServerError := ⟨500, by decide⟩
  fromU16 code := if h : 100 ≤ code ∧ code < 1000 then some ⟨code, h⟩ else none
  asU16 status := status.1

instance : LawfulStatusCode Status where
  asU16_ok := rfl
  asU16_internalServerError := rfl
  fromU16_eq_some {code status} := by
    simp only [StatusCode.fromU16, StatusCode.asU16]
    split
    · simp only [Option.some.injEq, Subtype.ext_iff, eq_comm]
    · rename_i h
      refine iff_of_false nofun ?_
      rintro rfl
      exact h status.2
  fromU16_isSome code := by
    simp only [StatusCode.fromU16]
    split <;> simp_all

/-- The bytes that `HeaderValue` takes. -/
def validByte (b : UInt8) : Bool := 32 ≤ b && b != 127 || b == 9

/-- The bytes that `HeaderValue::to_str` takes. -/
def visibleByte (b : UInt8) : Bool := 32 ≤ b && b < 127 || b == 9

/-- Values are their bytes. -/
def value : HttpValue (List UInt8) where
  fromStr text :=
    if (Utf8.encode text).all validByte then .ok (Utf8.encode text)
    else .error "failed to parse header value".toList
  toStr v := if v.all visibleByte then Utf8.decode? v else none

theorem validByte_of_visible {b : UInt8} (h : visibleByte b = true) : validByte b = true := by
  simp only [visibleByte, validByte, Bool.or_eq_true, Bool.and_eq_true, decide_eq_true_eq, bne_iff_ne,
    beq_iff_eq] at h ⊢
  exact h.imp (fun h => ⟨h.1, fun h' => by rw [h'] at h; exact absurd h.2 (by decide)⟩) id

theorem lawful_value : value.Lawful where
  fromStr_toStr v text h := by
    simp only [value] at h ⊢
    split at h
    · rename_i hvisible
      have hencode : Utf8.encode text = v := by
        rw [Utf8.decode?] at h
        split at h
        · rename_i hv
          cases h
          exact hv
        · cases h
      have hvalid : v.all validByte = true :=
        List.all_eq_true.mpr fun b hb => validByte_of_visible (List.all_eq_true.mp hvisible b hb)
      rw [hencode, if_pos hvalid]
    · cases h
  fromStr_nil := ⟨[], rfl, rfl⟩

/-- Headers are a list, the ones appended last. -/
def headerMap {α β : Type} [DecidableEq α] : HttpHeaders (List (α × β)) α β where
  empty := []
  append headers name value := headers ++ [(name, value)]
  iter headers := headers
  getAll headers n := headers.filterMap fun e => if e.1 = n then some e.2 else none

theorem lawful_headerMap {α β : Type} [DecidableEq α] : (headerMap : HttpHeaders (List (α × β)) α β).Lawful where
  getAll_empty _ := rfl
  getAll_append headers name value n := by
    simp only [headerMap, List.filterMap_append, List.filterMap_cons, List.filterMap_nil]
    split <;> simp_all
  getAll_eq _ _ := rfl

/-- Methods, URIs and names are their texts, versions are numbers, and there are no extensions. -/
abbrev crate : HttpCrate where
  Method := List Char
  Uri := List Char
  HeaderName := List Char
  HeaderValue := List UInt8
  HeaderMap := List (List Char × List UInt8)
  Status := Status
  Version := Nat
  Extensions := Unit
  method := ⟨.ok, id⟩
  uri := ⟨.ok, id⟩
  headerName := ⟨.ok, id⟩
  headerValue := value
  headerMap := headerMap
  version := 11
  extensions := ()

instance : LawfulHttp crate where
  status := inferInstance
  method _ := rfl
  uri _ := rfl
  headerName _ := rfl
  headerValue := lawful_value
  headerMap := lawful_headerMap

end Plain

end DesCartes
