import DesCartes.Impl.Axum.Bincode
import DesCartes.Proof.Http

/-!
# What is received of what was sent

A request that a client sends, and a response that a server sends, is received with its method and
URI or its status, its body, and the values of its headers, but for those that are not visible
ASCII, in whose place there are empty ones. What goes wrong in a server is a response with the
status 500.

* `headersFromWire_headersToWire`: the headers;
* `Request.Received.same_iff`, `Response.Received.same_iff`: what is received as it was;
* `transferred`: all of it.
-/

namespace DesCartes.Axum

/-- What is serialized is deserialized. -/
class LawfulBincode (α : Type) [Bincode α] : Prop where
  deserialize_serialize : ∀ (a : α) (bytes : List UInt8), Bincode.serialize a = .ok bytes →
    Bincode.deserialize bytes = .ok a

section
variable {http : HttpCrate}

/-! ## Headers -/

/-- The value that is received: it is parsed from the text of the value, or from the empty one. -/
def received (v : http.HeaderValue) : http.HeaderValue :=
  ((http.headerValue.fromStr ((http.headerValue.toStr v).getD [])).toOption).getD v

/-- Each name has the values that it had, in their order, as they are received. -/
def HeadersReceived (headers headers' : http.HeaderMap) : Prop :=
  ∀ n, http.headerMap.getAll headers' n = (http.headerMap.getAll headers n).map received

/-- Each name has the values that it had, in their order. -/
def SameHeaders (headers headers' : http.HeaderMap) : Prop :=
  ∀ n, http.headerMap.getAll headers' n = http.headerMap.getAll headers n

/-- The request is received as the other one. -/
structure Request.Received (req req' : Request http) : Prop where
  method : req'.method = req.method
  uri : req'.uri = req.uri
  version : req'.version = http.version
  headers : HeadersReceived req.headers req'.headers
  extensions : req'.extensions = http.extensions
  body : req'.body = req.body

/-- The response is received as the other one. -/
structure Response.Received (resp resp' : Response http) : Prop where
  status : resp'.status = resp.status
  version : resp'.version = http.version
  headers : HeadersReceived resp.headers resp'.headers
  extensions : resp'.extensions = http.extensions
  body : resp'.body = resp.body

/-- The requests are the same. -/
structure Request.Same (req req' : Request http) : Prop where
  method : req'.method = req.method
  uri : req'.uri = req.uri
  version : req'.version = req.version
  headers : SameHeaders req.headers req'.headers
  extensions : req'.extensions = req.extensions
  body : req'.body = req.body

/-- The responses are the same. -/
structure Response.Same (resp resp' : Response http) : Prop where
  status : resp'.status = resp.status
  version : resp'.version = resp.version
  headers : SameHeaders resp.headers resp'.headers
  extensions : resp'.extensions = resp.extensions
  body : resp'.body = resp.body

/-- All values of headers are visible ASCII, the version is the default one, and there are no
extensions. -/
def Sendable (headers : http.HeaderMap) (version : http.Version) (extensions : http.Extensions) : Prop :=
  (∀ e ∈ http.headerMap.iter headers, http.headerValue.toStr e.2 ≠ none) ∧ version = http.version ∧
    extensions = http.extensions

section
variable [LawfulHttp http]

theorem fromStr_received (v : http.HeaderValue) :
    http.headerValue.fromStr ((http.headerValue.toStr v).getD []) = .ok (received v) := by
  obtain ⟨w, hw⟩ : ∃ w, http.headerValue.fromStr ((http.headerValue.toStr v).getD []) = .ok w := by
    cases htext : http.headerValue.toStr v with
    | none =>
      obtain ⟨w, hw, -⟩ := (LawfulHttp.headerValue : http.headerValue.Lawful).fromStr_nil
      exact ⟨w, hw⟩
    | some text => exact ⟨v, LawfulHttp.headerValue.fromStr_toStr v text htext⟩
  rw [received, hw]
  rfl

/-- A value is received as it is if it has a text. -/
theorem received_eq_self_iff {v : http.HeaderValue} : received v = v ↔ http.headerValue.toStr v ≠ none := by
  have hreceived := fromStr_received v
  cases htext : http.headerValue.toStr v with
  | none =>
    obtain ⟨w, hw, hnil⟩ := (LawfulHttp.headerValue : http.headerValue.Lawful).fromStr_nil
    rw [htext, Option.getD_none, hw] at hreceived
    cases hreceived
    simp only [ne_eq, not_true_eq_false, iff_false]
    intro heq
    rw [heq, htext] at hnil
    cases hnil
  | some text =>
    rw [htext, Option.getD_some, LawfulHttp.headerValue.fromStr_toStr v text htext] at hreceived
    simpa using (Except.ok.inj hreceived).symm

/-- The headers are received as they are if all values have texts. -/
theorem HeadersReceived.same_iff {headers headers' : http.HeaderMap} (h : HeadersReceived headers headers') :
    SameHeaders headers headers' ↔ ∀ e ∈ http.headerMap.iter headers, http.headerValue.toStr e.2 ≠ none := by
  have hmem : ∀ n v, v ∈ http.headerMap.getAll headers n ↔ (n, v) ∈ http.headerMap.iter headers :=
    fun n v => LawfulHttp.headerMap.mem_getAll
  constructor
  · rintro hsame ⟨n, v⟩ he
    have hmap : (http.headerMap.getAll headers n).map received = (http.headerMap.getAll headers n).map id := by
      rw [← h n, List.map_id]
      exact hsame n
    exact received_eq_self_iff.mp (List.map_inj_left.mp hmap v ((hmem n v).mpr he))
  · intro htexts n
    calc
      http.headerMap.getAll headers' n = (http.headerMap.getAll headers n).map received := h n
      _ = (http.headerMap.getAll headers n).map id :=
        List.map_congr_left fun v hv => received_eq_self_iff.mpr (htexts _ ((hmem n v).mp hv))
      _ = http.headerMap.getAll headers n := List.map_id _

/-- The headers that are read are those that were written, as they are received. -/
theorem headersFromWire_headersToWire (name value : List Char → Error) (headers : http.HeaderMap) :
    ∃ headers', headersFromWire name value (headersToWire headers) = .ok headers' ∧
      HeadersReceived headers headers' := by
  suffices hread : ∀ (l : List (http.HeaderName × http.HeaderValue)) (read : http.HeaderMap),
      ∃ headers', (l.map fun e => (http.headerName.text e.1, (http.headerValue.toStr e.2).getD [])).foldlM
          (fun headers e => do
            let n ← (http.headerName.parse e.1).mapError name
            let v ← (http.headerValue.fromStr e.2).mapError value
            pure (http.headerMap.append headers n v)) read = .ok headers' ∧
        ∀ n, http.headerMap.getAll headers' n =
          http.headerMap.getAll read n ++ (l.filterMap fun e => if e.1 = n then some e.2 else none).map received by
    obtain ⟨headers', hok, hgetAll⟩ := hread (http.headerMap.iter headers) http.headerMap.empty
    refine ⟨headers', hok, fun n => ?_⟩
    rw [hgetAll n, LawfulHttp.headerMap.getAll_empty, List.nil_append, LawfulHttp.headerMap.getAll_eq headers n]
  -- the headers that are left are appended to those that were read
  intro l
  induction l with
  | nil => exact fun read => ⟨read, rfl, fun n => (List.append_nil _).symm⟩
  | cons e l ih =>
    intro read
    obtain ⟨headers', hok, hgetAll⟩ := ih (http.headerMap.append read e.1 (received e.2))
    refine ⟨headers', ?_, fun n => ?_⟩
    · rw [List.map_cons, List.foldlM_cons, LawfulHttp.headerName e.1, fromStr_received]
      exact hok
    · rw [hgetAll n, LawfulHttp.headerMap.getAll_append, List.append_assoc, List.filterMap_cons]
      split <;> rfl

/-- A request is received as it was if nothing but what is sent is in it. -/
theorem Request.Received.same_iff {req req' : Request http} (h : req.Received req') :
    req.Same req' ↔ Sendable req.headers req.version req.extensions := by
  rw [Sendable, ← h.headers.same_iff]
  constructor
  · exact fun hsame => ⟨hsame.headers, hsame.version.symm.trans h.version, hsame.extensions.symm.trans h.extensions⟩
  · rintro ⟨hheaders, hversion, hextensions⟩
    exact ⟨h.method, h.uri, h.version.trans hversion.symm, hheaders, h.extensions.trans hextensions.symm, h.body⟩

/-- A response is received as it was if nothing but what is sent is in it. -/
theorem Response.Received.same_iff {resp resp' : Response http} (h : resp.Received resp') :
    resp.Same resp' ↔ Sendable resp.headers resp.version resp.extensions := by
  rw [Sendable, ← h.headers.same_iff]
  constructor
  · exact fun hsame => ⟨hsame.headers, hsame.version.symm.trans h.version, hsame.extensions.symm.trans h.extensions⟩
  · rintro ⟨hheaders, hversion, hextensions⟩
    exact ⟨h.status, h.version.trans hversion.symm, hheaders, h.extensions.trans hextensions.symm, h.body⟩

theorem requestFromWire_requestToWire (req : Request http) :
    ∃ req', requestFromWire (requestToWire req) = .ok req' ∧ req.Received req' := by
  obtain ⟨headers', hheaders, hreceived⟩ := headersFromWire_headersToWire
    (fun e => .invalidArgument ("invalid header name: ".toList ++ e))
    (fun e => .invalidArgument ("invalid header value: ".toList ++ e)) req.headers
  refine ⟨⟨req.method, req.uri, http.version, headers', http.extensions, req.body⟩, ?_, rfl, rfl, rfl, hreceived, rfl, rfl⟩
  simp only [requestFromWire, requestToWire, LawfulHttp.method req.method, LawfulHttp.uri req.uri, hheaders]
  rfl

theorem httpResponseFromWire_responseToWire (resp : Response http) :
    ∃ resp', httpResponseFromWire (responseToWire resp) = .ok resp' ∧ resp.Received resp' := by
  obtain ⟨headers', hheaders, hreceived⟩ := headersFromWire_headersToWire
    (fun e => .internal ("header name: ".toList ++ e)) (fun e => .internal ("header value: ".toList ++ e)) resp.headers
  refine ⟨⟨resp.status, http.version, headers', http.extensions, resp.body⟩, ?_, rfl, rfl, hreceived, rfl, rfl⟩
  have hstatus : StatusCode.fromU16 (StatusCode.asU16 resp.status) = some resp.status :=
    LawfulStatusCode.fromU16_eq_some.mpr rfl
  simp only [httpResponseFromWire, responseToWire, hstatus, hheaders]
  rfl

end

/-- The errors of the loop over the headers. -/
theorem headersFromWire_error {name value : List Char → Error} {wire : List (List Char × List Char)}
    {e : Error} (h : (headersFromWire name value wire : Except Error http.HeaderMap) = .error e) :
    (∃ text, e = name text) ∨ ∃ text, e = value text := by
  rw [headersFromWire] at h
  generalize http.headerMap.empty = read at h
  induction wire generalizing read with
  | nil => cases h
  | cons w wire ih =>
    rw [List.foldlM_cons] at h
    simp only at h
    cases hn : http.headerName.parse w.1 with
    | error text =>
      rw [hn] at h
      cases h
      exact .inl ⟨text, rfl⟩
    | ok n =>
      cases hv : http.headerValue.fromStr w.2 with
      | error text =>
        rw [hn, hv] at h
        cases h
        exact .inr ⟨text, rfl⟩
      | ok v =>
        rw [hn, hv] at h
        exact ih _ h

/-! ## Payloads -/

variable [Bincode HttpRequestWire] [Bincode HttpResponseWire] [LawfulBincode HttpRequestWire]
  [LawfulBincode HttpResponseWire]

omit [Bincode HttpResponseWire] [LawfulBincode HttpResponseWire] in
/-- A request that is serialized is received. -/
theorem requestResult_serialize [LawfulHttp http] {req : Request http} {bytes : List UInt8}
    (h : Bincode.serialize (requestToWire req) = .ok bytes) :
    ∃ req', requestResult bytes = .ok req' ∧ req.Received req' := by
  rw [requestResult, LawfulBincode.deserialize_serialize _ bytes h]
  exact requestFromWire_requestToWire req

omit [Bincode HttpRequestWire] [LawfulBincode HttpRequestWire] in
/-- A response that is serialized is what the client makes of it. -/
theorem responseResult_responsePayload {respWire : Except Error HttpResponseWire} {bytes : List UInt8}
    (h : Bincode.serialize (orPlainError respWire) = .ok bytes) :
    (responseResult (responsePayload respWire) : Except Error (Response http)) =
      httpResponseFromWire (orPlainError respWire) := by
  have hpayload : responsePayload respWire = bytes := by simp only [responsePayload, h]
  rw [hpayload, responseResult, LawfulBincode.deserialize_serialize _ bytes h]
  rfl

omit [Bincode HttpRequestWire] [LawfulBincode HttpRequestWire] [LawfulBincode HttpResponseWire] in
/-- No response cancels its request. -/
theorem responseResult_ne_cancelled (payload : List UInt8) :
    (responseResult payload : Except Error (Response http)) ≠ .error .cancelled := by
  intro h
  rw [responseResult] at h
  cases hwire : (Bincode.deserialize payload : Except (List Char) HttpResponseWire) with
  | error text =>
    rw [hwire] at h
    cases h
  | ok wire =>
    rw [hwire] at h
    have h : (httpResponseFromWire wire : Except Error (Response http)) = .error .cancelled := h
    rw [httpResponseFromWire] at h
    split at h
    · cases h
    · rename_i status hstatus
      cases hheaders : (headersFromWire (fun e => .internal ("header name: ".toList ++ e))
          (fun e => .internal ("header value: ".toList ++ e)) wire.headers : Except Error http.HeaderMap) with
      | error e =>
        rw [hheaders] at h
        cases h
        obtain ⟨text, heq⟩ | ⟨text, heq⟩ := headersFromWire_error hheaders
        · cases heq
        · cases heq
      | ok headers =>
        rw [hheaders] at h
        cases h

/-- An error is received as a response with the status 500, a `content-type`, and its text. -/
structure Failed (e : Error) (n : http.HeaderName) (v : http.HeaderValue) (resp : Response http) : Prop where
  status : resp.status = StatusCode.internalServerError
  headers : ∀ n', http.headerMap.getAll resp.headers n' = if n = n' then [v] else []
  body : resp.body = Utf8.encode e.display

/-- A request that is serialized is received, and so is a response, as it was exactly where nothing
but what is sent is in it; an error is received as a response with the text of the error. -/
theorem transferred [LawfulHttp http] (req : Request http) (resp : Response http) (e : Error)
    {reqBytes respBytes errorBytes : List UInt8}
    (hreq : Bincode.serialize (requestToWire req) = .ok reqBytes)
    (hresp : Bincode.serialize (responseToWire resp) = .ok respBytes)
    (herror : Bincode.serialize (plainError e.display) = .ok errorBytes) {n : http.HeaderName}
    {v : http.HeaderValue} (hname : http.headerName.parse "content-type".toList = .ok n)
    (hvalue : http.headerValue.fromStr "text/plain".toList = .ok v) :
    (∃ req', requestResult reqBytes = .ok req' ∧ req.Received req' ∧
      (req.Same req' ↔ Sendable req.headers req.version req.extensions)) ∧
    (∃ resp', responseResult (responsePayload (.ok (responseToWire resp))) = .ok resp' ∧ resp.Received resp' ∧
      (resp.Same resp' ↔ Sendable resp.headers resp.version resp.extensions)) ∧
    ∃ resp' : Response http, responseResult (responsePayload (.error e)) = .ok resp' ∧ Failed e n v resp' := by
  refine ⟨?_, ?_, ?_⟩
  · obtain ⟨req', hok, hreceived⟩ := requestResult_serialize hreq
    exact ⟨req', hok, hreceived, hreceived.same_iff⟩
  · have hresp : Bincode.serialize (orPlainError (.ok (responseToWire resp))) = .ok respBytes := hresp
    rw [responseResult_responsePayload hresp]
    obtain ⟨resp', hok, hreceived⟩ := httpResponseFromWire_responseToWire resp
    exact ⟨resp', hok, hreceived, hreceived.same_iff⟩
  · have herror : Bincode.serialize (orPlainError (.error e)) = .ok errorBytes := herror
    have hstatus : StatusCode.fromU16 500 = some (StatusCode.internalServerError : http.Status) :=
      LawfulStatusCode.fromU16_eq_some.mpr LawfulStatusCode.asU16_internalServerError
    rw [responseResult_responsePayload herror, orPlainError, plainError, httpResponseFromWire]
    simp only [hstatus, headersFromWire, List.foldlM_cons, List.foldlM_nil, hname, hvalue]
    refine ⟨_, rfl, rfl, fun n' => ?_, rfl⟩
    rw [LawfulHttp.headerMap.getAll_append, LawfulHttp.headerMap.getAll_empty, List.nil_append]

end

/-! ## The default format -/

namespace DefaultFormat

open Reader (Reads)

theorem reads_bytes {bytes : List UInt8} (h : FitsBytes bytes) : Reads getBytes (putBytes bytes) bytes :=
  (Reader.reads_getLittleEndian _ h).bind (Reader.reads_split _ rfl)

theorem reads_string {text : List Char} (h : FitsBytes (Utf8.encode text)) :
    Reads getString (putString text) text :=
  (reads_bytes h).bind_lift (by rw [Utf8.decode?_encode]; rfl)

theorem reads_headers {headers : List (List Char × List Char)} (h : FitsHeaders headers) :
    Reads getHeaders (putHeaders headers) headers := by
  refine (Reader.reads_getLittleEndian _ h.1).bind (Reads.times fun e he => ?_)
  obtain ⟨hk, hv⟩ := h.2 e he
  exact (reads_string hk).bind ((reads_string hv).bind_pure rfl)

instance : LawfulBincode HttpRequestWire where
  deserialize_serialize wire bytes h := by
    simp only [Bincode.serialize] at h
    split at h
    · rename_i hfits
      obtain ⟨hmethod, huri, hheaders, hbody⟩ := hfits
      cases h
      have hreads : Reads getRequest (putRequest wire) wire :=
        (reads_string hmethod).bind ((reads_string huri).bind
          ((reads_headers hheaders).bind ((reads_bytes hbody).bind_pure rfl)))
      have := hreads.whole []
      rw [List.append_nil] at this
      exact congrArg (Except.map Prod.fst) this
    · cases h

instance : LawfulBincode HttpResponseWire where
  deserialize_serialize wire bytes h := by
    simp only [Bincode.serialize] at h
    split at h
    · rename_i hfits
      obtain ⟨hheaders, hbody⟩ := hfits
      cases h
      have hstatus : (⟨.ofNat wire.status.toNat, wire.headers, wire.body⟩ : HttpResponseWire) = wire := by
        rw [UInt16.ofNat_toNat]
      have hreads : Reads getResponse (putResponse wire) wire :=
        (Reader.reads_getLittleEndian _ wire.status.toNat_lt).bind
        ((reads_headers hheaders).bind ((reads_bytes hbody).bind_pure hstatus))
      have := hreads.whole []
      rw [List.append_nil] at this
      exact congrArg (Except.map Prod.fst) this
    · cases h

end DefaultFormat

/-! ## A request with a value that is not ASCII -/

/-- A request with two values, one of which is not ASCII. -/
def hello : Request Plain.crate :=
  ⟨"GET".toList, "/hello".toList, 11, [("x-test".toList, [49]), ("x-raw".toList, [200])], (), []⟩

/-- The response to it. -/
def greeting : Response Plain.crate := ⟨StatusCode.ok, 11, [], (), [104, 105]⟩

theorem transferred_hello :
    (∃ req', requestResult (DefaultFormat.putRequest (requestToWire hello)) = .ok req' ∧ hello.Received req' ∧
      ¬hello.Same req') ∧
    ∃ resp', responseResult (responsePayload (.ok (responseToWire greeting))) = .ok resp' ∧ greeting.Same resp' := by
  have hserialize : Bincode.serialize (requestToWire hello) = .ok (DefaultFormat.putRequest (requestToWire hello)) := rfl
  obtain ⟨⟨req', hreq, hreceived, hsame⟩, ⟨resp', hresp, -, hsame'⟩, -⟩ :=
    transferred hello greeting .cancelled hserialize rfl rfl (n := "content-type".toList)
      (v := Utf8.encode "text/plain".toList) rfl rfl
  refine ⟨⟨req', hreq, hreceived, fun h => ?_⟩, resp', hresp, hsame'.mpr ⟨?_, rfl, rfl⟩⟩
  · exact (hsame.mp h).1 ("x-raw".toList, [200]) (List.mem_cons_of_mem _ List.mem_cons_self) rfl
  · rintro e ⟨⟩

end DesCartes.Axum
