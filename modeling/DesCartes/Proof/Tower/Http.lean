import DesCartes.Impl.Tower.Http

/-!
# What the server reads of a request

`parse_request_payload` takes a payload apart that `serialize_http_request` has put together.
Without headers the payload has one empty line too many, which the server takes for one of the body.

* `splitLines_append`, `intercalate_splitLines`: the lines of a text;
* `splitWhitespace_word`: the words of the first line;
* `parse_serialize`: what the server reads;
* `roundtrip_iff`: when this is the request.
-/

namespace DesCartes.Tower

open Service

/-! ## Lines -/

theorem splitLines_ne_nil (text : List Char) : splitLines text ≠ [] := by
  fun_cases splitLines text <;> exact List.cons_ne_nil _ _

theorem splitLines_break (rest : List Char) :
    splitLines ('\r' :: '\n' :: rest) = [] :: splitLines rest :=
  by rw [splitLines]

/-- A character of a line. -/
theorem splitLines_cons {c : Char} {rest : List Char} (hc : ∀ rest', c = '\r' → rest ≠ '\n' :: rest') :
    splitLines (c :: rest) = (c :: (splitLines rest).headD []) :: (splitLines rest).tail := by
  rw [splitLines]
  · cases h : splitLines rest with
    | nil => exact absurd h (splitLines_ne_nil rest)
    | cons line lines => rfl
  · intro rest' hr hrest
    exact hc rest' hr hrest

/-- A line is split off with what ends it. -/
theorem splitLines_append {line : List Char} (hline : IsLine line) (rest : List Char) :
    splitLines (line ++ crlf ++ rest) = line :: splitLines rest := by
  induction line with
  | nil => exact splitLines_break rest
  | cons c line ih =>
    obtain ⟨hr, hn⟩ := hline
    rw [List.mem_cons, not_or] at hr hn
    rw [List.cons_append, List.cons_append, splitLines_cons fun _ hc => absurd hc.symm hr.1, ih ⟨hr.2, hn.2⟩]
    rfl

/-- The lines of a text make up the text. -/
theorem intercalate_splitLines (text : List Char) : crlf.intercalate (splitLines text) = text := by
  induction text using splitLines.induct with
  | case1 => rfl
  | case2 rest ih =>
    obtain ⟨line, lines, h⟩ := List.exists_cons_of_ne_nil (splitLines_ne_nil rest)
    rw [splitLines_break, h, List.intercalate_cons_cons, ← h, ih]
    rfl
  | case3 c rest _ hnil ih => exact absurd hnil (splitLines_ne_nil rest)
  | case4 c rest hc line lines h ih =>
    rw [splitLines_cons fun rest' hr hrest => hc rest' hr hrest, h, List.headD_cons, List.tail_cons]
    rw [h] at ih
    cases lines with
    | nil => rw [← ih]; simp
    | cons line' lines => rw [← ih, List.intercalate_cons_cons, List.intercalate_cons_cons]; rfl

theorem splitLines_intercalate {line : List Char} {lines : List (List Char)}
    (hlines : ∀ l ∈ line :: lines, IsLine l) (rest : List Char) :
    splitLines (crlf.intercalate (line :: lines) ++ crlf ++ rest) = line :: lines ++ splitLines rest := by
  induction lines generalizing line with
  | nil =>
    rw [List.intercalate_singleton]
    exact splitLines_append (hlines line List.mem_cons_self) rest
  | cons line' lines ih =>
    obtain ⟨hline, hlines⟩ := List.forall_mem_cons.mp hlines
    rw [List.intercalate_cons_cons, List.append_assoc, List.append_assoc, splitLines_append hline,
      ← List.append_assoc, ih hlines]
    rfl

/-- The lines of a block that an empty line ends. A block without lines is itself an empty line. -/
theorem splitLines_block {lines : List (List Char)} (hlines : ∀ line ∈ lines, IsLine line)
    (rest : List Char) :
    splitLines (crlf.intercalate lines ++ crlf ++ crlf ++ rest) =
      (if lines = [] then [[]] else lines) ++ [] :: splitLines rest := by
  cases lines with
  | nil => exact congrArg _ (splitLines_break rest)
  | cons line lines =>
    rw [if_neg (List.cons_ne_nil _ _), List.append_assoc, splitLines_intercalate hlines]
    exact congrArg _ (splitLines_break rest)

theorem headerLines_append {lines : List (List Char)} (hlines : ∀ line ∈ lines, line ≠ [])
    (rest : List (List Char)) :
    headerLines (lines ++ [] :: rest) = (lines, rest) := by
  induction lines with
  | nil => rfl
  | cons line lines ih =>
    obtain ⟨hline, hlines⟩ := List.forall_mem_cons.mp hlines
    rw [List.cons_append, headerLines, if_neg hline, ih hlines]

/-! ## Words -/

theorem splitWhitespace_word {word : List Char} (hword : IsWord word) {c : Char}
    (hc : isWhitespace c) (rest : List Char) :
    splitWhitespace (word ++ c :: rest) = word :: splitWhitespace rest := by
  rw [splitWhitespace, List.splitOnP_append_cons_of_forall_mem hword.2 c hc,
    List.filter_cons_of_pos (by simpa using hword.1)]
  rfl

theorem mem_splitOnP {p : Char → Bool} {text word : List Char} (h : word ∈ text.splitOnP p) :
    ∀ c ∈ word, p c = false := by
  induction text generalizing word with
  | nil =>
    rw [List.splitOnP_nil, List.mem_singleton] at h
    rw [h]
    exact nofun
  | cons c text ih =>
    rw [List.splitOnP_cons_eq_if_modifyHead] at h
    split at h
    · rcases List.mem_cons.mp h with rfl | h
      · exact nofun
      · exact ih h
    · rename_i hc
      obtain ⟨first, words, hsplit⟩ := List.exists_cons_of_ne_nil (List.splitOnP_ne_nil p text)
      rw [hsplit, List.modifyHead_cons] at h
      rw [hsplit] at ih
      rcases List.mem_cons.mp h with rfl | h
      · exact List.forall_mem_cons.mpr ⟨Bool.eq_false_iff.mpr hc, ih List.mem_cons_self⟩
      · exact ih (List.mem_cons_of_mem _ h)

theorem mem_splitWhitespace {text word : List Char} (h : word ∈ splitWhitespace text) : IsWord word := by
  obtain ⟨h, hne⟩ := List.mem_filter.mp h
  exact ⟨of_decide_eq_true hne, mem_splitOnP h⟩

/-! ## Requests -/

theorem Header.line_isLine (h : Header) : IsLine h.line := by
  have hvalue : IsLine (h.value.getD []) := by
    cases hv : h.value with
    | none => exact ⟨List.not_mem_nil, List.not_mem_nil⟩
    | some text => exact h.value_line text hv
  constructor
  · simp [Header.line, h.name_line.1, hvalue.1]
  · simp [Header.line, h.name_line.2, hvalue.2]

theorem Header.line_ne_nil (h : Header) : h.line ≠ [] := by
  rw [Header.line, List.append_assoc]
  exact List.append_ne_nil_of_left_ne_nil h.name_ne _

/-- White space is what a word has not got, so it has no line breaks. -/
theorem IsWord.isLine {text : List Char} (h : IsWord text) : IsLine text :=
  ⟨fun hr => absurd (h.2 _ hr) (by decide), fun hn => absurd (h.2 _ hn) (by decide)⟩

/-- The first line of the payload. -/
def requestLine (req : HttpRequest) : List Char := req.method ++ ' ' :: (req.uri ++ " HTTP/1.1".toList)

theorem requestLine_isLine (req : HttpRequest) : IsLine (requestLine req) := by
  have hmethod := req.method_word.isLine
  constructor
  · simp [requestLine, hmethod.1, req.uri_line.1]
  · simp [requestLine, hmethod.2, req.uri_line.2]

/-- What the server reads of a request. -/
structure Read (req : HttpRequest) (context : RequestContext) : Prop where
  method : context.method = req.method
  uri : context.uri = req.uri ↔ IsWord req.uri
  payload : context.payload = Utf8.encode ((if req.headers = [] then crlf else []) ++ Utf8.decodeLossy req.body)
  bodySize : context.bodySize = context.payload.length

/-- The lines of the payload. -/
theorem splitLines_payload (req : HttpRequest) : splitLines (Utf8.decodeLossy (serializeHttpRequest req)) =
    requestLine req :: ((if req.headers = [] then [[]] else req.headers.map Header.line) ++
      [] :: splitLines (Utf8.decodeLossy req.body)) := by
  have hhead : req.head ++ Utf8.decodeLossy req.body = requestLine req ++ crlf ++
      (crlf.intercalate (req.headers.map Header.line) ++ crlf ++ crlf ++ Utf8.decodeLossy req.body) := by
    simp [HttpRequest.head, requestLine]
  have hlines : ∀ line ∈ req.headers.map Header.line, IsLine line :=
    List.forall_mem_map.mpr fun h _ => h.line_isLine
  rw [serializeHttpRequest, Utf8.decodeLossy_encode_append, hhead, splitLines_append (requestLine_isLine req),
    splitLines_block hlines]
  simp only [List.map_eq_nil_iff]

/-- The lines behind the first one: the headers, and the body. -/
theorem headerLines_payload (req : HttpRequest) :
    headerLines ((if req.headers = [] then [[]] else req.headers.map Header.line) ++
      [] :: splitLines (Utf8.decodeLossy req.body)) =
    (req.headers.map Header.line, (if req.headers = [] then [[]] else []) ++
      splitLines (Utf8.decodeLossy req.body)) := by
  split
  · rename_i hnil
    rw [hnil]
    rfl
  · refine headerLines_append (List.forall_mem_map.mpr fun h _ => h.line_ne_nil) _

/-- The second word of the first line is the URI exactly if the URI is a word. -/
theorem uri_iff (req : HttpRequest) : (splitWhitespace (requestLine req))[1]?.getD "/".toList = req.uri ↔ IsWord req.uri := by
  rw [requestLine, splitWhitespace_word req.method_word (by decide), List.getElem?_cons_succ]
  constructor
  · intro h
    rw [← h]
    cases hword : (splitWhitespace (req.uri ++ " HTTP/1.1".toList))[0]? with
    | none => decide
    | some word => exact mem_splitWhitespace (List.mem_of_getElem? hword)
  · intro h
    have hwords : splitWhitespace (req.uri ++ " HTTP/1.1".toList) = req.uri :: splitWhitespace "HTTP/1.1".toList :=
      splitWhitespace_word h (by decide) _
    rw [hwords]
    rfl

theorem parse_serialize (req : HttpRequest) : Read req (parseRequestPayload (serializeHttpRequest req)) := by
  have hlines := splitLines_payload req
  have hheaders := headerLines_payload req
  rw [parseRequestPayload, hlines, List.headD_cons, List.tail_cons, hheaders]
  refine ⟨?_, uri_iff req, ?_, rfl⟩
  · rw [requestLine, splitWhitespace_word req.method_word (by decide)]
    rfl
  · show Utf8.encode (crlf.intercalate _) = _
    obtain ⟨line, lines, h⟩ := List.exists_cons_of_ne_nil (splitLines_ne_nil (Utf8.decodeLossy req.body))
    split
    · rw [List.singleton_append, h, List.intercalate_cons_cons, ← h, intercalate_splitLines]
      rfl
    · rw [List.nil_append, intercalate_splitLines]
      rfl

/-- The server reads the request exactly if the URI is a word, there is a header, and the body is UTF-8. -/
theorem roundtrip_iff (req : HttpRequest) :
    let context := parseRequestPayload (serializeHttpRequest req)
    (context.method = req.method ∧ context.uri = req.uri ∧ context.payload = req.body ∧
        context.bodySize = req.body.length) ↔
      IsWord req.uri ∧ req.headers ≠ [] ∧ ∃ text, Utf8.encode text = req.body := by
  obtain ⟨hmethod, huri, hpayload, hsize⟩ := parse_serialize req
  intro context
  have hbody : context.payload = req.body ↔ req.headers ≠ [] ∧ ∃ text, Utf8.encode text = req.body := by
    rw [hpayload, ← Utf8.encode_decodeLossy]
    split
    · rename_i hnil
      refine iff_of_false (fun h => ?_) fun h => h.1 hnil
      -- the body would be UTF-8, and the payload longer than the body
      have hvalid := Utf8.encode_decodeLossy.mpr ⟨_, h⟩
      have hlen := congrArg List.length h
      rw [Utf8.encode_append, hvalid, List.length_append] at hlen
      have : (Utf8.encode crlf).length = 2 := by decide
      omega
    · rename_i hne
      rw [List.nil_append]
      exact (and_iff_right hne).symm
  constructor
  · rintro ⟨-, h₁, h₂, -⟩
    exact ⟨huri.mp h₁, hbody.mp h₂⟩
  · rintro ⟨h₁, h₂⟩
    refine ⟨hmethod, huri.mpr h₁, hbody.mpr h₂, ?_⟩
    rw [hsize, hbody.mpr h₂]

/-- A request without headers. -/
def noHeaders : HttpRequest where
  method := "POST".toList
  uri := "/items".toList
  headers := []
  body := Utf8.encode "data".toList
  method_word := by decide
  uri_line := by decide

/-- The body of a request without headers gets a line break. -/
theorem not_roundtrip_noHeaders :
    let context := parseRequestPayload (serializeHttpRequest noHeaders)
    context.payload = Utf8.encode "\r\ndata".toList ∧ context.bodySize = 6 ∧
    ¬(context.method = noHeaders.method ∧ context.uri = noHeaders.uri ∧ context.payload = noHeaders.body ∧
        context.bodySize = noHeaders.body.length) := by
  decide

end DesCartes.Tower
