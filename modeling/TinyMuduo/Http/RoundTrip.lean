import TinyMuduo.Http.Grammar
import TinyMuduo.Http.RequestLine
import TinyMuduo.Http.Stream

/-!
# Decoding undoes encoding

A well-formed request is a value that carries its side conditions. Its
encoding, followed by any bytes, is parsed into its fields and leaves those
bytes (`parseBytes_encode`), a stream of encodings is drained completely
(`drains_stream`), and with the independence of cuts a driver recovers every
list of requests from every way of cutting its encoding (`decode_stream`).
-/

namespace TinyMuduo

/-! ## Well-formed requests -/

/-- A header, with the number of blanks written behind its colon. -/
structure HeaderField where
  name : Bytes
  value : Bytes
  blanks : ℕ
  name_colon : colon ∉ name
  name_line : ¬ kCRLF <:+: name
  value_blank : value.head? ≠ some space
  value_line : ¬ kCRLF <:+: value

structure WellFormedRequest where
  method : Method
  path : Bytes
  query : Option Bytes
  version : Version
  headers : List HeaderField
  path_blank : space ∉ path
  path_question : question ∉ path
  path_line : ¬ kCRLF <:+: path
  query_blank : ∀ q ∈ query, space ∉ q
  query_line : ∀ q ∈ query, ¬ kCRLF <:+: q
  version_known : version ≠ .kUnknown

theorem Version.kHttp11_known : Version.kHttp11 ≠ .kUnknown := by decide

theorem WellFormedRequest.no_query_blank : ∀ q ∈ (none : Option Bytes), space ∉ q := by
  rintro _ ⟨⟩

theorem WellFormedRequest.no_query_line : ∀ q ∈ (none : Option Bytes), ¬ kCRLF <:+: q := by
  rintro _ ⟨⟩

/-! ## Encoding -/

def Method.name : Method → Bytes
  | .kGet => ascii "GET"
  | .kPost => ascii "POST"
  | .kPut => ascii "PUT"
  | .kDelete => ascii "DELETE"
  | .kTrace => ascii "TRACE"
  | .kOptions => ascii "OPTIONS"
  | .kConnect => ascii "CONNECT"
  | .kPatch => ascii "PATCH"

/-- The byte behind `HTTP/1.`. -/
def Version.digit : Version → Byte
  | .kHttp10 => 48
  | .kHttp11 => 49
  | .kUnknown => question

namespace HeaderField

def line (h : HeaderField) : Bytes :=
  h.name ++ colon :: (List.replicate h.blanks space ++ h.value)

end HeaderField

namespace WellFormedRequest

def target (r : WellFormedRequest) : Bytes :=
  match r.query with
  | some query => r.path ++ question :: query
  | none => r.path

def line (r : WellFormedRequest) : Bytes :=
  r.method.name ++ space :: (r.target ++ space :: (http ++ [r.version.digit]))

def encode (r : WellFormedRequest) : Bytes :=
  r.line ++ kCRLF ++ (block (r.headers.map HeaderField.line) ++ kCRLF)

theorem encode_ne_nil (r : WellFormedRequest) : r.encode ≠ [] := by
  intro h
  have hk := congrArg List.length h
  simp [encode, kCRLF] at hk

/-- The header map: a later value of a name replaces an earlier one. -/
def headerMap (r : WellFormedRequest) : HeaderMap :=
  r.headers.foldl (fun headers h => headers.insert h.name h.value) ∅

def request (r : WellFormedRequest) : HttpRequest where
  method := some r.method
  version := some r.version
  path := r.path
  query := r.query.getD []
  headers := r.headerMap

/-- `GetHeader` finds the last value of a name. -/
theorem lookup_headerMap (r : WellFormedRequest) (name : Bytes) :
    r.headerMap.lookup name =
      ((r.headers.reverse.find? (·.name = name)).map HeaderField.value) := by
  unfold headerMap
  induction r.headers using List.reverseRecOn with
  | nil => rfl
  | append_singleton headers h ih =>
      rw [List.foldl_append, List.reverse_append]
      by_cases hn : h.name = name
      · subst hn
        simp
      · simp only [List.foldl_cons, List.foldl_nil, Finmap.lookup_insert_of_ne _ (Ne.symm hn), ih]
        simp [hn]

end WellFormedRequest

/-! ## Lines stay lines -/

/-- A byte other than CR and LF between two parts makes no new CRLF. -/
theorem crlf_free_cons {a b : Bytes} {c : Byte} (hcr : c ≠ cr) (hlf : c ≠ lf)
    (ha : ¬ kCRLF <:+: a) (hb : ¬ kCRLF <:+: b) : ¬ kCRLF <:+: a ++ c :: b := by
  induction a with
  | nil =>
      rw [List.nil_append, List.infix_cons_iff, not_or]
      refine ⟨?_, hb⟩
      intro hp
      exact hcr (List.cons_prefix_cons.mp hp).1.symm
  | cons x a ih =>
      rw [List.infix_cons_iff, not_or] at ha
      rw [List.cons_append, List.infix_cons_iff, not_or]
      refine ⟨?_, ih ha.2⟩
      intro hp
      obtain ⟨hx, hp⟩ := List.cons_prefix_cons.mp hp
      cases a with
      | nil => exact hlf (List.cons_prefix_cons.mp hp).1.symm
      | cons y a =>
          refine ha.1 (List.cons_prefix_cons.mpr ⟨hx, ?_⟩)
          exact List.cons_prefix_cons.mpr
            ⟨(List.cons_prefix_cons.mp hp).1, List.nil_prefix⟩

theorem crlf_free_blanks {value : Bytes} (h : ¬ kCRLF <:+: value) :
    ∀ n, ¬ kCRLF <:+: List.replicate n space ++ value := by
  intro n
  induction n with
  | zero => exact h
  | succ n ih =>
      have hnil : ¬ kCRLF <:+: ([] : Bytes) := by decide
      exact crlf_free_cons (by decide) (by decide) hnil ih

namespace HeaderField

theorem headerLine_line (h : HeaderField) : HeaderLine h.line where
  nonempty := by simp [line]
  line := crlf_free_cons (by decide) (by decide) h.name_line (crlf_free_blanks h.value_line _)
  hasColon := by simp [line]

theorem addHeader_line (h : HeaderField) (req : HttpRequest) :
    addHeader req h.line = { req with headers := req.headers.insert h.name h.value } := by
  have hcut : Search.cut [colon] h.line =
      some (h.name, List.replicate h.blanks space ++ h.value) :=
    Search.cut_singleton_of_not_mem _ h.name_colon
  have hvalue : (List.replicate h.blanks space ++ h.value).dropWhile (· = space) = h.value := by
    rw [List.dropWhile_append_of_pos (by simp)]
    cases hv : h.value with
    | nil => rfl
    | cons b rest =>
        have hb := h.value_blank
        rw [hv, List.head?_cons] at hb
        exact List.dropWhile_cons_of_neg (by simpa using hb)
  simp only [addHeader, hcut, headerLine, hvalue]

theorem foldl_addHeader (req : HttpRequest) : ∀ (headers : List HeaderField) (m : HeaderMap),
    (headers.map line).foldl addHeader { req with headers := m } =
      { req with headers := headers.foldl (fun m h => m.insert h.name h.value) m } := by
  intro headers
  induction headers with
  | nil =>
      intro m
      rfl
  | cons h headers ih =>
      intro m
      rw [List.map_cons, List.foldl_cons, addHeader_line, List.foldl_cons]
      exact ih (m.insert h.name h.value)

end HeaderField

/-! ## One request -/

theorem methodOf_name (m : Method) : methodOf m.name = some m := by
  cases m <;> decide

theorem versionLine_digit {v : Version} (h : v ≠ .kUnknown) (req : HttpRequest) :
    versionLine (http ++ [v.digit]) req = (true, { req with version := some v }) := by
  cases v with
  | kUnknown => exact absurd rfl h
  | kHttp10 => rfl
  | kHttp11 => rfl

namespace WellFormedRequest

variable (r : WellFormedRequest)

theorem line_crlf : ¬ kCRLF <:+: r.line := by
  have hmethod : ¬ kCRLF <:+: r.method.name := by
    cases r.method <;> decide
  have hversion : ¬ kCRLF <:+: http ++ [r.version.digit] := by
    cases r.version <;> decide
  have htarget : ¬ kCRLF <:+: r.target := by
    unfold target
    cases hq : r.query with
    | none => exact r.path_line
    | some query =>
        exact crlf_free_cons (by decide) (by decide) r.path_line (r.query_line query hq)
  exact crlf_free_cons (by decide) (by decide) hmethod
    (crlf_free_cons (by decide) (by decide) htarget hversion)

/-- **The request line is parsed into its parts.** -/
theorem requestLine_line : requestLine r.line HttpRequest.new =
    .ok (true, { r.request with headers := ∅ }) := by
  have hdigit : question ∉ http ++ [r.version.digit] := by
    have hv := r.version_known
    cases hver : r.version with
    | kUnknown => exact absurd hver hv
    | kHttp10 => decide
    | kHttp11 => decide
  unfold line target request
  cases hq : r.query with
  | none =>
      rw [requestLine_plain _ (methodOf_name _) r.path_blank r.path_question hdigit,
        versionLine_digit r.version_known]
      rfl
  | some query =>
      have hblank : space ∉ r.path ++ question :: query := by
        rw [List.mem_append, List.mem_cons]
        rintro (h | h | h)
        · exact r.path_blank h
        · exact absurd h (by decide)
        · exact r.query_blank query hq h
      rw [requestLine_query _ (methodOf_name _) hblank r.path_question,
        versionLine_digit r.version_known]
      rfl

/-- **One request is decoded, and what follows it stays unread.** -/
theorem parseBytes_encode (rest : Bytes) :
    parseBytes HttpContent.new (r.encode ++ rest) =
      .ok (true, ⟨r.request, .kParseGotCompleteRequest⟩, rest) := by
  have hlines : ∀ l ∈ r.headers.map HeaderField.line, HeaderLine l := by
    intro l hl
    obtain ⟨h, -, rfl⟩ := List.mem_map.mp hl
    exact h.headerLine_line
  have hsplit : r.encode ++ rest = r.line ++ kCRLF ++
      (block (r.headers.map HeaderField.line) ++ ([] ++ kCRLF ++ rest)) := by
    simp only [encode, List.append_assoc, List.nil_append]
  have hnil : ¬ kCRLF <:+: ([] : Bytes) := by decide
  rw [hsplit]
  simp only [parseBytes, HttpContent.new, cut_line _ r.line_crlf, r.requestLine_line,
    parseHeaderBytes, headerLines_block _ _ _ hlines,
    headerLines_last rest hnil List.not_mem_nil, HeaderField.foldl_addHeader]
  rfl

end WellFormedRequest

/-! ## Streams of requests -/

theorem drains_stream : ∀ rs : List WellFormedRequest,
    Drains HttpContent.new (rs.flatMap WellFormedRequest.encode)
      (rs.map WellFormedRequest.request) HttpContent.new [] := by
  intro rs
  induction rs with
  | nil => exact .waits rfl rfl
  | cons r rs ih => exact .completes (r.parseBytes_encode _) rfl ih

/-- **Decoding undoes encoding.** However the encoding of a list of requests is
cut into chunks, the driver obtains exactly these requests, each with the last
value of a repeated header name, and no byte is left. -/
theorem decode_stream (rs : List WellFormedRequest) (chunks : List Bytes)
    (hcut : chunks.flatten = rs.flatMap WellFormedRequest.encode) :
    (∃ b, HttpContent.feed HttpContent.new Buffer.new chunks =
        .ok (rs.map WellFormedRequest.request, HttpContent.new, b) ∧ b.readable = []) ∧
      ∀ r ∈ rs, ∀ name, r.request.headers.lookup name =
        (r.headers.reverse.find? (·.name = name)).map HeaderField.value := by
  refine ⟨?_, fun r _ name => r.lookup_headerMap name⟩
  have hdrains := drains_stream rs
  rw [← hcut, ← List.nil_append chunks.flatten, ← Buffer.readable_new] at hdrains
  obtain ⟨b, hfeed, -, hread⟩ :=
    feed_of_drains chunks Buffer.new_inv (Buffer.readable_new ▸ idle_new) hdrains
  exact ⟨b, hfeed, hread⟩

/-- `GET /a?b HTTP/1.1` with one header. -/
def sampleRequest : WellFormedRequest where
  method := .kGet
  path := ascii "/a"
  query := some (ascii "b")
  version := .kHttp11
  headers := [⟨ascii "Host", ascii "x", 1, by decide, by decide, by decide, by decide⟩]
  path_blank := by decide
  path_question := by decide
  path_line := by decide
  query_blank := by decide
  query_line := by decide
  version_known := by decide

theorem decode_stream_pipelined :
    ∃ b, HttpContent.feed HttpContent.new Buffer.new
        [(sampleRequest.encode ++ sampleRequest.encode).take 18,
          (sampleRequest.encode ++ sampleRequest.encode).drop 18] =
        .ok ([sampleRequest.request, sampleRequest.request], HttpContent.new, b) ∧
      b.readable = [] :=
  (decode_stream [sampleRequest, sampleRequest] _ (by simp [List.flatMap_cons])).1

end TinyMuduo
