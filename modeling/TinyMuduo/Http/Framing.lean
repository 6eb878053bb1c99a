import TinyMuduo.Http.HttpResponse
import TinyMuduo.Http.ResponseReader

/-!
# Responses are self-delimiting

`AppendToBuffer` adds a status line, header fields and the body behind what the
buffer holds, and a client reads them back (`response_self_delimiting`): up to
the announced length when the connection stays open, up to the end of the stream
when it closes. A status that forbids a body is the exception. The code does not
know it, and the client takes the body for what follows the response.
-/

namespace TinyMuduo

open ResponseReader

/-! ## Decimal numbers -/

theorem decimal_natCast (n : ℕ) : decimal n = Numeral.ofNat n := Numeral.ofInt_natCast n

theorem isDigit_of_mem_decimal {n : ℕ} : ∀ b ∈ decimal n, isDigit b = true := by
  intro b hb
  rw [decimal_natCast] at hb
  have hdigit := (Numeral.canonical_ofNat n).digits b hb
  simpa [isDigit] using hdigit

theorem not_mem_decimal {b : Byte} (hb : isDigit b = false) (n : ℕ) : b ∉ decimal n := by
  intro h
  rw [isDigit_of_mem_decimal b h] at hb
  cases hb

/-- **A decimal number is read back.** -/
theorem number_decimal (n : ℕ) : number (decimal n) = some n := by
  have hnumber : decimal n ≠ [] ∧ (decimal n).all isDigit = true := by
    refine ⟨?_, List.all_eq_true.mpr isDigit_of_mem_decimal⟩
    rw [decimal_natCast]
    exact (Numeral.canonical_ofNat n).nonempty
  rw [number, if_pos hnumber, decimal_natCast, Numeral.value_ofNat]

theorem length_decimal_three {n : ℕ} (h : 100 ≤ n) (h' : n ≤ 999) : (decimal n).length = 3 := by
  refine Nat.le_antisymm (Numeral.length_ofInt_natCast_le (by decide) (by omega)) ?_
  rw [decimal_natCast]
  exact Numeral.lt_length_ofNat (show 10 ^ 2 ≤ n by omega)

/-! ## What `AppendToBuffer` writes -/

/-- Text that fits with its NUL is not truncated, and `strlen` finds all of it. -/
theorem cString_snprintf {size : ℕ} {text : Bytes} (hlen : text.length < size) (h : 0 ∉ text) :
    cString (snprintf size text) = text := by
  rw [snprintf, List.take_of_length_le (by omega), cString, List.takeWhile_eq_self_iff]
  intro b hb
  exact decide_eq_true (ne_of_mem_of_not_mem hb h)

namespace HttpResponse

/-- A response whose message and type can stand in a line. Every value of
`HttpStatusCode` has three digits. -/
structure Plain (r : HttpResponse) : Prop where
  status : 100 ≤ r.statusCode ∧ r.statusCode ≤ 999
  message_line : cr ∉ r.statusMessage ∧ lf ∉ r.statusMessage
  message_trimmed : Trimmed r.statusMessage
  type_line : cr ∉ r.type ∧ lf ∉ r.type
  type_trimmed : Trimmed r.type

/-- The sizes, and their sum with the write index, fit in `int`. The fixed text of the
head is not among them: no index wraps here, and the announced length is the only number
that has to fit in a buffer. -/
def FitsInt (r : HttpResponse) (b : Buffer) : Prop :=
  b.writeIndex + r.statusMessage.length + r.type.length + r.body.length < 2 ^ 31

variable (r : HttpResponse)

def statusText : Bytes := ascii "HTTP/1.1 " ++ decimal r.statusCode ++ ascii " " ++ r.statusMessage

def contentLength : Field where
  name := ascii "Content-Length"
  value := decimal r.body.length
  name_ne := by decide
  name_blank := by decide
  name_colon := by decide
  name_line := by decide
  value_line := not_mem_decimal (by decide) _
  value_trimmed := by
    have hblank : ∀ b ∈ decimal r.body.length, isBlank b = false := by
      intro b hb
      have hdigit := isDigit_of_mem_decimal b hb
      by_contra hn
      rw [Bool.not_eq_false, isBlank, Bool.or_eq_true, decide_eq_true_eq, decide_eq_true_eq] at hn
      rcases hn with rfl | rfl <;> cases hdigit
    exact ⟨fun b hb => hblank b (List.mem_of_mem_head? hb),
      fun b hb => hblank b (List.mem_of_mem_getLast? hb)⟩

def connection (value : Bytes) (hline : cr ∉ value) (htrimmed : Trimmed value) : Field where
  name := ascii "Connection"
  value := value
  name_ne := by decide
  name_blank := by decide
  name_colon := by decide
  name_line := by decide
  value_line := hline
  value_trimmed := htrimmed

def contentType (hr : r.Plain) : Field where
  name := ascii "Content-Type"
  value := r.type
  name_ne := by decide
  name_blank := by decide
  name_colon := by decide
  name_line := by decide
  value_line := hr.type_line.1
  value_trimmed := hr.type_trimmed

def server : Field where
  name := ascii "Server"
  value := serverName
  name_ne := by decide
  name_blank := by decide
  name_colon := by decide
  name_line := by decide
  value_line := by decide
  value_trimmed := by decide

def connectionFields : List Field :=
  if r.closeConnection then [connection (ascii "close") (by decide) (by decide)]
  else [r.contentLength, connection (ascii "Keep-Alive") (by decide) (by decide)]

def fields (hr : r.Plain) : List Field := r.connectionFields ++ [r.contentType hr, server]

def encoding (hr : r.Plain) : Bytes :=
  r.statusText ++ kCRLF ++ (block ((r.fields hr).map Field.line) ++ (kCRLF ++ r.body))

end HttpResponse

/-- The buffer `b'` holds what `b` holds, and `m` behind it. -/
structure Buffer.Adds (b : Buffer) (m : Bytes) (b' : Buffer) : Prop where
  inv : b'.Inv
  readable : b'.readable = b.readable ++ m

namespace Buffer

theorem adds_nil {b : Buffer} (hb : b.Inv) : b.Adds [] b := ⟨hb, (List.append_nil _).symm⟩

variable {b b' : Buffer} {m : Bytes}

theorem Adds.appendString (h : b.Adds m b') (message : Bytes) :
    b.Adds (m ++ message) (b'.appendString message) := by
  obtain ⟨hi, hr⟩ := append_spec h.inv message
  exact ⟨hi, by rw [Buffer.appendString, hr, h.readable, List.append_assoc]⟩

theorem Adds.appendCString (h : b.Adds m b') (message : Bytes) {text : Bytes}
    (htext : cString message = text) : b.Adds (m ++ text) (b'.appendCString message) := by
  rw [Buffer.appendCString, htext]
  exact h.appendString text

end Buffer

namespace HttpResponse

variable {r : HttpResponse}

theorem status_natCast (hr : r.Plain) : ∃ n : ℕ, r.statusCode = n ∧ 100 ≤ n ∧ n ≤ 999 := by
  obtain ⟨h, h'⟩ := hr.status
  obtain ⟨n, hn⟩ := Int.eq_ofNat_of_zero_le (a := r.statusCode) (by omega)
  exact ⟨n, hn, by omega, by omega⟩

theorem cString_status (hr : r.Plain) :
    cString (snprintf 32 (ascii "HTTP/1.1 " ++ decimal r.statusCode ++ ascii " ")) =
      ascii "HTTP/1.1 " ++ decimal r.statusCode ++ ascii " " := by
  obtain ⟨n, hn, h, h'⟩ := status_natCast hr
  rw [hn]
  apply cString_snprintf
  · rw [List.length_append, List.length_append, length_decimal_three h h']
    decide
  · simp only [List.mem_append, not_or]
    exact ⟨⟨by decide, not_mem_decimal (by decide) n⟩, by decide⟩

theorem cString_contentLength {b : Buffer} (hfit : r.FitsInt b) :
    cString (snprintf 32 (ascii "Content-Length: " ++ decimal r.body.length ++ ascii "\r\n")) =
      ascii "Content-Length: " ++ decimal r.body.length ++ ascii "\r\n" := by
  unfold FitsInt at hfit
  have hlen : (decimal r.body.length).length ≤ 10 :=
    Numeral.length_ofInt_natCast_le (by decide) (by omega)
  apply cString_snprintf
  · rw [List.length_append, List.length_append]
    show 16 + _ + 2 < 32
    omega
  · simp only [List.mem_append, not_or]
    exact ⟨⟨by decide, not_mem_decimal (by decide) _⟩, by decide⟩

theorem appendConnection_adds {b b' : Buffer} {m : Bytes} (h : b.Adds m b')
    (hfit : r.FitsInt b) :
    b.Adds (m ++ block (r.connectionFields.map Field.line)) (r.appendConnection b') := by
  unfold appendConnection connectionFields
  by_cases hclose : r.closeConnection = true
  · rw [if_pos hclose, if_pos hclose]
    exact h.appendCString _ rfl
  · rw [if_neg hclose, if_neg hclose]
    have hadds := (h.appendCString _ (cString_contentLength hfit)).appendCString
      (ascii "Connection: Keep-Alive\r\n") rfl
    have hblock : block (List.map Field.line
        [r.contentLength, connection (ascii "Keep-Alive") (by decide) (by decide)]) =
        ascii "Content-Length: " ++ decimal r.body.length ++ ascii "\r\n" ++
          ascii "Connection: Keep-Alive\r\n" := by
      simp only [block, List.map_cons, List.map_nil, List.flatMap_cons, List.flatMap_nil,
        List.append_assoc]
      rfl
    rw [hblock, ← List.append_assoc]
    exact hadds

/-- **`AppendToBuffer` leaves the content in place and adds the encoding.** -/
theorem appendToBuffer_adds {b : Buffer} (hb : b.Inv) (hr : r.Plain) (hfit : r.FitsInt b) :
    b.Adds (r.encoding hr) (r.appendToBuffer b) := by
  have hstatus := ((Buffer.adds_nil hb).appendCString _ (cString_status hr)).appendString
    r.statusMessage |>.appendString kCRLF
  have htype := ((appendConnection_adds hstatus hfit).appendCString
    (ascii "Content-Type: ") rfl).appendString r.type |>.appendString kCRLF
  have hall := ((htype.appendCString (ascii "Server: ") rfl).appendString
    serverName).appendString kCRLF |>.appendString kCRLF |>.appendString r.body
  refine Eq.mp (congrArg (b.Adds · (r.appendToBuffer b)) ?_) hall
  simp only [encoding, fields, statusText, block, List.map_append, List.flatMap_append,
    List.map_cons, List.map_nil, List.flatMap_cons, List.flatMap_nil, List.append_assoc]
  rfl

/-! ## What a client reads -/

theorem statusLine_statusText {n : ℕ} (hn : r.statusCode = n) (h : 100 ≤ n) (h' : n ≤ 999) :
    statusLine r.statusText = some (n, r.statusMessage) := by
  have hversion : Search.cut [space] r.statusText =
      some (ascii "HTTP/1.1", decimal n ++ space :: r.statusMessage) := by
    have hcut := Search.cut_singleton_of_not_mem (c := space) (a := ascii "HTTP/1.1")
      (decimal n ++ space :: r.statusMessage) (by decide)
    rw [← hcut, statusText, hn]
    simp only [List.append_assoc]
    rfl
  have hcode := Search.cut_singleton_of_not_mem r.statusMessage
    (not_mem_decimal (b := space) (by decide) n)
  simp only [statusLine, hversion, hcode, length_decimal_three h h', number_decimal,
    Option.bind_eq_bind, Option.bind_some, and_self, if_true]
  rfl

theorem cr_not_mem_statusText (hr : r.Plain) : cr ∉ r.statusText := by
  obtain ⟨n, hn, -, -⟩ := status_natCast hr
  simp only [statusText, hn, List.mem_append, not_or]
  exact ⟨⟨⟨by decide, not_mem_decimal (by decide) n⟩, by decide⟩, hr.message_line.1⟩

theorem values_fields (hr : r.Plain) :
    values (ascii "content-type") ((r.fields hr).map Field.pair) = [r.type] ∧
      values (ascii "connection") ((r.fields hr).map Field.pair) =
        [if r.closeConnection then ascii "close" else ascii "Keep-Alive"] ∧
      values (ascii "content-length") ((r.fields hr).map Field.pair) =
        (if r.closeConnection then [] else [decimal r.body.length]) ∧
      values (ascii "transfer-encoding") ((r.fields hr).map Field.pair) = [] := by
  unfold fields connectionFields
  by_cases hclose : r.closeConnection = true
  · simp only [if_pos hclose]
    exact ⟨rfl, rfl, rfl, rfl⟩
  · simp only [if_neg hclose]
    exact ⟨rfl, rfl, rfl, rfl⟩

def framed (r : HttpResponse) (status : ℕ) : Framing :=
  if Bodyless status then .absent
  else if r.closeConnection then .untilEnd
  else .length r.body.length

theorem framing_fields (hr : r.Plain) (status : ℕ) :
    framing status ((r.fields hr).map Field.pair) = some (r.framed status) := by
  obtain ⟨-, -, hlength, hcoding⟩ := values_fields hr
  unfold framing framed
  by_cases hbody : Bodyless status
  · rw [if_pos hbody, if_pos hbody]
  · rw [if_neg hbody, if_neg hbody, hcoding, hlength, if_neg (by simp)]
    by_cases hclose : r.closeConnection = true
    · rw [if_pos hclose, if_pos hclose]
    · rw [if_neg hclose, if_neg hclose]
      simp only [number_decimal, Option.map_some]

/-- **What is read off the encoding and the bytes behind it.** -/
theorem readResponse_encoding (hr : r.Plain) {n : ℕ} (hn : r.statusCode = n) (rest : Bytes) :
    readResponse (r.encoding hr ++ rest) =
      ((r.framed n).cut (r.body ++ rest)).map fun p =>
        (⟨n, r.statusMessage, (r.fields hr).map Field.pair, p.1⟩, p.2) := by
  obtain ⟨m, hm, h, h'⟩ := status_natCast hr
  obtain rfl : m = n := Int.ofNat_inj.mp (hm.symm.trans hn)
  have hread := readResponse_head (r.fields hr) (r.body ++ rest) (cr_not_mem_statusText hr)
    (statusLine_statusText hm h h')
  rw [framing_fields hr, Option.bind_some] at hread
  rw [← hread, encoding]
  simp only [List.append_assoc]

/-- The message carries the status, the text, the type and the close flag of the
response. -/
structure HeadOf (r : HttpResponse) (message : ResponseMessage) : Prop where
  status : (message.status : ℤ) = r.statusCode
  reason : message.reason = r.statusMessage
  type : values (ascii "content-type") message.fields = [r.type]
  connection : values (ascii "connection") message.fields =
    [if r.closeConnection then ascii "close" else ascii "Keep-Alive"]
  unannounced : r.closeConnection = true →
    values (ascii "content-length") message.fields = []

/-- Behind what the buffer held there is a byte string from which a client reads
the response, whatever follows: all of it when the connection closes, and nothing
of it when the connection stays open. -/
def SelfDelimiting (r : HttpResponse) (b : Buffer) : Prop :=
  ∃ encoding, (r.appendToBuffer b).readable = b.readable ++ encoding ∧
    ∀ rest, ∃ message left, readResponse (encoding ++ rest) = some (message, left) ∧
      r.HeadOf message ∧
      if r.closeConnection then message.body = r.body ++ rest ∧ left = []
      else message.body = r.body ∧ left = rest

theorem headOf_fields (hr : r.Plain) {n : ℕ} (hn : r.statusCode = n) (body : Bytes) :
    r.HeadOf ⟨n, r.statusMessage, (r.fields hr).map Field.pair, body⟩ := by
  obtain ⟨htype, hconnection, hlength, -⟩ := values_fields hr
  refine ⟨hn.symm, rfl, htype, hconnection, fun hclose => ?_⟩
  rw [hlength, if_pos hclose]

/-- **Responses are self-delimiting**, but for those whose status forbids a body:
their body is left in front of what follows. -/
theorem response_self_delimiting {b : Buffer} (hb : b.Inv) (hr : r.Plain) (hfit : r.FitsInt b) :
    (¬ Bodyless r.statusCode.toNat → r.SelfDelimiting b) ∧
      (Bodyless r.statusCode.toNat →
        ∃ encoding, (r.appendToBuffer b).readable = b.readable ++ encoding ∧
          ∀ rest, ∃ message, readResponse (encoding ++ rest) = some (message, r.body ++ rest) ∧
            r.HeadOf message ∧ message.body = []) := by
  obtain ⟨n, hn, -, -⟩ := status_natCast hr
  have hencoding := (appendToBuffer_adds hb hr hfit).readable
  have hread := readResponse_encoding hr hn
  rw [hn, Int.toNat_natCast]
  constructor
  · intro hbody
    refine ⟨r.encoding hr, hencoding, fun rest => ?_⟩
    rw [hread rest, framed, if_neg hbody]
    by_cases hclose : r.closeConnection = true
    · simp only [if_pos hclose]
      exact ⟨_, _, rfl, headOf_fields hr hn _, rfl, rfl⟩
    · have hlen : r.body.length ≤ (r.body ++ rest).length := by simp
      simp only [if_neg hclose, Framing.cut, if_pos hlen, List.take_left, List.drop_left]
      exact ⟨_, _, rfl, headOf_fields hr hn _, rfl, rfl⟩
  · intro hbody
    refine ⟨r.encoding hr, hencoding, fun rest => ?_⟩
    rw [hread rest, framed, if_pos hbody]
    exact ⟨_, rfl, headOf_fields hr hn _, rfl⟩

/-- A page with a CRLF and a NUL in it, behind a byte that is still to be sent. -/
theorem response_self_delimiting_page :
    SelfDelimiting ⟨200, ascii "OK", ascii "a\r\n\r\nb\x00", ascii "text/html", false⟩
      (Buffer.new.append [120]) := by
  refine (response_self_delimiting (Buffer.append_spec Buffer.new_inv _).1
    ⟨by decide, by decide, by decide, by decide, by decide⟩ ?_).1 (by decide)
  unfold FitsInt
  decide +kernel

/-- A `100 Continue` with a body: the client finds the body in front of the next
response. -/
theorem continue_body_left : ∃ (r : HttpResponse) (b : Buffer), b.Inv ∧ r.Plain ∧ r.FitsInt b ∧
    r.statusCode = 100 ∧ r.body = ascii "x" ∧ ¬ r.SelfDelimiting b := by
  have hr : Plain ⟨100, ascii "Continue", ascii "x", ascii "text/plain", false⟩ :=
    ⟨by decide, by decide, by decide, by decide, by decide⟩
  have hfit : FitsInt ⟨100, ascii "Continue", ascii "x", ascii "text/plain", false⟩ Buffer.new := by
    show 8 + 8 + 10 + 1 < 2 ^ 31
    decide
  refine ⟨_, Buffer.new, Buffer.new_inv, hr, hfit, rfl, rfl, ?_⟩
  rintro ⟨encoding, hencoding, hread⟩
  rw [(appendToBuffer_adds Buffer.new_inv hr hfit).readable] at hencoding
  obtain rfl := List.append_cancel_left hencoding
  obtain ⟨message, left, hmessage, -, hbody, -⟩ := hread []
  rw [readResponse_encoding hr (n := 100) rfl] at hmessage
  cases hmessage
  exact absurd (show ([] : Bytes) = ascii "x" from hbody) (by decide)

end HttpResponse

end TinyMuduo
