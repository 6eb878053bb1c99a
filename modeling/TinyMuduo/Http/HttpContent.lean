import TinyMuduo.Http.HttpRequest
import TinyMuduo.Util.Buffer

/-!
# `HttpContent`: the resumable line loop

Translation of `Http/httpcontent.h` and `Http/httpcontent.cc`. `parseContent`
runs the loop of the source on the buffer; `parseBytes` says what it computes
on the readable bytes alone, and `parseContent_agrees` connects the two.
-/

namespace TinyMuduo

inductive HttpRequestParseState where
  | kParseRequestLine
  | kParseHeaders
  | kParseBody
  | kParseGotCompleteRequest
  | kParseErrno
deriving DecidableEq

structure HttpContent where
  request : HttpRequest
  parseState : HttpRequestParseState
deriving DecidableEq

namespace HttpContent

def new : HttpContent := ⟨HttpRequest.new, .kParseRequestLine⟩

def getCompleteRequest (c : HttpContent) : Bool :=
  c.parseState = .kParseGotCompleteRequest

def resetContentState (c : HttpContent) : HttpContent :=
  ⟨(c.request.swap HttpRequest.new).1, .kParseRequestLine⟩

/-- One pass through the `while` body up to the shared `RetrieveUntilIndex`:
`linemore`, `parseok`, the members and the local `CRLF`. -/
def parseLine (c : HttpContent) (b : Buffer) (parseok : Bool) :
    Checked (Bool × Bool × HttpContent × Option ℕ) :=
  match c.parseState with
  | .kParseRequestLine =>
      match b.findCRLF with
      | some crlf => do
          let (parseok, req) ← HttpRequest.parseRequestLine b.readable c.request 0 crlf
          if parseok then
            return (true, true, ⟨req, .kParseHeaders⟩, some crlf)
          else
            return (false, false, { c with request := req }, some crlf)
      | none => return (false, parseok, c, none)
  | .kParseHeaders =>
      match b.findCRLF with
      | some crlf => do
          let colonPtr ← find b.readable 0 crlf colon
          if colonPtr = crlf then
            return (false, parseok, { c with parseState := .kParseGotCompleteRequest }, some crlf)
          else
            let (parseok, req) ←
              HttpRequest.parseHeaders b.readable c.request 0 colonPtr crlf
            return (parseok, parseok, { c with request := req }, some crlf)
      | none => return (false, parseok, c, none)
  | .kParseGotCompleteRequest => return (false, parseok, c, none)
  -- these two states are never left and never stop the loop
  | .kParseBody => return (true, parseok, c, none)
  | .kParseErrno => return (true, parseok, c, none)

/-- `if (CRLF) buffer->RetrieveUntilIndex(CRLF + 2)`. -/
def retrieveLine (b : Buffer) : Option ℕ → Buffer
  | some crlf => b.retrieveUntilIndex (crlf + 2)
  | none => b

/-- The `while (linemore)` loop, for at most the given number of rounds. -/
def parseLoop : ℕ → HttpContent → Buffer → Bool → Checked (Bool × HttpContent × Buffer)
  | 0, _, _, _ => .error .diverges
  | rounds + 1, c, b, parseok => do
      let (linemore, parseok, c, crlf) ← parseLine c b parseok
      if linemore then parseLoop rounds c (retrieveLine b crlf) parseok
      else return (parseok, c, retrieveLine b crlf)

/-- `ParseContent`. Every round but the last one consumes a CRLF. -/
def parseContent (c : HttpContent) (b : Buffer) : Checked (Bool × HttpContent × Buffer) :=
  parseLoop (b.readableBytes / 2 + 1) c b true

end HttpContent

/-! ## The same loop on bytes -/

/-- The header loop: the request so far, the unread rest, and whether a line
without a colon was reached. -/
def headerLines (req : HttpRequest) (s : Bytes) : HttpRequest × Bytes × Bool :=
  match _h : Search.cut kCRLF s with
  | none => (req, s, false)
  | some (line, rest) =>
      match Search.cut [colon] line with
      | none => (req, rest, true)
      | some (name, value) => headerLines (headerLine name value req) rest
termination_by s.length
decreasing_by
  have := Search.length_of_cut _h
  have hk : kCRLF.length = 2 := rfl
  omega

/-- `ParseContent` from the header state on. -/
def parseHeaderBytes (req : HttpRequest) (s : Bytes) : Bool × HttpContent × Bytes :=
  match headerLines req s with
  | (req, rest, true) => (true, ⟨req, .kParseGotCompleteRequest⟩, rest)
  | (req, rest, false) => (true, ⟨req, .kParseHeaders⟩, rest)

/-- What `ParseContent` computes on the readable bytes. -/
def parseBytes (c : HttpContent) (s : Bytes) : Checked (Bool × HttpContent × Bytes) :=
  match c.parseState with
  | .kParseRequestLine =>
      match Search.cut kCRLF s with
      | none => .ok (true, c, s)
      | some (line, rest) =>
          match requestLine line c.request with
          | .error fault => .error fault
          | .ok (false, req) => .ok (false, { c with request := req }, rest)
          | .ok (true, req) => .ok (parseHeaderBytes req rest)
  | .kParseHeaders => .ok (parseHeaderBytes c.request s)
  | .kParseGotCompleteRequest => .ok (true, c, s)
  | .kParseBody => .error .diverges
  | .kParseErrno => .error .diverges

theorem headerLines_none {req : HttpRequest} {s : Bytes} (h : Search.cut kCRLF s = none) :
    headerLines req s = (req, s, false) := by
  rw [headerLines]
  split
  · rfl
  · next heq => rw [h] at heq; cases heq

theorem headerLines_blank {req : HttpRequest} {s line rest : Bytes}
    (h : Search.cut kCRLF s = some (line, rest)) (hc : colon ∉ line) :
    headerLines req s = (req, rest, true) := by
  rw [headerLines]
  split
  · next heq => rw [h] at heq; cases heq
  · next heq =>
      rw [h] at heq
      cases heq
      simp only [Search.cut_singleton_none.mpr hc]

theorem headerLines_header {req : HttpRequest} {s line rest name value : Bytes}
    (h : Search.cut kCRLF s = some (line, rest))
    (hc : Search.cut [colon] line = some (name, value)) :
    headerLines req s = headerLines (headerLine name value req) rest := by
  rw [headerLines]
  split
  · next heq => rw [h] at heq; cases heq
  · next heq =>
      rw [h] at heq
      cases heq
      simp only [hc]

/-! ## The ways a call can go -/

/-- The state behind the header lines. -/
def stateBehind (done : Bool) : HttpRequestParseState :=
  if done then .kParseGotCompleteRequest else .kParseHeaders

theorem parseHeaderBytes_of {req req' : HttpRequest} {s rest : Bytes} {done : Bool}
    (h : headerLines req s = (req', rest, done)) :
    parseHeaderBytes req s = (true, ⟨req', stateBehind done⟩, rest) := by
  rw [parseHeaderBytes, h]
  cases done <;> rfl

/-- What a call found on its way and what it makes of it. -/
inductive ParseCase (c : HttpContent) (s : Bytes) :
    Checked (Bool × HttpContent × Bytes) → Prop where
  | noLine (hstate : c.parseState = .kParseRequestLine) (hcut : Search.cut kCRLF s = none) :
      ParseCase c s (.ok (true, c, s))
  | fault {line tail : Bytes} {f : Fault} (hstate : c.parseState = .kParseRequestLine)
      (hcut : Search.cut kCRLF s = some (line, tail))
      (hreq : requestLine line c.request = .error f) : ParseCase c s (.error f)
  | rejected {line tail : Bytes} {req : HttpRequest}
      (hstate : c.parseState = .kParseRequestLine)
      (hcut : Search.cut kCRLF s = some (line, tail))
      (hreq : requestLine line c.request = .ok (false, req)) :
      ParseCase c s (.ok (false, { c with request := req }, tail))
  | accepted {line tail rest : Bytes} {req req' : HttpRequest} {done : Bool}
      (hstate : c.parseState = .kParseRequestLine)
      (hcut : Search.cut kCRLF s = some (line, tail))
      (hreq : requestLine line c.request = .ok (true, req))
      (hheaders : headerLines req tail = (req', rest, done)) :
      ParseCase c s (.ok (true, ⟨req', stateBehind done⟩, rest))
  | headers {rest : Bytes} {req' : HttpRequest} {done : Bool}
      (hstate : c.parseState = .kParseHeaders)
      (hheaders : headerLines c.request s = (req', rest, done)) :
      ParseCase c s (.ok (true, ⟨req', stateBehind done⟩, rest))
  | complete (hstate : c.parseState = .kParseGotCompleteRequest) :
      ParseCase c s (.ok (true, c, s))
  | spins (hstate : c.parseState = .kParseBody ∨ c.parseState = .kParseErrno) :
      ParseCase c s (.error .diverges)

/-- **Inversion of a call.** -/
theorem parseBytes_cases (c : HttpContent) (s : Bytes) : ParseCase c s (parseBytes c s) := by
  obtain ⟨req₀, state⟩ := c
  cases state with
  | kParseRequestLine =>
      rcases hcut : Search.cut kCRLF s with _ | ⟨line, tail⟩
      · simp only [parseBytes, hcut]
        exact .noLine rfl hcut
      rcases hreq : requestLine line req₀ with f | ⟨_ | _, req⟩
      · simp only [parseBytes, hcut, hreq]
        exact .fault rfl hcut hreq
      · simp only [parseBytes, hcut, hreq]
        exact .rejected rfl hcut hreq
      · rcases hheaders : headerLines req tail with ⟨req', rest, done⟩
        simp only [parseBytes, hcut, hreq, parseHeaderBytes_of hheaders]
        exact .accepted rfl hcut hreq hheaders
  | kParseHeaders =>
      rcases hheaders : headerLines req₀ s with ⟨req', rest, done⟩
      simp only [parseBytes, parseHeaderBytes_of hheaders]
      exact .headers rfl hheaders
  | kParseGotCompleteRequest => exact .complete rfl
  | kParseBody => exact .spins (Or.inl rfl)
  | kParseErrno => exact .spins (Or.inr rfl)

theorem ParseCase.eq {c : HttpContent} {s : Bytes} {result : Checked (Bool × HttpContent × Bytes)}
    (h : ParseCase c s result) : parseBytes c s = result := by
  cases h with
  | noLine hstate hcut => simp only [parseBytes, hstate, hcut]
  | fault hstate hcut hreq => simp only [parseBytes, hstate, hcut, hreq]
  | rejected hstate hcut hreq => simp only [parseBytes, hstate, hcut, hreq]
  | accepted hstate hcut hreq hheaders =>
      simp only [parseBytes, hstate, hcut, hreq, parseHeaderBytes_of hheaders]
  | headers hstate hheaders => simp only [parseBytes, hstate, parseHeaderBytes_of hheaders]
  | complete hstate => simp only [parseBytes, hstate]
  | spins hstate =>
      rcases hstate with hstate | hstate
      · simp only [parseBytes, hstate]
      · simp only [parseBytes, hstate]

/-! ## The loop computes `parseBytes` -/

/-- Same result and members, and the buffer holds the unread rest. -/
def Agrees : Checked (Bool × HttpContent × Buffer) → Checked (Bool × HttpContent × Bytes) → Prop
  | .ok (r, c, b), .ok (r', c', s) => r = r' ∧ c = c' ∧ b.Inv ∧ b.readable = s
  | .error f, .error f' => f = f'
  | _, _ => False

namespace HttpContent

theorem retrieveLine_spec {b : Buffer} (hb : b.Inv) {line rest : Bytes}
    (h : Search.cut kCRLF b.readable = some (line, rest)) :
    b.findCRLF = some line.length ∧
      (retrieveLine b (some line.length)).Inv ∧
      (retrieveLine b (some line.length)).readable = rest ∧
      b.readable = line ++ cr :: lf :: rest := by
  have hread : b.readable = line ++ cr :: lf :: rest := by
    rw [Search.cut_eq_append h, List.append_assoc]
    rfl
  have hlen := Buffer.length_readable hb
  rw [hread] at hlen
  simp only [List.length_append, List.length_cons] at hlen
  have hle : line.length + 2 ≤ b.readableBytes := by omega
  obtain ⟨hi, hr⟩ := Buffer.retrieveUntilIndex_spec hb hle
  refine ⟨by rw [Buffer.findCRLF_eq hb, h]; rfl, hi, ?_, hread⟩
  show (b.retrieveUntilIndex (line.length + 2)).readable = rest
  rw [hr, hread, ← List.drop_drop, List.drop_left]
  rfl

theorem parseLoop_headers : ∀ (rounds : ℕ) (req : HttpRequest) (b : Buffer), b.Inv →
    b.readable.length / 2 < rounds →
    Agrees (parseLoop rounds ⟨req, .kParseHeaders⟩ b true)
      (.ok (parseHeaderBytes req b.readable)) := by
  intro rounds
  induction rounds with
  | zero =>
      intro req b _ hr
      exact absurd hr (Nat.not_lt_zero _)
  | succ rounds ih =>
      intro req b hb hr
      cases hc : Search.cut kCRLF b.readable with
      | none =>
          have hf : b.findCRLF = none := by rw [Buffer.findCRLF_eq hb, hc]; rfl
          rw [parseHeaderBytes, headerLines_none hc]
          simp only [parseLoop, parseLine, hf, bind, Except.bind, pure, Except.pure]
          exact ⟨rfl, rfl, hb, rfl⟩
      | some p =>
          obtain ⟨line, rest⟩ := p
          obtain ⟨hf, hi, hrest, hread⟩ := retrieveLine_spec hb hc
          have hlen := Search.length_of_cut hc
          have hk : kCRLF.length = 2 := rfl
          cases hcolon : Search.cut [colon] line with
          | none =>
              have hmem := Search.cut_singleton_none.mp hcolon
              have hfind : find b.readable 0 line.length colon = .ok line.length := by
                have h := find_missing [] (cr :: lf :: rest) hmem
                rw [hread]
                simpa using h
              rw [parseHeaderBytes, headerLines_blank hc hmem]
              simp only [parseLoop, parseLine, hf, bind, Except.bind, pure, Except.pure, hfind,
                if_true]
              exact ⟨rfl, rfl, hi, hrest⟩
          | some q =>
              obtain ⟨name, value⟩ := q
              have hfind := find_cut [] (cr :: lf :: rest) hcolon
              have hne := (cut_lt [] hcolon).ne
              simp only [List.nil_append, List.length_nil, Nat.zero_add, ← hread] at hfind hne
              obtain ⟨rfl, -⟩ := Search.cut_singleton_some.mp hcolon
              have hheader : HttpRequest.parseHeaders b.readable req 0 name.length
                  (name ++ colon :: value).length = .ok (true, headerLine name value req) := by
                rw [hread]
                exact HttpRequest.parseHeaders_eq (by decide) req
              have hnext := ih (headerLine name value req)
                (retrieveLine b (some (name ++ colon :: value).length)) hi
                (by rw [hrest]; omega)
              rw [hrest] at hnext
              have hstep : parseHeaderBytes req b.readable =
                  parseHeaderBytes (headerLine name value req) rest := by
                rw [parseHeaderBytes, headerLines_header hc hcolon, parseHeaderBytes]
              rw [hstep]
              simp only [parseLoop, parseLine, hf, bind, Except.bind, pure, Except.pure, hfind,
                if_neg hne, hheader, if_true]
              exact hnext

theorem parseLoop_spins {c : HttpContent}
    (hc : c.parseState = .kParseBody ∨ c.parseState = .kParseErrno) (b : Buffer) (parseok : Bool) :
    ∀ rounds, parseLoop rounds c b parseok = .error .diverges := by
  intro rounds
  induction rounds with
  | zero => rfl
  | succ rounds ih =>
      rcases hc with h | h <;>
        simp [parseLoop, parseLine, h, bind, Except.bind, pure, Except.pure, retrieveLine, ih]

/-- **`ParseContent` on a buffer is `parseBytes` on its readable bytes.** -/
theorem parseContent_agrees (c : HttpContent) {b : Buffer} (hb : b.Inv) :
    Agrees (parseContent c b) (parseBytes c b.readable) := by
  obtain ⟨req, state⟩ := c
  have hlen := Buffer.length_readable hb
  unfold parseContent parseBytes
  cases state with
  | kParseRequestLine =>
      cases hc : Search.cut kCRLF b.readable with
      | none =>
          have hf : b.findCRLF = none := by rw [Buffer.findCRLF_eq hb, hc]; rfl
          simp only [parseLoop, parseLine, hf, bind, Except.bind, pure, Except.pure]
          exact ⟨rfl, rfl, hb, rfl⟩
      | some p =>
          obtain ⟨line, rest⟩ := p
          obtain ⟨hf, hi, hrest, hread⟩ := retrieveLine_spec hb hc
          have hl := Search.length_of_cut hc
          have hk : kCRLF.length = 2 := rfl
          have hparse : HttpRequest.parseRequestLine b.readable req 0 line.length =
              requestLine line req := by
            rw [hread]
            exact HttpRequest.parseRequestLine_eq line _ req
          simp only [parseLoop, parseLine, hf, bind, Except.bind, pure, Except.pure, hparse]
          cases hreq : requestLine line req with
          | error fault => exact rfl
          | ok q =>
              obtain ⟨ok, req'⟩ := q
              cases ok with
              | false => exact ⟨rfl, rfl, hi, hrest⟩
              | true =>
                  simp only [if_true]
                  have h := parseLoop_headers (b.readableBytes / 2) req'
                    (retrieveLine b (some line.length)) hi (by rw [hrest]; omega)
                  rw [hrest] at h
                  exact h
  | kParseHeaders =>
      exact parseLoop_headers _ req b hb (by omega)
  | kParseGotCompleteRequest => exact ⟨rfl, rfl, hb, rfl⟩
  | kParseBody =>
      rw [parseLoop_spins (Or.inl rfl)]
      exact rfl
  | kParseErrno =>
      rw [parseLoop_spins (Or.inr rfl)]
      exact rfl

/-- A call that returns, read on bytes. -/
theorem parseBytes_of_parseContent {c c' : HttpContent} {b b' : Buffer} {r : Bool} (hb : b.Inv)
    (h : parseContent c b = .ok (r, c', b')) :
    b'.Inv ∧ parseBytes c b.readable = .ok (r, c', b'.readable) := by
  have ha := parseContent_agrees c hb
  rw [h] at ha
  cases hp : parseBytes c b.readable with
  | error f =>
      rw [hp] at ha
      exact ha.elim
  | ok q =>
      rw [hp] at ha
      obtain ⟨r', c'', s⟩ := q
      obtain ⟨rfl, rfl, hi, rfl⟩ := ha
      exact ⟨hi, rfl⟩

/-- A result on bytes, carried out on the buffer. -/
theorem parseContent_of_parseBytes {c c' : HttpContent} {b : Buffer} {s : Bytes} {r : Bool}
    (hb : b.Inv) (h : parseBytes c b.readable = .ok (r, c', s)) :
    ∃ b', parseContent c b = .ok (r, c', b') ∧ b'.Inv ∧ b'.readable = s := by
  have ha := parseContent_agrees c hb
  rw [h] at ha
  cases hp : parseContent c b with
  | error f =>
      rw [hp] at ha
      exact ha.elim
  | ok q =>
      rw [hp] at ha
      obtain ⟨r', c'', b'⟩ := q
      obtain ⟨rfl, rfl, hi, hr⟩ := ha
      exact ⟨b', rfl, hi, hr⟩

theorem parseContent_error_iff {c : HttpContent} {b : Buffer} {fault : Fault} (hb : b.Inv) :
    parseContent c b = .error fault ↔ parseBytes c b.readable = .error fault := by
  have ha := parseContent_agrees c hb
  cases hp : parseContent c b with
  | error f =>
      cases hq : parseBytes c b.readable with
      | error f' =>
          rw [hp, hq] at ha
          rw [show f = f' from ha, Except.error.injEq, Except.error.injEq]
      | ok q => rw [hp, hq] at ha; exact ha.elim
  | ok p =>
      cases hq : parseBytes c b.readable with
      | error f' => rw [hp, hq] at ha; exact ha.elim
      | ok q => simp

end HttpContent

end TinyMuduo
