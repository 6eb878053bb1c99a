import TinyMuduo.Http.Grammar
import TinyMuduo.Http.RequestLine
import TinyMuduo.Lib.Transition

/-!
# Which bytes drive the parser out of range

Runs of a parser on what a connection receives: chunks arrive, `ParseContent`
is called, and a complete request is taken and the parser reset, in any order.
A call that faults ends the process, so it is the last move of its run. One
kind of request line faults; every other call stays in range and rejects a
malformed line (`call_safe_iff`), in every run (`parser_safe_iff`).
-/

namespace TinyMuduo

open Transition

/-! ## One call -/

namespace HttpContent

/-- The states `ParseContent` leaves a parser in. -/
def Settled (c : HttpContent) : Prop :=
  c.parseState ≠ .kParseBody ∧ c.parseState ≠ .kParseErrno

theorem new_settled : new.Settled := ⟨by decide, by decide⟩

end HttpContent

/-- The parser is about to read a request line, and the first complete line has
a `'?'` behind a target without one. -/
def QueryOutOfOrder (c : HttpContent) (s : Bytes) : Prop :=
  c.parseState = .kParseRequestLine ∧
    ∃ line rest, ¬ kCRLF <:+: line ∧ MisplacedQuery line ∧ s = line ++ kCRLF ++ rest

/-- The parser is about to read a request line, and the first complete line is
not one. -/
def Malformed (c : HttpContent) (s : Bytes) : Prop :=
  c.parseState = .kParseRequestLine ∧
    ∃ line rest, ¬ kCRLF <:+: line ∧ ¬ WellFormedLine line ∧ s = line ++ kCRLF ++ rest

theorem parseBytes_error_iff {c : HttpContent} {s : Bytes} (hc : c.Settled) {fault : Fault} :
    parseBytes c s = .error fault ↔ QueryOutOfOrder c s ∧ fault = .lengthError := by
  constructor
  · intro h
    have hcase := parseBytes_cases c s
    rw [h] at hcase
    cases hcase with
    | fault hstate hcut hreq =>
        obtain ⟨hs, hline⟩ := line_of_cut hcut
        obtain ⟨hmis, hf⟩ := requestLine_error_iff.mp hreq
        exact ⟨⟨hstate, _, _, hline, hmis, hs⟩, hf⟩
    | spins hstate =>
        rcases hstate with hstate | hstate
        · exact absurd hstate hc.1
        · exact absurd hstate hc.2
  · rintro ⟨⟨hstate, line, rest, hline, hmis, rfl⟩, rfl⟩
    exact (ParseCase.fault hstate (cut_line rest hline)
      (requestLine_error_iff.mpr ⟨hmis, rfl⟩)).eq

theorem settled_stateBehind (req : HttpRequest) (done : Bool) :
    HttpContent.Settled ⟨req, stateBehind done⟩ := by
  cases done
  · exact ⟨by rintro ⟨⟩, by rintro ⟨⟩⟩
  · exact ⟨by rintro ⟨⟩, by rintro ⟨⟩⟩

/-- A call that returns leaves a settled parser, and a malformed request line
is answered by false. -/
theorem parseBytes_ok {c c' : HttpContent} {s rest : Bytes} {r : Bool} (hc : c.Settled)
    (h : parseBytes c s = .ok (r, c', rest)) : c'.Settled ∧ (Malformed c s → r = false) := by
  have hcase := parseBytes_cases c s
  rw [h] at hcase
  cases hcase with
  | noLine _ hcut =>
      refine ⟨hc, ?_⟩
      rintro ⟨-, line, tail, hline, -, rfl⟩
      rw [cut_line tail hline] at hcut
      cases hcut
  | rejected _ _ _ => exact ⟨hc, fun _ => rfl⟩
  | accepted _ hcut hreq _ =>
      refine ⟨settled_stateBehind _ _, ?_⟩
      rintro ⟨-, line, tail, hline, hnot, rfl⟩
      rw [cut_line tail hline] at hcut
      cases hcut
      exact absurd (wellFormedLine_of_accepted hreq) hnot
  | headers hstate _ =>
      refine ⟨settled_stateBehind _ _, ?_⟩
      rintro ⟨hstate', -⟩
      rw [hstate] at hstate'
      cases hstate'
  | complete hstate =>
      refine ⟨hc, ?_⟩
      rintro ⟨hstate', -⟩
      rw [hstate] at hstate'
      cases hstate'

/-- What a caller of `ParseContent` relies on: the call returns, and it answers
a malformed request line with false. -/
def SafeAnswer (c : HttpContent) (s : Bytes) (answer : Checked Bool) : Prop :=
  ∃ r, answer = .ok r ∧ (Malformed c s → r = false)

def HttpContent.answer (c : HttpContent) (b : Buffer) : Checked Bool :=
  (c.parseContent b).map fun result => result.1

/-- **One call is safe exactly when no query is out of order.** -/
theorem call_safe_iff {c : HttpContent} {b : Buffer} (hb : b.Inv) (hc : c.Settled) :
    SafeAnswer c b.readable (c.answer b) ↔ ¬ QueryOutOfOrder c b.readable := by
  constructor
  · rintro ⟨r, hr, -⟩ hq
    have herr := (HttpContent.parseContent_error_iff hb).mpr
      ((parseBytes_error_iff hc).mpr ⟨hq, rfl⟩)
    rw [HttpContent.answer, herr] at hr
    cases hr
  · intro hq
    rcases hcall : c.parseContent b with fault | ⟨r, c', b'⟩
    · have herr := (HttpContent.parseContent_error_iff hb).mp hcall
      exact absurd ((parseBytes_error_iff hc).mp herr).1 hq
    · obtain ⟨-, hbytes⟩ := HttpContent.parseBytes_of_parseContent hb hcall
      refine ⟨r, ?_, (parseBytes_ok hc hbytes).2⟩
      rw [HttpContent.answer, hcall]
      rfl

/-! ## Whole runs -/

structure ParserState where
  content : HttpContent
  buffer : Buffer
  running : Bool

inductive ParserCall where
  | readFd (bytes : Bytes)
  | parseContent (answer : Checked Bool)
  | resetContentState

/-- A fault ends the process: nothing follows it. -/
def ParserState.call (s : ParserState) : ParserCall → ParserState
  | .readFd bytes => { s with buffer := (s.buffer.readFd (.data bytes)).2 }
  | .parseContent _ =>
      match s.content.parseContent s.buffer with
      | .ok (_, content, buffer) => { s with content := content, buffer := buffer }
      | .error _ => { s with running := false }
  | .resetContentState => { s with content := s.content.resetContentState }

/-- When a call is made, and what it hands back. -/
def ParserState.Makes (s : ParserState) : ParserCall → Prop
  | .readFd _ => True
  | .parseContent answer => s.content.answer s.buffer = answer
  | .resetContentState => s.content.getCompleteRequest = true

def parserSystem : LTS ParserState ParserCall where
  init s := s = ⟨HttpContent.new, Buffer.new, true⟩
  step s l t := s.running = true ∧ s.Makes l ∧ t = s.call l

/-- **One move** keeps the buffer well formed and the parser settled. -/
theorem parser_step {s t : ParserState} {l : ParserCall}
    (h : s.buffer.Inv ∧ s.content.Settled) (hs : parserSystem.step s l t) :
    t.buffer.Inv ∧ t.content.Settled := by
  obtain ⟨hb, hc⟩ := h
  obtain ⟨-, -, rfl⟩ := hs
  cases l with
  | readFd bytes => exact ⟨(Buffer.readFd_spec hb bytes).2.1, hc⟩
  | resetContentState => exact ⟨hb, HttpContent.new_settled⟩
  | parseContent answer =>
      rcases hcall : s.content.parseContent s.buffer with fault | ⟨r, c', b'⟩
      · simp only [ParserState.call, hcall]
        exact ⟨hb, hc⟩
      · obtain ⟨hb', hbytes⟩ := HttpContent.parseBytes_of_parseContent hb hcall
        simp only [ParserState.call, hcall]
        exact ⟨hb', (parseBytes_ok hc hbytes).1⟩

theorem parser_invariant {s : ParserState} (h : Reachable parserSystem s) :
    s.buffer.Inv ∧ s.content.Settled := by
  obtain ⟨ms, hrun⟩ := h
  refine Run.invariant (I := fun s => s.buffer.Inv ∧ s.content.Settled) ?_ ?_ hrun
  · rintro s rfl
    exact ⟨Buffer.new_inv, HttpContent.new_settled⟩
  · intro s l t hs hstep
    exact parser_step hs hstep

def SafeRun (ms : List (Move ParserState ParserCall)) : Prop :=
  ∀ m ∈ ms, ∀ answer, m.label = .parseContent answer →
    SafeAnswer m.pre.content m.pre.buffer.readable answer

/-- **No client byte drives the parser out of range, exactly in the runs in
which no call meets a request line with its `'?'` behind the target.** -/
theorem parser_safe_iff {ms : List (Move ParserState ParserCall)} {s : ParserState}
    (h : Run parserSystem ms s) :
    SafeRun ms ↔ ∀ m ∈ ms, (∃ answer, m.label = .parseContent answer) →
      ¬ QueryOutOfOrder m.pre.content m.pre.buffer.readable := by
  have hcall : ∀ m ∈ ms, ∀ answer, m.label = .parseContent answer →
      (SafeAnswer m.pre.content m.pre.buffer.readable answer ↔
        ¬ QueryOutOfOrder m.pre.content m.pre.buffer.readable) := by
    intro m hm answer hlabel
    obtain ⟨hreach, -, hmakes, -⟩ := h.move m hm
    obtain ⟨hb, hc⟩ := parser_invariant hreach
    rw [hlabel] at hmakes
    obtain rfl : m.pre.content.answer m.pre.buffer = answer := hmakes
    exact call_safe_iff hb hc
  constructor
  · rintro hsafe m hm ⟨answer, hlabel⟩
    exact (hcall m hm answer hlabel).mp (hsafe m hm answer hlabel)
  · intro hno m hm answer hlabel
    exact (hcall m hm answer hlabel).mpr (hno m hm ⟨answer, hlabel⟩)

theorem first_call_run (bytes : Bytes) (answer : Checked Bool)
    (h : HttpContent.new.answer (Buffer.new.readFd (.data bytes)).2 = answer) :
    ∃ ms s, Run parserSystem ms s ∧ labels ms = [.readFd bytes, .parseContent answer] ∧
      ∀ m ∈ ms, m.label = .parseContent answer →
        m.pre = ⟨HttpContent.new, (Buffer.new.readFd (.data bytes)).2, true⟩ := by
  have hstart : Run parserSystem [] ⟨HttpContent.new, Buffer.new, true⟩ := .start rfl
  have hread : parserSystem.step ⟨HttpContent.new, Buffer.new, true⟩ (.readFd bytes)
      ⟨HttpContent.new, (Buffer.new.readFd (.data bytes)).2, true⟩ := ⟨rfl, trivial, rfl⟩
  have hparse : parserSystem.step ⟨HttpContent.new, (Buffer.new.readFd (.data bytes)).2, true⟩
      (.parseContent answer) (ParserState.call _ (.parseContent answer)) := ⟨rfl, h, rfl⟩
  refine ⟨_, _, .next (.next hstart hread) hparse, rfl, ?_⟩
  intro m hm hlabel
  rcases List.mem_cons.mp hm with rfl | hm
  · cases hlabel
  · obtain rfl := List.mem_singleton.mp hm
    rfl

theorem parser_safe_iff_rejected :
    ∃ ms s, Run parserSystem ms s ∧
      labels ms = [.readFd (ascii "GET\r\n"), .parseContent (.ok false)] ∧ SafeRun ms := by
  obtain ⟨ms, s, hrun, hlabels, hpre⟩ :=
    first_call_run (ascii "GET\r\n") (.ok false) (by decide +kernel)
  refine ⟨ms, s, hrun, hlabels, (parser_safe_iff hrun).mpr ?_⟩
  rintro m hm ⟨answer, hlabel⟩
  have hmem : m.label ∈ labels ms := List.mem_map_of_mem hm
  rw [hlabels, hlabel] at hmem
  have hanswer : answer = .ok false := by simpa using hmem
  have hread : (Buffer.new.readFd (.data (ascii "GET\r\n"))).2.readable = ascii "GET\r\n" := by
    rw [(Buffer.readFd_spec Buffer.new_inv _).2.2, Buffer.readable_new, List.nil_append]
  rw [hpre m hm (hlabel.trans (by rw [hanswer])), hread]
  intro hq
  -- the line is rejected, so no pointer is out of order
  have herr := (parseBytes_error_iff HttpContent.new_settled).mpr ⟨hq, rfl⟩
  cases herr

/-- The request line `GET / HTTP/1.?` ends the process. -/
theorem misplaced_query_faults :
    ∃ ms s, Run parserSystem ms s ∧
      labels ms = [.readFd (ascii "GET / HTTP/1.?\r\n"), .parseContent (.error .lengthError)] ∧
      ¬ SafeRun ms := by
  obtain ⟨ms, s, hrun, hlabels, -⟩ :=
    first_call_run (ascii "GET / HTTP/1.?\r\n") (.error .lengthError) (by decide +kernel)
  refine ⟨ms, s, hrun, hlabels, ?_⟩
  intro hsafe
  have hmem : ParserCall.parseContent (.error .lengthError) ∈ labels ms := by
    rw [hlabels]
    simp
  obtain ⟨m, hm, hlabel⟩ := List.mem_map.mp hmem
  obtain ⟨r, hr, -⟩ := hsafe m hm _ hlabel
  cases hr

end TinyMuduo
