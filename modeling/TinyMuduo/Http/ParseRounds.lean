import TinyMuduo.Http.ParserSafety

/-!
# The loop of `ParseContent` ends

`parseContent` is given as many rounds as the loop can need. Here the loop is a
system of its own, without a limit: one step is one pass through the `while`
body that leaves `linemore` true. Each step takes a line out of the buffer, so
a run is no longer than the buffer has room for (`rounds_bounded`), and the run
that cannot go on ends with what `parseContent` returns (`rounds_end`).

No call ever leaves a content in a state in which the body does nothing.
-/

namespace TinyMuduo

open Transition

/-! ## The states between calls -/

inductive ContentCall where
  | parseContent (b : Buffer)
  | resetContentState

/-- Calls on one `HttpContent`, each `ParseContent` with any buffer. A call that
faults ends the process. -/
def contentSystem : LTS HttpContent ContentCall where
  init c := c = HttpContent.new
  step c l c' :=
    match l with
    | .parseContent b => b.Inv ∧ ∃ r b', c.parseContent b = .ok (r, c', b')
    | .resetContentState => c' = c.resetContentState

theorem content_settled {ms : List (Move HttpContent ContentCall)} {c : HttpContent}
    (h : Run contentSystem ms c) : c.Settled := by
  refine Run.invariant (I := HttpContent.Settled) ?_ ?_ h
  · rintro c rfl
    exact HttpContent.new_settled
  · intro c l c' hc hstep
    cases l with
    | parseContent b =>
        obtain ⟨hb, r, b', hcall⟩ := hstep
        exact (parseBytes_ok hc (HttpContent.parseBytes_of_parseContent hb hcall).2).1
    | resetContentState =>
        obtain rfl : c' = c.resetContentState := hstep
        exact HttpContent.new_settled

theorem HttpContent.Settled.cases {c : HttpContent} (h : c.Settled) :
    c.parseState = .kParseRequestLine ∨ c.parseState = .kParseHeaders ∨
      c.parseState = .kParseGotCompleteRequest := by
  cases hstate : c.parseState with
  | kParseRequestLine => exact Or.inl rfl
  | kParseHeaders => exact Or.inr (Or.inl rfl)
  | kParseGotCompleteRequest => exact Or.inr (Or.inr rfl)
  | kParseBody => exact absurd hstate h.1
  | kParseErrno => exact absurd hstate h.2

/-! ## The loop -/

/-- What one pass through the body reads and writes, `linemore` apart. -/
structure LoopState where
  content : HttpContent
  buffer : Buffer
  parseok : Bool

namespace LoopState

/-- The `while` body: `linemore`, and the state behind it. -/
def round (s : LoopState) : Checked (Bool × LoopState) := do
  let (linemore, parseok, content, crlf) ← s.content.parseLine s.buffer s.parseok
  return (linemore, ⟨content, HttpContent.retrieveLine s.buffer crlf, parseok⟩)

/-- What `ParseContent` returns when the loop ends with this round. -/
def outcome (s : LoopState) : Option (Checked (Bool × HttpContent × Buffer)) :=
  match s.round with
  | .error fault => some (.error fault)
  | .ok (false, t) => some (.ok (t.parseok, t.content, t.buffer))
  | .ok (true, _) => none

end LoopState

def parseRounds (c : HttpContent) (b : Buffer) : LTS LoopState Unit where
  init s := s = ⟨c, b, true⟩
  step s _ t := s.round = .ok (true, t)

/-! ## One round -/

theorem retrieve_consumes {b : Buffer} (hb : b.Inv) {crlf : ℕ} (h : b.findCRLF = some crlf) :
    (HttpContent.retrieveLine b (some crlf)).Inv ∧
      (HttpContent.retrieveLine b (some crlf)).readableBytes + 2 ≤ b.readableBytes := by
  rw [Buffer.findCRLF_eq hb] at h
  obtain ⟨⟨line, rest⟩, hcut, rfl⟩ := Option.map_eq_some_iff.mp h
  obtain ⟨-, hinv, hrest, hread⟩ := HttpContent.retrieveLine_spec hb hcut
  refine ⟨hinv, ?_⟩
  rw [← Buffer.length_readable hinv, ← Buffer.length_readable hb, hrest, hread]
  simp only [List.length_append, List.length_cons]
  omega

namespace LoopState

/-- The buffer is well formed and the body has a branch for the state. -/
def Sound (s : LoopState) : Prop := s.buffer.Inv ∧ s.content.Settled

/-- **A round that is not the last one takes a line out of the buffer.** -/
theorem round_consumes {s t : LoopState} (hs : s.Sound) (h : s.round = .ok (true, t)) :
    t.Sound ∧ t.buffer.readableBytes + 2 ≤ s.buffer.readableBytes := by
  obtain ⟨⟨req, state⟩, b, parseok⟩ := s
  obtain ⟨hb, hbody, herrno⟩ := hs
  cases state with
  | kParseRequestLine =>
      simp only [round, HttpContent.parseLine] at h
      cases hcrlf : b.findCRLF with
      | none =>
          simp only [hcrlf, bind, Except.bind, pure, Except.pure] at h
          cases h
      | some crlf =>
          obtain ⟨hinv, hle⟩ := retrieve_consumes hb hcrlf
          simp only [hcrlf, bind, Except.bind, pure, Except.pure] at h
          cases hline : HttpRequest.parseRequestLine b.readable req 0 crlf with
          | error fault =>
              rw [hline] at h
              cases h
          | ok p =>
              obtain ⟨_ | _, req'⟩ := p
              · rw [hline] at h
                cases h
              · rw [hline] at h
                cases h
                exact ⟨⟨hinv, by rintro ⟨⟩, by rintro ⟨⟩⟩, hle⟩
  | kParseHeaders =>
      simp only [round, HttpContent.parseLine] at h
      cases hcrlf : b.findCRLF with
      | none =>
          simp only [hcrlf, bind, Except.bind, pure, Except.pure] at h
          cases h
      | some crlf =>
          obtain ⟨hinv, hle⟩ := retrieve_consumes hb hcrlf
          simp only [hcrlf, bind, Except.bind, pure, Except.pure] at h
          cases hcolon : find b.readable 0 crlf colon with
          | error fault =>
              rw [hcolon] at h
              cases h
          | ok colonPtr =>
              simp only [hcolon] at h
              by_cases hend : colonPtr = crlf
              · rw [if_pos hend] at h
                cases h
              · rw [if_neg hend] at h
                cases hheader : HttpRequest.parseHeaders b.readable req 0 colonPtr crlf with
                | error fault =>
                    rw [hheader] at h
                    cases h
                | ok p =>
                    obtain ⟨_ | _, req'⟩ := p
                    · rw [hheader] at h
                      cases h
                    · rw [hheader] at h
                      cases h
                      exact ⟨⟨hinv, by rintro ⟨⟩, by rintro ⟨⟩⟩, hle⟩
  | kParseGotCompleteRequest => cases h
  | kParseBody => exact absurd rfl hbody
  | kParseErrno => exact absurd rfl herrno

/-- The loop of the source, from any of its states, in terms of a round. -/
theorem parseLoop_succ (s : LoopState) (rounds : ℕ) :
    HttpContent.parseLoop (rounds + 1) s.content s.buffer s.parseok =
      match s.round with
      | .error fault => .error fault
      | .ok (false, t) => .ok (t.parseok, t.content, t.buffer)
      | .ok (true, t) => HttpContent.parseLoop rounds t.content t.buffer t.parseok := by
  simp only [HttpContent.parseLoop, round]
  rcases s.content.parseLine s.buffer s.parseok with fault | ⟨_ | _, parseok, content, crlf⟩
  · rfl
  · rfl
  · rfl

end LoopState

/-! ## Any number of rounds -/

/-- **A run of rounds takes two bytes for each of them.** -/
theorem rounds_bounded {c : HttpContent} {b : Buffer} (hb : b.Inv) (hc : c.Settled)
    {rs : List (Move LoopState Unit)} {s : LoopState} (h : Run (parseRounds c b) rs s) :
    s.Sound ∧ s.buffer.readableBytes + 2 * rs.length ≤ b.readableBytes := by
  refine Run.history (I := fun rs s => s.Sound ∧
    s.buffer.readableBytes + 2 * rs.length ≤ b.readableBytes) ?_ ?_ h
  · rintro s rfl
    exact ⟨⟨hb, hc⟩, le_refl _⟩
  · intro rs s l t _ ⟨hs, hle⟩ hstep
    obtain ⟨ht, hless⟩ := LoopState.round_consumes hs hstep
    refine ⟨ht, ?_⟩
    rw [List.length_append, List.length_singleton]
    omega

/-- From any of its states the loop comes to an end, with the result of the
loop that is given enough rounds. -/
theorem rounds_end {c : HttpContent} {b : Buffer} : ∀ (rounds : ℕ) {s : LoopState}
    {rs : List (Move LoopState Unit)}, s.Sound → s.buffer.readableBytes / 2 < rounds →
    Run (parseRounds c b) rs s → ∃ rs' s', Run (parseRounds c b) rs' s' ∧
      s'.outcome = some (HttpContent.parseLoop rounds s.content s.buffer s.parseok) := by
  intro rounds
  induction rounds with
  | zero =>
      intro s rs _ hlt _
      exact absurd hlt (Nat.not_lt_zero _)
  | succ rounds ih =>
      intro s rs hs hlt hrun
      rw [s.parseLoop_succ]
      rcases hround : s.round with fault | ⟨_ | _, t⟩
      · exact ⟨rs, s, hrun, by rw [LoopState.outcome, hround]⟩
      · exact ⟨rs, s, hrun, by rw [LoopState.outcome, hround]⟩
      · obtain ⟨ht, hless⟩ := LoopState.round_consumes hs hround
        apply ih ht (by omega)
        exact hrun.next (l := ()) hround

/-- **`ParseContent` always terminates.** After any calls the state is one of the
three the body has a branch for. Then, with any buffer, each round ends the loop
or consumes a CRLF, no more than half the readable bytes plus one are made, and
the last of them ends the loop with what `ParseContent` returns. -/
theorem parseContent_terminates {ms : List (Move HttpContent ContentCall)} {c : HttpContent}
    (h : Run contentSystem ms c) :
    (c.parseState = .kParseRequestLine ∨ c.parseState = .kParseHeaders ∨
        c.parseState = .kParseGotCompleteRequest) ∧
      ∀ b : Buffer, b.Inv →
        (∀ rs s, Run (parseRounds c b) rs s →
          rs.length + 1 ≤ b.readableBytes / 2 + 1 ∧
          (s.outcome = none → ∃ t, s.round = .ok (true, t) ∧
            t.buffer.readableBytes + 2 ≤ s.buffer.readableBytes)) ∧
        ∃ rs s, Run (parseRounds c b) rs s ∧ s.outcome = some (c.parseContent b) := by
  have hc := content_settled h
  refine ⟨hc.cases, fun b hb => ⟨?_, ?_⟩⟩
  · intro rs s hrun
    obtain ⟨hs, hle⟩ := rounds_bounded hb hc hrun
    refine ⟨by omega, fun hgoes => ?_⟩
    rcases hround : s.round with fault | ⟨_ | _, t⟩
    · rw [LoopState.outcome, hround] at hgoes
      cases hgoes
    · rw [LoopState.outcome, hround] at hgoes
      cases hgoes
    · exact ⟨t, rfl, (LoopState.round_consumes hs hround).2⟩
  · have hstart : (parseRounds c b).init ⟨c, b, true⟩ := rfl
    exact rounds_end (b.readableBytes / 2 + 1) ⟨hb, hc⟩ (Nat.lt_succ_self _) (.start hstart)

/-- A request line without a target is rejected, and the next call waits. -/
theorem parseContent_terminates_rejected : ∃ (ms : List (Move HttpContent ContentCall))
    (c : HttpContent), Run contentSystem ms c ∧ ms ≠ [] ∧
      (c.parseState = .kParseRequestLine ∨ c.parseState = .kParseHeaders ∨
        c.parseState = .kParseGotCompleteRequest) ∧
      ∃ rs s, Run (parseRounds c Buffer.new) rs s ∧
        s.outcome = some (c.parseContent Buffer.new) := by
  obtain ⟨hb, hread⟩ := Buffer.append_spec Buffer.new_inv (ascii "GET\r\n")
  have hbytes : parseBytes HttpContent.new (Buffer.new.append (ascii "GET\r\n")).readable =
      .ok (false, HttpContent.new, []) := by
    rw [hread]
    rfl
  obtain ⟨b', hcall, -⟩ := HttpContent.parseContent_of_parseBytes hb hbytes
  have hstep : contentSystem.step HttpContent.new
      (.parseContent (Buffer.new.append (ascii "GET\r\n"))) HttpContent.new :=
    ⟨hb, false, b', hcall⟩
  have hrun := Run.next (.start (T := contentSystem) rfl) hstep
  obtain ⟨hstate, hrounds⟩ := parseContent_terminates hrun
  exact ⟨_, _, hrun, List.cons_ne_nil _ _, hstate, (hrounds Buffer.new Buffer.new_inv).2⟩

end TinyMuduo
