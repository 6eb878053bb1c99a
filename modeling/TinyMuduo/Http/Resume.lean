import TinyMuduo.Http.HttpContent

/-!
# Stopping and resuming the parser

Bytes that arrive later never change what was already decided. A call that
stopped for want of bytes leaves a state from which the next call goes on as if
nothing had happened in between; a call that completed a request or rejected
the request line is repeated with the later bytes left unread.
-/

namespace TinyMuduo

/-- The header loop stopped for want of bytes: the next call continues. -/
theorem headerLines_resume {req : HttpRequest} {s : Bytes} (t : Bytes) :
    ∀ {req' : HttpRequest} {rest : Bytes}, headerLines req s = (req', rest, false) →
      headerLines req (s ++ t) = headerLines req' (rest ++ t) := by
  induction req, s using headerLines.induct with
  | case1 req s hcut =>
      intro req' rest h
      rw [headerLines_none hcut] at h
      cases h
      rfl
  | case2 req s line rest hcut hcolon =>
      intro req' rest' h
      rw [headerLines_blank hcut (Search.cut_singleton_none.mp hcolon)] at h
      cases h
  | case3 req s line rest hcut name value hcolon ih =>
      intro req' rest' h
      rw [headerLines_header hcut hcolon] at h
      rw [headerLines_header (Search.cut_append t hcut) hcolon]
      exact ih h

/-- The header loop met a line without a colon: later bytes stay unread. -/
theorem headerLines_complete {req : HttpRequest} {s : Bytes} (t : Bytes) :
    ∀ {req' : HttpRequest} {rest : Bytes}, headerLines req s = (req', rest, true) →
      headerLines req (s ++ t) = (req', rest ++ t, true) := by
  induction req, s using headerLines.induct with
  | case1 req s hcut =>
      intro req' rest h
      rw [headerLines_none hcut] at h
      cases h
  | case2 req s line rest hcut hcolon =>
      intro req' rest' h
      have hmem := Search.cut_singleton_none.mp hcolon
      rw [headerLines_blank hcut hmem] at h
      cases h
      exact headerLines_blank (Search.cut_append t hcut) hmem
  | case3 req s line rest hcut name value hcolon ih =>
      intro req' rest' h
      rw [headerLines_header hcut hcolon] at h
      rw [headerLines_header (Search.cut_append t hcut) hcolon]
      exact ih h

/-- What one call decided: nothing yet, or the fate of the request. -/
def Waits (r : Bool) (c : HttpContent) : Prop :=
  r = true ∧ c.getCompleteRequest = false

instance (r : Bool) (c : HttpContent) : Decidable (Waits r c) := by
  unfold Waits
  infer_instance

theorem getCompleteRequest_stateBehind (req : HttpRequest) (done : Bool) :
    HttpContent.getCompleteRequest ⟨req, stateBehind done⟩ = done := by
  cases done <;> rfl

theorem not_waits_of_complete {r : Bool} {c : HttpContent} (hc : c.getCompleteRequest = true) :
    ¬ Waits r c := by
  rintro ⟨-, hn⟩
  rw [hc] at hn
  cases hn

theorem not_complete_of_false {c c' : HttpContent} {s rest : Bytes}
    (h : parseBytes c s = .ok (false, c', rest)) : c'.getCompleteRequest = false := by
  have hcase := parseBytes_cases c s
  rw [h] at hcase
  cases hcase with
  | rejected hstate _ _ => simp only [HttpContent.getCompleteRequest, hstate]; decide

/-- **Resumption**: a call that waits is continued by the next one. -/
theorem parseBytes_resume {c c' : HttpContent} {s rest : Bytes} {r : Bool} (t : Bytes)
    (h : parseBytes c s = .ok (r, c', rest)) (hw : Waits r c') :
    parseBytes c (s ++ t) = parseBytes c' (rest ++ t) := by
  have hcase := parseBytes_cases c s
  rw [h] at hcase
  cases hcase with
  | noLine _ _ => rfl
  | rejected _ _ _ => cases hw.1
  | @accepted line tail _ req req' done hstate hcut hreq hheaders =>
      obtain rfl : done = false := (getCompleteRequest_stateBehind req' done).symm.trans hw.2
      simp only [parseBytes, hstate, Search.cut_append t hcut, hreq]
      show _ = Except.ok (parseHeaderBytes req' (rest ++ t))
      rw [parseHeaderBytes, headerLines_resume t hheaders, parseHeaderBytes]
  | @headers _ req' done hstate hheaders =>
      obtain rfl : done = false := (getCompleteRequest_stateBehind req' done).symm.trans hw.2
      simp only [parseBytes, hstate]
      show _ = Except.ok (parseHeaderBytes req' (rest ++ t))
      rw [parseHeaderBytes, headerLines_resume t hheaders, parseHeaderBytes]
  | complete hstate =>
      refine absurd hw (not_waits_of_complete ?_)
      simp only [HttpContent.getCompleteRequest, hstate]
      decide

/-- **A decision is final**: later bytes are left unread. -/
theorem parseBytes_decided {c c' : HttpContent} {s rest : Bytes} {r : Bool} (t : Bytes)
    (h : parseBytes c s = .ok (r, c', rest)) (hw : ¬ Waits r c') :
    parseBytes c (s ++ t) = .ok (r, c', rest ++ t) := by
  have hcase := parseBytes_cases c s
  rw [h] at hcase
  -- a call that is true and does not wait has completed the request
  have hdone : ∀ {req : HttpRequest} {done : Bool}, ¬ Waits true ⟨req, stateBehind done⟩ →
      done = true := by
    intro req done hn
    by_contra hd
    exact hn ⟨rfl, (getCompleteRequest_stateBehind req done).trans (Bool.eq_false_iff.mpr hd)⟩
  apply ParseCase.eq
  cases hcase with
  | noLine hstate _ =>
      refine absurd ⟨rfl, ?_⟩ hw
      simp only [HttpContent.getCompleteRequest, hstate]
      decide
  | rejected hstate hcut hreq => exact .rejected hstate (Search.cut_append t hcut) hreq
  | accepted hstate hcut hreq hheaders =>
      obtain rfl := hdone hw
      exact .accepted hstate (Search.cut_append t hcut) hreq (headerLines_complete t hheaders)
  | headers hstate hheaders =>
      obtain rfl := hdone hw
      exact .headers hstate (headerLines_complete t hheaders)
  | complete hstate => exact .complete hstate

/-- A fault does not go away with later bytes. -/
theorem parseBytes_fault {c : HttpContent} {s : Bytes} {fault : Fault} (t : Bytes)
    (h : parseBytes c s = .error fault) : parseBytes c (s ++ t) = .error fault := by
  have hcase := parseBytes_cases c s
  rw [h] at hcase
  apply ParseCase.eq
  cases hcase with
  | fault hstate hcut hreq => exact .fault hstate (Search.cut_append t hcut) hreq
  | spins hstate => exact .spins hstate

/-! ## What a call leaves unread -/

/-- `rest` is all of `s`, or what follows a CRLF in it. -/
def AfterLine (s rest : Bytes) : Prop :=
  ∃ consumed, s = consumed ++ rest ∧ (consumed = [] ∨ kCRLF <:+ consumed)

theorem afterLine_refl (s : Bytes) : AfterLine s s := ⟨[], rfl, Or.inl rfl⟩

theorem AfterLine.of_cut {s line tail rest : Bytes} (hcut : Search.cut kCRLF s = some (line, tail))
    (h : AfterLine tail rest) : AfterLine s rest := by
  obtain ⟨consumed, rfl, hend⟩ := h
  refine ⟨line ++ kCRLF ++ consumed, ?_, Or.inr ?_⟩
  · rw [Search.cut_eq_append hcut]
    simp only [List.append_assoc]
  · rcases hend with rfl | hend
    · rw [List.append_nil]
      exact List.suffix_append line kCRLF
    · exact hend.trans (List.suffix_append _ consumed)

theorem headerLines_afterLine {req : HttpRequest} {s : Bytes} :
    ∀ {req' : HttpRequest} {rest : Bytes} {done : Bool}, headerLines req s = (req', rest, done) →
      AfterLine s rest := by
  induction req, s using headerLines.induct with
  | case1 req s hcut =>
      intro req' rest done h
      rw [headerLines_none hcut] at h
      cases h
      exact afterLine_refl _
  | case2 req s line rest hcut hcolon =>
      intro req' rest' done h
      rw [headerLines_blank hcut (Search.cut_singleton_none.mp hcolon)] at h
      cases h
      exact (afterLine_refl _).of_cut hcut
  | case3 req s line rest hcut name value hcolon ih =>
      intro req' rest' done h
      rw [headerLines_header hcut hcolon] at h
      exact (ih h).of_cut hcut

theorem parseBytes_afterLine {c c' : HttpContent} {s rest : Bytes} {r : Bool}
    (h : parseBytes c s = .ok (r, c', rest)) : AfterLine s rest := by
  have hcase := parseBytes_cases c s
  rw [h] at hcase
  cases hcase with
  | noLine _ _ => exact afterLine_refl _
  | rejected _ hcut _ => exact (afterLine_refl _).of_cut hcut
  | accepted _ hcut _ hheaders => exact (headerLines_afterLine hheaders).of_cut hcut
  | headers _ hheaders => exact headerLines_afterLine hheaders
  | complete _ => exact afterLine_refl _

/-! ## The law of interruption -/

def Returns (c : HttpContent) (b : Buffer) (r : Bool) (c' : HttpContent) (rest : Bytes) : Prop :=
  ∃ b', c.parseContent b = .ok (r, c', b') ∧ b'.readable = rest

theorem returns_iff {c c' : HttpContent} {b : Buffer} {r : Bool} {rest : Bytes} (hb : b.Inv) :
    Returns c b r c' rest ↔ parseBytes c b.readable = .ok (r, c', rest) := by
  constructor
  · rintro ⟨b', hcall, rfl⟩
    exact (HttpContent.parseBytes_of_parseContent hb hcall).2
  · intro h
    obtain ⟨b', hcall, -, hrest⟩ := HttpContent.parseContent_of_parseBytes hb h
    exact ⟨b', hcall, hrest⟩

/-- A call that returned true, followed by another one with more bytes, is one
call with all of them. -/
theorem parseBytes_resume_true {c c₁ : HttpContent} {s rest : Bytes} (t : Bytes)
    (h : parseBytes c s = .ok (true, c₁, rest)) :
    parseBytes c (s ++ t) = parseBytes c₁ (rest ++ t) := by
  by_cases hw : Waits true c₁
  · exact parseBytes_resume t h hw
  · rw [parseBytes_decided t h hw]
    -- the parser stands still behind a complete request
    have hstate : c₁.parseState = .kParseGotCompleteRequest := by
      by_contra hn
      exact hw ⟨rfl, decide_eq_false hn⟩
    exact (ParseCase.complete hstate).eq.symm

/-- **Parsing can be stopped and resumed at any byte.** When a call returned
true, appending more bytes and calling again does what one call on all the bytes
would have done; when it returned false, so does the call on all the bytes, with
the later ones left unread. What is left unread is all of the input or follows a
CRLF. -/
theorem parse_resumes {c c₁ : HttpContent} {b b₁ : Buffer} {r : Bool} (later : Bytes)
    (hb : b.Inv) (h : c.parseContent b = .ok (r, c₁, b₁)) :
    (r = true → ∀ r' c' rest,
      Returns c₁ (b₁.append later) r' c' rest ↔ Returns c (b.append later) r' c' rest) ∧
    (r = false → Returns c (b.append later) false c₁ (b₁.readable ++ later)) ∧
    AfterLine b.readable b₁.readable := by
  obtain ⟨hb₁, hbytes⟩ := HttpContent.parseBytes_of_parseContent hb h
  obtain ⟨hi, hr⟩ := Buffer.append_spec hb later
  obtain ⟨hi₁, hr₁⟩ := Buffer.append_spec hb₁ later
  refine ⟨?_, ?_, parseBytes_afterLine hbytes⟩
  · rintro rfl r' c' rest
    rw [returns_iff hi₁, returns_iff hi, hr, hr₁, parseBytes_resume_true later hbytes]
  · rintro rfl
    rw [returns_iff hi, hr]
    refine parseBytes_decided later hbytes ?_
    rintro ⟨hr, -⟩
    cases hr

/-- A request line that is cut between its CR and its LF. -/
theorem parse_resumes_crlf :
    ∃ b₁, HttpContent.new.parseContent (Buffer.new.append (ascii "GET /\r")) =
        .ok (true, HttpContent.new, b₁) ∧
      (∀ r' c' rest, Returns HttpContent.new (b₁.append (ascii "\n")) r' c' rest ↔
        Returns HttpContent.new ((Buffer.new.append (ascii "GET /\r")).append (ascii "\n"))
          r' c' rest) := by
  obtain ⟨hb, hread⟩ := Buffer.append_spec Buffer.new_inv (ascii "GET /\r")
  have hcut : Search.cut kCRLF (Buffer.new.append (ascii "GET /\r")).readable = none := by
    rw [hread]
    decide
  obtain ⟨b₁, hcall, -, -⟩ :=
    HttpContent.parseContent_of_parseBytes hb (ParseCase.noLine (c := HttpContent.new) rfl hcut).eq
  exact ⟨b₁, hcall, (parse_resumes (ascii "\n") hb hcall).1 rfl⟩

end TinyMuduo
