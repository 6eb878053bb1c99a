import TinyMuduo.Http.Resume

/-!
# The grammar of request heads and what `ParseContent` accepts

A request head is `request-line CRLF (header-line CRLF)* CRLF`. The loop tells
the blank line from a header line by one search for a colon, so it stops at the
first line *without a colon*, blank or not. `headerLines_split` is the exact
description of where it stops; the comparison with the grammar
(`parses_grammar_iff`) follows from it.
-/

namespace TinyMuduo

/-! ## Lines -/

/-- A line that does not contain CRLF ends at the first CRLF behind it, even
when its own last byte is a CR. -/
theorem freeBefore_crlf {line : Bytes} : Search.FreeBefore kCRLF line ↔ ¬ kCRLF <:+: line := by
  show ¬ kCRLF <:+: line ++ [cr] ↔ _
  rw [List.infix_concat_iff, not_or]
  constructor
  · intro h
    exact h.2
  · intro h
    refine ⟨?_, h⟩
    rintro ⟨t, ht⟩
    have hlast := congrArg List.getLast? ht
    simp [kCRLF, cr, lf] at hlast

theorem cut_line {line : Bytes} (rest : Bytes) (h : ¬ kCRLF <:+: line) :
    Search.cut kCRLF (line ++ kCRLF ++ rest) = some (line, rest) :=
  Search.cut_of_free rest (List.cons_ne_nil _ _) (freeBefore_crlf.mpr h)

theorem line_of_cut {s line rest : Bytes} (h : Search.cut kCRLF s = some (line, rest)) :
    s = line ++ kCRLF ++ rest ∧ ¬ kCRLF <:+: line :=
  ⟨Search.cut_eq_append h,
    freeBefore_crlf.mp (Search.freeBefore_of_cut (List.cons_ne_nil _ _) h)⟩

/-! ## Header blocks -/

structure HeaderLine (l : Bytes) : Prop where
  nonempty : l ≠ []
  line : ¬ kCRLF <:+: l
  hasColon : colon ∈ l

/-- The lines, each followed by CRLF. -/
def block (ls : List Bytes) : Bytes := ls.flatMap (· ++ kCRLF)

def addHeader (req : HttpRequest) (l : Bytes) : HttpRequest :=
  match Search.cut [colon] l with
  | some (name, value) => headerLine name value req
  | none => req

theorem block_cons (l : Bytes) (ls : List Bytes) (t : Bytes) :
    block (l :: ls) ++ t = l ++ kCRLF ++ (block ls ++ t) := by
  simp [block, List.append_assoc]

theorem headerLines_block (t : Bytes) : ∀ (ls : List Bytes) (req : HttpRequest),
    (∀ l ∈ ls, HeaderLine l) →
    headerLines req (block ls ++ t) = headerLines (ls.foldl addHeader req) t := by
  intro ls
  induction ls with
  | nil =>
      intro req _
      rfl
  | cons l ls ih =>
      intro req h
      have hl := h l List.mem_cons_self
      rw [block_cons]
      rcases hc : Search.cut [colon] l with _ | ⟨name, value⟩
      · exact absurd hl.hasColon (Search.cut_singleton_none.mp hc)
      · rw [headerLines_header (cut_line _ hl.line) hc,
          ih _ fun x hx => h x (List.mem_cons_of_mem _ hx)]
        simp [addHeader, hc]

/-- The loop ended with the blank line, or with any other line that holds no
colon. -/
theorem headerLines_last {req : HttpRequest} {last : Bytes} (rest : Bytes)
    (hl : ¬ kCRLF <:+: last) (hc : colon ∉ last) :
    headerLines req (last ++ kCRLF ++ rest) = (req, rest, true) :=
  headerLines_blank (cut_line rest hl) hc

/-- **Where the header loop stops**: behind the header lines at the front, for
want of a CRLF or at the first line without a colon. -/
theorem headerLines_split (req : HttpRequest) (s : Bytes) :
    ∃ ls tail, (∀ l ∈ ls, HeaderLine l) ∧ s = block ls ++ tail ∧
      ((Search.cut kCRLF tail = none ∧
          headerLines req s = (ls.foldl addHeader req, tail, false)) ∨
        ∃ last rest, tail = last ++ kCRLF ++ rest ∧ ¬ kCRLF <:+: last ∧ colon ∉ last ∧
          headerLines req s = (ls.foldl addHeader req, rest, true)) := by
  induction req, s using headerLines.induct with
  | case1 req s hcut =>
      exact ⟨[], s, by simp, rfl, Or.inl ⟨hcut, headerLines_none hcut⟩⟩
  | case2 req s line rest hcut hcolon =>
      obtain ⟨rfl, hline⟩ := line_of_cut hcut
      have hmem := Search.cut_singleton_none.mp hcolon
      exact ⟨[], _, by simp, rfl, Or.inr ⟨line, rest, rfl, hline, hmem,
        headerLines_blank hcut hmem⟩⟩
  | case3 req s line rest hcut name value hcolon ih =>
      obtain ⟨ls, tail, hls, hrest, hend⟩ := ih
      obtain ⟨hs, hline⟩ := line_of_cut hcut
      have hmem : colon ∈ line := by
        rw [(Search.cut_singleton_some.mp hcolon).1]
        simp
      have hadd : addHeader req line = headerLine name value req := by
        simp [addHeader, hcolon]
      refine ⟨line :: ls, tail, ?_, ?_, ?_⟩
      · intro l hl
        rcases List.mem_cons.mp hl with rfl | hl
        · exact ⟨List.ne_nil_of_mem hmem, hline, hmem⟩
        · exact hls l hl
      · rw [hs, hrest, block_cons]
      · rw [headerLines_header hcut hcolon, List.foldl_cons, hadd]
        exact hend

/-! ## Without the bytes behind -/

theorem headerLines_consumed {req : HttpRequest} {s : Bytes} :
    ∀ {req' : HttpRequest} {rest : Bytes}, headerLines req s = (req', rest, true) →
      ∃ p, s = p ++ rest ∧ headerLines req p = (req', [], true) := by
  induction req, s using headerLines.induct with
  | case1 req s hcut =>
      intro req' rest h
      rw [headerLines_none hcut] at h
      cases h
  | case2 req s line rest hcut hcolon =>
      intro req' rest' h
      have hmem := Search.cut_singleton_none.mp hcolon
      obtain ⟨hs, hline⟩ := line_of_cut hcut
      rw [headerLines_blank hcut hmem] at h
      cases h
      refine ⟨line ++ kCRLF, hs, headerLines_blank ?_ hmem⟩
      have hcut' := cut_line [] hline
      rwa [List.append_nil] at hcut'
  | case3 req s line rest hcut name value hcolon ih =>
      intro req' rest' h
      obtain ⟨hs, hline⟩ := line_of_cut hcut
      rw [headerLines_header hcut hcolon] at h
      obtain ⟨p, hrest, hp⟩ := ih h
      refine ⟨line ++ kCRLF ++ p, ?_, ?_⟩
      · rw [hs, hrest]
        simp only [List.append_assoc]
      · rw [headerLines_header (cut_line p hline) hcolon]
        exact hp

/-- **A request is decided by the bytes it consumes**: without what follows them
the call does the same. -/
theorem parseBytes_consumed {s rest : Bytes} {c : HttpContent}
    (h : parseBytes HttpContent.new s = .ok (true, c, rest))
    (hc : c.getCompleteRequest = true) :
    ∃ p, s = p ++ rest ∧ parseBytes HttpContent.new p = .ok (true, c, []) := by
  have hcase := parseBytes_cases HttpContent.new s
  rw [h] at hcase
  cases hcase with
  | noLine _ _ => cases hc
  | @accepted line _ _ req req' done hstate hcut hreq hheaders =>
      obtain rfl : done = true := (getCompleteRequest_stateBehind req' done).symm.trans hc
      obtain ⟨hs, hline⟩ := line_of_cut hcut
      obtain ⟨p, htail, hp⟩ := headerLines_consumed hheaders
      refine ⟨line ++ kCRLF ++ p, ?_, ?_⟩
      · rw [hs, htail]
        simp only [List.append_assoc]
      · exact (ParseCase.accepted hstate (cut_line p hline) hreq hp).eq
  | headers hstate _ => cases hstate
  | complete hstate => cases hstate

/-! ## Request heads -/

def AcceptedLine (line : Bytes) : Prop :=
  ∃ req, requestLine line HttpRequest.new = .ok (true, req)

def RejectedLine (line : Bytes) : Prop :=
  ∃ req, requestLine line HttpRequest.new = .ok (false, req)

/-- `request-line CRLF (header-line CRLF)* CRLF`. -/
def RequestHead (p : Bytes) : Prop :=
  ∃ line ls, ¬ kCRLF <:+: line ∧ AcceptedLine line ∧ (∀ l ∈ ls, HeaderLine l) ∧
    p = line ++ kCRLF ++ (block ls ++ kCRLF)

/-- The first complete line is a bad request line. -/
def BadRequestLine (s : Bytes) : Prop :=
  ∃ line rest, ¬ kCRLF <:+: line ∧ RejectedLine line ∧ s = line ++ kCRLF ++ rest

/-- Behind an accepted request line and some header lines there is a complete
line that is neither blank nor a header line. -/
def ColonlessHeader (s : Bytes) : Prop :=
  ∃ line ls last rest, ¬ kCRLF <:+: line ∧ AcceptedLine line ∧ (∀ l ∈ ls, HeaderLine l) ∧
    last ≠ [] ∧ ¬ kCRLF <:+: last ∧ colon ∉ last ∧
    s = line ++ kCRLF ++ (block ls ++ (last ++ kCRLF ++ rest))

/-- A fresh parser, an accepted line, header lines and a line without a colon:
the call completes there. -/
theorem parseBytes_completes {line last : Bytes} {ls : List Bytes} (rest : Bytes)
    (hline : ¬ kCRLF <:+: line) (hacc : AcceptedLine line) (hls : ∀ l ∈ ls, HeaderLine l)
    (hlast : ¬ kCRLF <:+: last) (hcolon : colon ∉ last) :
    ∃ req, parseBytes HttpContent.new
      (line ++ kCRLF ++ (block ls ++ (last ++ kCRLF ++ rest))) =
        .ok (true, ⟨req, .kParseGotCompleteRequest⟩, rest) := by
  obtain ⟨req, hreq⟩ := hacc
  have hheaders : headerLines req (block ls ++ (last ++ kCRLF ++ rest)) =
      (ls.foldl addHeader req, rest, true) := by
    rw [headerLines_block _ ls req hls]
    exact headerLines_last rest hlast hcolon
  exact ⟨ls.foldl addHeader req, (ParseCase.accepted rfl (cut_line _ hline) hreq hheaders).eq⟩

theorem parseBytes_head {p : Bytes} (rest : Bytes) (hp : RequestHead p) :
    ∃ req, parseBytes HttpContent.new (p ++ rest) =
      .ok (true, ⟨req, .kParseGotCompleteRequest⟩, rest) := by
  obtain ⟨line, ls, hline, hacc, hls, rfl⟩ := hp
  have hnil : ¬ kCRLF <:+: ([] : Bytes) := by decide
  obtain ⟨req, h⟩ := parseBytes_completes rest hline hacc hls hnil (by simp)
  refine ⟨req, ?_⟩
  rw [← h]
  simp only [List.append_assoc, List.nil_append]

theorem parseBytes_colonless {s : Bytes} (hs : ColonlessHeader s) :
    ∃ req rest, parseBytes HttpContent.new s =
      .ok (true, ⟨req, .kParseGotCompleteRequest⟩, rest) := by
  obtain ⟨line, ls, last, rest, hline, hacc, hls, -, hlast, hcolon, rfl⟩ := hs
  obtain ⟨req, h⟩ := parseBytes_completes rest hline hacc hls hlast hcolon
  exact ⟨req, rest, h⟩

theorem parseBytes_rejected {s : Bytes} (hs : BadRequestLine s) :
    ∃ req rest, parseBytes HttpContent.new s =
      .ok (false, ⟨req, .kParseRequestLine⟩, rest) := by
  obtain ⟨line, rest, hline, ⟨req, hreq⟩, rfl⟩ := hs
  exact ⟨req, rest, (ParseCase.rejected rfl (cut_line _ hline) hreq).eq⟩

/-- **The three outcomes of a call on a fresh parser that returns.** -/
theorem parseBytes_outcome {s rest : Bytes} {r : Bool} {c : HttpContent}
    (h : parseBytes HttpContent.new s = .ok (r, c, rest)) :
    Waits r c ∨
      (BadRequestLine s ∧ r = false ∧ c.getCompleteRequest = false) ∨
      (r = true ∧ c.getCompleteRequest = true ∧
        ((∃ p, RequestHead p ∧ s = p ++ rest) ∨ ColonlessHeader s)) := by
  have hcase := parseBytes_cases HttpContent.new s
  rw [h] at hcase
  cases hcase with
  | noLine _ _ => exact Or.inl ⟨rfl, rfl⟩
  | @rejected line _ req _ hcut hreq =>
      obtain ⟨hs, hline⟩ := line_of_cut hcut
      exact Or.inr (Or.inl ⟨⟨line, rest, hline, ⟨req, hreq⟩, hs⟩, rfl, rfl⟩)
  | @accepted line tail _ req req' done _ hcut hreq hheaders =>
      obtain ⟨hs, hline⟩ := line_of_cut hcut
      obtain ⟨ls, tail', hls, htail, ⟨-, hend⟩ | ⟨last, rest', hrest', hlast, hcolon, hend⟩⟩ :=
        headerLines_split req tail
      · rw [hheaders] at hend
        cases hend
        exact Or.inl ⟨rfl, rfl⟩
      · rw [hheaders] at hend
        cases hend
        subst hrest' htail hs
        refine Or.inr (Or.inr ⟨rfl, rfl, ?_⟩)
        by_cases hnil : last = []
        · left
          subst hnil
          refine ⟨_, ⟨line, ls, hline, ⟨req, hreq⟩, hls, rfl⟩, ?_⟩
          simp only [List.append_assoc, List.nil_append]
        · right
          exact ⟨line, ls, last, rest, hline, ⟨req, hreq⟩, hls, hnil, hlast, hcolon, rfl⟩
  | headers hstate _ => cases hstate
  | complete hstate => cases hstate

/-! ## The comparison with the grammar -/

/-- `ParseContent` on a fresh parser decides the grammar: it completes exactly
on a head at the front and consumes exactly that head, it returns false on a bad
request line and on a header line without a colon, and otherwise it waits. -/
def ParsesGrammar (b : Buffer) : Prop :=
  ∀ r c b', HttpContent.parseContent HttpContent.new b = .ok (r, c, b') →
    (c.getCompleteRequest = true ↔ ∃ p, p <+: b.readable ∧ RequestHead p) ∧
    (BadRequestLine b.readable ∨ ColonlessHeader b.readable → r = false) ∧
    (¬ (∃ p, p <+: b.readable ∧ RequestHead p) → ¬ BadRequestLine b.readable →
      ¬ ColonlessHeader b.readable → Waits r c) ∧
    (c.getCompleteRequest = true → ∃ p, RequestHead p ∧ b.readable = p ++ b'.readable)

/-- A line without a colon in the place of a header line completes the request. -/
theorem not_parsesGrammar_of_colonless {b : Buffer} (hb : b.Inv)
    (h : ColonlessHeader b.readable) : ¬ ParsesGrammar b := by
  intro hp
  obtain ⟨req, rest, hparse⟩ := parseBytes_colonless h
  obtain ⟨b', hcall, -, -⟩ := HttpContent.parseContent_of_parseBytes hb hparse
  exact Bool.noConfusion ((hp _ _ _ hcall).2.1 (Or.inr h))

/-- **The parser decides the grammar on exactly the inputs without a header
line that lacks its colon.** -/
theorem parses_grammar_iff {b : Buffer} (hb : b.Inv) :
    ParsesGrammar b ↔ ¬ ColonlessHeader b.readable := by
  constructor
  · intro h hcl
    exact not_parsesGrammar_of_colonless hb hcl h
  · intro hcl r c b' hcall
    obtain ⟨-, hparse⟩ := HttpContent.parseBytes_of_parseContent hb hcall
    -- a head at the front is completed, a bad request line is rejected
    have hhead : (∃ p, p <+: b.readable ∧ RequestHead p) →
        r = true ∧ c.getCompleteRequest = true := by
      rintro ⟨p, ⟨rest, hrest⟩, hp⟩
      obtain ⟨req, h⟩ := parseBytes_head rest hp
      rw [hrest, hparse] at h
      cases h
      exact ⟨rfl, rfl⟩
    have hbad : BadRequestLine b.readable → r = false ∧ c.getCompleteRequest = false := by
      intro hs
      obtain ⟨req, rest, h⟩ := parseBytes_rejected hs
      rw [hparse] at h
      cases h
      exact ⟨rfl, rfl⟩
    rcases parseBytes_outcome hparse with hw | ⟨hs, hr, hc⟩ | ⟨hr, hc, hp | hs⟩
    · refine ⟨⟨fun h => ?_, fun h => (hhead h).2⟩, ?_, fun _ _ _ => hw, fun h => ?_⟩
      · exact absurd h (by rw [hw.2]; decide)
      · rintro (hs | hs)
        · exact (hbad hs).1
        · exact absurd hs hcl
      · exact absurd h (by rw [hw.2]; decide)
    · refine ⟨⟨fun h => ?_, fun h => (hhead h).2⟩, fun _ => hr, fun _ hn => absurd hs hn,
        fun h => ?_⟩
      · exact absurd h (by rw [hc]; decide)
      · exact absurd h (by rw [hc]; decide)
    · obtain ⟨p, hhd, hsplit⟩ := hp
      have hpre : p <+: b.readable := ⟨b'.readable, hsplit.symm⟩
      refine ⟨⟨fun _ => ⟨p, hpre, hhd⟩, fun _ => hc⟩, ?_, fun hn => absurd ⟨p, hpre, hhd⟩ hn,
        fun _ => ⟨p, hhd, hsplit⟩⟩
      rintro (hs | hs)
      · exact (hbad hs).1
      · exact absurd hs hcl
    · exact absurd hs hcl

theorem parses_grammar_iff_host :
    ParsesGrammar (Buffer.new.append (ascii "GET / HTTP/1.1\r\nHost: a\r\n\r\n")) ↔
      ¬ ColonlessHeader
        (Buffer.new.append (ascii "GET / HTTP/1.1\r\nHost: a\r\n\r\n")).readable :=
  parses_grammar_iff (Buffer.append_spec Buffer.new_inv _).1

/-- The line `foo` behind an accepted request line is taken for the blank line:
the call completes the request and returns true. -/
theorem colonless_header_accepted :
    ∃ b : Buffer, b.Inv ∧ b.readable = ascii "GET / HTTP/1.1\r\nfoo\r\n\r\n" ∧
      ¬ ParsesGrammar b := by
  obtain ⟨hi, hr⟩ :=
    Buffer.append_spec Buffer.new_inv (ascii "GET / HTTP/1.1\r\nfoo\r\n\r\n")
  refine ⟨_, hi, hr, not_parsesGrammar_of_colonless hi ?_⟩
  rw [hr]
  have haccepted : AcceptedLine (ascii "GET / HTTP/1.1") := ⟨_, rfl⟩
  exact ⟨ascii "GET / HTTP/1.1", [], ascii "foo", kCRLF, by decide, haccepted, by simp,
    by decide, by decide, by decide, by decide⟩

end TinyMuduo
