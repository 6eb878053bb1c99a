import TinyMuduo.Http.RoundTrip

/-!
# The language of `ParseRequestLine`

The lines it accepts are a method name, a target without blanks and a version,
one blank between each two. The members hold these parts: with the `'?'` of the
target put back they spell the line again.
-/

namespace TinyMuduo

/-- `M ' ' T ' ' 'HTTP/1.' d`. -/
structure LineParts (line : Bytes) (method : Method) (target : Bytes) (version : Version) :
    Prop where
  target_blank : space ∉ target
  version_known : version ≠ .kUnknown
  line_eq : line = method.name ++ space :: (target ++ space :: (http ++ [version.digit]))

/-- The line the members spell, with or without a `'?'` between `path_` and
`query_`. -/
def HttpRequest.line (req : HttpRequest) (marked : Bool) : Option Bytes := do
  let method ← req.method
  let version ← req.version
  let target := if marked then req.path ++ question :: req.query else req.path
  return method.name ++ space :: (target ++ space :: (http ++ [version.digit]))

/-! ## Names and digits -/

theorem name_of_methodOf {name : Bytes} {method : Method} (h : methodOf name = some method) :
    name = method.name := by
  unfold methodOf at h
  split at h
  · next hn => rw [hn]; cases h; rfl
  split at h
  · next hn => rw [hn]; cases h; rfl
  split at h
  · next hn => rw [hn]; cases h; rfl
  split at h
  · next hn => rw [hn]; cases h; rfl
  split at h
  · next hn => rw [hn]; cases h; rfl
  split at h
  · next hn => rw [hn]; cases h; rfl
  split at h
  · next hn => rw [hn]; cases h; rfl
  split at h
  · next hn => rw [hn]; cases h; rfl
  · cases h

theorem exists_version {d : Byte} (h : d = 48 ∨ d = 49) :
    ∃ version : Version, version ≠ .kUnknown ∧ version.digit = d := by
  rcases h with rfl | rfl
  · exact ⟨.kHttp10, by decide, rfl⟩
  · exact ⟨.kHttp11, by decide, rfl⟩

theorem question_not_mem_version (version : Version) (h : version ≠ .kUnknown) :
    question ∉ http ++ [version.digit] := by
  cases version with
  | kUnknown => exact absurd rfl h
  | kHttp10 => decide
  | kHttp11 => decide

theorem WellFormedLine.parts {line : Bytes} (h : WellFormedLine line) :
    ∃ method target version, LineParts line method target version := by
  obtain ⟨name, target, d, hname, htarget, hd, rfl⟩ := h
  obtain ⟨method, hmethod⟩ := Option.isSome_iff_exists.mp hname
  obtain ⟨version, hknown, rfl⟩ := exists_version hd
  exact ⟨method, target, version, htarget, hknown, by rw [name_of_methodOf hmethod]⟩

/-! ## A line given by its parts -/

namespace LineParts

variable {line target : Bytes} {method : Method} {version : Version}

theorem requestLine_plain (h : LineParts line method target version) (hq : question ∉ target)
    (req : HttpRequest) :
    requestLine line req =
      .ok (true, { req with method := some method, path := target, version := some version }) := by
  rw [h.line_eq, TinyMuduo.requestLine_plain req (methodOf_name method) h.target_blank hq
    (question_not_mem_version version h.version_known), versionLine_digit h.version_known]

theorem requestLine_query {path query : Bytes}
    (h : LineParts line method (path ++ question :: query) version) (hq : question ∉ path)
    (req : HttpRequest) :
    requestLine line req =
      .ok (true, { req with
        method := some method, path := path, query := query, version := some version }) := by
  rw [h.line_eq, TinyMuduo.requestLine_query req (methodOf_name method) h.target_blank hq,
    versionLine_digit h.version_known]

structure Members (req req' : HttpRequest) (method : Method) (target : Bytes)
    (version : Version) : Prop where
  method : req'.method = some method
  version : req'.version = some version
  headers : req'.headers = req.headers
  plain : question ∉ target → req'.path = target ∧ req'.query = req.query
  query : ∀ path query, question ∉ path → target = path ++ question :: query →
    req'.path = path ∧ req'.query = query

/-- **A line with these parts is accepted, and the members are the parts.** -/
theorem accepted (h : LineParts line method target version) (req : HttpRequest) :
    ∃ req', requestLine line req = .ok (true, req') ∧
      Members req req' method target version := by
  cases hcut : Search.cut [question] target with
  | none =>
      have hq := Search.cut_singleton_none.mp hcut
      refine ⟨_, h.requestLine_plain hq req, rfl, rfl, rfl, fun _ => ⟨rfl, rfl⟩, ?_⟩
      rintro path query - rfl
      exact absurd (List.mem_append_right path List.mem_cons_self) hq
  | some p =>
      obtain ⟨path, query⟩ := p
      obtain ⟨rfl, hq⟩ := Search.cut_singleton_some.mp hcut
      refine ⟨_, h.requestLine_query hq req, rfl, rfl, rfl, ?_, ?_⟩
      · intro hnone
        exact absurd (List.mem_append_right path List.mem_cons_self) hnone
      · -- the first `'?'` of the target is where both splits are made
        intro path' query' hq' hsplit
        have hcut' := Search.cut_singleton_of_not_mem query' hq'
        rw [← hsplit, hcut] at hcut'
        cases hcut'
        exact ⟨rfl, rfl⟩

/-- The members of a fresh request spell the line again. -/
theorem Members.respells {req' : HttpRequest} (h : LineParts line method target version)
    (hm : Members HttpRequest.new req' method target version) :
    req'.line (question ∈ target) = some line := by
  unfold HttpRequest.line
  rw [hm.method, hm.version, h.line_eq]
  cases hcut : Search.cut [question] target with
  | none =>
      have hq := Search.cut_singleton_none.mp hcut
      simp [hq, (hm.plain hq).1]
  | some p =>
      obtain ⟨path, query⟩ := p
      obtain ⟨rfl, hq⟩ := Search.cut_singleton_some.mp hcut
      obtain ⟨hpath, hquery⟩ := hm.query path query hq rfl
      simp [hpath, hquery]

end LineParts

/-- **`ParseRequestLine` recognises exactly its language.** Where it returns, it
returns true exactly on the lines with parts, whatever follows the line in
memory; then the members are the parts, with the target split at its first
`'?'`, and the members of a fresh request spell the line. -/
theorem requestLine_language {line post : Bytes} {req req' : HttpRequest} {ok : Bool}
    (h : HttpRequest.parseRequestLine (line ++ post) req 0 line.length = .ok (ok, req')) :
    (ok = true ↔ ∃ method target version, LineParts line method target version) ∧
      ∀ method target version, LineParts line method target version →
        LineParts.Members req req' method target version ∧
        (req = HttpRequest.new → req'.line (question ∈ target) = some line) := by
  rw [HttpRequest.parseRequestLine_eq] at h
  have hparts : ∀ {method target version}, LineParts line method target version →
      ok = true ∧ LineParts.Members req req' method target version := by
    intro method target version hline
    obtain ⟨req'', haccepted, hmembers⟩ := hline.accepted req
    rw [h] at haccepted
    cases haccepted
    exact ⟨rfl, hmembers⟩
  refine ⟨⟨?_, ?_⟩, ?_⟩
  · rintro rfl
    apply WellFormedLine.parts
    exact wellFormedLine_of_accepted h
  · rintro ⟨method, target, version, hline⟩
    exact (hparts hline).1
  · intro method target version hline
    obtain ⟨-, hmembers⟩ := hparts hline
    refine ⟨hmembers, ?_⟩
    rintro rfl
    exact hmembers.respells hline

/-- `GET /a?b?c HTTP/1.1`, with the rest of a request behind it. -/
theorem requestLine_language_query :
    ∃ ok req', HttpRequest.parseRequestLine (ascii "GET /a?b?c HTTP/1.1" ++ kCRLF)
        HttpRequest.new 0 19 = .ok (ok, req') ∧
      (ok = true ↔ ∃ method target version,
        LineParts (ascii "GET /a?b?c HTTP/1.1") method target version) ∧
      req'.path = ascii "/a" ∧ req'.query = ascii "b?c" := by
  have hline : LineParts (ascii "GET /a?b?c HTTP/1.1") .kGet (ascii "/a?b?c") .kHttp11 :=
    ⟨by decide, by decide, by decide⟩
  obtain ⟨req', haccepted, -⟩ := hline.accepted HttpRequest.new
  have hparse : HttpRequest.parseRequestLine (ascii "GET /a?b?c HTTP/1.1" ++ kCRLF)
      HttpRequest.new 0 (ascii "GET /a?b?c HTTP/1.1").length = .ok (true, req') := by
    rw [HttpRequest.parseRequestLine_eq, haccepted]
  obtain ⟨hiff, hmembers⟩ := requestLine_language hparse
  obtain ⟨⟨-, -, -, -, hquery⟩, -⟩ := hmembers _ _ _ hline
  exact ⟨true, req', hparse, hiff, hquery (ascii "/a") (ascii "b?c") (by decide) (by decide)⟩

end TinyMuduo
