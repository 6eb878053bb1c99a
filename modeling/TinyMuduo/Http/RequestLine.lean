import TinyMuduo.Http.HttpRequest

/-!
# The language of request lines

`requestLine` cuts a line at its first two blanks. A line whose three parts are
a method, a target and a version is accepted, with the target split at its
first `'?'`; the one input on which it neither accepts nor rejects is a line
with no `'?'` in its target and one behind it.
-/

namespace TinyMuduo

/-- `M ' ' T ' ' 'HTTP/1.' d`. -/
def WellFormedLine (line : Bytes) : Prop :=
  ∃ name target d, (methodOf name).isSome ∧ space ∉ target ∧ (d = 48 ∨ d = 49) ∧
    line = name ++ space :: (target ++ space :: (http ++ [d]))

/-- The first `'?'` behind a valid method stands behind the target. -/
def MisplacedQuery (line : Bytes) : Prop :=
  ∃ name target tail, (methodOf name).isSome ∧ space ∉ target ∧ question ∉ target ∧
    question ∈ tail ∧ line = name ++ space :: (target ++ space :: tail)

theorem space_not_mem_method {name : Bytes} (h : (methodOf name).isSome) : space ∉ name := by
  unfold methodOf at h
  split at h
  · next hn => rw [hn]; decide
  split at h
  · next hn => rw [hn]; decide
  split at h
  · next hn => rw [hn]; decide
  split at h
  · next hn => rw [hn]; decide
  split at h
  · next hn => rw [hn]; decide
  split at h
  · next hn => rw [hn]; decide
  split at h
  · next hn => rw [hn]; decide
  split at h
  · next hn => rw [hn]; decide
  · cases h

/-! ## The result on a line given by its parts -/

section Parts

variable {name target tail : Bytes} {method : Method} (req : HttpRequest)

theorem requestLine_method (rest : Bytes) (hm : methodOf name = some method) :
    requestLine (name ++ space :: rest) req = targetLine rest { req with method := some method } := by
  have hns : space ∉ name := space_not_mem_method (by rw [hm]; rfl)
  simp only [requestLine, Search.cut_singleton_of_not_mem rest hns, hm]

theorem requestLine_plain (hm : methodOf name = some method) (hs : space ∉ target)
    (hq : question ∉ target) (ht : question ∉ tail) :
    requestLine (name ++ space :: (target ++ space :: tail)) req =
      .ok (versionLine tail { req with method := some method, path := target }) := by
  rw [requestLine_method req _ hm]
  simp only [targetLine, Search.cut_singleton_of_not_mem tail hs,
    Search.cut_singleton_none.mpr hq, if_neg ht]

theorem requestLine_misplaced (hm : methodOf name = some method) (hs : space ∉ target)
    (hq : question ∉ target) (ht : question ∈ tail) :
    requestLine (name ++ space :: (target ++ space :: tail)) req = .error .lengthError := by
  rw [requestLine_method req _ hm]
  simp only [targetLine, Search.cut_singleton_of_not_mem tail hs,
    Search.cut_singleton_none.mpr hq, if_pos ht]

theorem requestLine_query {path query : Bytes} (hm : methodOf name = some method)
    (hs : space ∉ path ++ question :: query) (hq : question ∉ path) :
    requestLine (name ++ space :: (path ++ question :: query ++ space :: tail)) req =
      .ok (versionLine tail
        { req with method := some method, path := path, query := query }) := by
  rw [requestLine_method req _ hm]
  simp only [targetLine, Search.cut_singleton_of_not_mem tail hs,
    Search.cut_singleton_of_not_mem query hq]

end Parts

/-! ## The result on any line -/

theorem versionLine_true {tail : Bytes} {req req' : HttpRequest}
    (h : versionLine tail req = (true, req')) :
    ∃ d, (d = 48 ∨ d = 49) ∧ tail = http ++ [d] := by
  unfold versionLine at h
  split at h
  · next ht => exact ⟨48, Or.inl rfl, ht⟩
  split at h
  · next ht => exact ⟨49, Or.inr rfl, ht⟩
  · cases h

/-- **What a line can give**: a rejection, an acceptance of a well-formed line,
or the out-of-order pair of pointers of a misplaced query. -/
theorem requestLine_cases (line : Bytes) (req : HttpRequest) :
    (∃ req', requestLine line req = .ok (false, req')) ∨
      (WellFormedLine line ∧ ∃ req', requestLine line req = .ok (true, req')) ∨
      (MisplacedQuery line ∧ requestLine line req = .error .lengthError) := by
  rcases hc : Search.cut [space] line with _ | ⟨name, rest⟩
  · left
    exact ⟨req, by simp only [requestLine, hc]⟩
  obtain ⟨rfl, hns⟩ := Search.cut_singleton_some.mp hc
  rcases hm : methodOf name with _ | method
  · left
    exact ⟨req, by simp only [requestLine, hc, hm]⟩
  have hsome : (methodOf name).isSome := by rw [hm]; rfl
  rcases ht : Search.cut [space] rest with _ | ⟨target, tail⟩
  · left
    rw [requestLine_method req rest hm]
    exact ⟨_, by simp only [targetLine, ht]; rfl⟩
  obtain ⟨rfl, hs⟩ := Search.cut_singleton_some.mp ht
  -- the target is split at its first `'?'`, and the version decides
  have hversion : ∀ q,
      (∃ req', (.ok (versionLine tail q) : Checked (Bool × HttpRequest)) = .ok (false, req')) ∨
      (WellFormedLine (name ++ space :: (target ++ space :: tail)) ∧
        ∃ req', (.ok (versionLine tail q) : Checked (Bool × HttpRequest)) = .ok (true, req')) := by
    intro q
    rcases hv : versionLine tail q with ⟨_ | _, req'⟩
    · exact Or.inl ⟨req', rfl⟩
    · obtain ⟨d, hd, rfl⟩ := versionLine_true hv
      exact Or.inr ⟨⟨name, target, d, hsome, hs, hd, rfl⟩, req', rfl⟩
  rcases hq : Search.cut [question] target with _ | ⟨path, query⟩
  · have hnq := Search.cut_singleton_none.mp hq
    by_cases hmis : question ∈ tail
    · right; right
      exact ⟨⟨name, target, tail, hsome, hs, hnq, hmis, rfl⟩,
        requestLine_misplaced req hm hs hnq hmis⟩
    · rw [requestLine_plain req hm hs hnq hmis]
      exact (hversion _).imp_right Or.inl
  · obtain ⟨rfl, hnq⟩ := Search.cut_singleton_some.mp hq
    rw [requestLine_query req hm hs hnq]
    exact (hversion _).imp_right Or.inl

/-- **A line faults exactly when its query is misplaced.** -/
theorem requestLine_error_iff {line : Bytes} {req : HttpRequest} {fault : Fault} :
    requestLine line req = .error fault ↔ MisplacedQuery line ∧ fault = .lengthError := by
  constructor
  · intro h
    rcases requestLine_cases line req with ⟨_, h'⟩ | ⟨-, _, h'⟩ | ⟨hmis, h'⟩
    · rw [h'] at h
      cases h
    · rw [h'] at h
      cases h
    · rw [h'] at h
      cases h
      exact ⟨hmis, rfl⟩
  · rintro ⟨⟨name, target, tail, hsome, hs, hq, ht, rfl⟩, rfl⟩
    obtain ⟨method, hm⟩ := Option.isSome_iff_exists.mp hsome
    exact requestLine_misplaced req hm hs hq ht

theorem wellFormedLine_of_accepted {line : Bytes} {req req' : HttpRequest}
    (h : requestLine line req = .ok (true, req')) : WellFormedLine line := by
  rcases requestLine_cases line req with ⟨_, h'⟩ | ⟨hw, -⟩ | ⟨-, h'⟩
  · rw [h'] at h
    cases h
  · exact hw
  · rw [h'] at h
    cases h

end TinyMuduo
