import TinyMuduo.Http.Resume

/-!
# Draining a stream of requests

A driver that appends each chunk to the buffer and then calls `ParseContent`
as long as it completes requests, taking each one and resetting the parser.
`Drains` says what such a pass over given bytes yields; a pass over a stream
splits at every cut (`Drains.split`), so the requests a driver obtains do not
depend on how the stream was cut (`feed_of_drains`).
-/

namespace TinyMuduo

/-! ## The driver -/

namespace HttpContent

/-- `ParseContent` until it completes no further request, for at most the given
number of requests. -/
def drain : ℕ → HttpContent → Buffer → Checked (List HttpRequest × HttpContent × Buffer)
  | 0, _, _ => .error .diverges
  | rounds + 1, c, b => do
      let (_, c, b) ← c.parseContent b
      if c.getCompleteRequest then
        let (requests, c', b') ← drain rounds c.resetContentState b
        return (c.request :: requests, c', b')
      else return ([], c, b)

/-- Each chunk is appended and drained. -/
def feed : HttpContent → Buffer → List Bytes → Checked (List HttpRequest × HttpContent × Buffer)
  | c, b, [] => .ok ([], c, b)
  | c, b, chunk :: chunks => do
      let b := b.append chunk
      let (requests, c, b) ← drain (b.readableBytes + 1) c b
      let (requests', c, b) ← feed c b chunks
      return (requests ++ requests', c, b)

end HttpContent

/-! ## What a pass yields -/

/-- A pass over `s` completes `requests` one after the other and then waits in
`c'` with the bytes `s'` unread. No call on the way returns false. -/
inductive Drains : HttpContent → Bytes → List HttpRequest → HttpContent → Bytes → Prop where
  | waits {c c' : HttpContent} {s s' : Bytes} :
      parseBytes c s = .ok (true, c', s') → c'.getCompleteRequest = false →
      Drains c s [] c' s'
  | completes {c c₁ c' : HttpContent} {s s₁ s' : Bytes} {requests : List HttpRequest} :
      parseBytes c s = .ok (true, c₁, s₁) → c₁.getCompleteRequest = true →
      Drains c₁.resetContentState s₁ requests c' s' →
      Drains c s (c₁.request :: requests) c' s'

/-- Nothing can be done without further bytes. -/
def Idle (c : HttpContent) (s : Bytes) : Prop :=
  parseBytes c s = .ok (true, c, s) ∧ c.getCompleteRequest = false

theorem idle_new : Idle HttpContent.new [] := ⟨rfl, rfl⟩

/-- A call that waits leaves an idle parser. -/
theorem idle_of_waits {c c' : HttpContent} {s s' : Bytes} {r : Bool}
    (h : parseBytes c s = .ok (r, c', s')) (hw : Waits r c') : Idle c' s' := by
  obtain ⟨rfl, hc⟩ := hw
  have hres := parseBytes_resume [] h ⟨rfl, hc⟩
  rw [List.append_nil, List.append_nil, h] at hres
  exact ⟨hres.symm, hc⟩

theorem Idle.drains {c c' : HttpContent} {s s' : Bytes} {requests : List HttpRequest}
    (hi : Idle c s) (h : Drains c s requests c' s') : requests = [] ∧ c' = c ∧ s' = s := by
  cases h with
  | waits hp _ =>
      rw [hi.1] at hp
      cases hp
      exact ⟨rfl, rfl, rfl⟩
  | completes hp hc _ =>
      rw [hi.1] at hp
      cases hp
      rw [hi.2] at hc
      cases hc

/-- A pass ends idle: another call changes nothing. -/
theorem Drains.idle {c c' : HttpContent} {s s' : Bytes} {requests : List HttpRequest}
    (h : Drains c s requests c' s') : Idle c' s' := by
  induction h with
  | waits hp hc => exact idle_of_waits hp ⟨rfl, hc⟩
  | completes _ _ _ ih => exact ih

/-- **A pass splits at every cut**: draining the first part and then the rest
yields the same requests and ends in the same state. -/
theorem Drains.split {c c' : HttpContent} {u s' : Bytes} {requests : List HttpRequest}
    (h : Drains c u requests c' s') : ∀ {s : Bytes} (t : Bytes), u = s ++ t →
    ∃ first second c₁ s₁, Drains c s first c₁ s₁ ∧ Drains c₁ (s₁ ++ t) second c' s' ∧
      requests = first ++ second := by
  induction h with
  | @waits c c' u s' hp hc =>
      rintro s t rfl
      rcases hs : parseBytes c s with f | ⟨r, c₁, s₁⟩
      · rw [parseBytes_fault t hs] at hp
        cases hp
      by_cases hw : Waits r c₁
      · obtain ⟨rfl, hnc⟩ := hw
        have hres := parseBytes_resume t hs ⟨rfl, hnc⟩
        exact ⟨[], [], c₁, s₁, .waits hs hnc, .waits (hres.symm.trans hp) hc, rfl⟩
      · -- a decision on the first part would stand
        rw [parseBytes_decided t hs hw] at hp
        cases hp
        exact absurd ⟨rfl, hc⟩ hw
  | @completes c c₂ c' u s₂ s' requests hp hc hd ih =>
      rintro s t rfl
      rcases hs : parseBytes c s with f | ⟨r, c₁, s₁⟩
      · rw [parseBytes_fault t hs] at hp
        cases hp
      by_cases hw : Waits r c₁
      · obtain ⟨rfl, hnc⟩ := hw
        have hres := parseBytes_resume t hs ⟨rfl, hnc⟩
        exact ⟨[], c₂.request :: requests, c₁, s₁, .waits hs hnc,
          .completes (hres.symm.trans hp) hc hd, rfl⟩
      · rw [parseBytes_decided t hs hw] at hp
        cases hp
        obtain ⟨first, second, c₃, s₃, h₁, h₂, rfl⟩ := ih t rfl
        exact ⟨c₂.request :: first, second, c₃, s₃, .completes hs hc h₁, h₂, rfl⟩

/-! ## The driver makes the pass -/

theorem headerLines_length {req : HttpRequest} {s : Bytes} :
    ∀ {req' : HttpRequest} {rest : Bytes} {done : Bool}, headerLines req s = (req', rest, done) →
      rest.length ≤ s.length ∧ (done = true → rest.length < s.length) := by
  have hk : kCRLF.length = 2 := rfl
  induction req, s using headerLines.induct with
  | case1 req s hcut =>
      intro req' rest done h
      rw [headerLines_none hcut] at h
      cases h
      exact ⟨Nat.le_refl _, by rintro ⟨⟩⟩
  | case2 req s line rest hcut hcolon =>
      intro req' rest' done h
      rw [headerLines_blank hcut (Search.cut_singleton_none.mp hcolon)] at h
      cases h
      have hlen := Search.length_of_cut hcut
      exact ⟨by omega, fun _ => by omega⟩
  | case3 req s line rest hcut name value hcolon ih =>
      intro req' rest' done h
      rw [headerLines_header hcut hcolon] at h
      have hlen := Search.length_of_cut hcut
      have hrest := ih h
      exact ⟨by omega, fun hd => by have := hrest.2 hd; omega⟩

theorem length_lt_of_completes {c c' : HttpContent} {s s' : Bytes} {r : Bool}
    (hnc : c.getCompleteRequest = false) (h : parseBytes c s = .ok (r, c', s'))
    (hc : c'.getCompleteRequest = true) : s'.length < s.length := by
  have hcase := parseBytes_cases c s
  rw [h] at hcase
  cases hcase with
  | noLine _ _ =>
      rw [hnc] at hc
      cases hc
  | rejected _ _ _ =>
      rw [not_complete_of_false h] at hc
      cases hc
  | accepted _ hcut _ hheaders =>
      rw [getCompleteRequest_stateBehind] at hc
      have hlt := (headerLines_length hheaders).2 hc
      have hlen := Search.length_of_cut hcut
      omega
  | headers _ hheaders =>
      rw [getCompleteRequest_stateBehind] at hc
      exact (headerLines_length hheaders).2 hc
  | complete _ =>
      rw [hnc] at hc
      cases hc

theorem Drains.length_le {c c' : HttpContent} {s s' : Bytes} {requests : List HttpRequest}
    (h : Drains c s requests c' s') (hnc : c.getCompleteRequest = false) :
    requests.length ≤ s.length := by
  induction h with
  | waits _ _ => exact Nat.zero_le _
  | completes hp hc _ ih =>
      have hlt := length_lt_of_completes hnc hp hc
      have hle := ih rfl
      rw [List.length_cons]
      omega

theorem drain_of_drains {c c' : HttpContent} {s s' : Bytes} {requests : List HttpRequest}
    (h : Drains c s requests c' s') : ∀ {rounds : ℕ} {b : Buffer}, b.Inv → b.readable = s →
    requests.length < rounds →
    ∃ b', HttpContent.drain rounds c b = .ok (requests, c', b') ∧ b'.Inv ∧ b'.readable = s' := by
  induction h with
  | @waits c c' s s' hp hc =>
      rintro rounds b hb rfl hr
      obtain ⟨rounds, rfl⟩ := Nat.exists_eq_succ_of_ne_zero (Nat.ne_of_gt hr)
      obtain ⟨b', hcall, hb', hr'⟩ := HttpContent.parseContent_of_parseBytes hb hp
      refine ⟨b', ?_, hb', hr'⟩
      simp only [HttpContent.drain, hcall, bind, Except.bind, hc, Bool.false_eq_true, if_false]
      rfl
  | @completes c c₁ c' s s₁ s' requests hp hc hd ih =>
      rintro rounds b hb rfl hr
      rw [List.length_cons] at hr
      obtain ⟨rounds, rfl⟩ := Nat.exists_eq_succ_of_ne_zero (Nat.ne_of_gt (Nat.zero_lt_of_lt hr))
      obtain ⟨b₁, hcall, hb₁, hr₁⟩ := HttpContent.parseContent_of_parseBytes hb hp
      obtain ⟨b', hdrain, hb', hr'⟩ := ih hb₁ hr₁ (Nat.lt_of_succ_lt_succ hr)
      refine ⟨b', ?_, hb', hr'⟩
      simp only [HttpContent.drain, hcall, bind, Except.bind, hc, if_true, hdrain]
      rfl

/-- **A driver fed with chunks makes the pass over their concatenation.** -/
theorem feed_of_drains : ∀ (chunks : List Bytes) {c c' : HttpContent} {b : Buffer}
    {requests : List HttpRequest} {s' : Bytes}, b.Inv → Idle c b.readable →
    Drains c (b.readable ++ chunks.flatten) requests c' s' →
    ∃ b', HttpContent.feed c b chunks = .ok (requests, c', b') ∧ b'.Inv ∧ b'.readable = s' := by
  intro chunks
  induction chunks with
  | nil =>
      intro c c' b requests s' hb hidle h
      rw [List.flatten_nil, List.append_nil] at h
      obtain ⟨rfl, rfl, rfl⟩ := hidle.drains h
      exact ⟨b, rfl, hb, rfl⟩
  | cons chunk chunks ih =>
      intro c c' b requests s' hb hidle h
      obtain ⟨hb₁, hr₁⟩ := Buffer.append_spec hb chunk
      rw [List.flatten_cons, ← List.append_assoc, ← hr₁] at h
      obtain ⟨first, second, c₂, s₂, hfirst, hsecond, rfl⟩ := h.split _ rfl
      have hrounds : first.length < (b.append chunk).readableBytes + 1 := by
        have hle := hfirst.length_le hidle.2
        rw [Buffer.length_readable hb₁] at hle
        exact Nat.lt_succ_of_le hle
      obtain ⟨b₂, hdrain, hb₂, rfl⟩ := drain_of_drains hfirst hb₁ rfl hrounds
      obtain ⟨b', hfeed, hb', hr'⟩ := ih hb₂ hfirst.idle hsecond
      refine ⟨b', ?_, hb', hr'⟩
      simp only [HttpContent.feed, bind, Except.bind, hdrain, hfeed]
      rfl

end TinyMuduo
