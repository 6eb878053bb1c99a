import TinyMuduo.Http.Framing
import TinyMuduo.Http.ReadSide

/-!
# Is a request body taken for a request?

It is. `kParseBody` is never entered and nobody reads `Content-Length`: behind a
complete request the parser is reset and goes on with the next byte, be it part
of a body. `bodies_apart_iff` says for which requests and which cuts this does
not show, on a connection that is kept open: only the last request may have a
body, each request is complete early enough for a callback of its own, and no
callback finds a CRLF in the body.
-/

namespace TinyMuduo

/-! ## Requests with bodies -/

/-- A request with a body, whose length is announced if there is one. -/
structure BodiedRequest where
  head : WellFormedRequest
  body : Bytes
  announced : body ≠ [] →
    head.headerMap.lookup (ascii "Content-Length") = some (decimal body.length)

namespace BodiedRequest

def encode (r : BodiedRequest) : Bytes := r.head.encode ++ r.body

end BodiedRequest

def requestsOf (rs : List BodiedRequest) : List HttpRequest := rs.map fun r => r.head.request

def HttpServer.KeepsAlive (srv : HttpServer) (rs : List BodiedRequest) : Prop :=
  ∀ r ∈ rs, ¬ srv.Closes r.head.request

/-- How many of the bytes that arrived `ParseContent` has taken out of the buffer.
It takes out request lines and header lines and nothing else. -/
def Served.consumed (served : Served) (arrived : Bytes) : ℕ :=
  arrived.length - served.session.conn.inputBuffer.readable.length

/-- The server survives the requests, it has dispatched them and no others, and no
byte of a body has been consumed as part of a line. -/
structure BodiesApart (rs : List BodiedRequest) (served : Served) : Prop where
  running : served.running = true
  requests : served.requests = requestsOf rs
  apart : ∀ before r after, rs = before ++ r :: after → r.body ≠ [] →
    served.consumed (rs.flatMap BodiedRequest.encode) ≤
      (before.flatMap BodiedRequest.encode ++ r.head.encode).length

/-- There are `spare` chunks more than requests, and the head of each request has
come in before the last chunks begin: one for each request behind it, and the
`spare` ones. -/
def InTime (spare : ℕ) (unread : Bytes) (rs : List BodiedRequest) (chunks : List Chunk) : Prop :=
  rs.length + spare ≤ chunks.length ∧ ∀ before r after, rs = before ++ r :: after →
    (before.flatMap BodiedRequest.encode ++ r.head.encode).length ≤
      (unread ++ received (chunks.take (chunks.length - (after.length + spare)))).length

/-- Only the last request has a body, there is a callback for each request, and
the body has no CRLF if a further callback comes behind them. -/
structure Separate (unread : Bytes) (rs : List BodiedRequest) (chunks : List Chunk) : Prop where
  bodiless : ∀ r ∈ rs.dropLast, r.body = []
  inTime : InTime 0 unread rs chunks
  line_free : InTime 1 unread rs chunks → ∀ r ∈ rs.getLast?, ¬ kCRLF <:+: r.body

/-! ## What is in time -/

theorem WellFormedRequest.length_lt_of_not_decided (r : WellFormedRequest) {p s : Bytes}
    (hp : p <+: r.encode ++ s) (h : ¬ Decided HttpContent.new p) : p.length < r.encode.length := by
  by_contra hlen
  have hr : r.encode <+: p :=
    List.prefix_of_prefix_length_le (List.prefix_append _ _) hp (Nat.le_of_not_lt hlen)
  obtain ⟨t, rfl⟩ := hr
  exact h ⟨_, _, _, r.parseBytes_encode t, not_waits_of_complete rfl⟩

/-- The chunks but the last few, when these are behind a given one. -/
theorem take_behind (earlier : List Chunk) (chunk : Chunk) {later : List Chunk} {n : ℕ}
    (hn : n ≤ later.length) :
    (earlier ++ chunk :: later).take ((earlier ++ chunk :: later).length - n) =
      earlier ++ chunk :: later.take (later.length - n) := by
  have hlen : (earlier ++ chunk :: later).length - n =
      earlier.length + ((later.length - n) + 1) := by
    rw [List.length_append, List.length_cons]
    omega
  rw [hlen, List.take_length_add_append, List.take_succ_cons]

/-- **Behind the first request** as many chunks are needed as before it, but for
those up to the one that completes it. -/
theorem inTime_cons {spare : ℕ} {u u' : Bytes} {r : BodiedRequest} {rs : List BodiedRequest}
    {earlier later : List Chunk} {chunk : Chunk} (hbody : rs ≠ [] → r.body = [])
    (hcomplete : u ++ received (earlier ++ [chunk]) = r.head.encode ++ u')
    (hfirst : earlier = [] ∨ (u ++ received earlier).length < r.head.encode.length) :
    InTime spare u (r :: rs) (earlier ++ chunk :: later) ↔ InTime spare u' rs later := by
  have hcount : (u ++ received (earlier ++ [chunk])).length = (r.head.encode ++ u').length :=
    congrArg List.length hcomplete
  have hbehind : ∀ n, n ≤ later.length →
      (u ++ received ((earlier ++ chunk :: later).take
        ((earlier ++ chunk :: later).length - n))).length =
      r.head.encode.length + (u' ++ received (later.take (later.length - n))).length := by
    intro n hn
    rw [take_behind earlier chunk hn, List.append_cons, received_append]
    simp only [List.length_append] at hcount ⊢
    omega
  constructor
  · rintro ⟨hlen, hheads⟩
    have hlater : rs.length + spare ≤ later.length := by
      simp only [List.length_append, List.length_cons] at hlen
      by_contra hshort
      rcases hfirst with rfl | hfirst
      · rw [List.length_nil] at hlen
        omega
      · -- the first request would be complete before that chunk
        have hhead := hheads [] r rs rfl
        have hn : (earlier ++ chunk :: later).length - (rs.length + spare) ≤ earlier.length := by
          simp only [List.length_append, List.length_cons]
          omega
        generalize (earlier ++ chunk :: later).length - (rs.length + spare) = n at hn hhead
        rw [List.take_append_of_le_length hn] at hhead
        have hle := length_received_take earlier n
        simp only [List.flatMap_nil, List.nil_append, List.length_append] at hhead hfirst
        omega
    refine ⟨hlater, ?_⟩
    rintro before r' after rfl
    have hhead := hheads (r :: before) r' after rfl
    simp only [List.length_append, List.length_cons] at hlater
    rw [hbehind _ (by omega), List.flatMap_cons, BodiedRequest.encode, hbody (by simp)] at hhead
    simp only [List.append_nil, List.length_append] at hhead ⊢
    omega
  · rintro ⟨hlater, hheads⟩
    constructor
    · simp only [List.length_append, List.length_cons]
      omega
    · rintro (_ | ⟨r₀, before⟩) r' after hrs
      · obtain ⟨rfl, rfl⟩ := List.cons.inj hrs
        rw [hbehind _ hlater, List.flatMap_nil, List.nil_append]
        exact Nat.le_add_right _ _
      · obtain ⟨rfl, htail⟩ : r = r₀ ∧ rs = before ++ r' :: after := List.cons.inj hrs
        subst htail
        have hhead := hheads before r' after rfl
        simp only [List.length_append, List.length_cons] at hlater
        rw [hbehind _ (by omega), List.flatMap_cons, BodiedRequest.encode, hbody (by simp)]
        simp only [List.append_nil, List.length_append] at hhead ⊢
        omega

theorem separate_cons {u u' : Bytes} {r : BodiedRequest} {rs : List BodiedRequest}
    {earlier later : List Chunk} {chunk : Chunk} (hrs : rs ≠ []) (hbody : r.body = [])
    (hcomplete : u ++ received (earlier ++ [chunk]) = r.head.encode ++ u')
    (hfirst : earlier = [] ∨ (u ++ received earlier).length < r.head.encode.length) :
    Separate u (r :: rs) (earlier ++ chunk :: later) ↔ Separate u' rs later := by
  have hspare : ∀ spare, InTime spare u (r :: rs) (earlier ++ chunk :: later) ↔
      InTime spare u' rs later := fun spare => inTime_cons (fun _ => hbody) hcomplete hfirst
  have hlast : (r :: rs).getLast? = rs.getLast? := List.getLast?_cons_of_ne_nil hrs
  constructor
  · rintro ⟨hbodiless, htime, hline⟩
    rw [List.dropLast_cons_of_ne_nil hrs] at hbodiless
    rw [hlast, hspare] at hline
    exact ⟨fun r' hr' => hbodiless r' (List.mem_cons_of_mem _ hr'), (hspare 0).mp htime, hline⟩
  · rintro ⟨hbodiless, htime, hline⟩
    refine ⟨?_, (hspare 0).mpr htime, ?_⟩
    · rw [List.dropLast_cons_of_ne_nil hrs]
      intro r' hr'
      rcases List.mem_cons.mp hr' with rfl | hr'
      · exact hbody
      · exact hbodiless r' hr'
    · rw [hlast, hspare]
      exact hline

theorem inTime_nil {spare : ℕ} {u : Bytes} {chunks : List Chunk} :
    InTime spare u [] chunks ↔ spare ≤ chunks.length := by
  constructor
  · rintro ⟨hlen, -⟩
    rwa [List.length_nil, Nat.zero_add] at hlen
  · intro hlen
    refine ⟨by rwa [List.length_nil, Nat.zero_add], ?_⟩
    intro before r after hrs
    exact absurd hrs.symm (List.append_ne_nil_of_right_ne_nil _ (List.cons_ne_nil _ _))

theorem separate_nil (u : Bytes) (chunks : List Chunk) : Separate u [] chunks where
  bodiless := fun _ hr => absurd hr List.not_mem_nil
  inTime := inTime_nil.mpr (Nat.zero_le _)
  line_free := by
    rintro - r ⟨⟩

/-- The last request is separate when its body has no CRLF, or no chunk is left
for it. -/
theorem separate_last {u u' : Bytes} {r : BodiedRequest} {earlier later : List Chunk}
    {chunk : Chunk} (hcomplete : u ++ received (earlier ++ [chunk]) = r.head.encode ++ u')
    (hfirst : earlier = [] ∨ (u ++ received earlier).length < r.head.encode.length) :
    Separate u [r] (earlier ++ chunk :: later) ↔ (later ≠ [] → ¬ kCRLF <:+: r.body) := by
  have hspare : ∀ spare, InTime spare u [r] (earlier ++ chunk :: later) ↔
      spare ≤ later.length := fun spare =>
    (inTime_cons (fun h => absurd rfl h) hcomplete hfirst).trans inTime_nil
  constructor
  · rintro ⟨-, -, hline⟩ hne
    exact hline ((hspare 1).mpr (List.length_pos_iff.mpr hne)) r rfl
  · intro h
    refine ⟨fun r' hr' => absurd hr' List.not_mem_nil, (hspare 0).mpr (Nat.zero_le _), ?_⟩
    rintro htime r' ⟨⟩
    exact h (List.length_pos_iff.mp ((hspare 1).mp htime))

/-! ## The comparison -/

theorem length_flatMap_encode (r : BodiedRequest) (rs : List BodiedRequest) :
    ((r :: rs).flatMap BodiedRequest.encode).length =
      r.head.encode.length + r.body.length + (rs.flatMap BodiedRequest.encode).length := by
  rw [List.flatMap_cons, List.length_append, BodiedRequest.encode, List.length_append]

theorem consumed_behind (served : Served) (request : HttpRequest) (arrived : Bytes) :
    (served.behind request).consumed arrived = served.consumed arrived := rfl

/-- What is consumed stops behind the head of the first request when its body and
everything behind it is unread. -/
theorem consumed_behind_le {served : Served} {request : HttpRequest} {r : BodiedRequest}
    {rs : List BodiedRequest} :
    (served.behind request).consumed ((r :: rs).flatMap BodiedRequest.encode) ≤
        ([].flatMap BodiedRequest.encode ++ r.head.encode).length ↔
      (r.body ++ rs.flatMap BodiedRequest.encode).length ≤
        served.session.conn.inputBuffer.readable.length := by
  rw [consumed_behind, Served.consumed, length_flatMap_encode, List.flatMap_nil, List.nil_append,
    List.length_append]
  omega

theorem consumed_behind_cons_le {served : Served} {request : HttpRequest} {r r' : BodiedRequest}
    {rs before : List BodiedRequest} (hbody : r.body = []) :
    (served.behind request).consumed ((r :: rs).flatMap BodiedRequest.encode) ≤
        ((r :: before).flatMap BodiedRequest.encode ++ r'.head.encode).length ↔
      served.consumed (rs.flatMap BodiedRequest.encode) ≤
        (before.flatMap BodiedRequest.encode ++ r'.head.encode).length := by
  rw [consumed_behind, Served.consumed, Served.consumed, List.length_append, List.length_append,
    length_flatMap_encode, length_flatMap_encode, hbody, List.length_nil]
  omega

theorem split_singleton {r r' : BodiedRequest} {before after : List BodiedRequest}
    (h : [r] = before ++ r' :: after) : before = [] ∧ r = r' ∧ after = [] := by
  cases before with
  | nil => exact ⟨rfl, (List.cons.inj h).1, (List.cons.inj h).2.symm⟩
  | cons r₀ before => simp at h

theorem bodiesApart_cons {r : BodiedRequest} {rs : List BodiedRequest} {served : Served}
    (hbody : r.body = []) :
    BodiesApart (r :: rs) (served.behind r.head.request) ↔
      BodiesApart rs served := by
  constructor
  · rintro ⟨hrunning, hrequests, hapart⟩
    refine ⟨hrunning, (List.cons.inj hrequests).2, ?_⟩
    rintro before r' after rfl hne
    exact (consumed_behind_cons_le hbody).mp (hapart (r :: before) r' after rfl hne)
  · rintro ⟨hrunning, hrequests, hapart⟩
    refine ⟨hrunning, congrArg (List.cons r.head.request) hrequests, ?_⟩
    rintro (_ | ⟨r₀, before⟩) r' after hrs hne
    · obtain ⟨rfl, -⟩ := List.cons.inj hrs
      exact absurd hbody hne
    · obtain ⟨rfl, htail⟩ : r = r₀ ∧ rs = before ++ r' :: after := List.cons.inj hrs
      exact (consumed_behind_cons_le hbody).mpr (hapart before r' after htail hne)

namespace HttpServer

variable {srv : HttpServer}

/-- Behind the last request: its body is left alone exactly when no callback finds
a CRLF in it. -/
theorem serve_last {r : BodiedRequest} {t : Session} {u : Bytes} {later : List Chunk}
    (ht : t.Reads (.reading HttpContent.new u)) (hbody : u ++ received later = r.body) :
    BodiesApart [r] ((srv.serve t later).behind r.head.request) ↔
      (later ≠ [] → ¬ kCRLF <:+: r.body) := by
  have hrest : r.body ++ [].flatMap BodiedRequest.encode = u ++ received later := by
    rw [hbody, List.flatMap_nil, List.append_nil]
  rw [← hbody, ← srv.serve_unread_iff ht]
  constructor
  · rintro ⟨hrunning, -, hapart⟩
    refine ⟨hrunning, ?_⟩
    by_cases hne : r.body = []
    · rw [hbody, hne]
      exact Nat.zero_le _
    · rw [← hrest]
      exact consumed_behind_le.mp (hapart [] r [] rfl hne)
  · rintro ⟨hrunning, hle⟩
    have hfree := (srv.serve_unread_iff ht).mp ⟨hrunning, hle⟩
    refine ⟨hrunning, congrArg (List.cons r.head.request) (srv.serve_line_free ht hfree), ?_⟩
    rintro before r' after hrs -
    obtain ⟨rfl, rfl, rfl⟩ := split_singleton hrs
    rw [← hrest] at hle
    exact consumed_behind_le.mpr hle

/-- A body behind which a further request is dispatched has been consumed. -/
theorem not_bodiesApart_body {r : BodiedRequest} {rs : List BodiedRequest} {t : Session}
    {u : Bytes} {later : List Chunk} (hrs : rs ≠ []) (hne : r.body ≠ [])
    (ht : t.Reads (.reading HttpContent.new u))
    (hrest : r.body ++ rs.flatMap BodiedRequest.encode = u ++ received later) :
    ¬ BodiesApart (r :: rs) ((srv.serve t later).behind r.head.request) := by
  rintro ⟨hrunning, hrequests, hapart⟩
  have hunread := consumed_behind_le.mp (hapart [] r rs rfl hne)
  rw [hrest] at hunread
  have hnone := srv.serve_line_free ht ((srv.serve_unread_iff ht).mp ⟨hrunning, hunread⟩)
  have hsome : (srv.serve t later).requests = requestsOf rs := (List.cons.inj hrequests).2
  rw [hnone] at hsome
  exact hrs (List.map_eq_nil_iff.mp hsome.symm)

/-- **Bodies are kept apart on exactly the separate inputs**, from any callback on
that finds a fresh parser. -/
theorem serve_bodies : ∀ (rs : List BodiedRequest) {s : Session} {u : Bytes}
    {chunks : List Chunk}, s.Reads (.reading HttpContent.new u) →
    u ++ received chunks = rs.flatMap BodiedRequest.encode → srv.KeepsAlive rs →
    (BodiesApart rs (srv.serve s chunks) ↔ Separate u rs chunks) := by
  intro rs
  induction rs with
  | nil =>
      intro s u chunks _ harrived _
      have hnone : chunks = [] := by
        cases chunks with
        | nil => rfl
        | cons chunk chunks =>
            have hreceived := (List.append_eq_nil_iff.mp harrived).2
            exact absurd (List.append_eq_nil_iff.mp hreceived).1 chunk.nonempty
      subst hnone
      refine iff_of_true ⟨rfl, rfl, ?_⟩ (separate_nil u [])
      intro before r after hrs
      exact absurd hrs.symm (List.append_ne_nil_of_right_ne_nil _ (List.cons_ne_nil _ _))
  | cons r rs ih =>
      intro s u chunks hs harrived hopen
      by_cases hchunks : chunks = []
      · subst hchunks
        refine iff_of_false ?_ ?_
        · rintro ⟨-, hrequests, -⟩
          cases hrequests
        · rintro ⟨-, ⟨hlen, -⟩, -⟩
          simp at hlen
      have hparse := r.head.parseBytes_encode (r.body ++ rs.flatMap BodiedRequest.encode)
      rw [← List.append_assoc, ← BodiedRequest.encode, ← List.flatMap_cons,
        ← harrived] at hparse
      obtain ⟨earlier, chunk, later, t, u', rfl, hearlier, hrest, ht, hserve⟩ :=
        srv.serve_completes chunks hchunks hs hparse rfl (hopen r List.mem_cons_self)
      rw [hserve]
      have hall : u ++ received earlier ++ (chunk.bytes ++ received later) =
          r.head.encode ++ (u' ++ received later) := by
        rw [← hrest, List.append_assoc, ← received_cons, ← received_append, harrived,
          List.flatMap_cons, BodiedRequest.encode, List.append_assoc]
      have hcomplete : u ++ received (earlier ++ [chunk]) = r.head.encode ++ u' := by
        rw [← List.append_assoc, ← List.append_assoc, List.append_left_inj] at hall
        rw [received_append, received_cons, received_nil, List.append_nil, ← List.append_assoc]
        exact hall
      have hfirst : earlier = [] ∨ (u ++ received earlier).length < r.head.encode.length := by
        rcases hearlier with hnone | hundecided
        · exact Or.inl hnone
        · exact Or.inr (r.head.length_lt_of_not_decided ⟨_, hall⟩ hundecided)
      by_cases hrs : rs = []
      · subst hrs
        rw [List.flatMap_nil, List.append_nil] at hrest
        rw [separate_last hcomplete hfirst]
        exact serve_last ht hrest.symm
      by_cases hbody : r.body = []
      · rw [separate_cons hrs hbody hcomplete hfirst, bodiesApart_cons hbody]
        rw [hbody, List.nil_append] at hrest
        exact ih ht hrest.symm fun r' hr' => hopen r' (List.mem_cons_of_mem _ hr')
      · refine iff_of_false (not_bodiesApart_body hrs hbody ht hrest) ?_
        rintro ⟨hbodiless, -, -⟩
        rw [List.dropLast_cons_of_ne_nil hrs] at hbodiless
        exact hbody (hbodiless r List.mem_cons_self)

end HttpServer

theorem established_reads (fd : ℕ) (answers : ℕ → WriteAnswer) :
    (Session.established fd answers).Reads (.reading HttpContent.new []) :=
  ⟨rfl, rfl, Buffer.new_inv, Buffer.readable_new⟩

def headThenBody (r : BodiedRequest) (hne : r.body ≠ []) : List Chunk :=
  [⟨r.head.encode, r.head.encode_ne_nil, Timestamp.new⟩, ⟨r.body, hne, Timestamp.new⟩]

theorem received_headThenBody (r : BodiedRequest) (hne : r.body ≠ []) :
    received (headThenBody r hne) = [r].flatMap BodiedRequest.encode := by
  simp [received, headThenBody, BodiedRequest.encode]

theorem separate_headThenBody (r : BodiedRequest) (hne : r.body ≠ []) :
    Separate [] [r] (headThenBody r hne) ↔ ¬ kCRLF <:+: r.body := by
  have hcomplete : [] ++ received ([] ++ (headThenBody r hne).take 1) = r.head.encode ++ [] := by
    simp [received, headThenBody]
  have hlast : Separate [] [r] ([] ++ headThenBody r hne) ↔ _ :=
    separate_last hcomplete (Or.inl rfl)
  rw [List.nil_append] at hlast
  rw [hlast]
  exact forall_prop_of_true (List.cons_ne_nil _ _)

/-- Under every cut only a single request is served as it was meant, and only if
its body has no CRLF. -/
theorem bodies_apart_under_every_cut {srv : HttpServer} {rs : List BodiedRequest} (fd : ℕ)
    (answers : ℕ → WriteAnswer) (hopen : srv.KeepsAlive rs) :
    (∀ chunks, received chunks = rs.flatMap BodiedRequest.encode →
        BodiesApart rs (srv.serve (Session.established fd answers) chunks)) ↔
      rs = [] ∨ ∃ r, rs = [r] ∧ ¬ kCRLF <:+: r.body := by
  have hserve : ∀ chunks, received chunks = rs.flatMap BodiedRequest.encode →
      (BodiesApart rs (srv.serve (Session.established fd answers) chunks) ↔
        Separate [] rs chunks) := fun chunks hchunks =>
    HttpServer.serve_bodies rs (established_reads fd answers) hchunks hopen
  constructor
  · intro h
    rcases rs with _ | ⟨r, _ | ⟨r', rs⟩⟩
    · exact Or.inl rfl
    · right
      refine ⟨r, rfl, ?_⟩
      by_cases hne : r.body = []
      · rw [hne]
        decide
      · have hcut := received_headThenBody r hne
        exact (separate_headThenBody r hne).mp ((hserve _ hcut).mp (h _ hcut))
    · -- everything in one chunk
      have hne : (r :: r' :: rs).flatMap BodiedRequest.encode ≠ [] := by
        rw [List.flatMap_cons, BodiedRequest.encode, List.append_assoc]
        exact List.append_ne_nil_of_left_ne_nil r.head.encode_ne_nil _
      have hcut : received [⟨_, hne, Timestamp.new⟩] = _ := List.append_nil _
      obtain ⟨-, ⟨hlen, -⟩, -⟩ := (hserve _ hcut).mp (h _ hcut)
      simp at hlen
  · rintro hrs chunks hchunks
    apply (hserve chunks hchunks).mpr
    rcases hrs with rfl | ⟨r, rfl, hline⟩
    · exact separate_nil [] chunks
    · refine ⟨fun r' hr' => absurd hr' List.not_mem_nil, ⟨?_, ?_⟩, ?_⟩
      · apply List.length_pos_iff.mpr
        rintro rfl
        rw [received_nil, List.flatMap_singleton, BodiedRequest.encode] at hchunks
        exact r.head.encode_ne_nil (List.append_eq_nil_iff.mp hchunks.symm).1
      · intro before r' after hrs
        obtain ⟨rfl, rfl, rfl⟩ := split_singleton hrs
        rw [List.length_nil, Nat.sub_zero, List.take_length, List.nil_append, hchunks]
        simp [BodiedRequest.encode]
      · rintro - r' ⟨⟩
        exact hline

/-- **A body is never taken for a request exactly when** only the last request has
one, each request is complete in time for a callback of its own, and no callback
behind them finds a CRLF in the body. -/
theorem bodies_apart_iff {srv : HttpServer} {rs : List BodiedRequest} {fd : ℕ}
    {answers : ℕ → WriteAnswer} {chunks : List Chunk} (hopen : srv.KeepsAlive rs)
    (hchunks : received chunks = rs.flatMap BodiedRequest.encode) :
    BodiesApart rs (srv.serve (Session.established fd answers) chunks) ↔
      Separate [] rs chunks :=
  HttpServer.serve_bodies rs (established_reads fd answers) hchunks hopen

theorem colon_not_mem_contentLength : colon ∉ ascii "Content-Length" := by decide

def post (body : Bytes) : BodiedRequest where
  head :=
    { method := .kPost
      path := ascii "/form"
      query := none
      version := .kHttp11
      headers := [
        { name := ascii "Content-Length"
          value := decimal body.length
          blanks := 1
          name_colon := colon_not_mem_contentLength
          name_line := by decide
          value_blank := fun h => not_mem_decimal (by decide) _ (List.mem_of_mem_head? h)
          value_line := ResponseReader.crlf_free_of_cr (not_mem_decimal (by decide) _) }]
      path_blank := by decide
      path_question := by decide
      path_line := by decide
      query_blank := by decide
      query_line := by decide
      version_known := Version.kHttp11_known }
  body := body
  announced := fun _ => WellFormedRequest.lookup_headerMap _ _

/-- A server that answers `200` to everything. -/
def okServer : HttpServer := ⟨false, fun _ response => { response with statusCode := 200 }, 0⟩

theorem okServer_keepsAlive (bodies : List Bytes) : okServer.KeepsAlive (bodies.map post) := by
  intro r hr
  obtain ⟨body, -, rfl⟩ := List.mem_map.mp hr
  have hnone : (post body).head.request.getHeader (ascii "Connection") = [] := by
    show ((post body).head.headerMap.lookup (ascii "Connection")).getD [] = []
    rw [WellFormedRequest.lookup_headerMap]
    rfl
  show ¬ HttpServer.wantsClose (post body).head.request = true
  rw [HttpServer.wantsClose, hnone, show (post body).head.request.version = some .kHttp11 from rfl]
  decide

/-- A request whose body is empty, and one with a body, in three chunks. -/
theorem bodies_apart_iff_hello :
    BodiesApart [post [], post (ascii "hello")]
      (okServer.serve (Session.established 5 fun _ => .full)
        (⟨(post []).head.encode, (post []).head.encode_ne_nil, Timestamp.new⟩ ::
          headThenBody (post (ascii "hello")) (by decide))) := by
  have hne : (post (ascii "hello")).body ≠ [] := by decide
  have hcomplete : [] ++ received ([] ++ [⟨(post []).head.encode, (post []).head.encode_ne_nil,
      Timestamp.new⟩]) = (post []).head.encode ++ [] := List.nil_append _
  have hseparate : Separate [] [post [], post (ascii "hello")]
      ([] ++ _ :: headThenBody _ hne) ↔ _ :=
    separate_cons (List.cons_ne_nil _ _) rfl hcomplete (.inl rfl)
  refine (bodies_apart_iff (okServer_keepsAlive [[], ascii "hello"]) ?_).mpr (hseparate.mpr ?_)
  · rw [received_cons, received_headThenBody]
    exact congrArg (· ++ _) (List.append_nil _).symm
  · exact (separate_headThenBody _ hne).mpr (by decide)

/-- `GET /x HTTP/1.1` without headers. -/
def smuggled : WellFormedRequest where
  method := .kGet
  path := ascii "/x"
  query := none
  version := .kHttp11
  headers := []
  path_blank := by decide
  path_question := by decide
  path_line := by decide
  query_blank := by decide
  query_line := by decide
  version_known := Version.kHttp11_known

/-- A body that is the encoding of a request is dispatched as that request. -/
theorem HttpServer.serve_smuggled {srv : HttpServer} {r : BodiedRequest} {q : WellFormedRequest}
    (hopen : ¬ srv.Closes r.head.request) (hq : r.body = q.encode) (hne : r.body ≠ []) (fd : ℕ)
    (answers : ℕ → WriteAnswer) :
    (srv.serve (Session.established fd answers) (headThenBody r hne)).requests =
      [r.head.request, q.request] := by
  have hfirst := r.head.parseBytes_encode []
  have hsecond := q.parseBytes_encode []
  rw [List.append_nil] at hfirst hsecond
  have hhead : srv.arrive (.reading HttpContent.new []) r.head.encode =
      (⟨[r.head.request], srv.responseBytes r.head.request⟩, .reading HttpContent.new []) := by
    rw [arrive, List.nil_append, hfirst, afterCall, if_neg (not_waits_of_complete rfl), if_pos rfl,
      if_neg hopen]
  have hbody : (srv.arrive (.reading HttpContent.new []) r.body).1.requests = [q.request] := by
    rw [arrive, List.nil_append, hq, hsecond, afterCall, if_neg (not_waits_of_complete rfl),
      if_pos rfl]
  rw [(srv.serve_reads _ (established_reads fd answers)).1, headThenBody, List.map_cons,
    List.map_cons, List.map_nil]
  simp only [arriveAll, hhead, Reply.followedBy, hbody, Reply.nothing, List.append_nil]
  rfl

/-- The body of a POST is dispatched as a GET. -/
theorem smuggled_body_dispatched : ∃ chunks,
    received chunks = [post (ascii "GET /x HTTP/1.1\r\n\r\n")].flatMap BodiedRequest.encode ∧
      (okServer.serve (Session.established 5 fun _ => .full) chunks).requests.map
        HttpRequest.path = [ascii "/form", ascii "/x"] ∧
      ¬ BodiesApart [post (ascii "GET /x HTTP/1.1\r\n\r\n")]
        (okServer.serve (Session.established 5 fun _ => .full) chunks) := by
  have hopen := okServer_keepsAlive [ascii "GET /x HTTP/1.1\r\n\r\n"]
  have hne : (post (ascii "GET /x HTTP/1.1\r\n\r\n")).body ≠ [] := by decide
  have harrived : [] ++ received (headThenBody _ hne) = _ := received_headThenBody _ hne
  refine ⟨headThenBody _ hne, harrived, ?_, ?_⟩
  · have hrequests := HttpServer.serve_smuggled (hopen _ List.mem_cons_self)
      (show _ = smuggled.encode by decide) hne 5 fun _ => .full
    rw [hrequests]
    rfl
  · rw [HttpServer.serve_bodies _ (established_reads 5 _) harrived hopen,
      separate_headThenBody]
    exact not_not_intro (by decide)

end TinyMuduo
