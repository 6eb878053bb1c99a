import TinyMuduo.Http.Callback
import TinyMuduo.Http.RoundTrip
import TinyMuduo.Util.OutputStream

/-!
# How the cutting of the input shows in the output

What follows a request in the same chunk is looked at only when a further chunk
arrives. `segmentation_independent_iff` says on which inputs this shows: those
in which a request whose response keeps the connection open is followed by
another complete request or by a bad request line.
-/

namespace TinyMuduo

/-! ## Decided and undecided input -/

/-- The bytes settle the fate of a request. -/
def Decided (c : HttpContent) (s : Bytes) : Prop :=
  ∃ r c' rest, parseBytes c s = .ok (r, c', rest) ∧ ¬ Waits r c'

theorem Decided.append {c : HttpContent} {s : Bytes} (t : Bytes) (h : Decided c s) :
    Decided c (s ++ t) := by
  obtain ⟨r, c', rest, hp, hw⟩ := h
  exact ⟨r, c', rest ++ t, parseBytes_decided t hp hw, hw⟩

theorem Idle.not_decided {c : HttpContent} {s : Bytes} (h : Idle c s) : ¬ Decided c s := by
  rintro ⟨r, c', rest, hp, hw⟩
  rw [h.1] at hp
  cases hp
  exact hw ⟨rfl, h.2⟩

/-! ## All cuts of an undecided input, and of a decided one -/

namespace HttpServer

variable (srv : HttpServer)

/-- Undecided bytes make the connection neither dispatch nor send. -/
theorem arriveAll_undecided : ∀ (chunks : List Bytes) {c : HttpContent} {u : Bytes},
    ¬ Decided c (u ++ chunks.flatten) →
    ∃ phase, srv.arriveAll (.reading c u) chunks = (.nothing, phase) ∧
      ∀ c' u', phase = .reading c' u' → ¬ Decided c' u' := by
  intro chunks
  induction chunks with
  | nil =>
      intro c u h
      refine ⟨_, rfl, ?_⟩
      rintro c' u' ⟨⟩
      rwa [List.flatten_nil, List.append_nil] at h
  | cons chunk chunks ih =>
      intro c u h
      rw [List.flatten_cons, ← List.append_assoc] at h
      simp only [arriveAll, arrive]
      rcases hp : parseBytes c (u ++ chunk) with f | ⟨r, c₁, u₁⟩
      · simp only [afterCall, arriveAll_crashed, Reply.nothing_followedBy]
        refine ⟨_, rfl, ?_⟩
        rintro c' u' ⟨⟩
      by_cases hw : Waits r c₁
      · have hres := parseBytes_resume chunks.flatten hp hw
        have hnext : ¬ Decided c₁ (u₁ ++ chunks.flatten) := by
          rintro ⟨r', c', rest, hd, hn⟩
          exact h ⟨r', c', rest, hres.trans hd, hn⟩
        obtain ⟨phase, hall, hphase⟩ := ih hnext
        simp only [afterCall, if_pos hw, hall, Reply.nothing_followedBy]
        exact ⟨phase, rfl, hphase⟩
      · exact absurd (Decided.append _ ⟨r, c₁, u₁, hp, hw⟩) h

/-- **Decided bytes have their effect at one of the chunks**, and the chunks
behind it find the rest. -/
theorem arriveAll_decided : ∀ (chunks : List Bytes) {c c' : HttpContent} {u rest : Bytes}
    {r : Bool}, Idle c u → parseBytes c (u ++ chunks.flatten) = .ok (r, c', rest) →
    ¬ Waits r c' →
    ∃ rest' later, rest = rest' ++ later.flatten ∧
      srv.arriveAll (.reading c u) chunks =
        ((srv.afterCall (.ok (r, c', rest'))).1.followedBy
            (srv.arriveAll (srv.afterCall (.ok (r, c', rest'))).2 later).1,
          (srv.arriveAll (srv.afterCall (.ok (r, c', rest'))).2 later).2) := by
  intro chunks
  induction chunks with
  | nil =>
      intro c c' u rest r hidle hp hw
      rw [List.flatten_nil, List.append_nil] at hp
      exact absurd ⟨r, c', rest, hp, hw⟩ hidle.not_decided
  | cons chunk chunks ih =>
      intro c c' u rest r hidle hp hw
      rw [List.flatten_cons, ← List.append_assoc] at hp
      simp only [arriveAll, arrive]
      rcases hq : parseBytes c (u ++ chunk) with f | ⟨r₁, c₁, u₁⟩
      · rw [parseBytes_fault chunks.flatten hq] at hp
        cases hp
      by_cases hw₁ : Waits r₁ c₁
      · rw [parseBytes_resume chunks.flatten hq hw₁] at hp
        obtain ⟨rest', later, hrest, hall⟩ := ih (idle_of_waits hq hw₁) hp hw
        refine ⟨rest', later, hrest, ?_⟩
        have hstay : srv.afterCall (.ok (r₁, c₁, u₁)) = (.nothing, .reading c₁ u₁) :=
          if_pos hw₁
        simp only [hstay, hall, Reply.nothing_followedBy]
      · rw [parseBytes_decided chunks.flatten hq hw₁] at hp
        cases hp
        exact ⟨u₁, chunks, rfl, rfl⟩

/-! ## What every cut of an input has in common -/

/-- A request whose response keeps the connection open is followed by bytes
that decide the fate of another one. -/
def Pipelined (s : Bytes) : Prop :=
  ∃ c rest, parseBytes HttpContent.new s = .ok (true, c, rest) ∧
    c.getCompleteRequest = true ∧ ¬ srv.Closes c.request ∧ Decided HttpContent.new rest

/-- **Without pipelining the reply does not depend on the cut**, and no request
is left waiting in the buffer. -/
theorem arriveAll_of_not_pipelined {s : Bytes} (h : ¬ srv.Pipelined s) :
    ∃ reply, ∀ chunks : List Bytes, chunks.flatten = s →
      (srv.arriveAll (.reading HttpContent.new []) chunks).1 = reply ∧
        ∀ c u, (srv.arriveAll (.reading HttpContent.new []) chunks).2 = .reading c u →
          ¬ Decided c u := by
  by_cases hd : Decided HttpContent.new s
  · obtain ⟨r, c, rest, hp, hw⟩ := hd
    refine ⟨(srv.afterCall (.ok (r, c, rest))).1, ?_⟩
    rintro chunks rfl
    obtain ⟨rest', later, hrest, hall⟩ :=
      srv.arriveAll_decided chunks (c := HttpContent.new) (u := []) idle_new
        (by rwa [List.nil_append]) hw
    rw [hall]
    simp only [afterCall, if_neg hw]
    cases r with
    | false =>
        simp only [Bool.false_eq_true, if_false, arriveAll_shut, Reply.followedBy_nothing]
        refine ⟨trivial, ?_⟩
        rintro c' u' ⟨⟩
    | true =>
        have hc : c.getCompleteRequest = true := by
          by_contra hn
          exact hw ⟨rfl, Bool.eq_false_iff.mpr hn⟩
        simp only [if_true]
        by_cases hclose : srv.Closes c.request
        · simp only [if_pos hclose, arriveAll_shut, Reply.followedBy_nothing]
          refine ⟨trivial, ?_⟩
          rintro c' u' ⟨⟩
        · -- what follows the request is undecided, however it arrives
          have hrest' : ¬ Decided HttpContent.new (rest' ++ later.flatten) := by
            intro hdec
            rw [← hrest] at hdec
            exact h ⟨c, rest, hp, hc, hclose, hdec⟩
          obtain ⟨phase, hlater, hphase⟩ := srv.arriveAll_undecided later hrest'
          simp only [if_neg hclose, hlater, Reply.followedBy_nothing]
          exact ⟨trivial, hphase⟩
  · refine ⟨.nothing, ?_⟩
    rintro chunks rfl
    rw [← List.nil_append chunks.flatten] at hd
    obtain ⟨phase, hall, hphase⟩ := srv.arriveAll_undecided chunks hd
    rw [hall]
    exact ⟨rfl, hphase⟩

theorem Pipelined.append {s : Bytes} (t : Bytes) (h : srv.Pipelined s) :
    srv.Pipelined (s ++ t) := by
  obtain ⟨c, rest, hp, hc, hclose, hd⟩ := h
  exact ⟨c, rest ++ t, parseBytes_decided t hp (not_waits_of_complete hc), hc, hclose,
    hd.append t⟩

/-- **With pipelining two cuts differ**: everything at once, or the first
request by itself. -/
theorem arriveAll_of_pipelined {s : Bytes} (h : srv.Pipelined s) :
    ∃ p rest, s = p ++ rest ∧ p ≠ [] ∧ rest ≠ [] ∧
      (srv.arriveAll (.reading HttpContent.new []) [s]).1 ≠
        (srv.arriveAll (.reading HttpContent.new []) [p, rest]).1 := by
  obtain ⟨c, rest, hp, hc, hclose, hd⟩ := h
  obtain ⟨p, rfl, hfirst⟩ := parseBytes_consumed hp hc
  have hw : ¬ Waits true c := not_waits_of_complete hc
  refine ⟨p, rest, rfl, ?_, ?_, ?_⟩
  · rintro rfl
    exact idle_new.not_decided ⟨true, c, [], hfirst, hw⟩
  · rintro rfl
    exact idle_new.not_decided hd
  · obtain ⟨r, c₂, rest₂, hsecond, hw₂⟩ := hd
    simp only [arriveAll, arrive, List.nil_append, hp, hfirst, hsecond, afterCall, if_neg hw,
      if_neg hclose, if_true, if_neg hw₂, Reply.followedBy_nothing]
    cases r with
    | true =>
        intro heq
        have hreq := congrArg Reply.requests heq
        simp [Reply.followedBy] at hreq
    | false =>
        intro heq
        have hsent := congrArg Reply.sent heq
        rw [if_neg Bool.false_ne_true] at hsent
        simp only [Reply.followedBy, List.self_eq_append_right] at hsent
        exact absurd hsent (by decide)

end HttpServer

/-! ## The comparison -/

/-- A fresh connection to a kernel that accepts every write whole. -/
def freshConnection (fd : ℕ) : Session := Session.established fd fun _ => .full

theorem freshConnection_shows (fd : ℕ) :
    (freshConnection fd).Shows (.reading HttpContent.new []) := by
  have hfresh := Session.established_fresh fd fun _ => .full
  exact ⟨⟨hfresh.toLive.toCoupled, hfresh.empty, rfl⟩, rfl, rfl, Buffer.new_inv,
    Buffer.readable_new⟩

def HoldsRequest (s : Session) : Prop :=
  ∃ r c b, s.conn.content.parseContent s.conn.inputBuffer = .ok (r, c, b) ∧
    c.getCompleteRequest = true

/-- Every cut of `s` gives the same requests and the same bytes, and no callback
that leaves the connection open leaves a complete request behind. -/
def SegmentationIndependent (srv : HttpServer) (s : Bytes) : Prop :=
  (∀ (fd : ℕ) (chunks chunks' : List Chunk), received chunks = s → received chunks' = s →
    (srv.serve (freshConnection fd) chunks).requests =
        (srv.serve (freshConnection fd) chunks').requests ∧
      (srv.serve (freshConnection fd) chunks).session.socket.accepted =
        (srv.serve (freshConnection fd) chunks').session.socket.accepted) ∧
    ∀ (fd : ℕ) (chunks : List Chunk), received chunks <+: s →
      (srv.serve (freshConnection fd) chunks).running = true →
      (srv.serve (freshConnection fd) chunks).session.conn.isShutdown = false →
      ¬ HoldsRequest (srv.serve (freshConnection fd) chunks).session

theorem serve_fresh (srv : HttpServer) (fd : ℕ) (chunks : List Chunk) :
    (srv.serve (freshConnection fd) chunks).requests =
        (srv.arriveAll (.reading HttpContent.new []) (chunks.map Chunk.bytes)).1.requests ∧
      (srv.serve (freshConnection fd) chunks).session.socket.accepted =
        (srv.arriveAll (.reading HttpContent.new []) (chunks.map Chunk.bytes)).1.sent ∧
      ((srv.serve (freshConnection fd) chunks).running = true →
        (srv.serve (freshConnection fd) chunks).session.Shows
          (srv.arriveAll (.reading HttpContent.new []) (chunks.map Chunk.bytes)).2) :=
  srv.serve_refines chunks (freshConnection_shows fd)

theorem not_independent_of_pipelined {srv : HttpServer} {s : Bytes} (h : srv.Pipelined s) :
    ¬ SegmentationIndependent srv s := by
  intro hind
  obtain ⟨p, rest, rfl, hp, hrest, hne⟩ := srv.arriveAll_of_pipelined h
  have hs : p ++ rest ≠ [] := List.append_ne_nil_of_left_ne_nil hp rest
  obtain ⟨hreq, hsent⟩ := hind.1 0 [⟨p ++ rest, hs, Timestamp.new⟩]
    [⟨p, hp, Timestamp.new⟩, ⟨rest, hrest, Timestamp.new⟩] (by simp [received])
    (by simp [received])
  obtain ⟨h₁, h₂, -⟩ := serve_fresh srv 0 [⟨p ++ rest, hs, Timestamp.new⟩]
  obtain ⟨h₃, h₄, -⟩ := serve_fresh srv 0
    [⟨p, hp, Timestamp.new⟩, ⟨rest, hrest, Timestamp.new⟩]
  rw [h₁, h₃] at hreq
  rw [h₂, h₄] at hsent
  apply hne
  calc _ = Reply.mk _ _ := rfl
    _ = Reply.mk _ _ := congrArg₂ Reply.mk hreq hsent

/-- **The server is independent of the segmentation on exactly the inputs
without pipelining.** The chunks are of any length: where the second request is decided
only behind what one `readv` can bring, no chunk of the kernel shows the difference. -/
theorem segmentation_independent_iff (srv : HttpServer) (s : Bytes) :
    SegmentationIndependent srv s ↔ ¬ srv.Pipelined s := by
  constructor
  · intro hind hp
    exact not_independent_of_pipelined hp hind
  · intro hp
    constructor
    · intro fd chunks chunks' hchunks hchunks'
      obtain ⟨reply, hreply⟩ := srv.arriveAll_of_not_pipelined hp
      obtain ⟨h₁, h₂, -⟩ := serve_fresh srv fd chunks
      obtain ⟨h₃, h₄, -⟩ := serve_fresh srv fd chunks'
      rw [h₁, h₂, h₃, h₄, (hreply _ hchunks).1, (hreply _ hchunks').1]
      exact ⟨rfl, rfl⟩
    · rintro fd chunks ⟨t, ht⟩ hrunning hopen
      have hp' : ¬ srv.Pipelined (received chunks) := by
        intro h
        rw [← ht] at hp
        exact hp (HttpServer.Pipelined.append srv t h)
      obtain ⟨_, hreply⟩ := srv.arriveAll_of_not_pipelined hp'
      have hdec := (hreply _ rfl).2
      have hshows := (serve_fresh srv fd chunks).2.2 hrunning
      generalize srv.serve (freshConnection fd) chunks = served at hopen hshows
      rcases hphase : (srv.arriveAll (.reading HttpContent.new [])
        (chunks.map Chunk.bytes)).2 with ⟨c, u⟩ | _ | _
      · rw [hphase] at hshows
        obtain ⟨-, -, rfl, hi, rfl⟩ := hshows
        rintro ⟨r, c, b, hcall, hc⟩
        exact hdec _ _ hphase ⟨r, c, b.readable,
          (HttpContent.parseBytes_of_parseContent hi hcall).2, not_waits_of_complete hc⟩
      · rw [hphase] at hshows
        rw [TcpConnection.isShutdown, hshows.2] at hopen
        cases hopen
      · rw [hphase] at hshows
        exact hshows.elim

/-- Two requests in one chunk: the second one is dispatched when something
further arrives, not before. -/
theorem pipelined_request_waits :
    ∃ (srv : HttpServer) (s : Bytes), s = sampleRequest.encode ++ sampleRequest.encode ∧
      ¬ SegmentationIndependent srv s := by
  refine ⟨⟨false, fun _ response => { response with statusCode := 200 }, 0⟩, _, rfl,
    not_independent_of_pipelined ?_⟩
  have hsecond := sampleRequest.parseBytes_encode []
  rw [List.append_nil] at hsecond
  refine ⟨_, _, sampleRequest.parseBytes_encode _, rfl, by decide, true, _, _, hsecond, ?_⟩
  rintro ⟨-, h⟩
  cases h

end TinyMuduo
