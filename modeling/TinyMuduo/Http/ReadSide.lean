import TinyMuduo.Http.Segmentation
import TinyMuduo.Http.ServedConnection

/-!
# The read side of a connection

What is dispatched does not depend on the answers of the kernel to the writes: on
any socket the server makes the steps of the machine on bytes (`serve_reads`). The
bytes that are not consumed are followed as well: those behind a complete request
are left alone as long as no callback finds a CRLF in them (`serve_unread_iff`),
and a request is completed by the first callback that can (`serve_completes`).
-/

namespace TinyMuduo

/-! ## The server on any socket makes the steps of the machine -/

namespace Session

def Reads (s : Session) : Phase → Prop
  | .reading c unread => s.conn.state = .kConnected ∧ s.conn.content = c ∧
      s.conn.inputBuffer.Inv ∧ s.conn.inputBuffer.readable = unread
  | .shut => s.conn.state = .kDisconnecting ∧ s.conn.inputBuffer.Inv
  | .crashed => False

/-- One callback and one step of the machine go together. -/
def Reaches : Checked (Option HttpRequest × Session) → Reply × Phase → Prop
  | .error _, (reply, phase) => reply = .nothing ∧ phase = .crashed
  | .ok (request, t), (reply, phase) => t.Reads phase ∧ request.toList = reply.requests

end Session

namespace HttpServer

variable (srv : HttpServer)

theorem messageCallback_error {srv : HttpServer} {now : Timestamp} {s : Session} {fault : Fault}
    (h : srv.messageCallback now s = .error fault) :
    s.conn.state ≠ .kDisconnecting ∧
      ∃ f, s.conn.content.parseContent s.conn.inputBuffer = .error f := by
  obtain ⟨hstate, hcontent, hinput⟩ := srv.stamp_fields now s
  unfold messageCallback at h
  by_cases hshut : (srv.stamp now s).conn.isShutdown = true
  · rw [if_pos hshut] at h
    cases h
  · rw [if_neg hshut] at h
    refine ⟨?_, ?_⟩
    · intro hs
      exact hshut (decide_eq_true (hstate.trans hs))
    · rw [hcontent, hinput] at h
      rcases hparse : s.conn.content.parseContent s.conn.inputBuffer with f | ⟨r, c, b⟩
      · exact ⟨f, rfl⟩
      · rw [hparse] at h
        simp only [bind, Except.bind, pure, Except.pure] at h
        split at h <;> cases h

theorem callback_reaches {now : Timestamp} {s t : Session} {report : Report}
    (hstate : s.conn.state = .kConnected) (hi : s.conn.inputBuffer.Inv)
    (h : CallbackCase srv now s report t) :
    Session.Reaches (.ok (report.dispatched, t))
      (srv.afterCall (parseBytes s.conn.content s.conn.inputBuffer.readable)) := by
  have hinv := (h.read hi).2
  have hstamp := (srv.stamp_fields now s).1
  have hbytes : ∀ {r c b}, s.conn.content.parseContent s.conn.inputBuffer = .ok (r, c, b) →
      parseBytes s.conn.content s.conn.inputBuffer.readable = .ok (r, c, b.readable) :=
    fun hparse => (HttpContent.parseBytes_of_parseContent hi hparse).2
  cases h with
  | shut hshut => exact absurd (hstate.symm.trans hshut) (by decide)
  | @waits c b _ hparse hc =>
      rw [hbytes hparse, afterCall, if_pos ⟨rfl, hc⟩]
      exact ⟨⟨hstamp.trans hstate, rfl, hinv, rfl⟩, rfl⟩
  | @rejected c b _ hparse =>
      rw [hbytes hparse, afterCall, if_neg (by rintro ⟨⟨⟩, -⟩), if_neg Bool.false_ne_true]
      exact ⟨⟨(Session.shutdown_read _).1, hinv⟩, rfl⟩
  | @dispatched c b _ hparse hc =>
      rw [hbytes hparse, afterCall, if_neg (not_waits_of_complete hc), if_pos rfl]
      obtain ⟨hstate', -, hinput⟩ := srv.dealWithRequest_read c.request (srv.parsed now s c b)
      refine ⟨?_, rfl⟩
      by_cases hclose : srv.Closes c.request
      · rw [if_pos hclose] at hstate' ⊢
        exact ⟨hstate', hinv⟩
      · rw [if_neg hclose] at hstate' ⊢
        exact ⟨hstate'.trans (hstamp.trans hstate), rfl, hinv, congrArg Buffer.readable hinput⟩

theorem handleMessage_reaches {s : Session} {phase : Phase} (hs : s.Reads phase) (chunk : Chunk) :
    Session.Reaches (srv.handleMessage chunk.now (.data chunk.bytes) s)
      (srv.arrive phase chunk.bytes) := by
  have hchunk : srv.handleMessage chunk.now (.data chunk.bytes) s =
      srv.messageCallback chunk.now (s.afterRead (.data chunk.bytes)) :=
    srv.handleMessage_chunk s chunk
  rw [hchunk]
  cases phase with
  | reading c unread =>
      obtain ⟨hstate, rfl, hi, rfl⟩ := hs
      obtain ⟨-, hi', hr⟩ := Buffer.readFd_spec hi chunk.bytes
      rw [arrive, ← hr]
      rcases hcall : srv.messageCallback chunk.now (s.afterRead (.data chunk.bytes)) with
        f | ⟨request, t⟩
      · obtain ⟨-, f', hparse⟩ := messageCallback_error hcall
        have hbytes : parseBytes s.conn.content
            (s.conn.inputBuffer.readFd (.data chunk.bytes)).2.readable = .error f' :=
          (HttpContent.parseContent_error_iff hi').mp hparse
        rw [hbytes]
        exact ⟨rfl, rfl⟩
      · obtain ⟨report, -, rfl, hcase⟩ := messageCallback_cases hi' hcall
        have hopen : (s.afterRead (.data chunk.bytes)).conn.state = .kConnected := hstate
        exact srv.callback_reaches hopen hi' hcase
  | shut =>
      obtain ⟨hstate, hi⟩ := hs
      obtain ⟨-, hi', -⟩ := Buffer.readFd_spec hi chunk.bytes
      rcases hcall : srv.messageCallback chunk.now (s.afterRead (.data chunk.bytes)) with
        f | ⟨request, t⟩
      · exact absurd hstate (messageCallback_error hcall).1
      · obtain ⟨report, -, rfl, hcase⟩ := messageCallback_cases hi' hcall
        have hinv := (hcase.read hi').2
        cases hcase with
        | shut _ => exact ⟨⟨(srv.stamp_fields _ _).1.trans hstate, hinv⟩, rfl⟩
        | waits hopen _ _ => exact absurd hstate hopen
        | rejected hopen _ => exact absurd hstate hopen
        | dispatched hopen _ _ => exact absurd hstate hopen
  | crashed => exact hs.elim

/-- **The dispatched requests are those of the machine**, whatever the kernel says
to the writes. -/
theorem serve_reads : ∀ (chunks : List Chunk) {s : Session} {phase : Phase}, s.Reads phase →
    (srv.serve s chunks).requests = (srv.arriveAll phase (chunks.map Chunk.bytes)).1.requests ∧
      if (srv.serve s chunks).running then
        (srv.serve s chunks).session.Reads (srv.arriveAll phase (chunks.map Chunk.bytes)).2
      else (srv.arriveAll phase (chunks.map Chunk.bytes)).2 = .crashed := by
  intro chunks
  induction chunks with
  | nil =>
      intro s phase hs
      exact ⟨rfl, hs⟩
  | cons chunk chunks ih =>
      intro s phase hs
      have hreach := srv.handleMessage_reaches hs chunk
      rw [List.map_cons]
      rcases hstep : srv.arrive phase chunk.bytes with ⟨reply, phase'⟩
      rw [hstep] at hreach
      rcases hcall : srv.handleMessage chunk.now (.data chunk.bytes) s with f | ⟨request, t⟩
      · rw [hcall] at hreach
        obtain ⟨rfl, rfl⟩ := hreach
        simp only [serve, hcall, arriveAll, hstep, arriveAll_crashed]
        refine ⟨rfl, ?_⟩
        rw [if_neg Bool.false_ne_true]
        trivial
      · rw [hcall] at hreach
        obtain ⟨ht, hreq⟩ := hreach
        obtain ⟨hrequests, hend⟩ := ih ht
        simp only [serve, hcall, arriveAll, hstep]
        refine ⟨?_, hend⟩
        rw [hrequests, hreq]
        rfl

/-- Bytes without a CRLF are left in the buffer, however they arrive. -/
theorem arriveAll_line_free : ∀ (chunks : List Bytes) {u : Bytes},
    ¬ kCRLF <:+: u ++ chunks.flatten →
    srv.arriveAll (.reading HttpContent.new u) chunks =
      (.nothing, .reading HttpContent.new (u ++ chunks.flatten)) := by
  intro chunks
  induction chunks with
  | nil =>
      intro u _
      rw [List.flatten_nil, List.append_nil]
      rfl
  | cons chunk chunks ih =>
      intro u h
      rw [List.flatten_cons, ← List.append_assoc] at h ⊢
      have hcut : Search.cut kCRLF (u ++ chunk) = none :=
        (Search.cut_none_iff (List.cons_ne_nil _ _)).mpr
          fun hin => h (hin.trans (List.prefix_append _ _).isInfix)
      have hparse := (ParseCase.noLine (c := HttpContent.new) rfl hcut).eq
      have hstay : srv.arrive (.reading HttpContent.new u) chunk =
          (.nothing, .reading HttpContent.new (u ++ chunk)) := by
        rw [arrive, hparse, afterCall, if_pos ⟨rfl, rfl⟩]
      simp only [arriveAll, hstay, ih h, Reply.nothing_followedBy]

end HttpServer

/-! ## What a callback leaves unread -/

theorem length_lt_of_crlf {s rest : Bytes} {r : Bool} {c : HttpContent}
    (h : parseBytes HttpContent.new s = .ok (r, c, rest)) (hcrlf : kCRLF <:+: s) :
    rest.length < s.length := by
  have hk : kCRLF.length = 2 := rfl
  have hcase := parseBytes_cases HttpContent.new s
  rw [h] at hcase
  cases hcase with
  | noLine _ hcut => exact absurd hcrlf ((Search.cut_none_iff (List.cons_ne_nil _ _)).mp hcut)
  | rejected _ hcut _ =>
      have hlen := Search.length_of_cut hcut
      omega
  | accepted _ hcut _ hheaders =>
      have hlen := Search.length_of_cut hcut
      have hle := (headerLines_length hheaders).1
      omega
  | headers hstate _ => cases hstate
  | complete hstate => cases hstate

theorem parseBytes_length {s rest : Bytes} {r : Bool} {c c' : HttpContent}
    (h : parseBytes c s = .ok (r, c', rest)) : rest.length ≤ s.length := by
  obtain ⟨consumed, rfl, -⟩ := parseBytes_afterLine h
  rw [List.length_append]
  exact Nat.le_add_left _ _

/-- A callback that calls the parser leaves what the parser leaves. -/
theorem CallbackCase.unread {srv : HttpServer} {now : Timestamp} {s t : Session} {report : Report}
    (hopen : s.conn.state ≠ .kDisconnecting) (h : CallbackCase srv now s report t) :
    ∃ r c, s.conn.content.parseContent s.conn.inputBuffer = .ok (r, c, t.conn.inputBuffer) := by
  cases h with
  | shut hstate => exact absurd hstate hopen
  | waits _ hparse _ => exact ⟨_, _, hparse⟩
  | @rejected c b _ hparse =>
      have hinput : ((srv.parsed now s c b).sendCString badRequest).shutdown.conn.inputBuffer = b :=
        (Session.shutdown_read _).2.2.trans (Session.send_sameRead _ _).inputBuffer
      rw [hinput]
      exact ⟨_, _, hparse⟩
  | @dispatched c b _ hparse _ =>
      have hinput : ((srv.dealWithRequest c.request (srv.parsed now s c b)).withContent
          c.resetContentState).conn.inputBuffer = b :=
        (srv.dealWithRequest_read c.request (srv.parsed now s c b)).2.2
      rw [hinput]
      exact ⟨_, _, hparse⟩

namespace HttpServer

variable {srv : HttpServer}

/-- **The unread bytes behind one chunk**: those the parser leaves, or all. -/
theorem handleMessage_unread {s t : Session} {chunk : Chunk} {request : Option HttpRequest}
    (hi : s.conn.inputBuffer.Inv)
    (h : srv.handleMessage chunk.now (.data chunk.bytes) s = .ok (request, t)) :
    t.conn.inputBuffer.Inv ∧
      ((∃ r c, parseBytes s.conn.content (s.conn.inputBuffer.readable ++ chunk.bytes) =
          .ok (r, c, t.conn.inputBuffer.readable)) ∨
        s.conn.state = .kDisconnecting ∧
          t.conn.inputBuffer.readable = s.conn.inputBuffer.readable ++ chunk.bytes) := by
  rw [handleMessage_chunk] at h
  obtain ⟨-, hi', hr⟩ := Buffer.readFd_spec hi chunk.bytes
  obtain ⟨report, -, -, hcase⟩ :=
    messageCallback_cases (s := s.afterRead (.data chunk.bytes)) hi' h
  refine ⟨(hcase.read hi').2, ?_⟩
  by_cases hshut : s.conn.state = .kDisconnecting
  · right
    refine ⟨hshut, ?_⟩
    cases hcase with
    | shut _ => rw [(srv.stamp_fields chunk.now (s.afterRead (.data chunk.bytes))).2.2, ← hr]; rfl
    | waits hopen _ _ => exact absurd hshut hopen
    | rejected hopen _ => exact absurd hshut hopen
    | dispatched hopen _ _ => exact absurd hshut hopen
  · left
    have hopen : (s.afterRead (.data chunk.bytes)).conn.state ≠ .kDisconnecting := hshut
    obtain ⟨r, c, hparse⟩ := hcase.unread hopen
    refine ⟨r, c, ?_⟩
    rw [← hr]
    exact (HttpContent.parseBytes_of_parseContent hi' hparse).2

variable (srv)

theorem serve_unread_le : ∀ (chunks : List Chunk) {s : Session}, s.conn.inputBuffer.Inv →
    (srv.serve s chunks).session.conn.inputBuffer.readable.length ≤
      (s.conn.inputBuffer.readable ++ received chunks).length := by
  intro chunks
  induction chunks with
  | nil =>
      intro s _
      simp [serve, received]
  | cons chunk chunks ih =>
      intro s hi
      rcases hcall : srv.handleMessage chunk.now (.data chunk.bytes) s with f | ⟨request, t⟩
      · simp only [serve, hcall, List.length_append]
        omega
      · obtain ⟨hi', hleft⟩ := handleMessage_unread hi hcall
        have hle : t.conn.inputBuffer.readable.length ≤
            (s.conn.inputBuffer.readable ++ chunk.bytes).length := by
          rcases hleft with ⟨r, c, hparse⟩ | ⟨-, hall⟩
          · exact parseBytes_length hparse
          · rw [hall]
        have hlater := ih hi'
        simp only [serve, hcall, received_cons, List.length_append] at hle hlater ⊢
        omega

/-- **A CRLF behind a complete request is consumed** by the first callback that
finds it. -/
theorem serve_unread_lt : ∀ (chunks : List Chunk) {s : Session} {u : Bytes}, chunks ≠ [] →
    s.Reads (.reading HttpContent.new u) → kCRLF <:+: u ++ received chunks →
    (srv.serve s chunks).running = true →
    (srv.serve s chunks).session.conn.inputBuffer.readable.length <
      (u ++ received chunks).length := by
  intro chunks
  induction chunks with
  | nil =>
      intro s u hne
      exact absurd rfl hne
  | cons chunk chunks ih =>
      intro s u _ hs hcrlf hrunning
      have hreach := srv.handleMessage_reaches hs chunk
      rcases hcall : srv.handleMessage chunk.now (.data chunk.bytes) s with f | ⟨request, t⟩
      · simp only [serve, hcall] at hrunning
        cases hrunning
      rw [hcall] at hreach
      simp only [serve, hcall] at hrunning ⊢
      rw [received_cons, ← List.append_assoc] at hcrlf ⊢
      by_cases hfound : kCRLF <:+: u ++ chunk.bytes
      · obtain ⟨hstate, hcontent, hi, rfl⟩ := hs
        obtain ⟨hi', hleft⟩ := handleMessage_unread hi hcall
        have hlater := srv.serve_unread_le chunks hi'
        rcases hleft with ⟨r, c, hparse⟩ | ⟨hshut, -⟩
        · rw [hcontent] at hparse
          have hlt := length_lt_of_crlf hparse hfound
          simp only [List.length_append] at hlt hlater ⊢
          omega
        · rw [hstate] at hshut
          cases hshut
      · have hcut : Search.cut kCRLF (u ++ chunk.bytes) = none :=
          (Search.cut_none_iff (List.cons_ne_nil _ _)).mpr hfound
        have hparse := (ParseCase.noLine (c := HttpContent.new) rfl hcut).eq
        rw [arrive, hparse, afterCall, if_pos ⟨rfl, rfl⟩] at hreach
        refine ih ?_ hreach.1 hcrlf hrunning
        rintro rfl
        rw [received_nil, List.append_nil] at hcrlf
        exact hfound hcrlf

/-- **Bytes behind a complete request** are left alone when they have no CRLF, or
when no callback comes. -/
theorem serve_unread_iff {chunks : List Chunk} {s : Session} {u : Bytes}
    (hs : s.Reads (.reading HttpContent.new u)) :
    ((srv.serve s chunks).running = true ∧
        (u ++ received chunks).length ≤
          (srv.serve s chunks).session.conn.inputBuffer.readable.length) ↔
      (chunks ≠ [] → ¬ kCRLF <:+: u ++ received chunks) := by
  constructor
  · rintro ⟨hrunning, hle⟩ hne hcrlf
    exact absurd (srv.serve_unread_lt chunks hne hs hcrlf hrunning) (Nat.not_lt.mpr hle)
  · intro h
    by_cases hne : chunks = []
    · subst hne
      refine ⟨rfl, ?_⟩
      rw [received_nil, List.append_nil]
      exact Nat.le_of_eq (congrArg List.length hs.2.2.2.symm)
    · obtain ⟨-, hend⟩ := srv.serve_reads chunks hs
      rw [srv.arriveAll_line_free (chunks.map Chunk.bytes) (h hne)] at hend
      have hrunning : (srv.serve s chunks).running = true := by
        by_contra hn
        rw [if_neg hn] at hend
        cases hend
      rw [if_pos hrunning] at hend
      exact ⟨hrunning, Nat.le_of_eq (congrArg List.length hend.2.2.2.symm)⟩

theorem serve_line_free {chunks : List Chunk} {s : Session} {u : Bytes}
    (hs : s.Reads (.reading HttpContent.new u))
    (h : chunks ≠ [] → ¬ kCRLF <:+: u ++ received chunks) :
    (srv.serve s chunks).requests = [] := by
  by_cases hne : chunks = []
  · subst hne
    rfl
  · rw [(srv.serve_reads chunks hs).1, srv.arriveAll_line_free (chunks.map Chunk.bytes) (h hne)]
    rfl

end HttpServer

/-! ## Which callback completes a request -/

/-- The request is dispatched, and the rest happens behind it. -/
def Served.behind (served : Served) (request : HttpRequest) : Served :=
  { served with requests := request :: served.requests }

namespace HttpServer

variable (srv : HttpServer)

/-- **The callback that completes a request** is the first one that can, and the
callbacks behind it start on what is left. -/
theorem serve_completes : ∀ (chunks : List Chunk) {s : Session} {c c' : HttpContent}
    {u rest : Bytes}, chunks ≠ [] → s.Reads (.reading c u) →
    parseBytes c (u ++ received chunks) = .ok (true, c', rest) → c'.getCompleteRequest = true →
    ¬ srv.Closes c'.request →
    ∃ earlier chunk later t u', chunks = earlier ++ chunk :: later ∧
      (earlier = [] ∨ ¬ Decided c (u ++ received earlier)) ∧ rest = u' ++ received later ∧
      t.Reads (.reading HttpContent.new u') ∧
      srv.serve s chunks = (srv.serve t later).behind c'.request := by
  intro chunks
  induction chunks with
  | nil =>
      intro s c c' u rest hne
      exact absurd rfl hne
  | cons chunk chunks ih =>
      intro s c c' u rest _ hs hparse hc hopen
      rw [received_cons, ← List.append_assoc] at hparse
      have hreach := srv.handleMessage_reaches hs chunk
      rcases hfirst : parseBytes c (u ++ chunk.bytes) with f | ⟨r, c₁, u₁⟩
      · rw [parseBytes_fault (received chunks) hfirst] at hparse
        cases hparse
      rcases hcall : srv.handleMessage chunk.now (.data chunk.bytes) s with f | ⟨request, t⟩
      · rw [hcall, arrive, hfirst] at hreach
        have hcrashed : (srv.afterCall (.ok (r, c₁, u₁))).2 = .crashed := hreach.2
        exact absurd hcrashed (srv.afterCall_ne_crashed _)
      rw [hcall, arrive, hfirst] at hreach
      by_cases hw : Waits r c₁
      · rw [afterCall, if_pos hw] at hreach
        obtain ⟨ht, hnone⟩ := hreach
        obtain rfl : request = none := Option.toList_eq_nil_iff.mp hnone
        have hresume := parseBytes_resume (received chunks) hfirst hw
        have hne : chunks ≠ [] := by
          rintro rfl
          rw [received_nil, List.append_nil, hfirst] at hparse
          cases hparse
          exact not_waits_of_complete hc hw
        rw [hresume] at hparse
        obtain ⟨earlier, chunk', later, t', u', rfl, hearlier, hrest, ht', hserve⟩ :=
          ih hne ht hparse hc hopen
        refine ⟨chunk :: earlier, chunk', later, t', u', rfl, Or.inr ?_, hrest, ht', ?_⟩
        · have hundecided : ¬ Decided c₁ (u₁ ++ received earlier) := by
            rcases hearlier with rfl | hearlier
            · rw [received_nil, List.append_nil]
              exact (idle_of_waits hfirst hw).not_decided
            · exact hearlier
          rintro ⟨r', c₂, rest', hd, hn⟩
          rw [received_cons, ← List.append_assoc, parseBytes_resume _ hfirst hw] at hd
          exact hundecided ⟨r', c₂, rest', hd, hn⟩
        · simp only [serve, hcall, hserve]
          rfl
      · rw [parseBytes_decided (received chunks) hfirst hw] at hparse
        cases hparse
        rw [afterCall, if_neg hw, if_pos rfl, if_neg hopen] at hreach
        obtain ⟨ht, hrequest⟩ := hreach
        refine ⟨[], chunk, chunks, t, u₁, rfl, Or.inl rfl, rfl, ht, ?_⟩
        simp only [serve, hcall, hrequest]
        rfl

end HttpServer

end TinyMuduo
