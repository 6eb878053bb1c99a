import TinyMuduo.Http.HttpServer

/-!
# A connection fed with chunks

One `MessageCallback` for each chunk. On bytes the connection is a small machine
(`arrive`) that is reading, shut or crashed, and `serve_refines` connects the
server to it. A callback calls the parser once, so it dispatches at most one
request.
-/

namespace TinyMuduo

/-! ## The server on chunks -/

/-- What one `ReadFd` appends, and the clock at the callback. A chunk may have any length,
while one `readv` brings at most 65536 bytes more than the buffer has room for. -/
structure Chunk where
  bytes : Bytes
  nonempty : bytes ≠ []
  now : Timestamp

/-- What happened on a connection: the requests given to the response callback,
the session, and whether the process survived. -/
structure Served where
  requests : List HttpRequest
  session : Session
  running : Bool

/-- Each chunk is read and followed by one `MessageCallback`. -/
def HttpServer.serve (srv : HttpServer) : Session → List Chunk → Served
  | s, [] => ⟨[], s, true⟩
  | s, chunk :: chunks =>
      match srv.handleMessage chunk.now (.data chunk.bytes) s with
      | .error _ => ⟨[], s, false⟩
      | .ok (request, s) =>
          let served := srv.serve s chunks
          { served with requests := request.toList ++ served.requests }

def received (chunks : List Chunk) : Bytes := (chunks.map Chunk.bytes).flatten

@[simp] theorem received_nil : received [] = [] := rfl

theorem received_cons (chunk : Chunk) (chunks : List Chunk) :
    received (chunk :: chunks) = chunk.bytes ++ received chunks := rfl

theorem received_append (chunks later : List Chunk) :
    received (chunks ++ later) = received chunks ++ received later := by
  rw [received, List.map_append, List.flatten_append]
  rfl

theorem length_received_take (chunks : List Chunk) (n : ℕ) :
    (received (chunks.take n)).length ≤ (received chunks).length := by
  have happ := received_append (chunks.take n) (chunks.drop n)
  rw [List.take_append_drop] at happ
  rw [happ, List.length_append]
  exact Nat.le_add_right _ _

/-! ## The same on bytes -/

structure Reply where
  requests : List HttpRequest
  sent : Bytes

namespace Reply

def nothing : Reply := ⟨[], []⟩

def followedBy (a b : Reply) : Reply := ⟨a.requests ++ b.requests, a.sent ++ b.sent⟩

@[simp] theorem nothing_followedBy (a : Reply) : nothing.followedBy a = a := rfl

@[simp] theorem followedBy_nothing (a : Reply) : a.followedBy nothing = a := by
  simp [followedBy, nothing]

end Reply

/-- A connection between two callbacks. -/
inductive Phase where
  | reading (content : HttpContent) (unread : Bytes)
  | shut
  | crashed

namespace HttpServer

variable (srv : HttpServer)

/-- What `MessageCallback` makes of the result of its one call of the parser. -/
def afterCall : Checked (Bool × HttpContent × Bytes) → Reply × Phase
  | .error _ => (.nothing, .crashed)
  | .ok (r, c, rest) =>
      if Waits r c then (.nothing, .reading c rest)
      else if r then
        (⟨[c.request], srv.responseBytes c.request⟩,
          if srv.Closes c.request then .shut else .reading HttpContent.new rest)
      else (⟨[], badRequest⟩, .shut)

def arrive : Phase → Bytes → Reply × Phase
  | .reading c unread, chunk => srv.afterCall (parseBytes c (unread ++ chunk))
  | phase, _ => (.nothing, phase)

def arriveAll : Phase → List Bytes → Reply × Phase
  | phase, [] => (.nothing, phase)
  | phase, chunk :: chunks =>
      let (reply, phase) := srv.arrive phase chunk
      let (replies, phase) := arriveAll phase chunks
      (reply.followedBy replies, phase)

theorem afterCall_ne_crashed (result : Bool × HttpContent × Bytes) :
    (srv.afterCall (.ok result)).2 ≠ .crashed := by
  obtain ⟨r, c, rest⟩ := result
  rw [afterCall]
  by_cases hw : Waits r c
  · rw [if_pos hw]
    rintro ⟨⟩
  · rw [if_neg hw]
    cases r with
    | false => rintro ⟨⟩
    | true =>
        by_cases hclose : srv.Closes c.request
        · rw [if_pos hclose]
          rintro ⟨⟩
        · rw [if_neg hclose]
          rintro ⟨⟩

end HttpServer

/-! ## The server refines the machine -/

namespace Session

def Shows (s : Session) : Phase → Prop
  | .reading c unread => s.Flowing ∧ s.conn.state = .kConnected ∧ s.conn.content = c ∧
      s.conn.inputBuffer.Inv ∧ s.conn.inputBuffer.readable = unread
  | .shut => s.Flowing ∧ s.conn.state = .kDisconnecting
  | .crashed => False

/-- One callback on the session and one step of the machine go together. -/
def Matches (s : Session) : Checked (Option HttpRequest × Session) → Reply × Phase → Prop
  | .error _, (reply, phase) => reply = .nothing ∧ phase = .crashed
  | .ok (request, t), (reply, phase) => t.Shows phase ∧ request.toList = reply.requests ∧
      t.socket.accepted = s.socket.accepted ++ reply.sent

end Session

namespace HttpServer

variable (srv : HttpServer)

theorem dealWithRequest_spec (request : HttpRequest) {s : Session} (hf : s.Flowing)
    (hs : s.conn.state = .kConnected) :
    (srv.dealWithRequest request s).Flowing ∧
      (srv.dealWithRequest request s).socket.accepted =
        s.socket.accepted ++ srv.responseBytes request ∧
      (srv.dealWithRequest request s).conn = { s.conn with
        state := if srv.Closes request then .kDisconnecting else .kConnected } := by
  have hlive : s.conn.state ≠ .kDisconnected := by rw [hs]; decide
  obtain ⟨hsend, hf', hacc⟩ := Session.send_flowing hf (srv.responseBytes request)
  have hconn : (s.send (srv.responseBytes request)).conn = s.conn := by rw [hsend]
  have hbuffer : (s.sendBuffer ((srv.respond request).appendToBuffer Buffer.new)).1 =
      s.send (srv.responseBytes request) := by
    rw [Session.sendBuffer, if_neg hlive]
    rfl
  simp only [dealWithRequest, hbuffer]
  by_cases hclose : srv.Closes request
  · obtain ⟨hf'', hconn', hacc'⟩ := Session.shutdown_flowing hf'
    rw [if_pos (show (srv.respond request).closeConnection = true from hclose)]
    refine ⟨hf'', hacc'.trans hacc, ?_⟩
    rw [hconn', hconn, if_pos hclose]
  · rw [if_neg (show ¬ (srv.respond request).closeConnection = true from hclose)]
    refine ⟨hf', hacc, ?_⟩
    rw [hconn, if_neg hclose, ← hs]

/-- **One callback on a reading connection.** -/
theorem messageCallback_reading (now : Timestamp) {s : Session} (hf : s.Flowing)
    (hs : s.conn.state = .kConnected) (hi : s.conn.inputBuffer.Inv) :
    s.Matches (srv.messageCallback now s)
      (srv.afterCall (parseBytes s.conn.content s.conn.inputBuffer.readable)) := by
  obtain ⟨time, hstamp⟩ := srv.stamp_spec now s
  have hup : TcpConnection.isShutdown { s.conn with timestamp := time } = false := by
    simp [TcpConnection.isShutdown, hs]
  unfold messageCallback
  simp only [hstamp, hup, Bool.false_eq_true, if_false]
  rcases hcall : s.conn.content.parseContent s.conn.inputBuffer with f | ⟨r, c, b⟩
  · rw [(HttpContent.parseContent_error_iff hi).mp hcall]
    exact ⟨rfl, rfl⟩
  obtain ⟨hb, hbytes⟩ := HttpContent.parseBytes_of_parseContent hi hcall
  rw [hbytes]
  simp only [afterCall, bind, Except.bind, pure, Except.pure]
  -- the session behind the parser
  obtain ⟨t, ht⟩ : ∃ t, t = { s with
      conn := { s.conn with timestamp := time, content := c, inputBuffer := b } } := ⟨_, rfl⟩
  have hft : t.Flowing := by
    rw [ht]
    exact ⟨⟨hf.buffer, hf.writing⟩, hf.empty, hf.full⟩
  have hst : t.conn.state = .kConnected := by rw [ht]; exact hs
  have hacc : t.socket.accepted = s.socket.accepted := by rw [ht]
  have hcontent : t.conn.content = c := by rw [ht]
  have hinput : t.conn.inputBuffer = b := by rw [ht]
  cases r with
  | false =>
      have hnc := not_complete_of_false hbytes
      have hw : ¬ Waits false c := by
        rintro ⟨h, -⟩
        cases h
      simp only [hnc, Bool.false_eq_true, if_false, if_neg hw]
      obtain ⟨-, hf', hacc'⟩ := Session.send_flowing hft badRequest
      obtain ⟨hf'', hconn, hacc''⟩ := Session.shutdown_flowing hf'
      have hstring : t.sendCString badRequest = t.send badRequest := by
        rw [Session.sendCString, show cString badRequest = badRequest by decide]
      rw [← ht, hstring]
      refine ⟨⟨hf'', by rw [hconn]⟩, rfl, ?_⟩
      rw [hacc'', hacc', hacc]
  | true =>
      cases hc : c.getCompleteRequest with
      | false =>
          have hw : Waits true c := ⟨rfl, hc⟩
          simp only [if_true, Bool.false_eq_true, if_false, if_pos hw]
          rw [← ht]
          refine ⟨⟨hft, hst, hcontent, hinput ▸ hb, by rw [hinput]⟩, rfl, ?_⟩
          rw [hacc]
          exact (List.append_nil _).symm
      | true =>
          simp only [if_true, if_neg (not_waits_of_complete hc)]
          rw [← ht]
          obtain ⟨hf', hacc', hconn⟩ := srv.dealWithRequest_spec c.request hft hst
          by_cases hclose : srv.Closes c.request
          · rw [if_pos hclose] at hconn ⊢
            refine ⟨⟨⟨⟨hf'.buffer, hf'.writing⟩, hf'.empty, hf'.full⟩, ?_⟩, rfl, ?_⟩
            · rw [hconn]
            · exact hacc'.trans (by rw [hacc])
          · rw [if_neg hclose] at hconn ⊢
            refine ⟨⟨⟨⟨hf'.buffer, hf'.writing⟩, hf'.empty, hf'.full⟩, ?_, rfl, ?_, ?_⟩, rfl, ?_⟩
            · rw [hconn]
            · rw [hconn]
              exact hinput ▸ hb
            · rw [hconn]
              exact congrArg Buffer.readable hinput
            · exact hacc'.trans (by rw [hacc])

theorem handleMessage_chunk (s : Session) (chunk : Chunk) :
    srv.handleMessage chunk.now (.data chunk.bytes) s =
      srv.messageCallback chunk.now { s with conn := { s.conn with
        inputBuffer := (s.conn.inputBuffer.readFd (.data chunk.bytes)).2 } } := by
  have hcount := Buffer.readFd_count s.conn.inputBuffer chunk.bytes
  have hpos := List.length_pos_iff.mpr chunk.nonempty
  have hsize : 0 < (s.conn.inputBuffer.readFd (.data chunk.bytes)).1 := by omega
  simp only [handleMessage, if_pos hsize]

/-- **One chunk**: the server makes the step of the machine. -/
theorem handleMessage_matches {s : Session} {phase : Phase} (hs : s.Shows phase)
    (chunk : Chunk) :
    s.Matches (srv.handleMessage chunk.now (.data chunk.bytes) s)
      (srv.arrive phase chunk.bytes) := by
  rw [handleMessage_chunk]
  cases phase with
  | reading c unread =>
      obtain ⟨hf, hstate, rfl, hi, rfl⟩ := hs
      obtain ⟨-, hi', hr⟩ := Buffer.readFd_spec hi chunk.bytes
      show s.Matches _ (srv.afterCall (parseBytes _ (_ ++ chunk.bytes)))
      rw [← hr]
      exact srv.messageCallback_reading chunk.now ⟨⟨hf.buffer, hf.writing⟩, hf.empty, hf.full⟩
        hstate hi'
  | shut =>
      obtain ⟨hf, hstate⟩ := hs
      unfold messageCallback
      obtain ⟨time, hstamp⟩ := srv.stamp_spec chunk.now { s with conn := { s.conn with
        inputBuffer := (s.conn.inputBuffer.readFd (.data chunk.bytes)).2 } }
      rw [hstamp]
      simp only [TcpConnection.isShutdown, hstate, decide_true, if_true]
      exact ⟨⟨⟨⟨hf.buffer, hf.writing⟩, hf.empty, hf.full⟩, rfl⟩, rfl,
        (List.append_nil _).symm⟩
  | crashed => exact hs.elim

theorem arriveAll_shut : ∀ chunks : List Bytes, srv.arriveAll .shut chunks = (.nothing, .shut) := by
  intro chunks
  induction chunks with
  | nil => rfl
  | cons chunk chunks ih =>
      simp only [arriveAll, arrive, ih, Reply.nothing_followedBy]

theorem arriveAll_crashed : ∀ chunks : List Bytes,
    srv.arriveAll .crashed chunks = (.nothing, .crashed) := by
  intro chunks
  induction chunks with
  | nil => rfl
  | cons chunk chunks ih =>
      simp only [arriveAll, arrive, ih, Reply.nothing_followedBy]

/-- **The server on chunks refines the machine on bytes.** -/
theorem serve_refines : ∀ (chunks : List Chunk) {s : Session} {phase : Phase}, s.Shows phase →
    (srv.serve s chunks).requests = (srv.arriveAll phase (chunks.map Chunk.bytes)).1.requests ∧
      (srv.serve s chunks).session.socket.accepted =
        s.socket.accepted ++ (srv.arriveAll phase (chunks.map Chunk.bytes)).1.sent ∧
      ((srv.serve s chunks).running = true →
        (srv.serve s chunks).session.Shows (srv.arriveAll phase (chunks.map Chunk.bytes)).2) := by
  intro chunks
  induction chunks with
  | nil =>
      intro s phase hs
      exact ⟨rfl, (List.append_nil _).symm, fun _ => hs⟩
  | cons chunk chunks ih =>
      intro s phase hs
      have hmatch := srv.handleMessage_matches hs chunk
      rw [List.map_cons]
      rcases hstep : srv.arrive phase chunk.bytes with ⟨reply, phase'⟩
      rw [hstep] at hmatch
      rcases hcall : srv.handleMessage chunk.now (.data chunk.bytes) s with f | ⟨request, t⟩
      · rw [hcall] at hmatch
        obtain ⟨rfl, rfl⟩ := hmatch
        simp only [serve, hcall, arriveAll, hstep, arriveAll_crashed]
        refine ⟨rfl, (List.append_nil _).symm, ?_⟩
        rintro ⟨⟩
      · rw [hcall] at hmatch
        obtain ⟨ht, hreq, hacc⟩ := hmatch
        obtain ⟨h₁, h₂, h₃⟩ := ih ht
        simp only [serve, hcall, arriveAll, hstep]
        refine ⟨?_, ?_, h₃⟩
        · rw [h₁, hreq]
          rfl
        · rw [h₂, hacc, List.append_assoc]
          rfl

end HttpServer

end TinyMuduo
