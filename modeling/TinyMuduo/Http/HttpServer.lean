import TinyMuduo.Http.HttpResponse
import TinyMuduo.Http.Resume
import TinyMuduo.Util.TcpConnection

/-!
# `HttpServer` on one connection

Translation of `HttpServer::MessageCallback` and `DealWithRequest`
(`Http/httpserver.cc`) and of `TcpConnection::HandleMessage`, which calls them.
The response callback is a function of the request and of the response it is
given to fill in.
-/

namespace TinyMuduo

structure HttpServer where
  autoCloseIdleConnection : Bool
  responseCallback : HttpRequest → HttpResponse → HttpResponse
  /-- What an `HttpStatusCode` that was never set reads as. -/
  indeterminate : ℤ

def badRequest : Bytes := ascii "HTTP/1.1 400 Bad Request\r\n\r\n"

namespace HttpServer

/-- The close flag `DealWithRequest` computes. -/
def wantsClose (request : HttpRequest) : Bool :=
  request.getHeader (ascii "Connection") = ascii "Close" ||
    (request.version = some .kHttp10 &&
      request.getHeader (ascii "Connection") ≠ ascii "Keep-Alive")

/-- The response the callback made of a request. -/
def respond (srv : HttpServer) (request : HttpRequest) : HttpResponse :=
  srv.responseCallback request (HttpResponse.new srv.indeterminate (wantsClose request))

def dealWithRequest (srv : HttpServer) (request : HttpRequest) (s : Session) : Session :=
  let response := srv.respond request
  let buffer := response.appendToBuffer Buffer.new
  let s := (s.sendBuffer buffer).1
  if response.closeConnection then s.shutdown else s

/-- `if (auto_close_idleconnection_) connection->UpdateTimestamp(Timestamp::Now())`. -/
def stamp (srv : HttpServer) (now : Timestamp) (s : Session) : Session :=
  if srv.autoCloseIdleConnection then { s with conn := s.conn.updateTimestamp now } else s

/-- `MessageCallback` at time `now`: the request it dispatched, if any. -/
def messageCallback (srv : HttpServer) (now : Timestamp) (s : Session) :
    Checked (Option HttpRequest × Session) :=
  let s := srv.stamp now s
  if s.conn.isShutdown then .ok (none, s)
  else do
    let (parseok, content, input) ← s.conn.content.parseContent s.conn.inputBuffer
    let s := { s with conn := { s.conn with content := content, inputBuffer := input } }
    let s := if parseok then s else (s.sendCString badRequest).shutdown
    if content.getCompleteRequest then
      let s := srv.dealWithRequest content.request s
      return (some content.request,
        { s with conn := { s.conn with content := content.resetContentState } })
    else return (none, s)

/-- `HandleMessage` when the kernel answers the read with `result`. -/
def handleMessage (srv : HttpServer) (now : Timestamp) (result : Buffer.ReadResult)
    (s : Session) : Checked (Option HttpRequest × Session) :=
  let (readSize, input) := s.conn.inputBuffer.readFd result
  let s := { s with conn := { s.conn with inputBuffer := input } }
  if 0 < readSize then srv.messageCallback now s
  else if readSize = 0 then
    let (conn, poller) := s.conn.handleClose () s.poller
    .ok (none, { s with conn := conn, poller := poller })
  else .ok (none, s)

def responseBytes (srv : HttpServer) (request : HttpRequest) : Bytes :=
  ((srv.respond request).appendToBuffer Buffer.new).readable

def Closes (srv : HttpServer) (request : HttpRequest) : Prop :=
  (srv.respond request).closeConnection = true

instance (srv : HttpServer) (request : HttpRequest) : Decidable (srv.Closes request) := by
  unfold Closes
  infer_instance

theorem stamp_spec (srv : HttpServer) (now : Timestamp) (s : Session) :
    ∃ time, srv.stamp now s = { s with conn := { s.conn with timestamp := time } } := by
  unfold stamp
  by_cases h : srv.autoCloseIdleConnection = true
  · exact ⟨now, if_pos h⟩
  · exact ⟨s.conn.timestamp, if_neg h⟩

end HttpServer

/-! ## A connection whose writes all succeed -/

namespace Session

/-- Nothing is pending, and every write will be accepted whole. -/
structure Flowing (s : Session) : Prop extends Coupled s where
  empty : s.output = []
  full : s.socket.answers = fun _ => .full

theorem Flowing.direct {s : Session} (h : s.Flowing) : s.Direct :=
  ⟨h.toCoupled.not_writing.mpr h.empty, h.toCoupled.empty_iff.mpr h.empty⟩

/-- **`Send` hands everything to the kernel at once.** -/
theorem send_flowing {s : Session} (h : s.Flowing) (message : Bytes) :
    s.send message = { s with socket := (s.socket.write message).2 } ∧
      (s.send message).Flowing ∧
      (s.send message).socket.accepted = s.socket.accepted ++ message := by
  have hanswer : s.socket.nextAnswer = .full := by
    rw [Socket.nextAnswer, h.full]
  have hret : (s.socket.write message).1 = message.length := by
    simp only [Socket.write, hanswer, WriteAnswer.returns]
  have hsend : s.send message = { s with socket := (s.socket.write message).2 } := by
    have hnonneg : ¬ (s.socket.write message).1 < 0 := by rw [hret]; omega
    have hrest : ¬ 0 < message.length - (s.socket.write message).1.toNat := by
      rw [hret]
      omega
    rw [send, if_pos (show _ ∧ _ from h.direct)]
    simp only [if_neg hnonneg, keep, if_neg hrest]
  refine ⟨hsend, ?_, ?_⟩
  · rw [hsend]
    exact ⟨⟨h.buffer, h.writing⟩, h.empty, h.full⟩
  · have hstream := (send_spec h.toCoupled message).2.2.2.2
    have hdrops : ¬ s.Drops := by
      rintro ⟨-, href | href⟩
      · rw [hanswer] at href
        cases href
      · rw [hanswer] at href
        cases href
    have hout : (s.send message).output = [] := by
      rw [hsend]
      exact h.empty
    rw [if_neg hdrops, hout, h.empty, List.append_nil, List.append_nil] at hstream
    exact hstream

theorem shutdown_flowing {s : Session} (h : s.Flowing) :
    s.shutdown.Flowing ∧ s.shutdown.conn = { s.conn with state := .kDisconnecting } ∧
      s.shutdown.socket.accepted = s.socket.accepted := by
  obtain ⟨hc, -, hout, hacc, -⟩ := shutdown_spec h.toCoupled
  have hquiet : s.isWriting = false := h.direct.1
  have hshut : s.shutdown = { s with
      conn := { s.conn with state := .kDisconnecting }
      socket := s.socket.shutdown s.output } := by
    unfold shutdown
    exact if_neg (by rw [show Session.isWriting _ = s.isWriting from rfl, hquiet]; decide)
  refine ⟨⟨hc, hout.trans h.empty, ?_⟩, ?_, hacc⟩
  · rw [hshut]
    exact h.full
  · rw [hshut]

end Session

end TinyMuduo
