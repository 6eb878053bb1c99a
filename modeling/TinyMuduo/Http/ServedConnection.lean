import TinyMuduo.Http.HttpServer
import TinyMuduo.Timer.Timer
import TinyMuduo.Util.OutputStream

/-!
# One connection of the server, from its first callback to its last

The calls a connection of `HttpServer` receives in its loop. `HandleMessage` is
called while the channel is registered, `HandleWrite` also for the rest of the
event in which `HandleClose` was called, and `ConnectionDestructor` last. The
idle timer, and whoever else has a reference, may call at any time after
`ConnectionEstablished`, also when the connection is closed and only a queued
`ConnectionDestructor` keeps it alive. `Send(const char*)` has no caller but
`MessageCallback`.
-/

namespace TinyMuduo

open Transition

def kIdleConnectionTimeOuts : ℚ := 8

namespace HttpServer

/-- `HandleIdleConnection` at time `now` on a connection that still exists. Where
it calls nothing it sets the next timer. -/
def handleIdleConnection (now : Timestamp) (s : Session) : Session :=
  if (s.conn.timestamp.addTime kIdleConnectionTimeOuts).microSeconds < now.microSeconds then
    s.shutdown
  else s

end HttpServer

/-! ## The steps -/

inductive ConnectionStage where
  /-- `ConnectionEstablished` is due. -/
  | made
  | established
  /-- `HandleClose` has been called, and `ConnectionDestructor` is due. -/
  | closed
  /-- `ConnectionDestructor` has been called. -/
  | removed
deriving DecidableEq

structure ServedConnection where
  session : Session
  stage : ConnectionStage

inductive ConnectionLabel where
  | connectionEstablished
  | handleMessage (now : Timestamp) (result : Buffer.ReadResult)
  | handleWrite
  | sendString (message : Bytes)
  | sendBuffer (buffer : Buffer)
  | shutdown
  | handleIdleConnection (now : Timestamp)
  | connectionDestructor

namespace ServedConnection

/-- `HandleNewConnection` made the connection; `answers` is what the kernel will
say to its writes. -/
def new (fd : ℕ) (answers : ℕ → WriteAnswer) : ServedConnection :=
  ⟨⟨TcpConnection.new fd, Epoller.new, ⟨answers, []⟩⟩, .made⟩

abbrev state (s : ServedConnection) : ConnectionState := s.session.conn.state

/-- An end of file is what makes `HandleMessage` call `HandleClose`. -/
def stageAfter (s : ServedConnection) (result : Buffer.ReadResult) : ConnectionStage :=
  if (s.session.conn.inputBuffer.readFd result).1 = 0 then .closed else .established

def establish (s : Session) : Session :=
  let (conn, poller) := s.conn.connectionEstablished () s.poller
  { s with conn := conn, poller := poller }

def destroy (s : Session) : Session :=
  let (conn, poller) := s.conn.connectionDestructor () s.poller
  { s with conn := conn, poller := poller }

def step (srv : HttpServer) (s : ServedConnection) : ConnectionLabel → Option ServedConnection
  | .connectionEstablished =>
      if s.stage = .made then some ⟨establish s.session, .established⟩ else none
  | .handleMessage now result =>
      if s.stage = .established then
        match srv.handleMessage now result s.session with
        | .error _ => none
        | .ok (_, session) => some ⟨session, s.stageAfter result⟩
      else none
  | .handleWrite =>
      if s.stage = .established ∨ s.stage = .closed then
        some { s with session := s.session.handleWrite }
      else none
  | .sendString message =>
      if s.stage ≠ .made then some { s with session := s.session.sendString message } else none
  | .sendBuffer buffer =>
      if s.stage ≠ .made then some { s with session := (s.session.sendBuffer buffer).1 } else none
  | .shutdown =>
      if s.stage ≠ .made then some { s with session := s.session.shutdown } else none
  | .handleIdleConnection now =>
      if srv.autoCloseIdleConnection = true ∧ s.stage ≠ .made then
        some { s with session := HttpServer.handleIdleConnection now s.session }
      else none
  | .connectionDestructor =>
      if s.stage = .established ∨ s.stage = .closed then
        some ⟨destroy s.session, .removed⟩
      else none

inductive Steps (srv : HttpServer) (s : ServedConnection) :
    ConnectionLabel → ServedConnection → Prop where
  | connectionEstablished (h : s.stage = .made) :
      Steps srv s .connectionEstablished ⟨establish s.session, .established⟩
  | handleMessage {now : Timestamp} {result : Buffer.ReadResult} {request : Option HttpRequest}
      {session : Session} (h : s.stage = .established)
      (hcall : srv.handleMessage now result s.session = .ok (request, session)) :
      Steps srv s (.handleMessage now result) ⟨session, s.stageAfter result⟩
  | handleWrite (h : s.stage = .established ∨ s.stage = .closed) :
      Steps srv s .handleWrite { s with session := s.session.handleWrite }
  | sendString {message : Bytes} (h : s.stage ≠ .made) :
      Steps srv s (.sendString message) { s with session := s.session.sendString message }
  | sendBuffer {buffer : Buffer} (h : s.stage ≠ .made) :
      Steps srv s (.sendBuffer buffer) { s with session := (s.session.sendBuffer buffer).1 }
  | shutdown (h : s.stage ≠ .made) :
      Steps srv s .shutdown { s with session := s.session.shutdown }
  | handleIdleConnection {now : Timestamp} (hauto : srv.autoCloseIdleConnection = true)
      (h : s.stage ≠ .made) :
      Steps srv s (.handleIdleConnection now)
        { s with session := HttpServer.handleIdleConnection now s.session }
  | connectionDestructor (h : s.stage = .established ∨ s.stage = .closed) :
      Steps srv s .connectionDestructor ⟨destroy s.session, .removed⟩

theorem step_cases {srv : HttpServer} {s t : ServedConnection} {l : ConnectionLabel}
    (h : s.step srv l = some t) : Steps srv s l t := by
  cases l with
  | connectionEstablished =>
      obtain ⟨hstage, h⟩ := Option.ite_none_right_eq_some.mp h
      exact Option.some.inj h ▸ .connectionEstablished hstage
  | handleMessage now result =>
      obtain ⟨hstage, h⟩ := Option.ite_none_right_eq_some.mp h
      split at h
      · cases h
      · next request session hcall => exact Option.some.inj h ▸ .handleMessage hstage hcall
  | handleWrite =>
      obtain ⟨hstage, h⟩ := Option.ite_none_right_eq_some.mp h
      exact Option.some.inj h ▸ .handleWrite hstage
  | sendString message =>
      obtain ⟨hstage, h⟩ := Option.ite_none_right_eq_some.mp h
      exact Option.some.inj h ▸ .sendString hstage
  | sendBuffer buffer =>
      obtain ⟨hstage, h⟩ := Option.ite_none_right_eq_some.mp h
      exact Option.some.inj h ▸ .sendBuffer hstage
  | shutdown =>
      obtain ⟨hstage, h⟩ := Option.ite_none_right_eq_some.mp h
      exact Option.some.inj h ▸ .shutdown hstage
  | handleIdleConnection now =>
      obtain ⟨⟨hauto, hstage⟩, h⟩ := Option.ite_none_right_eq_some.mp h
      exact Option.some.inj h ▸ .handleIdleConnection hauto hstage
  | connectionDestructor =>
      obtain ⟨hstage, h⟩ := Option.ite_none_right_eq_some.mp h
      exact Option.some.inj h ▸ .connectionDestructor hstage

end ServedConnection

def servedConnection (srv : HttpServer) (fd : ℕ) (answers : ℕ → WriteAnswer) :
    LTS ServedConnection ConnectionLabel :=
  LTS.ofNext (· = ServedConnection.new fd answers) (ServedConnection.step srv)

/-! ## What a callback does -/

/-- What one `MessageCallback` was told and did: the answer of `ParseContent`, if
it was called, the request given to the response callback, and the calls of the
members of the connection that write. -/
structure Report where
  parsed : Option Bool
  dispatched : Option HttpRequest
  calls : List Operation

def Report.nothing : Report := ⟨none, none, []⟩

namespace HttpServer

def dealCalls (srv : HttpServer) (request : HttpRequest) : List Operation :=
  .sendBuffer ((srv.respond request).appendToBuffer Buffer.new) ::
    if (srv.respond request).closeConnection then [.shutdown] else []

/-- `MessageCallback`, as seen by an observer of its calls. -/
def report (srv : HttpServer) (s : Session) : Checked Report :=
  if s.conn.isShutdown then .ok .nothing
  else do
    let (parseok, content, _) ← s.conn.content.parseContent s.conn.inputBuffer
    let calls := if parseok then [] else [.sendCString badRequest, .shutdown]
    if content.getCompleteRequest then
      return ⟨some parseok, some content.request, calls ++ srv.dealCalls content.request⟩
    else return ⟨some parseok, none, calls⟩

def parsed (srv : HttpServer) (now : Timestamp) (s : Session) (c : HttpContent)
    (b : Buffer) : Session :=
  let s := srv.stamp now s
  { s with conn := { s.conn with content := c, inputBuffer := b } }

end HttpServer

/-- The session in which `MessageCallback` is called. -/
def Session.afterRead (s : Session) (result : Buffer.ReadResult) : Session :=
  { s with conn := { s.conn with inputBuffer := (s.conn.inputBuffer.readFd result).2 } }

def Session.withContent (s : Session) (c : HttpContent) : Session :=
  { s with conn := { s.conn with content := c } }

/-- The ways through `MessageCallback`: what an observer sees, and the session it
leaves. -/
inductive CallbackCase (srv : HttpServer) (now : Timestamp) (s : Session) :
    Report → Session → Prop where
  | shut (hstate : s.conn.state = .kDisconnecting) :
      CallbackCase srv now s .nothing (srv.stamp now s)
  | waits {c : HttpContent} {b : Buffer} (hopen : s.conn.state ≠ .kDisconnecting)
      (hparse : s.conn.content.parseContent s.conn.inputBuffer = .ok (true, c, b))
      (hc : c.getCompleteRequest = false) :
      CallbackCase srv now s ⟨some true, none, []⟩ (srv.parsed now s c b)
  | rejected {c : HttpContent} {b : Buffer} (hopen : s.conn.state ≠ .kDisconnecting)
      (hparse : s.conn.content.parseContent s.conn.inputBuffer = .ok (false, c, b)) :
      CallbackCase srv now s ⟨some false, none, [.sendCString badRequest, .shutdown]⟩
        ((srv.parsed now s c b).sendCString badRequest).shutdown
  | dispatched {c : HttpContent} {b : Buffer} (hopen : s.conn.state ≠ .kDisconnecting)
      (hparse : s.conn.content.parseContent s.conn.inputBuffer = .ok (true, c, b))
      (hc : c.getCompleteRequest = true) :
      CallbackCase srv now s ⟨some true, some c.request, srv.dealCalls c.request⟩
        ((srv.dealWithRequest c.request (srv.parsed now s c b)).withContent c.resetContentState)

namespace HttpServer

variable (srv : HttpServer)

theorem stamp_fields (now : Timestamp) (s : Session) :
    (srv.stamp now s).conn.state = s.conn.state ∧
      (srv.stamp now s).conn.content = s.conn.content ∧
      (srv.stamp now s).conn.inputBuffer = s.conn.inputBuffer := by
  obtain ⟨time, hstamp⟩ := srv.stamp_spec now s
  rw [hstamp]
  exact ⟨rfl, rfl, rfl⟩

/-- **Inversion of a callback.** -/
theorem messageCallback_cases {srv : HttpServer} {now : Timestamp} {s t : Session}
    {request : Option HttpRequest} (hb : s.conn.inputBuffer.Inv)
    (h : srv.messageCallback now s = .ok (request, t)) :
    ∃ report, srv.report s = .ok report ∧ report.dispatched = request ∧
      CallbackCase srv now s report t := by
  obtain ⟨hstate, hcontent, hinput⟩ := srv.stamp_fields now s
  unfold messageCallback at h
  unfold report
  by_cases hshut : s.conn.state = .kDisconnecting
  · have hup : (srv.stamp now s).conn.isShutdown = true := by
      rw [TcpConnection.isShutdown, hstate, hshut]
      rfl
    have hup' : s.conn.isShutdown = true := decide_eq_true hshut
    simp only [hup, if_true, Except.ok.injEq, Prod.mk.injEq] at h
    obtain ⟨rfl, rfl⟩ := h
    exact ⟨.nothing, if_pos hup', rfl, .shut hshut⟩
  · have hup : (srv.stamp now s).conn.isShutdown = false := by
      rw [TcpConnection.isShutdown, hstate]
      exact decide_eq_false hshut
    have hup' : s.conn.isShutdown = false := decide_eq_false hshut
    simp only [hup, Bool.false_eq_true, if_false, hcontent, hinput] at h
    simp only [hup', Bool.false_eq_true, if_false]
    rcases hparse : s.conn.content.parseContent s.conn.inputBuffer with f | ⟨r, c, b⟩
    · rw [hparse] at h
      cases h
    rw [hparse] at h
    simp only [bind, Except.bind, pure, Except.pure] at h ⊢
    cases r with
    | false =>
        -- a bad request line leaves no complete request behind
        have hc := not_complete_of_false (HttpContent.parseBytes_of_parseContent hb hparse).2
        simp only [hc, Bool.false_eq_true, if_false, Except.ok.injEq, Prod.mk.injEq] at h ⊢
        obtain ⟨rfl, rfl⟩ := h
        exact ⟨_, rfl, rfl, .rejected hshut hparse⟩
    | true =>
        cases hc : c.getCompleteRequest with
        | false =>
            simp only [hc, if_true, Bool.false_eq_true, if_false, Except.ok.injEq,
              Prod.mk.injEq] at h ⊢
            obtain ⟨rfl, rfl⟩ := h
            exact ⟨_, rfl, rfl, .waits hshut hparse hc⟩
        | true =>
            simp only [hc, if_true, Except.ok.injEq, Prod.mk.injEq] at h ⊢
            obtain ⟨rfl, rfl⟩ := h
            exact ⟨_, rfl, rfl, .dispatched hshut hparse hc⟩

inductive MessageCase (now : Timestamp) (s : Session) :
    Buffer.ReadResult → Option HttpRequest → Session → Prop where
  | callback {bytes : Bytes} {request : Option HttpRequest} {t : Session} (hne : bytes ≠ [])
      (hcall : srv.messageCallback now (s.afterRead (.data bytes)) = .ok (request, t)) :
      MessageCase now s (.data bytes) request t
  | endOfFile : MessageCase now s (.data []) none
      { s with
        conn := ((s.afterRead (.data [])).conn.handleClose () s.poller).1
        poller := ((s.afterRead (.data [])).conn.handleClose () s.poller).2 }
  | error : MessageCase now s .error none s

theorem handleMessage_cases {srv : HttpServer} {now : Timestamp} {s t : Session}
    {result : Buffer.ReadResult} {request : Option HttpRequest}
    (h : srv.handleMessage now result s = .ok (request, t)) :
    srv.MessageCase now s result request t := by
  cases result with
  | error =>
      have h' : (Except.ok (none, s) : Checked (Option HttpRequest × Session)) = .ok (request, t) := h
      cases h'
      exact .error
  | data bytes =>
      have hcount := s.conn.inputBuffer.readFd_count bytes
      simp only [handleMessage] at h
      cases bytes with
      | nil =>
          have hzero : (s.conn.inputBuffer.readFd (.data [])).1 = 0 := hcount
          rw [if_neg (by rw [hzero]; decide), if_pos hzero] at h
          cases h
          exact .endOfFile
      | cons b bytes =>
          rw [if_pos (by rw [hcount]; exact Int.natCast_pos.mpr (Nat.succ_pos _))] at h
          exact .callback (List.cons_ne_nil _ _) h

end HttpServer

/-! ## What the write side leaves alone -/

namespace Session

structure SameRead (s t : Session) : Prop where
  state : t.conn.state = s.conn.state
  content : t.conn.content = s.conn.content
  inputBuffer : t.conn.inputBuffer = s.conn.inputBuffer

theorem keep_sameRead (s : Session) (message : Bytes) (n : ℕ) : SameRead s (s.keep message n) := by
  unfold keep
  split
  · simp only
    split <;> exact ⟨rfl, rfl, rfl⟩
  · exact ⟨rfl, rfl, rfl⟩

theorem send_sameRead (s : Session) (message : Bytes) : SameRead s (s.send message) := by
  unfold send
  split
  · simp only
    split
    · exact ⟨rfl, rfl, rfl⟩
    · have hkeep := keep_sameRead { s with socket := (s.socket.write message).2 } message
        (s.socket.write message).1.toNat
      exact ⟨hkeep.state, hkeep.content, hkeep.inputBuffer⟩
  · exact keep_sameRead _ _ _

theorem sendString_sameRead (s : Session) (message : Bytes) :
    SameRead s (s.sendString message) := by
  unfold sendString
  split
  · exact ⟨rfl, rfl, rfl⟩
  · exact send_sameRead _ _

theorem sendBuffer_sameRead (s : Session) (buffer : Buffer) :
    SameRead s (s.sendBuffer buffer).1 := by
  unfold sendBuffer
  split
  · exact ⟨rfl, rfl, rfl⟩
  · exact send_sameRead _ _

theorem shutdown_read (s : Session) : s.shutdown.conn.state = .kDisconnecting ∧
    s.shutdown.conn.content = s.conn.content ∧
    s.shutdown.conn.inputBuffer = s.conn.inputBuffer := by
  unfold shutdown
  simp only
  split <;> exact ⟨rfl, rfl, rfl⟩

theorem drained_sameRead (s : Session) : SameRead s s.drained := by
  unfold drained
  simp only
  split
  · next hstate =>
      obtain ⟨hs, hc, hi⟩ := shutdown_read s.disableWriting
      exact ⟨hs.trans hstate.symm, hc, hi⟩
  · exact ⟨rfl, rfl, rfl⟩

theorem handleWrite_sameRead (s : Session) : SameRead s s.handleWrite := by
  unfold handleWrite
  split
  · simp only
    split
    · exact ⟨rfl, rfl, rfl⟩
    · split
      · have hdrained := drained_sameRead (retrieveOutput
          { s with socket := (s.socket.write s.output).2 } (s.socket.write s.output).1.toNat)
        exact ⟨hdrained.state, hdrained.content, hdrained.inputBuffer⟩
      · exact ⟨rfl, rfl, rfl⟩
  · exact ⟨rfl, rfl, rfl⟩

end Session

theorem HttpServer.dealWithRequest_read (srv : HttpServer) (request : HttpRequest) (s : Session) :
    (srv.dealWithRequest request s).conn.state =
        (if srv.Closes request then .kDisconnecting else s.conn.state) ∧
      (srv.dealWithRequest request s).conn.content = s.conn.content ∧
      (srv.dealWithRequest request s).conn.inputBuffer = s.conn.inputBuffer := by
  have hsend := Session.sendBuffer_sameRead s ((srv.respond request).appendToBuffer Buffer.new)
  simp only [dealWithRequest]
  by_cases hclose : srv.Closes request
  · obtain ⟨hs, hc, hi⟩ := Session.shutdown_read
      (s.sendBuffer ((srv.respond request).appendToBuffer Buffer.new)).1
    rw [if_pos (show (srv.respond request).closeConnection = true from hclose), if_pos hclose]
    exact ⟨hs, hc.trans hsend.content, hi.trans hsend.inputBuffer⟩
  · rw [if_neg (show ¬ (srv.respond request).closeConnection = true from hclose), if_neg hclose]
    exact ⟨hsend.state, hsend.content, hsend.inputBuffer⟩

/-- A callback leaves the state as it is or shuts the connection down, and its
input buffer is well formed again. -/
theorem CallbackCase.read {srv : HttpServer} {now : Timestamp} {s t : Session}
    {report : Report} (hb : s.conn.inputBuffer.Inv) (h : CallbackCase srv now s report t) :
    (t.conn.state = s.conn.state ∨ t.conn.state = .kDisconnecting) ∧ t.conn.inputBuffer.Inv := by
  obtain ⟨hstate, -, hinput⟩ := srv.stamp_fields now s
  cases h with
  | shut _ => exact ⟨Or.inl hstate, hinput ▸ hb⟩
  | waits _ hparse _ =>
      exact ⟨Or.inl hstate, (HttpContent.parseBytes_of_parseContent hb hparse).1⟩
  | @rejected c b _ hparse =>
      obtain ⟨hs, -, hi⟩ := Session.shutdown_read ((srv.parsed now s c b).sendCString badRequest)
      have hsend := Session.send_sameRead (srv.parsed now s c b) (cString badRequest)
      exact ⟨Or.inr hs,
        (hi.trans hsend.inputBuffer) ▸ (HttpContent.parseBytes_of_parseContent hb hparse).1⟩
  | @dispatched c b _ hparse _ =>
      obtain ⟨hs, -, hi⟩ := srv.dealWithRequest_read c.request (srv.parsed now s c b)
      constructor
      · by_cases hclose : srv.Closes c.request
        · rw [if_pos hclose] at hs
          exact Or.inr hs
        · rw [if_neg hclose] at hs
          exact Or.inl (hs.trans hstate)
      · show (srv.dealWithRequest c.request (srv.parsed now s c b)).conn.inputBuffer.Inv
        rw [hi]
        exact (HttpContent.parseBytes_of_parseContent hb hparse).1

/-! ## What the stage says -/

namespace Session

/-- `kDisconnected`, and `DisableAll` has been called. -/
structure Closed (s : Session) : Prop where
  state : s.conn.state = .kDisconnected
  quiet : s.isWriting = false

end Session

theorem Channel.isWriting_disableAll {ι : Type} [DecidableEq ι] (p : ι) (c : Channel)
    (e : Epoller ι) : (c.disableAll p e).1.isWriting = false := by
  simp [disableAll, isWriting]

namespace ServedConnection

/-- The input buffer is well formed, and an established connection is up. -/
structure Sound (s : ServedConnection) : Prop where
  input : s.session.conn.inputBuffer.Inv
  made : s.stage = .made → s.state = .kConnecting
  up : s.stage = .established → s.state = .kConnected ∨ s.state = .kDisconnecting

theorem new_sound (fd : ℕ) (answers : ℕ → WriteAnswer) : (new fd answers).Sound where
  input := Buffer.new_inv
  made := fun _ => rfl
  up := by rintro ⟨⟩

theorem stageAfter_data (s : ServedConnection) {bytes : Bytes} (hne : bytes ≠ []) :
    s.stageAfter (.data bytes) = .established := by
  have hcount := s.session.conn.inputBuffer.readFd_count bytes
  have hpos := List.length_pos_iff.mpr hne
  exact if_neg (by omega)

theorem stageAfter_endOfFile (s : ServedConnection) : s.stageAfter (.data []) = .closed :=
  if_pos (s.session.conn.inputBuffer.readFd_count [])

theorem stageAfter_error (s : ServedConnection) : s.stageAfter .error = .established :=
  if_neg (show ¬ (-1 : ℤ) = 0 by decide)

variable {srv : HttpServer} {s t : ServedConnection}

/-- **`HandleMessage` goes on, shuts down or closes.** -/
theorem handleMessage_spec {now : Timestamp} {result : Buffer.ReadResult}
    {request : Option HttpRequest} {session : Session} (hs : s.Sound)
    (h : srv.handleMessage now result s.session = .ok (request, session)) :
    session.conn.inputBuffer.Inv ∧
      ((s.stageAfter result = .established ∧
          (session.conn.state = s.state ∨ session.conn.state = .kDisconnecting)) ∨
        (s.stageAfter result = .closed ∧ session.Closed)) := by
  cases HttpServer.handleMessage_cases h with
  | @callback bytes _ _ hne hcall =>
      obtain ⟨-, hinput, -⟩ := Buffer.readFd_spec hs.input bytes
      obtain ⟨report, -, -, hcase⟩ := HttpServer.messageCallback_cases hinput hcall
      obtain ⟨hstate, hinput'⟩ := hcase.read hinput
      exact ⟨hinput', Or.inl ⟨s.stageAfter_data hne, hstate⟩⟩
  | endOfFile =>
      exact ⟨(Buffer.readFd_spec hs.input []).2.1, Or.inr ⟨s.stageAfter_endOfFile, rfl,
        Channel.isWriting_disableAll () _ _⟩⟩
  | error => exact ⟨hs.input, Or.inl ⟨s.stageAfter_error, Or.inl rfl⟩⟩

theorem Sound.of_sameRead {session : Session} (hs : s.Sound)
    (h : Session.SameRead s.session session) : Sound { s with session := session } where
  input := h.inputBuffer ▸ hs.input
  made := fun hstage => h.state.trans (hs.made hstage)
  up := fun hstage => (hs.up hstage).imp h.state.trans h.state.trans

theorem Sound.shutdown (hs : s.Sound) (hstage : s.stage ≠ .made) :
    Sound { s with session := s.session.shutdown } := by
  obtain ⟨hstate, -, hinput⟩ := Session.shutdown_read s.session
  constructor
  · exact hinput ▸ hs.input
  · intro h
    exact absurd h hstage
  · intro _
    exact Or.inr hstate

/-- `ConnectionDestructor` leaves the read side alone, and closes a connection
that is up. -/
theorem destroy_spec (s : Session) :
    (destroy s).socket = s.socket ∧ (destroy s).conn.content = s.conn.content ∧
      (destroy s).conn.inputBuffer = s.conn.inputBuffer ∧
      if s.conn.state = .kDisconnecting ∨ s.conn.state = .kConnected then (destroy s).Closed
      else (destroy s).conn.state = s.conn.state ∧ (destroy s).isWriting = s.isWriting := by
  unfold destroy TcpConnection.connectionDestructor
  by_cases hup : s.conn.state = .kDisconnecting ∨ s.conn.state = .kConnected
  · simp only [if_pos hup]
    exact ⟨trivial, trivial, trivial, rfl,
      Channel.isWriting_disableAll () s.conn.channel s.poller⟩
  · simp only [if_neg hup]
    exact ⟨trivial, trivial, trivial, trivial, rfl⟩

theorem Steps.sound {l : ConnectionLabel} (h : Steps srv s l t) (hs : s.Sound) : t.Sound := by
  cases h with
  | connectionEstablished _ => exact ⟨hs.input, by rintro ⟨⟩, fun _ => Or.inl rfl⟩
  | handleMessage hstage hcall =>
      obtain ⟨hinput, ⟨hstay, hstate⟩ | ⟨hstop, -⟩⟩ := handleMessage_spec hs hcall
      · rw [hstay]
        refine ⟨hinput, by rintro ⟨⟩, fun _ => ?_⟩
        rcases hstate with hstate | hstate
        · exact (hs.up hstage).imp hstate.trans hstate.trans
        · exact Or.inr hstate
      · rw [hstop]
        exact ⟨hinput, by rintro ⟨⟩, by rintro ⟨⟩⟩
  | handleWrite _ => exact hs.of_sameRead (Session.handleWrite_sameRead _)
  | sendString _ => exact hs.of_sameRead (Session.sendString_sameRead _ _)
  | sendBuffer _ => exact hs.of_sameRead (Session.sendBuffer_sameRead _ _)
  | shutdown hstage => exact hs.shutdown hstage
  | handleIdleConnection _ hstage =>
      unfold HttpServer.handleIdleConnection
      split
      · exact hs.shutdown hstage
      · exact hs
  | connectionDestructor _ =>
      exact ⟨(destroy_spec s.session).2.2.1 ▸ hs.input, by rintro ⟨⟩, by rintro ⟨⟩⟩

end ServedConnection

theorem run_sound {srv : HttpServer} {fd : ℕ} {answers : ℕ → WriteAnswer}
    {ms : List (Move ServedConnection ConnectionLabel)} {s : ServedConnection}
    (h : Run (servedConnection srv fd answers) ms s) : s.Sound := by
  refine h.invariant (I := ServedConnection.Sound) ?_ ?_
  · rintro s rfl
    exact ServedConnection.new_sound fd answers
  · intro s l t hs hstep
    exact (ServedConnection.step_cases hstep).sound hs

end TinyMuduo
