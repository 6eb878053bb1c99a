import TinyMuduo.Base.Timestamp
import TinyMuduo.Http.HttpContent
import TinyMuduo.Util.Epoller

/-!
# `TcpConnection`

Translation of `Util/tcpconnection.h` and `Util/tcpconnection.cc`, built with
`NDEBUG`. The members that take part in the lifecycle (`connectionEstablished`,
`handleClose`, `connectionDestructor`) work on a connection and the poller of
its loop; the callbacks they end with are made by the caller. The members that
write to the socket work on a `Session`: the connection, its poller and the
kernel's side of the socket.
-/

namespace TinyMuduo

inductive ConnectionState where
  | kConnecting
  | kConnected
  | kDisconnecting
  | kDisconnected
deriving DecidableEq

structure TcpConnection where
  fd : ℕ
  state : ConnectionState
  channel : Channel
  inputBuffer : Buffer
  outputBuffer : Buffer
  content : HttpContent
  timestamp : Timestamp
deriving DecidableEq

namespace TcpConnection

/-- `TcpConnection(loop, connfd, id)`. -/
def new (connfd : ℕ) : TcpConnection where
  fd := connfd
  state := .kConnecting
  channel := Channel.new connfd
  inputBuffer := Buffer.new
  outputBuffer := Buffer.new
  content := HttpContent.new
  timestamp := Timestamp.new

def isShutdown (c : TcpConnection) : Bool := c.state = .kDisconnecting

def updateTimestamp (now : Timestamp) (c : TcpConnection) : TcpConnection :=
  { c with timestamp := now }

variable {ι : Type} [DecidableEq ι]

/-- `ConnectionEstablished` up to `connection_callback_`. -/
def connectionEstablished (p : ι) (c : TcpConnection) (e : Epoller ι) :
    TcpConnection × Epoller ι :=
  let (channel, e) := c.channel.enableReading p e
  ({ c with state := .kConnected, channel := channel }, e)

/-- `HandleClose` up to `close_callback_`. -/
def handleClose (p : ι) (c : TcpConnection) (e : Epoller ι) : TcpConnection × Epoller ι :=
  let (channel, e) := c.channel.disableAll p e
  ({ c with state := .kDisconnected, channel := channel }, e)

def connectionDestructor (p : ι) (c : TcpConnection) (e : Epoller ι) :
    TcpConnection × Epoller ι :=
  let (c, e) :=
    if c.state = .kDisconnecting ∨ c.state = .kConnected then
      let (channel, e) := c.channel.disableAll p e
      ({ c with state := .kDisconnected, channel := channel }, e)
    else (c, e)
  let (channel, e) := e.remove p c.channel
  ({ c with channel := channel }, e)

end TcpConnection

/-! ## The kernel's side of the socket -/

/-- How the kernel answers one `::write`: it takes everything, at most so many
bytes, or it refuses. -/
inductive WriteAnswer where
  | full
  | atMost (n : ℕ)
  | wouldBlock
  | failed
deriving DecidableEq

def WriteAnswer.returns (len : ℕ) : WriteAnswer → ℤ
  | .full => len
  | .atMost n => (min n len : ℕ)
  | .wouldBlock => -1
  | .failed => -1

/-- The system calls on a connected socket. Each entry of the log also notes
what the kernel does not see: the output still pending at a `::shutdown`. -/
inductive SysCall where
  | write (bytes : Bytes) (returned : ℤ)
  | shutdown (pending : Bytes)
deriving DecidableEq

def SysCall.accepted : SysCall → Bytes
  | .write bytes returned => bytes.take returned.toNat
  | .shutdown _ => []

/-- The answers the kernel will give, by the number of the call, and the calls
made so far. -/
structure Socket where
  answers : ℕ → WriteAnswer
  log : List SysCall

namespace Socket

def nextAnswer (k : Socket) : WriteAnswer := k.answers k.log.length

/-- `::write(fd, bytes, len)`. -/
def write (k : Socket) (bytes : Bytes) : ℤ × Socket :=
  let returned := k.nextAnswer.returns bytes.length
  (returned, { k with log := k.log ++ [.write bytes returned] })

def shutdown (k : Socket) (pending : Bytes) : Socket :=
  { k with log := k.log ++ [.shutdown pending] }

/-- All bytes the kernel has accepted, in order. -/
def accepted (k : Socket) : Bytes := k.log.flatMap SysCall.accepted

/-- What was pending at each `::shutdown`. -/
def shutdowns (k : Socket) : List Bytes :=
  k.log.filterMap fun
    | .shutdown pending => some pending
    | .write _ _ => none

end Socket

/-! ## Writing -/

/-- A connection, the poller of its loop and the kernel's side of its socket. -/
structure Session where
  conn : TcpConnection
  poller : Epoller Unit
  socket : Socket

namespace Session

abbrev output (s : Session) : Bytes := s.conn.outputBuffer.readable

abbrev isWriting (s : Session) : Bool := s.conn.channel.isWriting

def enableWriting (s : Session) : Session :=
  let (channel, poller) := s.conn.channel.enableWriting () s.poller
  { s with conn := { s.conn with channel := channel }, poller := poller }

def disableWriting (s : Session) : Session :=
  let (channel, poller) := s.conn.channel.disableWriting () s.poller
  { s with conn := { s.conn with channel := channel }, poller := poller }

def shutdown (s : Session) : Session :=
  let s := { s with conn := { s.conn with state := .kDisconnecting } }
  if s.isWriting then s else { s with socket := s.socket.shutdown s.output }

def retrieveOutput (s : Session) (len : ℕ) : Session :=
  { s with conn := { s.conn with outputBuffer := s.conn.outputBuffer.retrieve len } }

/-- The end of `HandleWrite`: the output buffer ran empty. -/
def drained (s : Session) : Session :=
  let s := s.disableWriting
  if s.conn.state = .kDisconnecting then s.shutdown else s

def handleWrite (s : Session) : Session :=
  if s.isWriting then
    let (sendSize, socket) := s.socket.write s.output
    let s := { s with socket := socket }
    if sendSize < 0 then s
    else
      let s := s.retrieveOutput sendSize.toNat
      if s.conn.outputBuffer.readableBytes = 0 then s.drained else s
  else s

/-- The end of `Send`: what was not written directly is buffered. -/
def keep (s : Session) (message : Bytes) (sendSize : ℕ) : Session :=
  if 0 < message.length - sendSize then
    let outputBuffer := s.conn.outputBuffer.append (message.drop sendSize)
    let s := { s with conn := { s.conn with outputBuffer := outputBuffer } }
    if s.isWriting then s else s.enableWriting
  else s

/-- `Send(const char*, int)`. -/
def send (s : Session) (message : Bytes) : Session :=
  if s.isWriting = false ∧ s.conn.outputBuffer.readableBytes = 0 then
    let (sendSize, socket) := s.socket.write message
    let s := { s with socket := socket }
    -- `return`: what the kernel refused is not kept either
    if sendSize < 0 then s else s.keep message sendSize.toNat
  else s.keep message 0

/-- `Send(const char*)`. -/
def sendCString (s : Session) (message : Bytes) : Session := s.send (cString message)

/-- `Send(const string&)`. -/
def sendString (s : Session) (message : Bytes) : Session :=
  if s.conn.state = .kDisconnected then s else s.send message

/-- `Send(Buffer*)`. -/
def sendBuffer (s : Session) (buffer : Buffer) : Session × Buffer :=
  if s.conn.state = .kDisconnected then (s, buffer)
  else (s.send buffer.readable, buffer.retrieveAll)

end Session

/-- An established connection on a socket nothing was written to yet. -/
def Session.established (fd : ℕ) (answers : ℕ → WriteAnswer) : Session :=
  let (conn, poller) := (TcpConnection.new fd).connectionEstablished () Epoller.new
  ⟨conn, poller, ⟨answers, []⟩⟩

/-! ## One lemma per operation -/

namespace Socket

theorem mem_shutdowns {k : Socket} {pending : Bytes} :
    pending ∈ k.shutdowns ↔ .shutdown pending ∈ k.log := by
  unfold shutdowns
  rw [List.mem_filterMap]
  constructor
  · rintro ⟨call, hmem, hcall⟩
    cases call with
    | write bytes returned => cases hcall
    | shutdown pending =>
        cases hcall
        exact hmem
  · intro h
    exact ⟨_, h, rfl⟩

/-- The kernel takes nothing and answers `-1`. -/
def Refuses (k : Socket) : Prop := k.nextAnswer = .wouldBlock ∨ k.nextAnswer = .failed

instance (k : Socket) : Decidable k.Refuses := by
  unfold Refuses
  infer_instance

/-- **One `::write`**: refused without effect, or a prefix is taken. -/
theorem write_cases (k : Socket) (bytes : Bytes) :
    (k.Refuses ∧ (k.write bytes).1 < 0 ∧ (k.write bytes).2.accepted = k.accepted ∧
        (k.write bytes).2.shutdowns = k.shutdowns) ∨
      (¬ k.Refuses ∧ ∃ n : ℕ, n ≤ bytes.length ∧ (k.write bytes).1 = n ∧
        (k.write bytes).2.accepted = k.accepted ++ bytes.take n ∧
        (k.write bytes).2.shutdowns = k.shutdowns) := by
  have hshut : ∀ r, (Socket.mk k.answers (k.log ++ [.write bytes r])).shutdowns =
      k.shutdowns := by
    intro r
    simp [shutdowns]
  have hacc : ∀ r : ℤ, (Socket.mk k.answers (k.log ++ [.write bytes r])).accepted =
      k.accepted ++ bytes.take r.toNat := by
    intro r
    simp [accepted, SysCall.accepted]
  unfold write Refuses
  cases k.nextAnswer with
  | full =>
      refine Or.inr ⟨by simp, bytes.length, Nat.le_refl _, rfl, ?_, hshut _⟩
      exact hacc bytes.length
  | atMost n =>
      refine Or.inr ⟨by simp, min n bytes.length, Nat.min_le_right _ _, ?_, ?_, hshut _⟩
      · rfl
      · rw [hacc]
        show _ ++ bytes.take (Int.toNat ((min n bytes.length : ℕ) : ℤ)) = _
        rw [Int.toNat_natCast]
  | wouldBlock =>
      refine Or.inl ⟨Or.inl rfl, Int.negSucc_lt_zero 0, ?_, hshut _⟩
      rw [hacc]
      simp [WriteAnswer.returns]
  | failed =>
      refine Or.inl ⟨Or.inr rfl, Int.negSucc_lt_zero 0, ?_, hshut _⟩
      rw [hacc]
      simp [WriteAnswer.returns]

end Socket

namespace Session

/-- What every operation on a live connection keeps: the output buffer is well
formed and `EPOLLOUT` is enabled exactly while output is pending. -/
structure Coupled (s : Session) : Prop where
  buffer : s.conn.outputBuffer.Inv
  writing : s.isWriting = true ↔ s.output ≠ []

theorem Coupled.empty_iff {s : Session} (h : s.Coupled) :
    s.conn.outputBuffer.readableBytes = 0 ↔ s.output = [] := by
  rw [← Buffer.length_readable h.buffer, List.length_eq_zero_iff]

theorem Coupled.not_writing {s : Session} (h : s.Coupled) :
    s.isWriting = false ↔ s.output = [] := by
  rw [← Bool.not_eq_true, h.writing, not_not]

/-- `Send` takes the direct path. -/
def Direct (s : Session) : Prop :=
  s.isWriting = false ∧ s.conn.outputBuffer.readableBytes = 0

instance (s : Session) : Decidable s.Direct := by
  unfold Direct
  infer_instance

/-- The end of `Send` on a coupled session. -/
theorem keep_spec {s : Session} (h : s.Coupled) (message : Bytes) (n : ℕ) :
    (s.keep message n).Coupled ∧ (s.keep message n).output = s.output ++ message.drop n ∧
      (s.keep message n).socket = s.socket ∧
      (s.keep message n).conn.state = s.conn.state := by
  unfold keep
  by_cases hrest : 0 < message.length - n
  · obtain ⟨hi, hr⟩ := Buffer.append_spec h.buffer (message.drop n)
    have hne : (s.conn.outputBuffer.append (message.drop n)).readable ≠ [] := by
      intro hnil
      rw [hr, List.append_eq_nil_iff] at hnil
      have hlen := congrArg List.length hnil.2
      rw [List.length_drop, List.length_nil] at hlen
      omega
    rw [if_pos hrest]
    by_cases hw : s.isWriting = true
    · simp only [if_pos hw]
      exact ⟨⟨hi, iff_of_true hw hne⟩, hr, trivial, trivial⟩
    · simp only [if_neg hw]
      exact ⟨⟨hi, iff_of_true (Channel.isWriting_enableWriting _ _ _) hne⟩, hr, rfl, rfl⟩
  · rw [if_neg hrest]
    refine ⟨h, ?_, rfl, rfl⟩
    rw [List.drop_eq_nil_of_le (by omega), List.append_nil]

/-- A message on the direct path that the kernel refuses. -/
def Drops (s : Session) : Prop := s.Direct ∧ s.socket.Refuses

instance (s : Session) : Decidable s.Drops := by
  unfold Drops
  infer_instance

/-- **`Send`**: the message joins the stream, unless it is dropped. -/
theorem send_spec {s : Session} (h : s.Coupled) (message : Bytes) :
    (s.send message).Coupled ∧
      (s.send message).conn.state = s.conn.state ∧
      (s.send message).socket.shutdowns = s.socket.shutdowns ∧
      s.output <+: (s.send message).output ∧
      (s.send message).socket.accepted ++ (s.send message).output =
        s.socket.accepted ++ s.output ++ if s.Drops then [] else message := by
  unfold send
  by_cases hd : s.isWriting = false ∧ s.conn.outputBuffer.readableBytes = 0
  · have hempty : s.output = [] := h.not_writing.mp hd.1
    rw [if_pos hd]
    rcases s.socket.write_cases message with
      ⟨href, hneg, hacc, hshut⟩ | ⟨href, n, hn, hret, hacc, hshut⟩
    · simp only [if_pos hneg]
      refine ⟨⟨h.buffer, h.writing⟩, trivial, hshut, List.prefix_refl _, ?_⟩
      rw [if_pos ⟨hd, href⟩, List.append_nil, hacc]
    · have hnonneg : ¬ (s.socket.write message).1 < 0 := by rw [hret]; omega
      simp only [if_neg hnonneg]
      have hto : (s.socket.write message).1.toNat = n := by rw [hret]; rfl
      obtain ⟨hc, hout, hsock, hstate⟩ :=
        keep_spec (s := { s with socket := (s.socket.write message).2 }) ⟨h.buffer, h.writing⟩
          message (s.socket.write message).1.toNat
      refine ⟨hc, hstate, ?_, ⟨_, hout.symm⟩, ?_⟩
      · rw [hsock]
        exact hshut
      · rw [hsock, hout, hto, if_neg fun hx => href hx.2]
        show (s.socket.write message).2.accepted ++ (s.output ++ message.drop n) = _
        rw [hacc, hempty, List.append_nil, List.nil_append, List.append_assoc,
          List.take_append_drop]
  · rw [if_neg hd, if_neg fun hx => hd hx.1]
    obtain ⟨hc, hout, hsock, hstate⟩ := keep_spec h message 0
    refine ⟨hc, hstate, by rw [hsock], ⟨_, hout.symm⟩, ?_⟩
    rw [hsock, hout, List.drop_zero, List.append_assoc]

theorem shutdown_spec {s : Session} (h : s.Coupled) :
    s.shutdown.Coupled ∧ s.shutdown.conn.state = .kDisconnecting ∧
      s.shutdown.output = s.output ∧ s.shutdown.socket.accepted = s.socket.accepted ∧
      s.shutdown.socket.shutdowns =
        s.socket.shutdowns ++ if s.output = [] then [[]] else [] := by
  unfold shutdown
  by_cases hw : s.isWriting = true
  · have hne : s.output ≠ [] := h.writing.mp hw
    simp only [if_pos hw, if_neg hne, List.append_nil]
    exact ⟨⟨h.buffer, h.writing⟩, trivial, trivial, trivial, trivial⟩
  · have hnil : s.output = [] := h.not_writing.mp (Bool.eq_false_iff.mpr hw)
    simp only [if_neg hw, if_pos hnil]
    refine ⟨⟨h.buffer, h.writing⟩, trivial, trivial, ?_, ?_⟩
    · simp [Socket.accepted, Socket.shutdown, SysCall.accepted]
    · simp [Socket.shutdowns, Socket.shutdown, hnil]

/-- The output buffer ran empty: `EPOLLOUT` goes off, and a `Shutdown` that was
waiting for this is carried out. -/
theorem drained_spec {s : Session} (hb : s.conn.outputBuffer.Inv) (hnil : s.output = []) :
    s.drained.Coupled ∧ s.drained.conn.state = s.conn.state ∧ s.drained.output = [] ∧
      s.drained.socket.accepted = s.socket.accepted ∧
      s.drained.socket.shutdowns = s.socket.shutdowns ++
        if s.conn.state = .kDisconnecting then [[]] else [] := by
  have hoff : s.disableWriting.isWriting = false := Channel.isWriting_disableWriting _ _ _
  have hc : s.disableWriting.Coupled := by
    refine ⟨hb, iff_of_false ?_ (not_not.mpr hnil)⟩
    rw [hoff]
    exact Bool.false_ne_true
  have hstate : s.disableWriting.conn.state = s.conn.state := rfl
  have hout : s.disableWriting.output = [] := hnil
  unfold drained
  by_cases hd : s.conn.state = .kDisconnecting
  · obtain ⟨hc', hs', ho', ha', hsh'⟩ := shutdown_spec hc
    rw [if_pos hout] at hsh'
    simp only [hstate, if_pos hd]
    exact ⟨hc', hs'.trans hd.symm, ho'.trans hout, ha', hsh'⟩
  · simp only [hstate, if_neg hd, List.append_nil]
    exact ⟨hc, trivial, hout, rfl, rfl⟩

/-- **`HandleWrite`**: the stream is unchanged, and a pending `Shutdown` is
carried out when the last byte leaves. -/
theorem handleWrite_spec {s : Session} (h : s.Coupled) :
    s.handleWrite.Coupled ∧
      s.handleWrite.conn.state = s.conn.state ∧
      s.handleWrite.socket.accepted ++ s.handleWrite.output =
        s.socket.accepted ++ s.output ∧
      s.handleWrite.socket.shutdowns = s.socket.shutdowns ++
        if s.output ≠ [] ∧ s.handleWrite.output = [] ∧ s.conn.state = .kDisconnecting
        then [[]] else [] := by
  unfold handleWrite
  by_cases hw : s.isWriting = true
  · have hne : s.output ≠ [] := h.writing.mp hw
    rw [if_pos hw]
    rcases s.socket.write_cases s.output with
      ⟨-, hneg, hacc, hshut⟩ | ⟨-, n, hn, hret, hacc, hshut⟩
    · simp only [if_pos hneg]
      refine ⟨⟨h.buffer, h.writing⟩, trivial, by rw [hacc], ?_⟩
      rw [hshut, if_neg fun hx => hne hx.2.1, List.append_nil]
    · have hnonneg : ¬ (s.socket.write s.output).1 < 0 := by rw [hret]; omega
      have hto : (s.socket.write s.output).1.toNat = n := by rw [hret]; rfl
      have hle : n ≤ s.conn.outputBuffer.readableBytes := by
        rw [← Buffer.length_readable h.buffer]
        exact hn
      obtain ⟨hi, hr⟩ := Buffer.retrieve_spec h.buffer hle
      have hstream : (s.socket.write s.output).2.accepted ++ s.output.drop n =
          s.socket.accepted ++ s.output := by
        rw [hacc, List.append_assoc, List.take_append_drop]
      simp only [if_neg hnonneg, hto]
      -- the session behind `Retrieve`
      obtain ⟨t, ht⟩ : ∃ t, t =
          retrieveOutput { s with socket := (s.socket.write s.output).2 } n := ⟨_, rfl⟩
      have hbuf : t.conn.outputBuffer.Inv := by rw [ht]; exact hi
      have hout : t.output = s.output.drop n := by rw [ht]; exact hr
      have hsock : t.socket = (s.socket.write s.output).2 := by rw [ht]; rfl
      have hstate : t.conn.state = s.conn.state := by rw [ht]; rfl
      have hwt : t.isWriting = true := by rw [ht]; exact hw
      rw [← hout, ← hsock] at hstream
      rw [← hsock] at hshut
      rw [← ht, ← Buffer.length_readable hbuf]
      by_cases hempty : t.output = []
      · obtain ⟨hc, hs', ho', ha', hsh'⟩ := drained_spec hbuf hempty
        rw [if_pos (List.length_eq_zero_iff.mpr hempty)]
        refine ⟨hc, hs'.trans hstate, ?_, ?_⟩
        · rw [ha', ho', ← hempty]
          exact hstream
        · rw [hsh', hstate, hshut]
          simp only [hne, ho', ne_eq, not_false_eq_true, true_and]
      · rw [if_neg fun hx => hempty (List.length_eq_zero_iff.mp hx)]
        refine ⟨⟨hbuf, iff_of_true hwt hempty⟩, hstate, hstream, ?_⟩
        rw [if_neg fun hx => hempty hx.2.1, List.append_nil, hshut]
  · have hnil : s.output = [] := h.not_writing.mp (Bool.eq_false_iff.mpr hw)
    rw [if_neg hw, if_neg fun hx => hx.1 hnil, List.append_nil]
    exact ⟨h, rfl, rfl, rfl⟩

end Session

end TinyMuduo
