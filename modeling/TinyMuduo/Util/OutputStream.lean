import TinyMuduo.Lib.Losses
import TinyMuduo.Lib.Transition
import TinyMuduo.Util.TcpConnection

/-!
# The output stream of a connection

Runs of `Send` (all overloads), `HandleWrite` and `Shutdown` on a connection,
against a kernel that answers each `::write` as it likes. Two things hold over
all of them: what the kernel took and what is still buffered make up the
messages that were not dropped (`run_stream`), and the write side is closed
only behind the last byte (`graceful_shutdown`).
-/

namespace TinyMuduo

open Transition

inductive Operation where
  | send (message : Bytes)
  | sendCString (message : Bytes)
  | sendString (message : Bytes)
  | sendBuffer (buffer : Buffer)
  | handleWrite
  | shutdown

/-- What the caller hands to `Send`. -/
def Operation.message : Operation → Bytes
  | .send message => message
  | .sendCString message => cString message
  | .sendString message => message
  | .sendBuffer buffer => buffer.readable
  | .handleWrite => []
  | .shutdown => []

namespace Session

def perform (s : Session) : Operation → Session
  | .send message => s.send message
  | .sendCString message => s.sendCString message
  | .sendString message => s.sendString message
  | .sendBuffer buffer => (s.sendBuffer buffer).1
  | .handleWrite => s.handleWrite
  | .shutdown => s.shutdown

/-- A connection that has not sent anything and is not disconnected. -/
structure Fresh (s : Session) : Prop where
  buffer : s.conn.outputBuffer.Inv
  empty : s.output = []
  quiet : s.isWriting = false
  state : s.conn.state = .kConnecting ∨ s.conn.state = .kConnected
  log : s.socket.log = []

/-- Between operations on a connection that is not disconnected. -/
structure Live (s : Session) : Prop extends Coupled s where
  live : s.conn.state ≠ .kDisconnected

theorem Fresh.toLive {s : Session} (h : s.Fresh) : s.Live where
  buffer := h.buffer
  writing := by rw [h.quiet, h.empty]; simp
  live := by rcases h.state with hs | hs <;> rw [hs] <;> decide

theorem established_fresh (fd : ℕ) (answers : ℕ → WriteAnswer) :
    (established fd answers).Fresh := by
  have hevents : (established fd answers).conn.channel.events = 0 ||| (EPOLLIN ||| EPOLLPRI) :=
    Epoller.update_events () { Channel.new fd with events := 0 ||| (EPOLLIN ||| EPOLLPRI) }
      Epoller.new
  refine ⟨Buffer.new_inv, Buffer.readable_new, ?_, Or.inr rfl, rfl⟩
  rw [isWriting, Channel.isWriting, hevents]
  decide

end Session

def outputSystem : LTS Session Operation where
  init := Session.Fresh
  step s op t := t = s.perform op

/-! ## One operation -/

theorem perform_cases {s : Session} (h : s.conn.state ≠ .kDisconnected) (op : Operation) :
    (op ≠ .shutdown ∧ s.perform op = s.send op.message) ∨ op = .handleWrite ∨ op = .shutdown := by
  cases op with
  | send message => exact Or.inl ⟨by rintro ⟨⟩, rfl⟩
  | sendCString message => exact Or.inl ⟨by rintro ⟨⟩, rfl⟩
  | sendString message => exact Or.inl ⟨by rintro ⟨⟩, if_neg h⟩
  | sendBuffer buffer =>
      refine Or.inl ⟨by rintro ⟨⟩, ?_⟩
      simp only [Session.perform, Session.sendBuffer, if_neg h, Operation.message]
  | handleWrite => exact Or.inr (Or.inl rfl)
  | shutdown => exact Or.inr (Or.inr rfl)

/-- **What one operation does to the stream.** -/
theorem perform_stream {s : Session} (h : s.Live) (op : Operation) :
    (s.perform op).Live ∧
      (s.perform op).socket.accepted ++ (s.perform op).output =
        s.socket.accepted ++ s.output ++ if s.Drops then [] else op.message := by
  rcases perform_cases h.live op with ⟨-, hsend⟩ | rfl | rfl
  · obtain ⟨hc, hstate, -, -, hstream⟩ := Session.send_spec h.toCoupled op.message
    rw [hsend]
    exact ⟨⟨hc, hstate ▸ h.live⟩, hstream⟩
  · obtain ⟨hc, hstate, hstream, -⟩ := Session.handleWrite_spec h.toCoupled
    refine ⟨⟨hc, hstate ▸ h.live⟩, hstream.trans ?_⟩
    rw [Operation.message, ite_self, List.append_nil]
  · obtain ⟨hc, hstate, hout, hacc, -⟩ := Session.shutdown_spec h.toCoupled
    refine ⟨⟨hc, ?_⟩, ?_⟩
    · show s.shutdown.conn.state ≠ _
      rw [hstate]
      decide
    · show s.shutdown.socket.accepted ++ s.shutdown.output = _
      rw [hout, hacc, Operation.message, ite_self, List.append_nil]

/-! ## Nothing is lost but what the direct path drops -/

def messages (ms : List (Move Session Operation)) : Bytes :=
  ms.flatMap fun m => m.label.message

/-- The messages of a run that were not dropped. -/
def keptMessages (ms : List (Move Session Operation)) : Bytes :=
  Losses.arriving (fun m : Move Session Operation => m.pre.Drops) (fun m => m.label.message) ms

theorem run_stream {ms : List (Move Session Operation)} {s : Session}
    (h : Run outputSystem ms s) :
    s.Live ∧ s.socket.accepted ++ s.output = keptMessages ms := by
  refine Run.history
    (I := fun ms s => s.Live ∧ s.socket.accepted ++ s.output = keptMessages ms) ?_ ?_ h
  · intro s hs
    refine ⟨hs.toLive, ?_⟩
    rw [hs.empty, Socket.accepted, hs.log]
    rfl
  · rintro ms s op t - ⟨hlive, hstream⟩ rfl
    obtain ⟨hlive', hstep⟩ := perform_stream hlive op
    refine ⟨hlive', ?_⟩
    rw [hstep, hstream, keptMessages, keptMessages, Losses.arriving_snoc]

/-- **The output stream is intact exactly when no message of the run met a
refusing kernel on the direct path.** -/
theorem output_stream_iff {ms : List (Move Session Operation)} {s : Session}
    (h : Run outputSystem ms s) :
    s.socket.accepted ++ s.output = messages ms ↔
      ∀ m ∈ ms, m.label.message ≠ [] → m.pre.Direct → ¬ m.pre.socket.Refuses := by
  rw [(run_stream h).2]
  refine (Losses.arriving_eq_iff _ _ ms).trans (forall₂_congr fun m _ => ?_)
  constructor
  · intro hd hne hdirect href
    exact hne (hd ⟨hdirect, href⟩)
  · intro hd hdrop
    by_contra hne
    exact hd hne hdrop.1 hdrop.2

/-- Two bytes sent to a kernel that takes one byte at a time. -/
theorem output_stream_iff_partial :
    let s := Session.established 5 fun _ => .atMost 1
    let t := (s.perform (.send (ascii "OK"))).perform .handleWrite
    t.socket.accepted ++ t.output = ascii "OK" := by
  intro s t
  have hrun : Run outputSystem
      [⟨s, .send (ascii "OK"), s.perform (.send (ascii "OK"))⟩,
        ⟨s.perform (.send (ascii "OK")), .handleWrite, t⟩] t :=
    .next (.next (.start (Session.established_fresh 5 _)) rfl) rfl
  refine (output_stream_iff hrun).mpr ?_
  intro m hm hne _ href
  rcases List.mem_cons.mp hm with rfl | hm
  · rcases href with h | h <;> cases h
  · obtain rfl := List.mem_singleton.mp hm
    exact hne rfl

/-- A full socket buffer at the first `Send` loses the message. -/
theorem refused_direct_write_lost :
    ∃ ms s, Run outputSystem ms s ∧ s.socket.answers = (fun _ => .wouldBlock) ∧
      messages ms = ascii "OK" ∧ s.socket.accepted ++ s.output = [] := by
  have hrun := Run.next (T := outputSystem) (l := .send (ascii "OK"))
    (.start (Session.established_fresh 5 fun _ => .wouldBlock)) rfl
  exact ⟨_, _, hrun, rfl, rfl, rfl⟩

/-! ## The write side is closed behind the last byte -/

namespace Session

/-- Each `::shutdown` so far found nothing pending, and a disconnecting
connection with nothing left to send has been shut down. -/
structure Graceful (s : Session) : Prop extends Live s where
  pending : ∀ p ∈ s.socket.shutdowns, p = []
  closed : s.conn.state = .kDisconnecting → s.output = [] → s.socket.shutdowns ≠ []

theorem Fresh.toGraceful {s : Session} (h : s.Fresh) : s.Graceful where
  toLive := h.toLive
  pending := by
    intro p hp
    rw [Socket.mem_shutdowns, h.log] at hp
    cases hp
  closed := by
    intro hs
    rcases h.state with h' | h' <;> rw [h'] at hs <;> cases hs

/-- One more `::shutdown`, under a condition, that finds nothing pending. -/
theorem Graceful.pending_append {s : Session} (h : s.Graceful) {c : Prop} [Decidable c] :
    ∀ p ∈ s.socket.shutdowns ++ (if c then [[]] else []), p = [] := by
  intro p hp
  rcases List.mem_append.mp hp with hp | hp
  · exact h.pending p hp
  · split at hp
    · exact List.mem_singleton.mp hp
    · cases hp

theorem send_graceful {s : Session} (h : s.Graceful) (message : Bytes) :
    (s.send message).Graceful := by
  obtain ⟨hc, hstate, hshut, hpre, -⟩ := send_spec h.toCoupled message
  refine ⟨⟨hc, hstate ▸ h.live⟩, hshut ▸ h.pending, ?_⟩
  intro hd hout
  rw [hstate] at hd
  rw [hout, List.prefix_nil] at hpre
  rw [hshut]
  exact h.closed hd hpre

theorem handleWrite_graceful {s : Session} (h : s.Graceful) : s.handleWrite.Graceful := by
  obtain ⟨hc, hstate, -, hshut⟩ := handleWrite_spec h.toCoupled
  refine ⟨⟨hc, hstate ▸ h.live⟩, ?_, ?_⟩
  · rw [hshut]
    exact h.pending_append
  · intro hd hout
    rw [hstate] at hd
    rw [hshut]
    by_cases hempty : s.output = []
    · exact List.append_ne_nil_of_left_ne_nil (h.closed hd hempty) _
    · rw [if_pos ⟨hempty, hout, hd⟩]
      exact List.append_ne_nil_of_right_ne_nil _ (List.cons_ne_nil _ _)

theorem shutdown_graceful {s : Session} (h : s.Graceful) : s.shutdown.Graceful := by
  obtain ⟨hc, hstate, hout, -, hshut⟩ := shutdown_spec h.toCoupled
  refine ⟨⟨hc, by rw [hstate]; decide⟩, ?_, ?_⟩
  · rw [hshut]
    exact h.pending_append
  · intro _ hnil
    rw [hout] at hnil
    rw [hshut, if_pos hnil]
    exact List.append_ne_nil_of_right_ne_nil _ (List.cons_ne_nil _ _)

end Session

/-- **One operation keeps the close graceful**, and `Shutdown` is never taken
back. -/
theorem perform_graceful {s : Session} (h : s.Graceful) (op : Operation) :
    (s.perform op).Graceful ∧
      (op = .shutdown ∨ s.conn.state = .kDisconnecting →
        (s.perform op).conn.state = .kDisconnecting) := by
  rcases perform_cases h.live op with ⟨hop, hsend⟩ | rfl | rfl
  · rw [hsend]
    refine ⟨Session.send_graceful h op.message, ?_⟩
    rintro (hx | hx)
    · exact absurd hx hop
    · exact (Session.send_spec h.toCoupled op.message).2.1.trans hx
  · refine ⟨Session.handleWrite_graceful h, ?_⟩
    rintro (hx | hx)
    · cases hx
    · exact (Session.handleWrite_spec h.toCoupled).2.1.trans hx
  · exact ⟨Session.shutdown_graceful h, fun _ => (Session.shutdown_spec h.toCoupled).2.1⟩

/-- **Graceful shutdown.** In every state between operations `EPOLLOUT` is
enabled exactly while output is pending, no `::shutdown` was issued with output
pending, and once `Shutdown` has been called an empty output buffer means that
`::shutdown` has been issued. -/
theorem graceful_shutdown {ms : List (Move Session Operation)} {s : Session}
    (h : Run outputSystem ms s) :
    (s.isWriting = true ↔ s.output ≠ []) ∧
      (∀ pending, .shutdown pending ∈ s.socket.log → pending = []) ∧
      ((∃ m ∈ ms, m.label = .shutdown) → s.output = [] →
        ∃ pending, .shutdown pending ∈ s.socket.log) := by
  have hinv : s.Graceful ∧
      ((∃ m ∈ ms, m.label = .shutdown) → s.conn.state = .kDisconnecting) := by
    refine Run.history (I := fun ms s => s.Graceful ∧
      ((∃ m ∈ ms, m.label = .shutdown) → s.conn.state = .kDisconnecting)) ?_ ?_ h
    · intro s hs
      exact ⟨hs.toGraceful, by rintro ⟨m, hm, -⟩; cases hm⟩
    · rintro ms s op t - ⟨hg, hcalled⟩ rfl
      obtain ⟨hg', hstate⟩ := perform_graceful hg op
      refine ⟨hg', ?_⟩
      rintro ⟨m, hm, hlabel⟩
      apply hstate
      rcases List.mem_append.mp hm with hm | hm
      · exact Or.inr (hcalled ⟨m, hm, hlabel⟩)
      · obtain rfl := List.mem_singleton.mp hm
        exact Or.inl hlabel
  obtain ⟨hg, hcalled⟩ := hinv
  refine ⟨hg.writing, ?_, ?_⟩
  · intro pending hmem
    exact hg.pending pending (Socket.mem_shutdowns.mpr hmem)
  · intro hshutdown hnil
    obtain ⟨p, hp⟩ := List.exists_mem_of_ne_nil _ (hg.closed (hcalled hshutdown) hnil)
    exact ⟨p, Socket.mem_shutdowns.mp hp⟩

/-- `Shutdown` behind a message that did not fit is carried out by the
`HandleWrite` that empties the buffer. -/
theorem graceful_shutdown_deferred :
    ∃ pending, .shutdown pending ∈
      ((((Session.established 5 fun _ => .atMost 1).perform (.send (ascii "OK"))).perform
        .shutdown).perform .handleWrite).socket.log := by
  have hempty : ((((Session.established 5 fun _ => .atMost 1).perform
      (.send (ascii "OK"))).perform .shutdown).perform .handleWrite).output = [] := by
    decide +kernel
  have hrun := Run.next (T := outputSystem) (l := .handleWrite)
    (.next (l := .shutdown)
      (.next (l := .send (ascii "OK"))
        (.start (Session.established_fresh 5 fun _ => .atMost 1)) rfl) rfl) rfl
  exact (graceful_shutdown hrun).2.2
    ⟨_, List.mem_append_left _ (List.mem_append_right _ List.mem_cons_self), rfl⟩ hempty

end TinyMuduo
