import TinyMuduo.Http.ServedConnection

/-!
# Is a disconnected connection left alone?

`state_` runs through its values in the order of the enumeration, and the fd is
left alone behind `kDisconnected`, as long as nobody calls `Shutdown` on a closed
connection (`disconnected_final_iff`). `Send(Buffer*)` and `Send(const string&)`
test for `kDisconnected`, `Shutdown` does not, and the idle timer may well call it
while `ConnectionDestructor` is queued.
-/

namespace TinyMuduo

open Transition

def ConnectionState.rank : ConnectionState → ℕ
  | .kConnecting => 0
  | .kConnected => 1
  | .kDisconnecting => 2
  | .kDisconnected => 3

theorem ConnectionState.rank_le (a : ConnectionState) : a.rank ≤ kDisconnected.rank := by
  cases a <;> decide

/-- What a history shows when disconnected is final: no step goes back, and none
behind `kDisconnected` makes a system call. -/
structure FinalWhenDisconnected (ms : List (Move ServedConnection ConnectionLabel)) : Prop where
  forward : ∀ m ∈ ms, m.pre.state.rank ≤ m.post.state.rank
  silent : ∀ before m after, ms = before ++ m :: after → m.post.state = .kDisconnected →
    ∀ x ∈ after, x.post.session.socket.log = x.pre.session.socket.log

/-- The label calls `Shutdown` for someone outside of `MessageCallback` and
`HandleWrite`. -/
def ServedConnection.ShutsDown (s : ServedConnection) : ConnectionLabel → Prop
  | .shutdown => True
  | .handleIdleConnection now =>
      (s.session.conn.timestamp.addTime kIdleConnectionTimeOuts).microSeconds < now.microSeconds
  | _ => False

/-! ## On a closed connection -/

namespace Session

theorem handleWrite_closed {s : Session} (h : s.Closed) : s.handleWrite = s := by
  unfold handleWrite
  rw [if_neg (by rw [h.quiet]; decide)]

theorem sendString_closed {s : Session} (h : s.Closed) (message : Bytes) :
    s.sendString message = s := if_pos h.state

theorem sendBuffer_closed {s : Session} (h : s.Closed) (buffer : Buffer) :
    (s.sendBuffer buffer).1 = s := by
  rw [sendBuffer, if_pos h.state]

end Session

/-! ## One step -/

namespace ServedConnection

/-- What the stage says about the connection, when no closed one has been shut
down. -/
structure Staged (s : ServedConnection) : Prop extends Sound s where
  down : s.stage = .closed ∨ s.stage = .removed → s.session.Closed

theorem new_staged (fd : ℕ) (answers : ℕ → WriteAnswer) : (new fd answers).Staged where
  toSound := new_sound fd answers
  down := by rintro (⟨⟨⟩⟩ | ⟨⟨⟩⟩)

variable {srv : HttpServer} {s t : ServedConnection}

theorem Staged.closed (hs : s.Staged) (h : s.state = .kDisconnected) : s.session.Closed := by
  cases hstage : s.stage with
  | made => rw [hs.made hstage] at h; cases h
  | established => rcases hs.up hstage with h' | h' <;> · rw [h'] at h; cases h
  | closed => exact hs.down (Or.inl hstage)
  | removed => exact hs.down (Or.inr hstage)

/-- What a step keeps: the order of the states, and a disconnected connection. -/
def Forward (s t : ServedConnection) : Prop :=
  s.state.rank ≤ t.state.rank ∧
    (s.state = .kDisconnected → t.state = .kDisconnected ∧
      t.session.socket.log = s.session.socket.log)

/-- `Send` and `HandleWrite` keep the state, and do nothing on a closed
connection. -/
theorem Staged.of_sameRead {session : Session} (hs : s.Staged)
    (h : Session.SameRead s.session session)
    (hclosed : s.session.Closed → session = s.session) :
    Staged { s with session := session } ∧ s.Forward { s with session := session } := by
  refine ⟨⟨hs.toSound.of_sameRead h, ?_⟩, ?_, ?_⟩
  · intro hstage
    have hdown := hs.down hstage
    rw [hclosed hdown]
    exact hdown
  · show s.state.rank ≤ session.conn.state.rank
    rw [h.state]
  · intro hdown
    rw [hclosed (hs.closed hdown)]
    exact ⟨hdown, rfl⟩

theorem Staged.shutdown (hs : s.Staged) (hstage : s.stage ≠ .made)
    (hlive : s.state ≠ .kDisconnected) :
    Staged { s with session := s.session.shutdown } ∧
      s.Forward { s with session := s.session.shutdown } := by
  refine ⟨⟨hs.toSound.shutdown hstage, ?_⟩, ?_, ?_⟩
  · intro h
    exact absurd (hs.down h).state hlive
  · show s.state.rank ≤ s.session.shutdown.conn.state.rank
    rw [(Session.shutdown_read s.session).1]
    cases hstate : s.state with
    | kDisconnected => exact absurd hstate hlive
    | _ => decide
  · intro hdown
    exact absurd hdown hlive

/-- **One step**, provided it does not shut down a closed connection. -/
theorem Steps.staged {l : ConnectionLabel} (h : Steps srv s l t) (hs : s.Staged)
    (hok : s.ShutsDown l → s.state ≠ .kDisconnected) : t.Staged ∧ s.Forward t := by
  have hsound := h.sound hs.toSound
  cases h with
  | connectionEstablished hstage =>
      have hstate : s.state = .kConnecting := hs.made hstage
      refine ⟨⟨hsound, by rintro (⟨⟨⟩⟩ | ⟨⟨⟩⟩)⟩, ?_, ?_⟩
      · rw [hstate]
        exact Nat.zero_le _
      · intro hdown
        rw [hstate] at hdown
        cases hdown
  | @handleMessage _ result _ session hstage hcall =>
      have hup := hs.up hstage
      have hlive : s.state ≠ .kDisconnected := by
        rcases hup with hup | hup <;> rw [hup] <;> decide
      obtain ⟨-, ⟨hstay, hstate⟩ | ⟨hstop, hclosed⟩⟩ := handleMessage_spec hs.toSound hcall
      · refine ⟨⟨hsound, ?_⟩, ?_, fun hdown => absurd hdown hlive⟩
        · show s.stageAfter result = .closed ∨ s.stageAfter result = .removed → session.Closed
          rw [hstay]
          rintro (⟨⟨⟩⟩ | ⟨⟨⟩⟩)
        · show s.state.rank ≤ session.conn.state.rank
          rcases hstate with hstate | hstate
          · rw [hstate]
          · rw [hstate]
            rcases hup with hup | hup
            · rw [hup]
              exact Nat.le_succ _
            · rw [hup]
      · refine ⟨⟨hsound, fun _ => hclosed⟩, ?_, fun hdown => absurd hdown hlive⟩
        show s.state.rank ≤ session.conn.state.rank
        rw [hclosed.state]
        exact ConnectionState.rank_le _
  | handleWrite _ =>
      exact hs.of_sameRead (Session.handleWrite_sameRead _) Session.handleWrite_closed
  | sendString _ =>
      exact hs.of_sameRead (Session.sendString_sameRead _ _) fun h => Session.sendString_closed h _
  | sendBuffer _ =>
      exact hs.of_sameRead (Session.sendBuffer_sameRead _ _) fun h => Session.sendBuffer_closed h _
  | shutdown hstage => exact hs.shutdown hstage (hok trivial)
  | @handleIdleConnection now _ hstage =>
      unfold HttpServer.handleIdleConnection
      by_cases hlate :
          (s.session.conn.timestamp.addTime kIdleConnectionTimeOuts).microSeconds < now.microSeconds
      · rw [if_pos hlate]
        exact hs.shutdown hstage (hok hlate)
      · rw [if_neg hlate]
        exact ⟨hs, Nat.le_refl _, fun hdown => ⟨hdown, rfl⟩⟩
  | connectionDestructor hstage =>
      obtain ⟨hsocket, -, -, hend⟩ := destroy_spec s.session
      have hclosed : (destroy s.session).Closed := by
        rcases hstage with hstage | hstage
        · rw [if_pos (hs.up hstage).symm] at hend
          exact hend
        · have hdown := hs.down (Or.inl hstage)
          rw [if_neg (by rw [hdown.state]; decide)] at hend
          exact ⟨hend.1.trans hdown.state, hend.2.trans hdown.quiet⟩
      refine ⟨⟨hsound, fun _ => hclosed⟩, ?_, ?_⟩
      · show s.state.rank ≤ (destroy s.session).conn.state.rank
        rw [hclosed.state]
        exact ConnectionState.rank_le _
      · intro _
        exact ⟨hclosed.state, congrArg Socket.log hsocket⟩

end ServedConnection

/-! ## Runs -/

variable {srv : HttpServer} {fd : ℕ} {answers : ℕ → WriteAnswer}

theorem run_staged {ms : List (Move ServedConnection ConnectionLabel)} {s : ServedConnection}
    (h : Run (servedConnection srv fd answers) ms s)
    (hok : ∀ m ∈ ms, m.pre.ShutsDown m.label → m.pre.state ≠ .kDisconnected) : s.Staged := by
  refine Run.history (I := fun ms s =>
    (∀ m ∈ ms, m.pre.ShutsDown m.label → m.pre.state ≠ .kDisconnected) → s.Staged) ?_ ?_ h hok
  · rintro s rfl -
    exact ServedConnection.new_staged fd answers
  · intro ms s l t _ ih hstep hall
    rw [List.forall_mem_append, List.forall_mem_singleton] at hall
    exact ((ServedConnection.step_cases hstep).staged (ih hall.1) hall.2).1

theorem move_staged {ms : List (Move ServedConnection ConnectionLabel)}
    {m : Move ServedConnection ConnectionLabel} {s : ServedConnection}
    (h : Run (servedConnection srv fd answers) ms s)
    (hok : ∀ m ∈ ms, m.pre.ShutsDown m.label → m.pre.state ≠ .kDisconnected)
    (hm : m ∈ ms) : m.pre.Forward m.post := by
  obtain ⟨before, after, hms⟩ := List.append_of_mem hm
  obtain ⟨hbefore, hstep⟩ := h.split hms
  rw [hms, List.forall_mem_append, List.forall_mem_cons] at hok
  exact ((ServedConnection.step_cases hstep).staged (run_staged hbefore hok.1) hok.2.1).2

/-- A call of `Shutdown` sets `kDisconnecting`. -/
theorem ServedConnection.Steps.shutsDown {s t : ServedConnection} {l : ConnectionLabel}
    (h : Steps srv s l t) (hl : s.ShutsDown l) : t.state = .kDisconnecting := by
  cases h with
  | shutdown _ => exact (Session.shutdown_read s.session).1
  | handleIdleConnection _ _ =>
      show (HttpServer.handleIdleConnection _ s.session).conn.state = _
      rw [HttpServer.handleIdleConnection, if_pos (show _ < _ from hl)]
      exact (Session.shutdown_read s.session).1
  | _ => exact hl.elim

/-- **Disconnected is final exactly when nobody calls `Shutdown` on a connection
that is disconnected.** -/
theorem disconnected_final_iff {ms : List (Move ServedConnection ConnectionLabel)}
    {s : ServedConnection} (h : Run (servedConnection srv fd answers) ms s) :
    FinalWhenDisconnected ms ↔
      ∀ m ∈ ms, m.pre.ShutsDown m.label → m.pre.state ≠ .kDisconnected := by
  constructor
  · intro hfinal m hm hl hdown
    have hback := hfinal.forward m hm
    rw [hdown, (ServedConnection.step_cases (h.move m hm).2).shutsDown hl] at hback
    exact absurd hback (by decide)
  · intro hok
    constructor
    · intro m hm
      exact (move_staged h hok hm).1
    · intro before m after hms hdown x hx
      have hforward : ∀ y ∈ after, y.pre.Forward y.post := by
        intro y hy
        refine move_staged h hok ?_
        rw [hms]
        exact List.mem_append_right _ (List.mem_cons_of_mem _ hy)
      -- `kDisconnected` stays from `m` on
      have hpre := h.since_pre hms (I := fun t => t.state = .kDisconnected) hdown
        (fun y hy hpre _ => ((hforward y hy).2 hpre).1) x hx
      exact ((hforward x hx).2 hpre).2

def idleServer : HttpServer := ⟨true, fun _ response => response, 0⟩

set_option maxRecDepth 8000 in
/-- The idle timer shuts a connection down before the peer closes it. -/
theorem disconnected_final_iff_idle : ∃ ms s,
    Run (servedConnection idleServer 5 fun _ => .full) ms s ∧
    s.state = .kDisconnected ∧ s.session.socket.log = [.shutdown []] ∧
    FinalWhenDisconnected ms := by
  have h := (Run.start (T := servedConnection idleServer 5 fun _ => .full) rfl).moves
    [.connectionEstablished, .handleIdleConnection ⟨8000001⟩, .handleMessage ⟨8000002⟩ (.data []),
      .handleWrite, .connectionDestructor] rfl
  refine ⟨_, _, h, rfl, rfl, (disconnected_final_iff h).mpr ?_⟩
  refine List.forall_mem_cons.mpr ⟨False.elim, List.forall_mem_cons.mpr ⟨?_, ?_⟩⟩
  · rintro - ⟨⟩
  · exact List.forall_mem_cons.mpr ⟨False.elim, List.forall_mem_cons.mpr ⟨False.elim,
      List.forall_mem_singleton.mpr False.elim⟩⟩

set_option maxRecDepth 8000 in
/-- The peer closes a connection, and in the same round the idle timer is due:
`Shutdown` takes the state back and shuts down the fd of a closed connection. -/
theorem disconnected_not_final : ∃ ms m x s,
    Run (servedConnection idleServer 5 fun _ => .full) (ms ++ [m, x]) s ∧
    m.post.state = .kDisconnected ∧ x.label = .handleIdleConnection ⟨8000001⟩ ∧
    x.pre.session.socket.log = [] ∧ x.post.session.socket.log = [.shutdown []] ∧
    s.state = .kDisconnecting ∧ ¬ FinalWhenDisconnected (ms ++ [m, x]) := by
  have h := (Run.start (T := servedConnection idleServer 5 fun _ => .full) rfl).moves
    [.connectionEstablished, .handleMessage ⟨8000000⟩ (.data []),
      .handleIdleConnection ⟨8000001⟩] rfl
  refine ⟨[_], _, _, _, h, rfl, rfl, rfl, rfl, rfl, ?_⟩
  intro hfinal
  have hlast := (List.forall_mem_append.mp hfinal.forward).2
  have hback := List.forall_mem_singleton.mp (List.forall_mem_cons.mp hlast).2
  exact absurd (show ConnectionState.kDisconnected.rank ≤ ConnectionState.kDisconnecting.rank
    from hback) (by decide)

end TinyMuduo
