import TinyMuduo.Lib.Accounts
import TinyMuduo.Util.TcpServer

/-!
# The lifecycle of a connection

An abstract server in which every connection goes through one life, from
`HandleNewConnection` to the closing of its descriptor, independently of all
others (`callsOn_lives`), and what the tables, queues and pollers of `TcpServer`
hold when the connections stand at given points of their lives (`Refines`).
-/

namespace TinyMuduo

open Transition Accounts

/-! ## Lives -/

inductive LifeCall where
  | handleNewConnection
  | connectionEstablished
  | handleClose
  | handleCloseInLoop
  | connectionDestructor
  | destructor
deriving DecidableEq

inductive LifePhase where
  | absent
  | connecting
  | connected
  | closing
  | erased
  | removed
  | closed
deriving DecidableEq

/-- The calls made so far. -/
def LifePhase.calls : LifePhase → List LifeCall
  | .absent => []
  | .connecting => [.handleNewConnection]
  | .connected => [.handleNewConnection, .connectionEstablished]
  | .closing => [.handleNewConnection, .connectionEstablished, .handleClose]
  | .erased => [.handleNewConnection, .connectionEstablished, .handleClose, .handleCloseInLoop]
  | .removed => [.handleNewConnection, .connectionEstablished, .handleClose, .handleCloseInLoop,
      .connectionDestructor]
  | .closed => [.handleNewConnection, .connectionEstablished, .handleClose, .handleCloseInLoop,
      .connectionDestructor, .destructor]

/-- A phase, the connection's own loop and its descriptor. -/
structure Life where
  phase : LifePhase
  loop : ℕ
  fd : ℕ

inductive Life.Step : Life → LifeCall → Life → Prop where
  | handleNewConnection {life : Life} (h : life.phase = .absent) (loop fd : ℕ) :
      Step life .handleNewConnection ⟨.connecting, loop, fd⟩
  | connectionEstablished {loop fd : ℕ} :
      Step ⟨.connecting, loop, fd⟩ .connectionEstablished ⟨.connected, loop, fd⟩
  | handleClose {loop fd : ℕ} : Step ⟨.connected, loop, fd⟩ .handleClose ⟨.closing, loop, fd⟩
  | handleCloseInLoop {loop fd : ℕ} :
      Step ⟨.closing, loop, fd⟩ .handleCloseInLoop ⟨.erased, loop, fd⟩
  | connectionDestructor {loop fd : ℕ} :
      Step ⟨.erased, loop, fd⟩ .connectionDestructor ⟨.removed, loop, fd⟩
  | destructor {loop fd : ℕ} : Step ⟨.removed, loop, fd⟩ .destructor ⟨.closed, loop, fd⟩

theorem Life.Step.calls {life life' : Life} {c : LifeCall} (h : life.Step c life') :
    life'.phase.calls = life.phase.calls ++ [c] := by
  cases h with
  | handleNewConnection h _ _ =>
      rw [h]
      rfl
  | _ => rfl

theorem LifePhase.calls_prefix (phase : LifePhase) : phase.calls <+: LifePhase.closed.calls := by
  cases phase <;> decide

/-- Any number of lives side by side. -/
def lives : LTS (ConnectionId → Life) (ConnectionId × LifeCall) where
  init a := ∀ p, (a p).phase = .absent
  step a k b := ∃ life, (a k.1).Step k.2 life ∧ b = Function.update a k.1 life

def callsOn (p : ConnectionId) (calls : List (ConnectionId × LifeCall)) : List LifeCall :=
  calls.filterMap fun k => if k.1 = p then some k.2 else none

/-- **Each life has gone through exactly the calls of its phase.** -/
theorem callsOn_lives {ms : List (Move (ConnectionId → Life) (ConnectionId × LifeCall))}
    {a : ConnectionId → Life} (h : Run lives ms a) (p : ConnectionId) :
    callsOn p (labels ms) = (a p).phase.calls := by
  refine Run.history (I := fun ms a => callsOn p (labels ms) = (a p).phase.calls) ?_ ?_ h
  · intro a ha
    rw [ha p]
    rfl
  · rintro ms a ⟨q, c⟩ b - ih ⟨life, hlife, rfl⟩
    rw [labels, List.map_append, callsOn, List.filterMap_append]
    by_cases hq : q = p
    · subst hq
      rw [Function.update_self, hlife.calls, ← ih]
      simp [callsOn, labels]
    · rw [Function.update_of_ne (Ne.symm hq), ← ih]
      simp [callsOn, labels, hq]

/-! ## What a phase says about the server -/

namespace LifePhase

/-- The state of the channel, while there is one. -/
def channelState : LifePhase → Option ChannelState
  | .absent => none
  | .connecting => some .kNew
  | .connected => some .kAdded
  | .closing => some .kDeleted
  | .erased => some .kDeleted
  | .removed => some .kNew
  | .closed => none

/-- In `connections_`. -/
def inMap : LifePhase → Prop
  | .connecting => True
  | .connected => True
  | .closing => True
  | _ => False

/-- In `channels_`. -/
def polled : LifePhase → Prop
  | .connected => True
  | .closing => True
  | .erased => True
  | _ => False

/-- The descriptor is open. -/
def alive (phase : LifePhase) : Prop := phase.channelState ≠ none

end LifePhase

/-- The one functor that is due to be run for a connection, and in which loop. -/
def Life.due (p : ConnectionId) (life : Life) : Option (ℕ × Functor) :=
  match life.phase with
  | .connecting => some (life.loop, .connectionEstablished p)
  | .closing => some (0, .handleCloseInLoop p)
  | .erased => some (life.loop, .connectionDestructor p)
  | _ => none

def Life.Object (life : Life) : Option ConnectionObject → Prop
  | none => life.phase.channelState = none
  | some c => c.loop = life.loop ∧ c.conn.fd = life.fd ∧ c.conn.channel.fd = life.fd ∧
      life.phase.channelState = some c.conn.channel.state

/-- What the kernel reports for a descriptor. -/
def Epoller.registered (e : Epoller ConnectionId) (fd : ℕ) : Option ConnectionId :=
  (e.interest fd).map Prod.fst

/-- The poller of loop `L` knows its own connections. -/
structure Polls (a : ConnectionId → Life) (L : ℕ) (e : Epoller ConnectionId) : Prop where
  channels : Indexes e.channels (fun l : Life => l.phase.polled ∧ l.loop = L) Life.fd a
  interest : Indexes e.registered (fun l : Life => l.phase = .connected ∧ l.loop = L) Life.fd a
  alarms : e.alarms = []

/-- Objects, descriptors, `connections_` and the pollers are what the lives say. -/
structure Tables (s : TcpServer) (a : ConnectionId → Life) : Prop where
  objects : ∀ p, (a p).Object (s.objects p)
  fresh : ∀ p, s.made ≤ p → (a p).phase = .absent
  openFds : ∀ p, (a p).phase.alive → s.openFds (a p).fd = true
  distinct : ∀ p q, (a p).phase.alive → (a q).phase.alive → (a p).fd = (a q).fd → p = q
  connections : Indexes s.connections (fun l : Life => l.phase.inMap) Life.fd a
  pollers : ∀ L, Polls a L (s.loops L).poller

/-- Whose event is still to be handled is connected. -/
def Attends (a : ConnectionId → Life) (L : ℕ) (active : List ConnectionId) : Prop :=
  active.Nodup ∧ ∀ p ∈ active, (a p).phase = .connected ∧ (a p).loop = L

/-- **The server `s` stands where the lives `a` stand.** -/
structure Refines (s : TcpServer) (a : ConnectionId → Life) : Prop where
  tables : Tables s a
  mail : Delivers (fun L => (s.loops L).pending) Functor.connection fun p => (a p).due p
  active : ∀ L, Attends a L (s.loops L).stage.active

end TinyMuduo
