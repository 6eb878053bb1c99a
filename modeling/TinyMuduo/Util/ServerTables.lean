import TinyMuduo.Util.Lifecycle
import TinyMuduo.Util.Registration

/-!
# A life advances

What each call of a life does to the pollers and to the tables of the server:
both stay determined by the lives.
-/

namespace TinyMuduo

open Accounts

/-! ## One life advances: the pollers -/

namespace LifePhase

theorem alive_of_inMap {phase : LifePhase} (h : phase.inMap) : phase.alive := by
  cases phase <;> first | exact h.elim | (intro hn; cases hn)

theorem alive_of_polled {phase : LifePhase} (h : phase.polled) : phase.alive := by
  cases phase <;> first | exact h.elim | (intro hn; cases hn)

end LifePhase

theorem Epoller.registered_update (e : Epoller ConnectionId) (fd : ℕ)
    (r : Option (ConnectionId × Events)) :
    Epoller.registered { e with interest := Function.update e.interest fd r } =
      Function.update e.registered fd (r.map Prod.fst) := by
  show Option.map Prod.fst ∘ Function.update e.interest fd r = _
  rw [Function.comp_update]
  rfl

namespace Polls

variable {a : ConnectionId → Life} {L : ℕ} {e : Epoller ConnectionId} {p : ConnectionId}

theorem same (h : Polls a L e) {life : Life}
    (hpolled : life.phase.polled ∧ life.loop = L ↔ (a p).phase.polled ∧ (a p).loop = L)
    (hconnected : life.phase = .connected ∧ life.loop = L ↔
      (a p).phase = .connected ∧ (a p).loop = L)
    (hfd : life.phase.polled → life.fd = (a p).fd) :
    Polls (Function.update a p life) L e where
  channels := h.channels.same hpolled fun hl => hfd hl.1
  interest := by
    refine h.interest.same hconnected fun hl => hfd ?_
    rw [hl.1]
    trivial
  alarms := h.alarms

theorem other (h : Polls a L e) {life : Life} (hloop : life.loop = (a p).loop)
    (hL : (a p).loop ≠ L) (hfd : life.fd = (a p).fd) : Polls (Function.update a p life) L e := by
  refine h.same ?_ ?_ fun _ => hfd
  · exact iff_of_false (fun hl => hL (hloop ▸ hl.2)) (fun hl => hL hl.2)
  · exact iff_of_false (fun hl => hL (hloop ▸ hl.2)) (fun hl => hL hl.2)

theorem establish (h : Polls a L e) {fd : ℕ} {events : Events} (hp : a p = ⟨.connecting, L, fd⟩)
    (hchannels : e.channels fd = none) (hinterest : e.registered fd = none) :
    Polls (Function.update a p ⟨.connected, L, fd⟩) L
      { e with
        channels := Function.update e.channels fd (some p)
        interest := Function.update e.interest fd (some (p, events)) } where
  channels := by
    refine h.channels.insert (r := ⟨.connected, L, fd⟩) hchannels ?_ ⟨trivial, rfl⟩
    rw [hp]
    exact fun hl => hl.1.elim
  interest := by
    have hreg := e.registered_update fd (some (p, events))
    show Indexes (Epoller.registered { e with
      interest := Function.update e.interest fd (some (p, events)) }) _ _ _
    rw [hreg]
    refine h.interest.insert (r := ⟨.connected, L, fd⟩) hinterest ?_ ⟨rfl, rfl⟩
    rw [hp]
    rintro ⟨⟨⟩, -⟩
  alarms := h.alarms

theorem close (h : Polls a L e) {fd : ℕ} (hp : a p = ⟨.connected, L, fd⟩) :
    Polls (Function.update a p ⟨.closing, L, fd⟩) L
      { e with interest := Function.update e.interest fd none } where
  channels := by
    refine h.channels.same ?_ ?_
    · rw [hp]
      exact iff_of_true ⟨trivial, rfl⟩ ⟨trivial, rfl⟩
    · intro _
      rw [hp]
  interest := by
    have herase := h.interest.erase (i := p) (r := ⟨.closing, L, fd⟩)
      (by rw [hp]; exact ⟨rfl, rfl⟩) (by rintro ⟨⟨⟩, -⟩)
    rw [e.registered_update]
    rw [hp] at herase
    exact herase
  alarms := h.alarms

theorem remove (h : Polls a L e) {fd : ℕ} (hp : a p = ⟨.erased, L, fd⟩) :
    Polls (Function.update a p ⟨.removed, L, fd⟩) L
      { e with channels := Function.update e.channels fd none } where
  channels := by
    have herase := h.channels.erase (i := p) (r := ⟨.removed, L, fd⟩)
      (by rw [hp]; exact ⟨trivial, rfl⟩) (fun hl => hl.1.elim)
    rw [hp] at herase
    exact herase
  interest := by
    refine h.interest.same ?_ ?_
    · rw [hp]
      exact iff_of_false (by rintro ⟨⟨⟩, -⟩) (by rintro ⟨⟨⟩, -⟩)
    · rintro ⟨⟨⟩, -⟩
  alarms := h.alarms

end Polls

/-! ## One life advances: the tables -/

namespace Tables

variable {s t : TcpServer} {a : ConnectionId → Life} {p : ConnectionId}

theorem of_pollers (h : Tables s a) (hobjects : t.objects = s.objects) (hmade : t.made = s.made)
    (hopen : t.openFds = s.openFds) (hmap : t.connections = s.connections)
    (hpollers : ∀ L, (t.loops L).poller = (s.loops L).poller) : Tables t a where
  objects p := hobjects ▸ h.objects p
  fresh p hp := h.fresh p (hmade ▸ hp)
  openFds p hp := hopen ▸ h.openFds p hp
  distinct := h.distinct
  connections := hmap ▸ h.connections
  pollers L := hpollers L ▸ h.pollers L

theorem object (h : Tables s a) {c : ConnectionObject} (hc : s.objects p = some c) :
    c.loop = (a p).loop ∧ c.conn.fd = (a p).fd ∧ c.conn.channel.fd = (a p).fd ∧
      (a p).phase.channelState = some c.conn.channel.state := by
  have hobject := h.objects p
  rw [hc] at hobject
  exact hobject

/-- Two lives with one descriptor at a time do not exist. -/
theorem fd_ne (h : Tables s a) {q : ConnectionId} (hp : (a p).phase.alive)
    (hq : (a q).phase.alive) (hne : (a q).phase ≠ (a p).phase) : (a q).fd ≠ (a p).fd := by
  intro hfd
  have hpq := h.distinct q p hq hp hfd
  rw [hpq] at hne
  exact hne rfl

/-- **The tables after one life advanced**: only its object, `connections_` and
the pollers are still to be looked at. -/
theorem advance (h : Tables s a) {life : Life} (hfd : life.fd = (a p).fd)
    (hbefore : (a p).phase.alive) (hopen : t.openFds = s.openFds) (hmade : t.made = s.made)
    (hobject : life.Object (t.objects p))
    (hother : ∀ q, q ≠ p → t.objects q = s.objects q)
    (hmap : Indexes t.connections (fun l : Life => l.phase.inMap) Life.fd
      (Function.update a p life))
    (hpollers : ∀ L, Polls (Function.update a p life) L (t.loops L).poller) :
    Tables t (Function.update a p life) := by
  have hsame : ∀ q, (Function.update a p life q).phase.alive →
      (a q).phase.alive ∧ (Function.update a p life q).fd = (a q).fd := by
    intro q hq
    by_cases hqp : q = p
    · rw [hqp, Function.update_self]
      exact ⟨hbefore, hfd⟩
    · rw [Function.update_of_ne hqp] at hq ⊢
      exact ⟨hq, rfl⟩
  constructor
  · intro q
    by_cases hq : q = p
    · rw [hq, Function.update_self]
      exact hobject
    · rw [Function.update_of_ne hq, hother q hq]
      exact h.objects q
  · intro q hq
    have habsent := h.fresh q (hmade ▸ hq)
    have hqp : q ≠ p := by
      rintro rfl
      rw [habsent] at hbefore
      exact hbefore rfl
    rw [Function.update_of_ne hqp]
    exact habsent
  · intro q hq
    obtain ⟨halive, hfd'⟩ := hsame q hq
    rw [hopen, hfd']
    exact h.openFds q halive
  · intro q r hq hr hqr
    obtain ⟨hq', hfdq⟩ := hsame q hq
    obtain ⟨hr', hfdr⟩ := hsame r hr
    exact h.distinct q r hq' hr' (hfdq.symm.trans (hqr.trans hfdr))
  · exact hmap
  · exact hpollers

/-- No `channels_` has the descriptor of a connection that is not polled. -/
theorem channels_free (h : Tables s a) (hp : (a p).phase.alive) (hnot : ¬ (a p).phase.polled)
    (L : ℕ) : (s.loops L).poller.channels (a p).fd = none := by
  refine (h.pollers L).channels.free ?_
  rintro q ⟨hq, -⟩
  apply h.fd_ne hp (LifePhase.alive_of_polled hq)
  intro hphase
  rw [hphase] at hq
  exact hnot hq

/-- No interest set has the descriptor of a connection that is not connected. -/
theorem interest_free (h : Tables s a) (hp : (a p).phase.alive)
    (hnot : (a p).phase ≠ .connected) (L : ℕ) :
    (s.loops L).poller.registered (a p).fd = none := by
  refine (h.pollers L).interest.free ?_
  rintro q ⟨hq, -⟩
  apply h.fd_ne hp
  · rw [hq]
    rintro ⟨⟩
  · rw [hq]
    exact hnot.symm

end Tables

/-! ## The members that work with the poller -/

namespace TcpServer

variable {s t : TcpServer} {p : ConnectionId} {L : ℕ}

@[simp] theorem updateLoop_self (g : ServerLoop → ServerLoop) :
    (s.updateLoop L g).loops L = g (s.loops L) := Function.update_self ..

theorem updateLoop_of_ne {M : ℕ} (g : ServerLoop → ServerLoop) (h : M ≠ L) :
    (s.updateLoop L g).loops M = s.loops M := Function.update_of_ne h ..

theorem updateLoop_keeps {α : Type} {g : ServerLoop → ServerLoop} (f : ServerLoop → α)
    (h : f (g (s.loops L)) = f (s.loops L)) (M : ℕ) :
    f ((s.updateLoop L g).loops M) = f (s.loops M) := by
  by_cases hM : M = L
  · rw [hM, updateLoop_self, h]
  · rw [updateLoop_of_ne g hM]

/-- The state `withPoller` leads to. -/
def setObject (p : ConnectionId) (c : ConnectionObject) (conn : TcpConnection)
    (poller : Epoller ConnectionId) (s : TcpServer) : TcpServer :=
  { s with objects := Function.update s.objects p (some { c with conn := conn }) }.updateLoop
    c.loop fun l => { l with poller := poller }

theorem withPoller_cases
    {member : TcpConnection → Epoller ConnectionId → TcpConnection × Epoller ConnectionId}
    (h : s.withPoller p member = some t) :
    ∃ c, s.objects p = some c ∧
      t = s.setObject p c (member c.conn (s.loops c.loop).poller).1
        (member c.conn (s.loops c.loop).poller).2 := by
  unfold withPoller at h
  split at h
  · cases h
  · next c hc => exact ⟨c, hc, (Option.some.inj h).symm⟩

end TcpServer

namespace Tables

variable {s t : TcpServer} {a : ConnectionId → Life} {p : ConnectionId}

/-- A member turns the channel and changes the poller of its loop. -/
theorem setObject (h : Tables s a) {c : ConnectionObject} (hc : s.objects p = some c)
    {conn : TcpConnection} {state : ChannelState}
    (hturned : TcpConnection.Turned c.conn conn state) {old phase : LifePhase} {L fd : ℕ}
    (hp : a p = ⟨old, L, fd⟩) (hstate : phase.channelState = some state)
    (hmap : phase.inMap ↔ old.inMap) {e : Epoller ConnectionId}
    (hpolls : Polls (Function.update a p ⟨phase, L, fd⟩) L e) :
    Tables (s.setObject p c conn e) (Function.update a p ⟨phase, L, fd⟩) := by
  obtain ⟨hcloop, hcfd, hchannel, hcstate⟩ := h.object hc
  have hbefore : (a p).phase.alive := by
    rw [LifePhase.alive, hcstate]
    rintro ⟨⟩
  have hfd : fd = (a p).fd := by rw [hp]
  have hloop : L = (a p).loop := by rw [hp]
  refine h.advance hfd hbefore rfl rfl ?_ ?_ ?_ ?_
  · show Life.Object ⟨phase, L, fd⟩ (Function.update s.objects p _ p)
    rw [Function.update_self]
    refine ⟨hcloop.trans hloop.symm, ?_, ?_, ?_⟩
    · exact hturned.fd.trans (hcfd.trans hfd.symm)
    · exact hturned.channel_fd.trans (hchannel.trans hfd.symm)
    · rw [hstate, ← hturned.state]
  · intro q hq
    exact Function.update_of_ne hq ..
  · refine h.connections.same ?_ fun _ => hfd
    rw [hp]
    exact hmap
  · intro M
    by_cases hM : M = c.loop
    · rw [hM, TcpServer.setObject, TcpServer.updateLoop_self, hcloop, ← hloop]
      exact hpolls
    · rw [TcpServer.setObject, TcpServer.updateLoop_of_ne _ hM]
      exact (h.pollers M).other hloop (fun he => hM (hcloop.trans he).symm) hfd

theorem connectionEstablished (h : Tables s a) {L fd : ℕ} (hp : a p = ⟨.connecting, L, fd⟩)
    (ht : s.connectionEstablished p = some t) :
    Tables t (Function.update a p ⟨.connected, L, fd⟩) := by
  obtain ⟨c, hc, rfl⟩ := TcpServer.withPoller_cases ht
  obtain ⟨hcloop, -, hchannel, hcstate⟩ := h.object hc
  have hchannels := h.channels_free (p := p) (by rw [hp]; rintro ⟨⟩) (by rw [hp]; exact id) L
  have hinterest := h.interest_free (p := p) (by rw [hp]; rintro ⟨⟩) (by rw [hp]; rintro ⟨⟩) L
  rw [hp] at hcloop hchannel hcstate hchannels hinterest
  obtain ⟨hturned, events, hpoller⟩ := TcpConnection.connectionEstablished_spec (p := p)
    (c := c.conn) (e := (s.loops c.loop).poller) (Option.some.inj hcstate).symm
    (by rw [hchannel, hcloop]; exact hchannels)
    (by rw [hchannel, hcloop]; exact Option.map_eq_none_iff.mp hinterest)
  refine h.setObject hc hturned hp ?_ ?_ ?_
  · rfl
  · exact Iff.rfl
  · rw [hpoller, hchannel, hcloop]
    exact (h.pollers L).establish hp hchannels hinterest

theorem handleClose (h : Tables s a) {L fd : ℕ} (hp : a p = ⟨.connected, L, fd⟩)
    (ht : s.withPoller p (TcpConnection.handleClose p) = some t) :
    Tables t (Function.update a p ⟨.closing, L, fd⟩) := by
  obtain ⟨c, hc, rfl⟩ := TcpServer.withPoller_cases ht
  obtain ⟨hcloop, -, hchannel, hcstate⟩ := h.object hc
  have hchannels := (h.pollers L).channels.get (i := p) (by rw [hp]; exact ⟨trivial, rfl⟩)
  have hinterest := (h.pollers L).interest.get (i := p) (by rw [hp]; exact ⟨rfl, rfl⟩)
  rw [hp] at hcloop hchannel hcstate hchannels hinterest
  obtain ⟨r, hr, -⟩ := Option.map_eq_some_iff.mp hinterest
  obtain ⟨hturned, hpoller⟩ := TcpConnection.handleClose_spec (p := p)
    (c := c.conn) (e := (s.loops c.loop).poller) (Option.some.inj hcstate).symm
    (by rw [hchannel, hcloop]; exact hchannels) (by rw [hchannel, hcloop]; exact hr)
  refine h.setObject hc hturned hp ?_ ?_ ?_
  · rfl
  · exact Iff.rfl
  · rw [hpoller, hchannel, hcloop]
    exact (h.pollers L).close hp

theorem connectionDestructor (h : Tables s a) {L fd : ℕ} (hp : a p = ⟨.erased, L, fd⟩)
    (ht : s.connectionDestructor p = some t) :
    Tables t (Function.update a p ⟨.removed, L, fd⟩) := by
  obtain ⟨c, hc, rfl⟩ := TcpServer.withPoller_cases ht
  obtain ⟨hcloop, -, hchannel, hcstate⟩ := h.object hc
  have hchannels := (h.pollers L).channels.get (i := p) (by rw [hp]; exact ⟨trivial, rfl⟩)
  have hinterest := h.interest_free (p := p) (by rw [hp]; rintro ⟨⟩) (by rw [hp]; rintro ⟨⟩) L
  rw [hp] at hcloop hchannel hcstate hchannels hinterest
  obtain ⟨hturned, hpoller⟩ := TcpConnection.connectionDestructor_spec (p := p)
    (c := c.conn) (e := (s.loops c.loop).poller) (Option.some.inj hcstate).symm
    (by rw [hchannel, hcloop]; exact hchannels)
    (by rw [hchannel, hcloop]; exact Option.map_eq_none_iff.mp hinterest)
  refine h.setObject hc hturned hp ?_ ?_ ?_
  · rfl
  · exact Iff.rfl
  · rw [hpoller, hchannel, hcloop]
    exact (h.pollers L).remove hp

end Tables

/-! ## The members that work with `connections_` -/

namespace TcpServer

variable {s t : TcpServer} {p : ConnectionId}

theorem handleCloseInLoop_cases (h : s.handleCloseInLoop p = some t) :
    ∃ c, s.objects p = some c ∧
      t = { s with connections := Function.update s.connections c.conn.fd none }.queueOneFunc
        c.loop (.connectionDestructor p) := by
  obtain ⟨c, hc, h⟩ := Option.bind_eq_some_iff.mp h
  obtain ⟨-, -, h⟩ := Option.bind_eq_some_iff.mp h
  exact ⟨c, hc, (Option.some.inj h).symm⟩

theorem destroy_cases (h : s.destroy p = some t) :
    ∃ c, s.objects p = some c ∧ t = { s with
      objects := Function.update s.objects p none
      openFds := Function.update s.openFds c.conn.fd false
      loops := fun L =>
        { s.loops L with
          poller :=
            { (s.loops L).poller with
              interest := Function.update (s.loops L).poller.interest c.conn.fd none } } } := by
  unfold destroy at h
  split at h
  · cases h
  · next c hc => exact ⟨c, hc, (Option.some.inj h).symm⟩

theorem shutdown_cases (h : s.shutdown p = some t) :
    ∃ c, s.objects p = some c ∧ t = { s with
      objects := Function.update s.objects p
        (some { c with conn := { c.conn with state := .kDisconnecting } }) } := by
  unfold shutdown at h
  split at h
  · cases h
  · next c hc => exact ⟨c, hc, (Option.some.inj h).symm⟩

end TcpServer

namespace Tables

variable {s t : TcpServer} {a : ConnectionId → Life} {p : ConnectionId}

theorem queueOneFunc (h : Tables s a) (L : ℕ) (f : Functor) : Tables (s.queueOneFunc L f) a :=
  h.of_pollers rfl rfl rfl rfl (TcpServer.updateLoop_keeps ServerLoop.poller rfl)

theorem runOneFunc (h : Tables s a) (caller L : ℕ) (f : Functor) :
    Tables (s.runOneFunc caller L f) a := by
  unfold TcpServer.runOneFunc
  split
  · exact h.of_pollers rfl rfl rfl rfl (TcpServer.updateLoop_keeps ServerLoop.poller rfl)
  · exact h.queueOneFunc L f

theorem handleCloseInLoop (h : Tables s a) {L fd : ℕ} (hp : a p = ⟨.closing, L, fd⟩)
    (ht : s.handleCloseInLoop p = some t) :
    Tables t (Function.update a p ⟨.erased, L, fd⟩) := by
  obtain ⟨c, hc, rfl⟩ := TcpServer.handleCloseInLoop_cases ht
  have hobject := h.object hc
  have herase := h.connections.erase (i := p) (r := ⟨.erased, L, fd⟩)
    (by rw [hp]; trivial) id
  rw [hp] at hobject herase
  apply queueOneFunc
  refine h.advance ?_ ?_ rfl rfl ?_ ?_ ?_ ?_
  · rw [hp]
  · rw [hp]
    rintro ⟨⟩
  · show Life.Object _ (s.objects p)
    rw [hc]
    exact hobject
  · exact fun _ _ => rfl
  · show Indexes (Function.update s.connections c.conn.fd none) _ _ _
    rw [hobject.2.1]
    exact herase
  · intro M
    refine (h.pollers M).same ?_ ?_ ?_
    · rw [hp]
      exact Iff.rfl
    · rw [hp]
      exact iff_of_false (by rintro ⟨⟨⟩, -⟩) (by rintro ⟨⟨⟩, -⟩)
    · intro _
      rw [hp]

/-- `connections_` has no entry at a descriptor that is not open, nor has any
poller. -/
theorem not_open (h : Tables s a) {fd : ℕ} (hfd : s.openFds fd = false)
    (hp : (a p).phase.alive) : (a p).fd ≠ fd := by
  intro he
  have hopen := h.openFds p hp
  rw [he, hfd] at hopen
  cases hopen

theorem connections_free (h : Tables s a) {fd : ℕ} (hfd : s.openFds fd = false) :
    s.connections fd = none :=
  h.connections.free fun _ hq => h.not_open hfd (LifePhase.alive_of_inMap hq)

/-- A new object, a new entry, a new open descriptor. -/
theorem create (h : Tables s a) {fd : ℕ} (hfd : s.openFds fd = false) (L : ℕ)
    (hobjects : t.objects = Function.update s.objects s.made (some ⟨L, TcpConnection.new fd⟩))
    (hmade : t.made = s.made + 1)
    (hconnections : t.connections = Function.update s.connections fd (some s.made))
    (hopen : t.openFds = Function.update s.openFds fd true)
    (hpollers : ∀ M, (t.loops M).poller = (s.loops M).poller) :
    Tables t (Function.update a s.made ⟨.connecting, L, fd⟩) := by
  have habsent := h.fresh s.made (Nat.le_refl _)
  constructor
  · intro q
    rw [hobjects]
    by_cases hq : q = s.made
    · rw [hq, Function.update_self, Function.update_self]
      exact ⟨rfl, rfl, rfl, rfl⟩
    · rw [Function.update_of_ne hq, Function.update_of_ne hq]
      exact h.objects q
  · intro q hq
    rw [hmade] at hq
    rw [Function.update_of_ne (Nat.ne_of_gt hq)]
    exact h.fresh q (Nat.le_of_succ_le hq)
  · intro q hq
    rw [hopen]
    by_cases hqm : q = s.made
    · rw [hqm, Function.update_self, Function.update_self]
    · rw [Function.update_of_ne hqm] at hq ⊢
      rw [Function.update_of_ne (h.not_open hfd hq)]
      exact h.openFds q hq
  · intro q r hq hr hqr
    by_cases hqm : q = s.made
    · by_cases hrm : r = s.made
      · exact hqm.trans hrm.symm
      · rw [Function.update_of_ne hrm] at hr hqr
        rw [hqm, Function.update_self] at hqr
        exact absurd hqr.symm (h.not_open hfd hr)
    · rw [Function.update_of_ne hqm] at hq hqr
      by_cases hrm : r = s.made
      · rw [hrm, Function.update_self] at hqr
        exact absurd hqr (h.not_open hfd hq)
      · rw [Function.update_of_ne hrm] at hr hqr
        exact h.distinct q r hq hr hqr
  · rw [hconnections]
    refine h.connections.insert (r := ⟨.connecting, L, fd⟩) (h.connections_free hfd) ?_ trivial
    rw [habsent]
    exact id
  · intro M
    rw [hpollers M]
    refine (h.pollers M).same ?_ ?_ ?_
    · rw [habsent]
      exact iff_of_false (fun hl => hl.1) (fun hl => hl.1)
    · rw [habsent]
      exact iff_of_false (by rintro ⟨⟨⟩, -⟩) (by rintro ⟨⟨⟩, -⟩)
    · exact fun hl => hl.elim

theorem destroy (h : Tables s a) {L fd : ℕ} (hp : a p = ⟨.removed, L, fd⟩)
    (ht : s.destroy p = some t) : Tables t (Function.update a p ⟨.closed, L, fd⟩) := by
  obtain ⟨c, hc, rfl⟩ := TcpServer.destroy_cases ht
  have hcfd : c.conn.fd = fd := by
    have hobject := h.object hc
    rw [hp] at hobject
    exact hobject.2.1
  have hpalive : (a p).phase.alive := by
    rw [hp]
    rintro ⟨⟩
  have hother : ∀ q, (Function.update a p ⟨.closed, L, fd⟩ q).phase.alive → q ≠ p := by
    rintro q hq rfl
    rw [Function.update_self] at hq
    exact hq rfl
  constructor
  · intro q
    show Life.Object _ (Function.update s.objects p none q)
    by_cases hq : q = p
    · rw [hq, Function.update_self, Function.update_self]
      rfl
    · rw [Function.update_of_ne hq, Function.update_of_ne hq]
      exact h.objects q
  · intro q hq
    have habsent := h.fresh q hq
    have hqp : q ≠ p := by
      rintro rfl
      rw [hp] at habsent
      cases habsent
    rw [Function.update_of_ne hqp]
    exact habsent
  · intro q hq
    have hqp := hother q hq
    rw [Function.update_of_ne hqp] at hq ⊢
    have hne : (a q).fd ≠ c.conn.fd := by
      intro he
      apply hqp
      apply h.distinct q p hq hpalive
      rw [he, hcfd, hp]
    show Function.update s.openFds c.conn.fd false (a q).fd = true
    rw [Function.update_of_ne hne]
    exact h.openFds q hq
  · intro q r hq hr hqr
    have hqp := hother q hq
    have hrp := hother r hr
    rw [Function.update_of_ne hqp] at hq hqr
    rw [Function.update_of_ne hrp] at hr hqr
    exact h.distinct q r hq hr hqr
  · refine h.connections.same ?_ ?_
    · rw [hp]
      exact Iff.rfl
    · exact fun hl => hl.elim
  · intro M
    have hfree : (s.loops M).poller.interest fd = none := by
      have hinterest := h.interest_free hpalive (by rw [hp]; rintro ⟨⟩) M
      rw [hp] at hinterest
      exact Option.map_eq_none_iff.mp hinterest
    -- the kernel has nothing to drop
    have hnothing : Function.update (s.loops M).poller.interest c.conn.fd none =
        (s.loops M).poller.interest := by
      rw [hcfd, ← hfree, Function.update_eq_self]
    show Polls _ M { (s.loops M).poller with
      interest := Function.update (s.loops M).poller.interest c.conn.fd none }
    rw [hnothing]
    refine (h.pollers M).same ?_ ?_ ?_
    · rw [hp]
      exact Iff.rfl
    · rw [hp]
      exact iff_of_false (by rintro ⟨⟨⟩, -⟩) (by rintro ⟨⟨⟩, -⟩)
    · exact fun hl => hl.elim

theorem shutdown (h : Tables s a) (ht : s.shutdown p = some t) : Tables t a := by
  obtain ⟨c, hc, rfl⟩ := TcpServer.shutdown_cases ht
  refine ⟨?_, h.fresh, h.openFds, h.distinct, h.connections, h.pollers⟩
  intro q
  show Life.Object _ (Function.update s.objects p _ q)
  by_cases hq : q = p
  · have hobject := h.object hc
    rw [hq, Function.update_self]
    exact hobject
  · rw [Function.update_of_ne hq]
    exact h.objects q

end Tables

end TinyMuduo
