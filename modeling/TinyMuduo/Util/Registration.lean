import TinyMuduo.Util.TcpConnection

/-!
# What the lifecycle members do to the poller

`ConnectionEstablished` registers the channel, `HandleClose` takes it out of the
interest set and `ConnectionDestructor` out of `channels_`. Each is stated for
the state of the channel in which the server calls it; there no `epoll_ctl`
fails and no `assert` fires.
-/

namespace TinyMuduo

namespace Epoller

variable {ι : Type} {p : ι} {c : Channel} {e : Epoller ι}

theorem check_of {condition : Bool} (h : condition = true) : e.check condition = e := if_pos h

theorem remove_deleted (hstate : c.state = .kDeleted) :
    e.remove p c = ({ c with state := .kNew },
      { e with channels := Function.update e.channels c.fd none }) := by
  simp [remove, hstate, check_of]

theorem remove_added (hstate : c.state = .kAdded) {r : ι × Events}
    (hinterest : e.interest c.fd = some r) :
    e.remove p c = ({ c with state := .kNew },
      { e with
        channels := Function.update e.channels c.fd none
        interest := Function.update e.interest c.fd none }) := by
  simp [remove, hstate, check_of, updateChannel, hinterest]

variable [DecidableEq ι]

theorem update_new (hstate : c.state = .kNew) (hchannels : e.channels c.fd = none)
    (hinterest : e.interest c.fd = none) :
    e.update p c = ({ c with state := .kAdded },
      { e with
        channels := Function.update e.channels c.fd (some p)
        interest := Function.update e.interest c.fd (some (p, c.events)) }) := by
  simp only [update, hstate, updateChannel, check_of (decide_eq_true hchannels), hinterest]

theorem update_added_zero (hstate : c.state = .kAdded) (hevents : c.events = 0)
    (hchannels : e.channels c.fd = some p) {r : ι × Events}
    (hinterest : e.interest c.fd = some r) :
    e.update p c = ({ c with state := .kDeleted },
      { e with interest := Function.update e.interest c.fd none }) := by
  simp only [update, hstate, updateChannel, check_of (decide_eq_true hchannels), hinterest,
    if_pos hevents]

theorem update_added_nonzero (hstate : c.state = .kAdded) (hevents : c.events ≠ 0)
    (hchannels : e.channels c.fd = some p) {r : ι × Events}
    (hinterest : e.interest c.fd = some r) :
    e.update p c = (c,
      { e with interest := Function.update e.interest c.fd (some (p, c.events)) }) := by
  simp only [update, hstate, updateChannel, check_of (decide_eq_true hchannels), hinterest,
    if_neg hevents]

theorem update_deleted (hstate : c.state = .kDeleted) (hchannels : e.channels c.fd = some p)
    (hinterest : e.interest c.fd = none) :
    e.update p c = ({ c with state := .kAdded },
      { e with interest := Function.update e.interest c.fd (some (p, c.events)) }) := by
  simp only [update, hstate, updateChannel, check_of (decide_eq_true hchannels), hinterest]

end Epoller

namespace TcpConnection

variable {ι : Type} [DecidableEq ι] {p : ι} {c : TcpConnection} {e : Epoller ι}

structure Turned (c c' : TcpConnection) (state : ChannelState) : Prop where
  fd : c'.fd = c.fd
  channel_fd : c'.channel.fd = c.channel.fd
  state : c'.channel.state = state

theorem connectionEstablished_spec (hstate : c.channel.state = .kNew)
    (hchannels : e.channels c.channel.fd = none) (hinterest : e.interest c.channel.fd = none) :
    Turned c (c.connectionEstablished p e).1 .kAdded ∧
      ∃ events, (c.connectionEstablished p e).2 = { e with
        channels := Function.update e.channels c.channel.fd (some p)
        interest := Function.update e.interest c.channel.fd (some (p, events)) } := by
  have hupdate := Epoller.update_new (p := p)
    (c := { c.channel with events := c.channel.events ||| (EPOLLIN ||| EPOLLPRI) })
    hstate hchannels hinterest
  simp only [connectionEstablished, Channel.enableReading, hupdate]
  exact ⟨⟨rfl, rfl, rfl⟩, _, rfl⟩

theorem handleClose_spec (hstate : c.channel.state = .kAdded)
    (hchannels : e.channels c.channel.fd = some p) {r : ι × Events}
    (hinterest : e.interest c.channel.fd = some r) :
    Turned c (c.handleClose p e).1 .kDeleted ∧
      (c.handleClose p e).2 = { e with
        interest := Function.update e.interest c.channel.fd none } := by
  have hupdate := Epoller.update_added_zero (p := p) (c := { c.channel with events := 0 })
    hstate rfl hchannels hinterest
  simp only [handleClose, Channel.disableAll, hupdate]
  exact ⟨⟨rfl, rfl, rfl⟩, trivial⟩

/-- A `Shutdown` since `HandleClose` makes no difference: the channel is then added
and deleted once more. -/
theorem connectionDestructor_spec (hstate : c.channel.state = .kDeleted)
    (hchannels : e.channels c.channel.fd = some p) (hinterest : e.interest c.channel.fd = none) :
    Turned c (c.connectionDestructor p e).1 .kNew ∧
      (c.connectionDestructor p e).2 = { e with
        channels := Function.update e.channels c.channel.fd none } := by
  by_cases hconn : c.state = .kDisconnecting ∨ c.state = .kConnected
  · have hupdate := Epoller.update_deleted (p := p) (c := { c.channel with events := 0 })
      hstate hchannels hinterest
    have hremove := Epoller.remove_added (p := p)
      (c := { c.channel with events := 0, state := .kAdded })
      (e := { e with interest := Function.update e.interest c.channel.fd (some (p, 0)) })
      rfl (Function.update_self ..)
    simp only [connectionDestructor, if_pos hconn, Channel.disableAll, hupdate, hremove]
    refine ⟨⟨rfl, rfl, rfl⟩, ?_⟩
    rw [Function.update_idem, ← hinterest, Function.update_eq_self]
  · have hremove := Epoller.remove_deleted (p := p) (c := c.channel) (e := e) hstate
    simp only [connectionDestructor, if_neg hconn, hremove]
    exact ⟨⟨rfl, rfl, rfl⟩, trivial⟩

end TcpConnection

end TinyMuduo
