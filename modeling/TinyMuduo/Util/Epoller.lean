import Mathlib.Logic.Function.Basic
import Mathlib.Data.Nat.Notation

/-!
# `Channel`, `Epoller` and the kernel's interest set

Translation of `Util/channel.h`, `Util/epoller.h` and `Util/epoller.cc`. A
`Channel*` is a value of an arbitrary type `ι`; the pointer goes with the
channel it points to wherever the source stores it. The kernel's table maps a
descriptor to the pointer and the mask it was registered with. A failed
`epoll_ctl` and a violated `assert` leave a mark in `alarms` and nothing else.
-/

namespace TinyMuduo

inductive ChannelState where
  | kNew
  | kAdded
  | kDeleted
deriving DecidableEq

abbrev Events := BitVec 32

def EPOLLIN : Events := 1

def EPOLLPRI : Events := 2

def EPOLLOUT : Events := 4

/-- `fd_`, `events_` and `state_`. -/
structure Channel where
  fd : ℕ
  events : Events
  state : ChannelState
deriving DecidableEq

namespace Channel

def new (fd : ℕ) : Channel := ⟨fd, 0, .kNew⟩

def isWriting (c : Channel) : Bool := c.events &&& EPOLLOUT ≠ 0

def isReading (c : Channel) : Bool := c.events &&& (EPOLLIN ||| EPOLLPRI) ≠ 0

end Channel

/-- What the logs and asserts of `Epoller` report. -/
inductive Alarm where
  | epollCtlFailed
  | assertFailed
deriving DecidableEq

/-- `channels_`, and the interest set of the epoll instance. -/
structure Epoller (ι : Type) where
  channels : ℕ → Option ι
  interest : ℕ → Option (ι × Events)
  alarms : List Alarm

inductive CtlOperation where
  | EPOLL_CTL_ADD
  | EPOLL_CTL_MOD
  | EPOLL_CTL_DEL
deriving DecidableEq

namespace Epoller

variable {ι : Type}

def new : Epoller ι := ⟨fun _ => none, fun _ => none, []⟩

/-- `assert(condition)`. -/
def check (condition : Bool) (e : Epoller ι) : Epoller ι :=
  if condition then e else { e with alarms := e.alarms ++ [.assertFailed] }

/-- `UpdateChannel`: the kernel refuses to add a descriptor that is present and
to modify or delete one that is not. -/
def updateChannel (operation : CtlOperation) (p : ι) (c : Channel) (e : Epoller ι) : Epoller ι :=
  match operation, e.interest c.fd with
  | .EPOLL_CTL_ADD, none =>
      { e with interest := Function.update e.interest c.fd (some (p, c.events)) }
  | .EPOLL_CTL_MOD, some _ =>
      { e with interest := Function.update e.interest c.fd (some (p, c.events)) }
  | .EPOLL_CTL_DEL, some _ =>
      { e with interest := Function.update e.interest c.fd none }
  | _, _ => { e with alarms := e.alarms ++ [.epollCtlFailed] }

def update [DecidableEq ι] (p : ι) (c : Channel) (e : Epoller ι) : Channel × Epoller ι :=
  match c.state with
  | .kNew =>
      let e := e.check (e.channels c.fd = none)
      let e := { e with channels := Function.update e.channels c.fd (some p) }
      ({ c with state := .kAdded }, e.updateChannel .EPOLL_CTL_ADD p c)
  | .kDeleted =>
      let e := e.check (e.channels c.fd = some p)
      ({ c with state := .kAdded }, e.updateChannel .EPOLL_CTL_ADD p c)
  | .kAdded =>
      let e := e.check (e.channels c.fd = some p)
      if c.events = 0 then
        ({ c with state := .kDeleted }, e.updateChannel .EPOLL_CTL_DEL p c)
      else
        (c, e.updateChannel .EPOLL_CTL_MOD p c)

def remove (p : ι) (c : Channel) (e : Epoller ι) : Channel × Epoller ι :=
  let e := e.check (c.state = .kDeleted || c.state = .kAdded)
  let e := if c.state = .kAdded then e.updateChannel .EPOLL_CTL_DEL p c else e
  ({ c with state := .kNew }, { e with channels := Function.update e.channels c.fd none })

end Epoller

namespace Channel

variable {ι : Type} [DecidableEq ι]

def enableReading (p : ι) (c : Channel) (e : Epoller ι) : Channel × Epoller ι :=
  e.update p { c with events := c.events ||| (EPOLLIN ||| EPOLLPRI) }

def enableWriting (p : ι) (c : Channel) (e : Epoller ι) : Channel × Epoller ι :=
  e.update p { c with events := c.events ||| EPOLLOUT }

def disableWriting (p : ι) (c : Channel) (e : Epoller ι) : Channel × Epoller ι :=
  e.update p { c with events := c.events &&& ~~~ EPOLLOUT }

def disableAll (p : ι) (c : Channel) (e : Epoller ι) : Channel × Epoller ι :=
  e.update p { c with events := 0 }

end Channel

/-! ## What an update leaves alone -/

namespace Epoller

variable {ι : Type} [DecidableEq ι] (p : ι) (c : Channel) (e : Epoller ι)

@[simp] theorem update_events : (e.update p c).1.events = c.events := by
  unfold update
  cases c.state with
  | kNew => rfl
  | kDeleted => rfl
  | kAdded =>
      by_cases h : c.events = 0
      · simp only [if_pos h]
      · simp only [if_neg h]

end Epoller

namespace Channel

variable {ι : Type} [DecidableEq ι] (p : ι) (c : Channel) (e : Epoller ι)

theorem or_writing (x : Events) : (x ||| EPOLLOUT) &&& EPOLLOUT ≠ 0 := by
  intro h
  have hbit := congrArg (fun y : Events => y.getLsbD 2) h
  simp [EPOLLOUT] at hbit

@[simp] theorem isWriting_enableWriting : (c.enableWriting p e).1.isWriting = true := by
  simp only [enableWriting, isWriting, Epoller.update_events, decide_eq_true_eq]
  exact or_writing c.events

@[simp] theorem isWriting_disableWriting : (c.disableWriting p e).1.isWriting = false := by
  have h : c.events &&& ~~~ EPOLLOUT &&& EPOLLOUT = 0 := by
    rw [BitVec.and_assoc, BitVec.and_comm (~~~ EPOLLOUT), BitVec.and_not_self]
    exact BitVec.and_zero
  simp [disableWriting, isWriting, h]

end Channel

end TinyMuduo
