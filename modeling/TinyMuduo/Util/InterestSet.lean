import TinyMuduo.Lib.Transition
import TinyMuduo.Util.Registration

/-!
# `Epoller` and the kernel's interest set stay in step

Any sequence of calls on any set of channels. What `channels_` and the kernel
hold for a descriptor is a function of the channel that has it
(`Epoller.Knows`), so the choice between `EPOLL_CTL_ADD`, `MOD` and `DEL` is
right after every history.
-/

namespace TinyMuduo

open Transition

/-! ## One channel and its poller -/

namespace Epoller

variable {ι : Type}

/-- The poller and the kernel hold for `c` what its state and mask say. -/
structure Knows (e : Epoller ι) (p : ι) (c : Channel) : Prop where
  channels : e.channels c.fd = if c.state = .kNew then none else some p
  interest : e.interest c.fd = if c.state = .kAdded then some (p, c.events) else none

/-- Nothing went wrong between `e` and `e'`, and only `fd` was worked on. -/
structure Frame (fd : ℕ) (e e' : Epoller ι) : Prop where
  alarms : e'.alarms = e.alarms
  channels : ∀ k, k ≠ fd → e'.channels k = e.channels k
  interest : ∀ k, k ≠ fd → e'.interest k = e.interest k

theorem knows_new (p : ι) (fd : ℕ) : (new : Epoller ι).Knows p (Channel.new fd) := ⟨rfl, rfl⟩

theorem Knows.of_frame {e e' : Epoller ι} {fd : ℕ} {q : ι} {d : Channel} (h : e.Knows q d)
    (hf : Frame fd e e') (hfd : d.fd ≠ fd) : e'.Knows q d where
  channels := (hf.channels _ hfd).trans h.channels
  interest := (hf.interest _ hfd).trans h.interest

variable {p : ι} {c : Channel} {e : Epoller ι}

theorem frame_update_interest (e : Epoller ι) (fd : ℕ) (r : Option (ι × Events)) :
    Frame fd e { e with interest := Function.update e.interest fd r } where
  alarms := rfl
  channels _ _ := rfl
  interest _ hk := Function.update_of_ne hk _ _

theorem frame_update_both (e : Epoller ι) (fd : ℕ) (q : Option ι) (r : Option (ι × Events)) :
    Frame fd e { e with
      channels := Function.update e.channels fd q
      interest := Function.update e.interest fd r } where
  alarms := rfl
  channels _ hk := Function.update_of_ne hk _ _
  interest _ hk := Function.update_of_ne hk _ _

/-- **`Remove`** of a channel that is registered, or was. -/
theorem remove_knows (h : e.Knows p c) (hstate : c.state ≠ .kNew) :
    (e.remove p c).1.fd = c.fd ∧ (e.remove p c).2.Knows p (e.remove p c).1 ∧
      Frame c.fd e (e.remove p c).2 := by
  obtain ⟨fd, events, state⟩ := c
  obtain ⟨hchannels, hinterest⟩ := h
  cases state with
  | kNew => exact absurd rfl hstate
  | kAdded =>
      rw [remove_added (c := ⟨fd, events, .kAdded⟩) rfl hinterest]
      refine ⟨rfl, ⟨Function.update_self .., Function.update_self ..⟩, ?_⟩
      exact frame_update_both e fd none none
  | kDeleted =>
      rw [remove_deleted (c := ⟨fd, events, .kDeleted⟩) rfl]
      refine ⟨rfl, ⟨Function.update_self .., hinterest⟩, ?_⟩
      exact ⟨rfl, fun _ hk => Function.update_of_ne hk _ _, fun _ _ => rfl⟩

variable [DecidableEq ι]

/-- **`Update`** of a channel whose mask has just become `m`. -/
theorem update_knows (h : e.Knows p c) (m : Events) :
    (e.update p { c with events := m }).1.fd = c.fd ∧
      (e.update p { c with events := m }).2.Knows p (e.update p { c with events := m }).1 ∧
      Frame c.fd e (e.update p { c with events := m }).2 := by
  obtain ⟨fd, events, state⟩ := c
  obtain ⟨hchannels, hinterest⟩ := h
  cases state with
  | kNew =>
      rw [update_new (c := ⟨fd, m, .kNew⟩) rfl hchannels hinterest]
      refine ⟨rfl, ⟨Function.update_self .., Function.update_self ..⟩, ?_⟩
      exact frame_update_both e fd (some p) (some (p, m))
  | kDeleted =>
      rw [update_deleted (c := ⟨fd, m, .kDeleted⟩) rfl hchannels hinterest]
      exact ⟨rfl, ⟨hchannels, Function.update_self ..⟩, frame_update_interest e fd (some (p, m))⟩
  | kAdded =>
      by_cases hm : m = 0
      · rw [update_added_zero (c := ⟨fd, m, .kAdded⟩) rfl hm hchannels hinterest]
        exact ⟨rfl, ⟨hchannels, Function.update_self ..⟩, frame_update_interest e fd none⟩
      · rw [update_added_nonzero (c := ⟨fd, m, .kAdded⟩) rfl hm hchannels hinterest]
        exact ⟨rfl, ⟨hchannels, Function.update_self ..⟩,
          frame_update_interest e fd (some (p, m))⟩

end Epoller

/-! ## Any number of channels -/

inductive ChannelCall where
  | enableReading
  | enableWriting
  | disableWriting
  | disableAll
  | remove
deriving DecidableEq

structure ChannelTable (ι : Type) where
  channels : ι → Channel
  poller : Epoller ι

namespace ChannelTable

variable {ι : Type} [DecidableEq ι]

/-- What a call makes of its channel and of the poller. -/
def member (p : ι) (c : Channel) (e : Epoller ι) : ChannelCall → Channel × Epoller ι
  | .enableReading => c.enableReading p e
  | .enableWriting => c.enableWriting p e
  | .disableWriting => c.disableWriting p e
  | .disableAll => c.disableAll p e
  | .remove => e.remove p c

def call (s : ChannelTable ι) (p : ι) (f : ChannelCall) : ChannelTable ι :=
  let (c, e) := member p (s.channels p) s.poller f
  ⟨Function.update s.channels p c, e⟩

end ChannelTable

/-- Runs of calls on channels with distinct descriptors. `Remove` is called on a
channel that is `kAdded` or `kDeleted`. -/
def channelSystem (ι : Type) [DecidableEq ι] : LTS (ChannelTable ι) (ι × ChannelCall) where
  init s := ∃ fd : ι → ℕ, Function.Injective fd ∧ s = ⟨fun p => Channel.new (fd p), Epoller.new⟩
  step s l t :=
    (l.2 = .remove → (s.channels l.1).state = .kAdded ∨ (s.channels l.1).state = .kDeleted) ∧
      t = s.call l.1 l.2

namespace ChannelTable

variable {ι : Type} [DecidableEq ι]

/-- Every channel has its own descriptor and the poller knows it. -/
structure InStep (s : ChannelTable ι) : Prop where
  distinct : Function.Injective fun p => (s.channels p).fd
  knows : ∀ p, s.poller.Knows p (s.channels p)
  alarms : s.poller.alarms = []

theorem member_knows {p : ι} {c : Channel} {e : Epoller ι} (h : e.Knows p c) (f : ChannelCall)
    (hremove : f = .remove → c.state = .kAdded ∨ c.state = .kDeleted) :
    (member p c e f).1.fd = c.fd ∧ (member p c e f).2.Knows p (member p c e f).1 ∧
      Epoller.Frame c.fd e (member p c e f).2 := by
  cases f with
  | enableReading => exact Epoller.update_knows h _
  | enableWriting => exact Epoller.update_knows h _
  | disableWriting => exact Epoller.update_knows h _
  | disableAll => exact Epoller.update_knows h _
  | remove =>
      refine Epoller.remove_knows h ?_
      rcases hremove rfl with hs | hs <;> rw [hs] <;> decide

/-- **One call keeps all channels in step.** -/
theorem call_inStep {s : ChannelTable ι} (h : s.InStep) (p : ι) (f : ChannelCall)
    (hremove : f = .remove → (s.channels p).state = .kAdded ∨ (s.channels p).state = .kDeleted) :
    (s.call p f).InStep := by
  obtain ⟨hfd, hknows, hframe⟩ := member_knows (h.knows p) f hremove
  have hfds : ∀ q, ((s.call p f).channels q).fd = (s.channels q).fd := by
    intro q
    show (Function.update s.channels p _ q).fd = _
    by_cases hq : q = p
    · subst hq
      rw [Function.update_self]
      exact hfd
    · rw [Function.update_of_ne hq]
  constructor
  · intro q r hqr
    refine h.distinct ?_
    simpa only [hfds] using hqr
  · intro q
    show Epoller.Knows _ q (Function.update s.channels p _ q)
    by_cases hq : q = p
    · subst hq
      rw [Function.update_self]
      exact hknows
    · rw [Function.update_of_ne hq]
      exact (h.knows q).of_frame hframe fun hqp => hq (h.distinct hqp)
  · exact hframe.alarms.trans h.alarms

end ChannelTable

theorem run_inStep {ι : Type} [DecidableEq ι]
    {ms : List (Move (ChannelTable ι) (ι × ChannelCall))} {s : ChannelTable ι}
    (h : Run (channelSystem ι) ms s) : s.InStep := by
  refine Run.invariant (I := ChannelTable.InStep) ?_ ?_ h
  · rintro s ⟨fd, hfd, rfl⟩
    exact ⟨hfd, fun p => Epoller.knows_new p (fd p), rfl⟩
  · rintro s ⟨p, f⟩ t hs ⟨hremove, rfl⟩
    exact ChannelTable.call_inStep hs p f hremove

/-- **The poller and the kernel stay in step.** After every run of calls no
`epoll_ctl` has failed and no `assert` has fired; a channel is `kAdded` exactly
when the kernel has its descriptor, then with the mask of the channel; and
`channels_` leads to it exactly when it is not `kNew`. -/
theorem interest_in_step {ι : Type} [DecidableEq ι]
    {ms : List (Move (ChannelTable ι) (ι × ChannelCall))} {s : ChannelTable ι}
    (h : Run (channelSystem ι) ms s) :
    s.poller.alarms = [] ∧ ∀ p,
      ((s.channels p).state = .kAdded ↔ s.poller.interest (s.channels p).fd ≠ none) ∧
      ((s.channels p).state = .kAdded →
        s.poller.interest (s.channels p).fd = some (p, (s.channels p).events)) ∧
      (s.poller.channels (s.channels p).fd = some p ↔ (s.channels p).state ≠ .kNew) := by
  have hin := run_inStep h
  refine ⟨hin.alarms, fun p => ?_⟩
  obtain ⟨hchannels, hinterest⟩ := hin.knows p
  rw [hchannels, hinterest]
  by_cases hadded : (s.channels p).state = .kAdded
  · simp [hadded]
  · simp [hadded]

/-- Two channels: one is registered, silenced and registered again, the other
one removed. -/
theorem interest_in_step_removed :
    ∃ (ms : List (Move (ChannelTable Bool) (Bool × ChannelCall))) (s : ChannelTable Bool),
      Run (channelSystem Bool) ms s ∧
      labels ms = [(true, .enableReading), (false, .enableWriting), (true, .disableAll),
        (true, .enableReading), (false, .remove)] ∧
      s.poller.alarms = [] ∧ (s.channels true).state = .kAdded ∧
      s.poller.interest (s.channels true).fd = some (true, (s.channels true).events) := by
  have hstart : (channelSystem Bool).init
      ⟨fun p => Channel.new (if p then 5 else 6), Epoller.new⟩ :=
    ⟨fun p => if p then 5 else 6, by decide, rfl⟩
  have hrun := Run.next (T := channelSystem Bool) (l := (false, .remove))
    (.next (l := (true, .enableReading))
      (.next (l := (true, .disableAll))
        (.next (l := (false, .enableWriting))
          (.next (l := (true, .enableReading)) (.start hstart)
            ⟨by rintro ⟨⟩, rfl⟩) ⟨by rintro ⟨⟩, rfl⟩) ⟨by rintro ⟨⟩, rfl⟩)
      ⟨by rintro ⟨⟩, rfl⟩) ⟨fun _ => Or.inl rfl, rfl⟩
  obtain ⟨halarms, hall⟩ := interest_in_step hrun
  exact ⟨_, _, hrun, rfl, halarms, rfl, (hall true).2.1 rfl⟩

end TinyMuduo
