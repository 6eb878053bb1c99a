import Mathlib.Algebra.Ring.Parity
import TinyMuduo.Util.InterestSet

/-!
# `DisableAll` turns a registration over

`Update` looks at an empty mask only when the channel is `kAdded`. A channel that
is `kNew` or `kDeleted` it adds, whatever the mask, and an added descriptor is
reported with its errors and hang-ups even for an empty one. So `DisableAll`
takes out a descriptor that is in the interest set and puts in one that is not,
and no channel stays disabled under a second call.
-/

namespace TinyMuduo

open Transition

namespace ChannelTable

variable {ι : Type} [DecidableEq ι]

/-- `n` calls of `DisableAll` on one channel. -/
def disabled (s : ChannelTable ι) (p : ι) : ℕ → ChannelTable ι
  | 0 => s
  | n + 1 => (s.disabled p n).call p .disableAll

/-- The kernel watches the descriptor of the channel. -/
def Watched (s : ChannelTable ι) (p : ι) : Prop :=
  s.poller.interest (s.channels p).fd ≠ none

/-- What a caller of `DisableAll` relies on: after any number of calls the
descriptor is not watched, and a second call changes nothing. -/
structure StaysDisabled (s : ChannelTable ι) (p : ι) : Prop where
  absent : ∀ n, 0 < n → ¬ (s.disabled p n).Watched p
  channel : (s.disabled p 2).channels p = (s.disabled p 1).channels p
  interest : (s.disabled p 2).poller.interest = (s.disabled p 1).poller.interest

/-! ## One call -/

omit [DecidableEq ι] in
/-- The kernel watches exactly the channels that are `kAdded`. -/
theorem InStep.watched_iff {s : ChannelTable ι} (h : s.InStep) (p : ι) :
    s.Watched p ↔ (s.channels p).state = .kAdded := by
  unfold Watched
  rw [(h.knows p).interest]
  by_cases hadded : (s.channels p).state = .kAdded
  · simp [hadded]
  · simp [hadded]

theorem state_disableAll (s : ChannelTable ι) (p : ι) :
    ((s.call p .disableAll).channels p).state = .kAdded ↔ (s.channels p).state ≠ .kAdded := by
  have hcall : (s.call p .disableAll).channels p = ((s.channels p).disableAll p s.poller).1 :=
    Function.update_self ..
  rw [hcall]
  unfold Channel.disableAll Epoller.update
  cases (s.channels p).state <;> simp

/-- Further calls keep the channels in step, and the channel its descriptor. -/
theorem InStep.disabled {s : ChannelTable ι} (h : s.InStep) (p : ι) :
    ∀ n, (s.disabled p n).InStep ∧ ((s.disabled p n).channels p).fd = (s.channels p).fd := by
  intro n
  induction n with
  | zero => exact ⟨h, rfl⟩
  | succ n ih =>
      obtain ⟨hin, hfd⟩ := ih
      have hcall := (member_knows (hin.knows p) .disableAll (by rintro ⟨⟩)).1
      refine ⟨call_inStep hin p .disableAll (by rintro ⟨⟩), ?_⟩
      rw [← hfd, ← hcall]
      exact congrArg Channel.fd (Function.update_self ..)

/-- **After `n` calls** the descriptor is watched when it was and `n` is even, or
it was not and `n` is odd. -/
theorem InStep.watched_disabled {s : ChannelTable ι} (h : s.InStep) (p : ι) :
    ∀ n, (s.disabled p n).Watched p ↔ (s.Watched p ↔ Even n) := by
  intro n
  induction n with
  | zero => simp [ChannelTable.disabled]
  | succ n ih =>
      have hstep : (s.disabled p (n + 1)).Watched p ↔ ¬ (s.disabled p n).Watched p := by
        rw [(h.disabled p (n + 1)).1.watched_iff, (h.disabled p n).1.watched_iff]
        exact state_disableAll (s.disabled p n) p
      rw [hstep, ih, Nat.even_add_one]
      tauto

end ChannelTable

/-- **No channel stays disabled**, whatever its history: the second `DisableAll`
changes the state of the channel and the interest set, and `n` calls leave the
descriptor out of it exactly when it was in it and `n` is odd, or it was not and
`n` is even. -/
theorem disableAll_toggles {ι : Type} [DecidableEq ι]
    {ms : List (Move (ChannelTable ι) (ι × ChannelCall))} {s : ChannelTable ι}
    (h : Run (channelSystem ι) ms s) (p : ι) :
    ¬ s.StaysDisabled p ∧
      ((s.disabled p 2).channels p).state ≠ ((s.disabled p 1).channels p).state ∧
      (s.disabled p 2).poller.interest ≠ (s.disabled p 1).poller.interest ∧
      ∀ n, ¬ (s.disabled p n).Watched p ↔ (s.Watched p ↔ Odd n) := by
  have hin := run_inStep h
  have hwatched := hin.watched_disabled p
  have hone : (s.disabled p 1).Watched p ↔ ¬ s.Watched p := by
    rw [hwatched 1]
    simp
  have htwo : (s.disabled p 2).Watched p ↔ s.Watched p := by
    rw [hwatched 2]
    simp
  have hstate : ((s.disabled p 2).channels p).state ≠ ((s.disabled p 1).channels p).state := by
    intro heq
    have hflip := (hin.disabled p 2).1.watched_iff p
    rw [heq, ← (hin.disabled p 1).1.watched_iff p, htwo, hone] at hflip
    tauto
  refine ⟨?_, hstate, ?_, ?_⟩
  · intro hstays
    exact hstate (congrArg Channel.state hstays.channel)
  · intro heq
    have hsame : (s.disabled p 2).Watched p ↔ (s.disabled p 1).Watched p := by
      unfold ChannelTable.Watched
      rw [heq, (hin.disabled p 1).2, (hin.disabled p 2).2]
    rw [htwo, hone] at hsame
    tauto
  · intro n
    rw [hwatched n, ← Nat.not_even_iff_odd]
    tauto

theorem establishedChannel_run : ∃ ms, Run (channelSystem Unit) ms
      (ChannelTable.call ⟨fun _ => Channel.new 5, Epoller.new⟩ () .enableReading) ∧
    labels ms = [((), .enableReading)] := by
  have hstart : (channelSystem Unit).init ⟨fun _ => Channel.new 5, Epoller.new⟩ :=
    ⟨fun _ => 5, fun _ _ _ => rfl, rfl⟩
  exact ⟨_, .next (l := ((), .enableReading)) (.start hstart) ⟨by rintro ⟨⟩, rfl⟩, rfl⟩

theorem disableAll_toggles_established : ∃ ms s, Run (channelSystem Unit) ms s ∧
    labels ms = [((), .enableReading)] ∧ ¬ s.StaysDisabled () ∧
    (¬ (s.disabled () 3).Watched () ↔ (s.Watched () ↔ Odd 3)) := by
  obtain ⟨ms, hrun, hlabels⟩ := establishedChannel_run
  obtain ⟨hnot, -, -, hodd⟩ := disableAll_toggles hrun ()
  exact ⟨ms, _, hrun, hlabels, hnot, hodd 3⟩

/-- `HandleClose` disables the channel, and so does `ConnectionDestructor` after a
late `Shutdown`: the second call brings the descriptor back. -/
theorem disabled_twice_watched : ∃ ms s, Run (channelSystem Unit) ms s ∧
    labels ms = [((), .enableReading)] ∧ (s.disabled () 2).Watched () ∧
    ¬ s.StaysDisabled () := by
  obtain ⟨ms, hrun, hlabels⟩ := establishedChannel_run
  have hwatched : (ChannelTable.disabled (ChannelTable.call
      ⟨fun _ => Channel.new 5, Epoller.new⟩ () .enableReading) () 2).Watched () := by
    rintro ⟨⟩
  exact ⟨ms, _, hrun, hlabels, hwatched, fun hstays => hstays.absent 2 (by decide) hwatched⟩

end TinyMuduo
