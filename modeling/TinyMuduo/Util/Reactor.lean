import Mathlib.Data.Fintype.Card
import Mathlib.Data.List.FinRange
import TinyMuduo.Util.InterestSet

/-!
# The reactor: `Epoller::Poll`, `Channel::HandleEvent` and `EventLoop::Loop`

Translation of `Poll` and `FillActiveChannels` of `Util/epoller.cc`, of
`Util/channel.cc` and of `Loop` of `Util/eventloop.cc`. What is pending on a
descriptor is up to the outside; `epoll_wait` is level-triggered and answers with
ready descriptors as far as `events_` has room, in an order of its own. A callback
and `DoToDoList` may call the members of any channel.
-/

namespace TinyMuduo

open Transition

def EPOLLERR : Events := 8

def EPOLLHUP : Events := 16

def POLLNVAL : Events := 32

def EPOLLRDHUP : Events := 8192

def kDefaultEvents : ℕ := 16

inductive Callback where
  | error
  | read
  | write
deriving DecidableEq

namespace Channel

/-- `HandleEventWithGuard`: the callbacks it runs, in this order, for what was
received; `isSet` says which of them the channel has. -/
def handleEventWithGuard (isSet : Callback → Bool) (received : Events) : List Callback :=
  (if received &&& (EPOLLERR ||| POLLNVAL) ≠ 0 ∧ isSet .error then [.error] else []) ++
  (if received &&& (EPOLLIN ||| EPOLLPRI ||| EPOLLRDHUP) ≠ 0 ∧ isSet .read then [.read] else []) ++
  (if received &&& EPOLLOUT ≠ 0 ∧ isSet .write then [.write] else [])

end Channel

/-! ## The kernel's answer -/

namespace Epoller

variable {ι : Type}

/-- What `epoll_wait` would report for a descriptor on which `pending` is pending. -/
def ready (e : Epoller ι) (pending : ℕ → Events) (fd : ℕ) : Events :=
  match e.interest fd with
  | some (_, events) => pending fd &&& (events ||| (EPOLLERR ||| EPOLLHUP))
  | none => 0

def event (e : Epoller ι) (pending : ℕ → Events) (fd : ℕ) : Option (ι × Events) :=
  (e.interest fd).map fun r => (r.1, e.ready pending fd)

/-- `epoll_wait` with room for `maxevents` answers with the descriptors `fds`. -/
structure Answers (e : Epoller ι) (pending : ℕ → Events) (maxevents : ℕ) (fds : List ℕ) : Prop where
  nodup : fds.Nodup
  ready : ∀ fd ∈ fds, e.ready pending fd ≠ 0
  room : fds.length ≤ maxevents
  /-- None is left out while there is room. -/
  all : fds.length < maxevents → ∀ fd, e.ready pending fd ≠ 0 → fd ∈ fds

end Epoller

/-! ## The loop -/

inductive LoopTurn (ι : Type) where
  | polling
  /-- Between two channels of `active_channels_`. -/
  | handling (active : List ι)
  /-- In `HandleEvent` of `p`, with the callbacks still to be run. -/
  | inEvent (p : ι) (callbacks : List Callback) (active : List ι)
  /-- In `DoToDoList`. -/
  | calling

/-- The channels and the poller, `recv_events_` of each channel, `events_.size()`. -/
structure Reactor (ι : Type) where
  table : ChannelTable ι
  recvEvents : ι → Events
  eventsSize : ℕ
  turn : LoopTurn ι

inductive ReactorStep (ι : Type) where
  /-- `Poll` when `pending` is pending and the kernel answers with `fds`. -/
  | poll (pending : ℕ → Events) (fds : List ℕ)
  /-- `epoll_wait` returns -1. -/
  | interrupted
  | handleEvent
  | callback
  | endEvent
  | doToDoList
  | returnToPoll
  /-- A callback or a functor calls a member of a channel. -/
  | call (p : ι) (f : ChannelCall)

namespace Reactor

variable {ι : Type} [DecidableEq ι]

def setReceivedEvents (recv : ι → Events) : List (ι × Events) → ι → Events
  | [] => recv
  | e :: events => setReceivedEvents (Function.update recv e.1 e.2) events

def fillActiveChannels (events : List (ι × Events)) (s : Reactor ι) : Reactor ι :=
  { s with
    recvEvents := setReceivedEvents s.recvEvents events
    turn := .handling (events.map Prod.fst)
    eventsSize := if events.length = s.eventsSize then events.length * 2 else s.eventsSize }

/-- The members of channels are called from callbacks and functors. -/
def inUserCode : LoopTurn ι → Bool
  | .inEvent _ _ _ | .calling => true
  | _ => false

/-- The steps of `Loop`; `isSet` says which callbacks the channels have. -/
inductive Step (isSet : ι → Callback → Bool) (s : Reactor ι) : ReactorStep ι → Reactor ι → Prop where
  | poll {pending : ℕ → Events} {fds : List ℕ} (hturn : s.turn = .polling)
      (hkernel : s.table.poller.Answers pending s.eventsSize fds) :
      Step isSet s (.poll pending fds)
        (s.fillActiveChannels (fds.filterMap (s.table.poller.event pending)))
  | interrupted (hturn : s.turn = .polling) :
      Step isSet s .interrupted { s with turn := .handling [] }
  | handleEvent {p : ι} {active : List ι} (hturn : s.turn = .handling (p :: active)) :
      Step isSet s .handleEvent { s with
        turn := .inEvent p (Channel.handleEventWithGuard (isSet p) (s.recvEvents p)) active }
  | callback {p : ι} {c : Callback} {callbacks : List Callback} {active : List ι}
      (hturn : s.turn = .inEvent p (c :: callbacks) active) :
      Step isSet s .callback { s with turn := .inEvent p callbacks active }
  | endEvent {p : ι} {active : List ι} (hturn : s.turn = .inEvent p [] active) :
      Step isSet s .endEvent { s with turn := .handling active }
  | doToDoList (hturn : s.turn = .handling []) :
      Step isSet s .doToDoList { s with turn := .calling }
  | returnToPoll (hturn : s.turn = .calling) :
      Step isSet s .returnToPoll { s with turn := .polling }
  | call {p : ι} {f : ChannelCall} (huser : inUserCode s.turn = true)
      (hremove : f = .remove →
        (s.table.channels p).state = .kAdded ∨ (s.table.channels p).state = .kDeleted) :
      Step isSet s (.call p f) { s with table := s.table.call p f }

end Reactor

/-- Runs of `Loop` over channels with distinct descriptors; they start with any
calls on the channels, made before `Loop`. -/
def reactor (ι : Type) [DecidableEq ι] (isSet : ι → Callback → Bool) :
    LTS (Reactor ι) (ReactorStep ι) where
  init s := ∃ fd : ι → ℕ, Function.Injective fd ∧
    s = ⟨⟨fun p => Channel.new (fd p), Epoller.new⟩, fun _ => 0, kDefaultEvents, .calling⟩
  step := Reactor.Step isSet

/-! ## The tables stay in step -/

namespace Reactor

variable {ι : Type} [DecidableEq ι] {isSet : ι → Callback → Bool}

/-- The channels ask for nothing but `EPOLLIN`, `EPOLLPRI` and `EPOLLOUT`, and the
kernel has no descriptors but theirs. -/
structure Sound (s : Reactor ι) : Prop where
  inStep : s.table.InStep
  asks : ∀ p, (s.table.channels p).events &&& (EPOLLIN ||| EPOLLPRI ||| EPOLLOUT) =
    (s.table.channels p).events
  registered : ∀ fd, s.table.poller.interest fd ≠ none → ∃ p, (s.table.channels p).fd = fd

omit [DecidableEq ι] in
/-- What the kernel has for a descriptor is a `kAdded` channel and its mask. -/
theorem Sound.added {s : Reactor ι} (h : s.Sound) {fd : ℕ} {r : ι × Events}
    (hr : s.table.poller.interest fd = some r) :
    (s.table.channels r.1).fd = fd ∧ (s.table.channels r.1).state = .kAdded ∧
      r.2 = (s.table.channels r.1).events := by
  obtain ⟨p, rfl⟩ := h.registered fd (by rw [hr]; exact Option.some_ne_none r)
  have hknows := (h.inStep.knows p).interest
  rw [hr] at hknows
  by_cases hadded : (s.table.channels p).state = .kAdded
  · rw [if_pos hadded] at hknows
    obtain rfl := Option.some.inj hknows
    exact ⟨rfl, hadded, rfl⟩
  · rw [if_neg hadded] at hknows
    exact absurd hknows (Option.some_ne_none r)

theorem member_asks {p : ι} {c : Channel} (e : Epoller ι)
    (h : c.events &&& (EPOLLIN ||| EPOLLPRI ||| EPOLLOUT) = c.events) (f : ChannelCall) :
    (ChannelTable.member p c e f).1.events &&& (EPOLLIN ||| EPOLLPRI ||| EPOLLOUT) =
      (ChannelTable.member p c e f).1.events := by
  cases f with
  | enableReading =>
      simp only [ChannelTable.member, Channel.enableReading, Epoller.update_events]
      rw [BitVec.and_or_distrib_right, h]
      rfl
  | enableWriting =>
      simp only [ChannelTable.member, Channel.enableWriting, Epoller.update_events]
      rw [BitVec.and_or_distrib_right, h]
      rfl
  | disableWriting =>
      simp only [ChannelTable.member, Channel.disableWriting, Epoller.update_events]
      rw [BitVec.and_assoc, BitVec.and_comm (~~~ EPOLLOUT), ← BitVec.and_assoc, h]
  | disableAll =>
      simp only [ChannelTable.member, Channel.disableAll, Epoller.update_events]
      exact BitVec.zero_and
  | remove => exact h

theorem sound_call {s : Reactor ι} (h : s.Sound) (p : ι) (f : ChannelCall)
    (hremove : f = .remove →
      (s.table.channels p).state = .kAdded ∨ (s.table.channels p).state = .kDeleted) :
    Sound { s with table := s.table.call p f } where
  inStep := ChannelTable.call_inStep h.inStep p f hremove
  asks q := by
    have hcall : (s.table.call p f).channels q = Function.update s.table.channels p
        (ChannelTable.member p (s.table.channels p) s.table.poller f).1 q := rfl
    by_cases hq : q = p
    · subst hq
      rw [hcall, Function.update_self]
      exact member_asks _ (h.asks q) f
    · rw [hcall, Function.update_of_ne hq]
      exact h.asks q
  registered k hk := by
    obtain ⟨hfd, -, hframe⟩ := ChannelTable.member_knows (h.inStep.knows p) f hremove
    have hcall : ∀ q, (s.table.call p f).channels q = Function.update s.table.channels p
        (ChannelTable.member p (s.table.channels p) s.table.poller f).1 q := fun _ => rfl
    by_cases hkp : k = (s.table.channels p).fd
    · refine ⟨p, ?_⟩
      rw [hcall, Function.update_self, hfd, hkp]
    · have hsame : (s.table.call p f).poller.interest k = s.table.poller.interest k :=
        hframe.interest k hkp
      obtain ⟨q, rfl⟩ := h.registered k (hsame ▸ hk)
      have hq : q ≠ p := by
        rintro rfl
        exact hkp rfl
      refine ⟨q, ?_⟩
      rw [hcall, Function.update_of_ne hq]

theorem Sound.step {s t : Reactor ι} {l : ReactorStep ι} (h : s.Sound)
    (hstep : Step isSet s l t) : t.Sound := by
  cases hstep with
  | call _ hremove => exact sound_call h _ _ hremove
  | _ => exact ⟨h.inStep, h.asks, h.registered⟩

end Reactor

theorem reactor_sound {ι : Type} [DecidableEq ι] {isSet : ι → Callback → Bool}
    {ms : List (Move (Reactor ι) (ReactorStep ι))} {s : Reactor ι}
    (h : Run (reactor ι isSet) ms s) : s.Sound := by
  refine Run.invariant (I := Reactor.Sound) ?_ ?_ h
  · rintro s ⟨fd, hfd, rfl⟩
    exact ⟨⟨hfd, fun p => Epoller.knows_new p (fd p), rfl⟩, fun _ => BitVec.zero_and,
      fun _ h => absurd rfl h⟩
  · intro s l t hs hstep
    exact hs.step hstep

/-! ## Nobody starves -/

namespace Reactor

variable {ι : Type} [DecidableEq ι] {isSet : ι → Callback → Bool}

/-- A poll that fills `events_`. -/
def isFull (m : Move (Reactor ι) (ReactorStep ι)) : Bool :=
  match m.label with
  | .poll _ fds => fds.length = m.pre.eventsSize
  | _ => false

/-- A poll whose answer leaves out a descriptor that is ready. -/
def PassesOver (m : Move (Reactor ι) (ReactorStep ι)) : Prop :=
  ∃ pending fds fd, m.label = .poll pending fds ∧ m.pre.table.poller.ready pending fd ≠ 0 ∧
    fd ∉ fds

open Classical in
/-- How often somebody was left out. -/
noncomputable def passedOver (ms : List (Move (Reactor ι) (ReactorStep ι))) : ℕ :=
  ms.countP fun m => PassesOver m

/-- No more than `n` descriptors are registered. -/
def AtMost (n : ℕ) (s : Reactor ι) : Prop :=
  ∀ fds : List ℕ, fds.Nodup → (∀ fd ∈ fds, s.table.poller.interest fd ≠ none) → fds.length ≤ n

end Reactor

namespace Epoller

variable {ι : Type} {e : Epoller ι} {pending : ℕ → Events} {fd : ℕ}

theorem registered_of_ready (h : e.ready pending fd ≠ 0) : e.interest fd ≠ none := by
  intro hnone
  rw [ready, hnone] at h
  exact h rfl

theorem length_events {n : ℕ} {fds : List ℕ} (h : e.Answers pending n fds) :
    (fds.filterMap (e.event pending)).length = fds.length := by
  have hall := h.ready
  clear h
  induction fds with
  | nil => rfl
  | cons fd fds ih =>
      obtain ⟨r, hr⟩ := Option.ne_none_iff_exists'.mp
        (registered_of_ready (hall fd List.mem_cons_self))
      have hevent : e.event pending fd = some (r.1, e.ready pending fd) := by
        rw [event, hr]
        rfl
      rw [List.filterMap_cons_some hevent, List.length_cons, List.length_cons,
        ih fun fd' hfd' => hall fd' (List.mem_cons_of_mem _ hfd')]

/-- Somebody is left out of a full answer only, and then there are more registered
descriptors than room. -/
theorem Answers.left_out {n : ℕ} {fds : List ℕ} (h : e.Answers pending n fds)
    (hready : e.ready pending fd ≠ 0) (hout : fd ∉ fds) :
    fds.length = n ∧ (fd :: fds).Nodup ∧ ∀ fd' ∈ fd :: fds, e.interest fd' ≠ none := by
  refine ⟨?_, List.nodup_cons.mpr ⟨hout, h.nodup⟩, ?_⟩
  · by_contra hne
    exact hout (h.all (Nat.lt_of_le_of_ne h.room hne) fd hready)
  · intro fd' hfd'
    rcases List.mem_cons.mp hfd' with rfl | hmem
    · exact registered_of_ready hready
    · exact registered_of_ready (h.ready fd' hmem)

end Epoller

namespace Reactor

variable {ι : Type} [DecidableEq ι] {isSet : ι → Callback → Bool} {s t : Reactor ι}
  {l : ReactorStep ι}

theorem Step.eventsSize (h : Step isSet s l t) :
    t.eventsSize = if isFull ⟨s, l, t⟩ then s.eventsSize * 2 else s.eventsSize := by
  cases h with
  | poll _ hkernel =>
      simp only [fillActiveChannels, isFull, Epoller.length_events hkernel, decide_eq_true_eq]
      split
      · rename_i hfull
        rw [hfull]
      · rfl
  | _ => rfl

/-- Who is left out is left out by a full poll, of more descriptors than there was
room for. -/
theorem Step.passesOver (h : Step isSet s l t) (hover : PassesOver ⟨s, l, t⟩) :
    isFull ⟨s, l, t⟩ = true ∧ ∀ n, AtMost n s → s.eventsSize < n := by
  obtain ⟨pending, fds, fd, rfl, hready, hout⟩ := hover
  cases h with
  | poll _ hkernel =>
      obtain ⟨hfull, hnodup, hall⟩ := hkernel.left_out hready hout
      refine ⟨decide_eq_true hfull, fun n hn => ?_⟩
      have hle := hn (fd :: fds) hnodup hall
      rw [List.length_cons, hfull] at hle
      exact hle

omit [DecidableEq ι] in
theorem passedOver_snoc (ms : List (Move (Reactor ι) (ReactorStep ι)))
    (m : Move (Reactor ι) (ReactorStep ι)) :
    passedOver (ms ++ [m]) = passedOver ms ∨
      (PassesOver m ∧ passedOver (ms ++ [m]) = passedOver ms + 1) := by
  unfold passedOver
  rw [List.countP_append, List.countP_singleton]
  by_cases hm : PassesOver m
  · exact Or.inr ⟨hm, by simp [hm]⟩
  · exact Or.inl (by simp [hm])

omit [DecidableEq ι] in
theorem passedOver_pos {ms : List (Move (Reactor ι) (ReactorStep ι))}
    {m : Move (Reactor ι) (ReactorStep ι)} (hm : m ∈ ms) (hover : PassesOver m) :
    0 < passedOver ms :=
  List.countP_pos_iff.mpr ⟨m, hm, by simpa using hover⟩

/-- Nobody is left out more often than `events_` has been full. -/
theorem passedOver_le {ms : List (Move (Reactor ι) (ReactorStep ι))} {s : Reactor ι}
    (h : Run (reactor ι isSet) ms s) :
    s.eventsSize = kDefaultEvents * 2 ^ ms.countP isFull ∧ passedOver ms ≤ ms.countP isFull := by
  refine Run.history (I := fun ms s =>
    s.eventsSize = kDefaultEvents * 2 ^ ms.countP isFull ∧
      passedOver ms ≤ ms.countP isFull) ?_ ?_ h
  · rintro s ⟨fd, -, rfl⟩
    exact ⟨rfl, Nat.zero_le _⟩
  · rintro ms s l t - ⟨hsize, hle⟩ hstep
    have hstep' : Step isSet s l t := hstep
    rw [hstep'.eventsSize, List.countP_append, List.countP_singleton]
    constructor
    · by_cases hfull : isFull ⟨s, l, t⟩
      · rw [if_pos hfull, if_pos hfull, hsize, Nat.pow_succ, Nat.mul_assoc]
      · rw [if_neg hfull, if_neg hfull, hsize, Nat.add_zero]
    · rcases passedOver_snoc ms ⟨s, l, t⟩ with hsame | ⟨hover, hmore⟩
      · rw [hsame]
        exact hle.trans (Nat.le_add_right _ _)
      · rw [hmore, (hstep'.passesOver hover).1, if_pos rfl]
        exact Nat.succ_le_succ hle

end Reactor

/-- **The poll starves nobody.** `events_` has doubled once for each poll that
filled it. When at most `n` descriptors are registered at a time, the polls that
left a ready one out were fewer than it takes to double `kDefaultEvents` to `n`,
however long the loop runs, whatever is pending and whomever the kernel prefers. -/
theorem poll_starves_nobody {ι : Type} [DecidableEq ι] {isSet : ι → Callback → Bool}
    {ms : List (Move (Reactor ι) (ReactorStep ι))} {s : Reactor ι}
    (h : Run (reactor ι isSet) ms s) :
    s.eventsSize = kDefaultEvents * 2 ^ ms.countP Reactor.isFull ∧
      ∀ n, (∀ m ∈ ms, Reactor.AtMost n m.pre) → 0 < Reactor.passedOver ms →
        kDefaultEvents * 2 ^ (Reactor.passedOver ms - 1) < n := by
  refine ⟨(Reactor.passedOver_le h).1, ?_⟩
  refine Run.history (I := fun ms _ => ∀ n, (∀ m ∈ ms, Reactor.AtMost n m.pre) →
    0 < Reactor.passedOver ms → kDefaultEvents * 2 ^ (Reactor.passedOver ms - 1) < n) ?_ ?_ h
  · intro s _ n _ hpos
    exact absurd hpos (Nat.lt_irrefl 0)
  · intro ms s l t hrun ih hstep n hn hpos
    have hall := List.forall_mem_append.mp hn
    rcases Reactor.passedOver_snoc ms ⟨s, l, t⟩ with hsame | ⟨hover, hmore⟩
    · rw [hsame] at hpos ⊢
      exact ih n hall.1 hpos
    · obtain ⟨hsize, hle⟩ := Reactor.passedOver_le hrun
      have hroom := (Reactor.Step.passesOver hstep hover).2 n (hall.2 _ (List.mem_singleton_self _))
      rw [hmore, Nat.add_sub_cancel]
      calc kDefaultEvents * 2 ^ Reactor.passedOver ms
          ≤ kDefaultEvents * 2 ^ ms.countP Reactor.isFull :=
            Nat.mul_le_mul_left _ (Nat.pow_le_pow_right Nat.two_pos hle)
        _ = s.eventsSize := hsize.symm
        _ < n := hroom

namespace Reactor

/-- The loop with seventeen channels, all of them reading. -/
def seventeen : Reactor (Fin 17) :=
  (List.finRange 17).foldl (fun s p => { s with table := s.table.call p .enableReading })
    ⟨⟨fun p => Channel.new p, Epoller.new⟩, fun _ => 0, kDefaultEvents, .calling⟩

theorem run_calls {ι : Type} [DecidableEq ι] {isSet : ι → Callback → Bool} (ps : List ι)
    {ms : List (Move (Reactor ι) (ReactorStep ι))} {s : Reactor ι}
    (h : Run (reactor ι isSet) ms s) (huser : inUserCode s.turn = true) :
    ∃ ms, Run (reactor ι isSet) ms
      (ps.foldl (fun s p => { s with table := s.table.call p .enableReading }) s) := by
  induction ps generalizing ms s with
  | nil => exact ⟨ms, h⟩
  | cons p ps ih =>
      have hstep : Step isSet s (.call p .enableReading)
          { s with table := s.table.call p .enableReading } :=
        .call huser (by rintro ⟨⟩)
      exact ih (h.next hstep) huser

theorem Sound.atMost {ι : Type} [Fintype ι] [DecidableEq ι] {s : Reactor ι} (h : s.Sound) :
    AtMost (Fintype.card ι) s := by
  intro fds hnodup hall
  rw [← List.toFinset_card_of_nodup hnodup, ← Finset.card_univ,
    ← Finset.card_image_of_injective Finset.univ h.inStep.distinct]
  refine Finset.card_le_card fun fd hfd => ?_
  obtain ⟨p, hp⟩ := h.registered fd (hall fd (List.mem_toFinset.mp hfd))
  exact Finset.mem_image.mpr ⟨p, Finset.mem_univ p, hp⟩

theorem ready_seventeen : seventeen.table.poller.ready (fun _ => EPOLLIN) 16 ≠ 0 := by decide

/-- Sixteen of the seventeen are reported. -/
theorem answers_seventeen :
    seventeen.table.poller.Answers (fun _ => EPOLLIN) kDefaultEvents (List.range 16) where
  nodup := List.nodup_range
  ready := by decide
  room := by decide
  all := fun h => absurd h (by decide)

end Reactor

/-- Seventeen readable channels: the first poll leaves one out, and no other poll
will. -/
theorem poll_starves_nobody_seventeen :
    ∃ (ms : List (Move (Reactor (Fin 17)) (ReactorStep (Fin 17)))) (s : Reactor (Fin 17)),
      Run (reactor (Fin 17) fun _ _ => true) ms s ∧ Reactor.passedOver ms = 1 ∧
      s.eventsSize = 32 ∧ kDefaultEvents * 2 ^ (Reactor.passedOver ms - 1) < 17 := by
  have hstart : Run (reactor (Fin 17) fun _ _ => true) []
      ⟨⟨fun p => Channel.new p, Epoller.new⟩, fun _ => 0, kDefaultEvents, .calling⟩ :=
    .start ⟨_, Fin.val_injective, rfl⟩
  obtain ⟨ms, hcalls⟩ := Reactor.run_calls (List.finRange 17) hstart rfl
  have hturn : Reactor.Step (fun _ _ => true) Reactor.seventeen .returnToPoll
      { Reactor.seventeen with turn := .polling } := .returnToPoll rfl
  have hpoll : Reactor.Step (fun _ _ => true) { Reactor.seventeen with turn := .polling }
      (.poll (fun _ => EPOLLIN) (List.range 16)) _ := .poll rfl Reactor.answers_seventeen
  have hrun := (Run.next hcalls hturn).next hpoll
  obtain ⟨hsize, hbound⟩ := poll_starves_nobody hrun
  have hleft (t : Reactor (Fin 17)) : Reactor.PassesOver
      ⟨{ Reactor.seventeen with turn := .polling }, .poll (fun _ => EPOLLIN) (List.range 16), t⟩ :=
    ⟨fun _ => EPOLLIN, List.range 16, 16, rfl, Reactor.ready_seventeen, by decide⟩
  have hfull := Nat.pow_right_injective (le_refl 2)
    (Nat.eq_of_mul_eq_mul_left (by decide) (hsize.symm.trans (rfl : _ = kDefaultEvents * 2 ^ 1)))
  have hle := (Reactor.passedOver_le hrun).2
  refine ⟨_, _, hrun, Nat.le_antisymm (hle.trans_eq hfull) ?_, rfl, hbound 17 ?_ ?_⟩
  · exact Reactor.passedOver_pos (List.mem_append_right _ (List.mem_singleton_self _)) (hleft _)
  · intro m hm
    obtain ⟨ms', hpre⟩ := (hrun.move m hm).1
    exact (reactor_sound hpre).atMost
  · exact Reactor.passedOver_pos (List.mem_append_right _ (List.mem_singleton_self _)) (hleft _)

end TinyMuduo
