import TinyMuduo.Util.Reactor

/-!
# What the reactor runs, and when

The callbacks a poll calls for are those of the channels it reported, in its
order; the callbacks and functors that run meanwhile change masks and
registrations, but not what was received.
-/

namespace TinyMuduo

open Transition

namespace Reactor

variable {ι : Type} (isSet : ι → Callback → Bool)

/-- The callbacks of `p` for what was received. -/
def due (p : ι) (received : Events) : List (ι × Callback) :=
  (Channel.handleEventWithGuard (isSet p) received).map fun c => (p, c)

/-- What the answer of a poll calls for. -/
def plannedBy (m : Move (Reactor ι) (ReactorStep ι)) : List (ι × Callback) :=
  match m.label with
  | .poll pending fds =>
      (fds.filterMap (m.pre.table.poller.event pending)).flatMap fun e => due isSet e.1 e.2
  | _ => []

def planned (ms : List (Move (Reactor ι) (ReactorStep ι))) : List (ι × Callback) :=
  ms.flatMap (plannedBy isSet)

def ranBy (m : Move (Reactor ι) (ReactorStep ι)) : Option (ι × Callback) :=
  match m.label, m.pre.turn with
  | .callback, .inEvent p (c :: _) _ => some (p, c)
  | _, _ => none

def ran (ms : List (Move (Reactor ι) (ReactorStep ι))) : List (ι × Callback) := visible ranBy ms

def dueOf (s : Reactor ι) (active : List ι) : List (ι × Callback) :=
  active.flatMap fun p => due isSet p (s.recvEvents p)

/-- What is still to run before the next poll. -/
def remaining (s : Reactor ι) : List (ι × Callback) :=
  match s.turn with
  | .polling | .calling => []
  | .handling active => dueOf isSet s active
  | .inEvent p callbacks active => callbacks.map (fun c => (p, c)) ++ dueOf isSet s active

variable {isSet}

/-! ## What was received -/

section Received

variable [DecidableEq ι]

theorem setReceivedEvents_of_notMem {events : List (ι × Events)} {p : ι}
    (hp : p ∉ events.map Prod.fst) (recv : ι → Events) :
    setReceivedEvents recv events p = recv p := by
  induction events generalizing recv with
  | nil => rfl
  | cons e events ih =>
      rw [List.map_cons, List.mem_cons, not_or] at hp
      rw [setReceivedEvents, ih hp.2, Function.update_of_ne hp.1]

theorem setReceivedEvents_of_mem {events : List (ι × Events)}
    (hnodup : (events.map Prod.fst).Nodup) (recv : ι → Events) :
    ∀ e ∈ events, setReceivedEvents recv events e.1 = e.2 := by
  induction events generalizing recv with
  | nil => intro e he; exact absurd he List.not_mem_nil
  | cons e events ih =>
      rw [List.map_cons, List.nodup_cons] at hnodup
      intro e' he'
      rw [setReceivedEvents]
      rcases List.mem_cons.mp he' with rfl | hmem
      · rw [setReceivedEvents_of_notMem hnodup.1, Function.update_self]
      · exact ih hnodup.2 _ e' hmem

omit [DecidableEq ι] in
theorem Sound.nodup_events {s : Reactor ι} (h : s.Sound) {fds : List ℕ} (hfds : fds.Nodup)
    (pending : ℕ → Events) :
    ((fds.filterMap (s.table.poller.event pending)).map Prod.fst).Nodup := by
  have hback : ∀ fd (p : ι), p ∈ (s.table.poller.event pending fd).map Prod.fst →
      (s.table.channels p).fd = fd := by
    intro fd p hp
    rw [Epoller.event, Option.map_map] at hp
    obtain ⟨r, hr, rfl⟩ := Option.map_eq_some_iff.mp hp
    exact (h.added hr).1
  rw [List.map_filterMap]
  refine hfds.filterMap ?_
  intro fd fd' p hp hp'
  exact (hback fd p hp).symm.trans (hback fd' p hp')

end Received

/-! ## In order, each once -/

section Order

variable [DecidableEq ι] {s t : Reactor ι} {l : ReactorStep ι}

/-- **One step**: what was left and what the poll adds are what runs and what is
left. -/
theorem Step.dispatch (h : Step isSet s l t) (hs : s.Sound) :
    remaining isSet s ++ plannedBy isSet ⟨s, l, t⟩ =
      (ranBy ⟨s, l, t⟩).toList ++ remaining isSet t := by
  cases h with
  | @poll pending fds hturn hkernel =>
      have hnodup := hs.nodup_events hkernel.nodup pending
      have hdue : dueOf isSet (s.fillActiveChannels (fds.filterMap (s.table.poller.event pending)))
          ((fds.filterMap (s.table.poller.event pending)).map Prod.fst) =
          (fds.filterMap (s.table.poller.event pending)).flatMap fun e => due isSet e.1 e.2 := by
        rw [dueOf, List.flatMap_map]
        refine List.flatMap_congr fun e he => ?_
        exact congrArg (due isSet e.1) (setReceivedEvents_of_mem hnodup s.recvEvents e he)
      simp only [remaining, hturn, plannedBy, ranBy, Option.toList_none, List.nil_append]
      exact hdue.symm
  | interrupted hturn => simp [remaining, hturn, plannedBy, ranBy, dueOf]
  | handleEvent hturn => simp [remaining, hturn, plannedBy, ranBy, dueOf, due]
  | callback hturn => simp [remaining, hturn, plannedBy, ranBy, dueOf]
  | endEvent hturn => simp [remaining, hturn, plannedBy, ranBy, dueOf]
  | doToDoList hturn => simp [remaining, hturn, plannedBy, ranBy, dueOf]
  | returnToPoll hturn => simp [remaining, hturn, plannedBy, ranBy]
  | call huser _ =>
      cases hturn : s.turn with
      | inEvent p callbacks active => simp [remaining, hturn, plannedBy, ranBy, dueOf]
      | calling => simp [remaining, hturn, plannedBy, ranBy]
      | polling => rw [hturn] at huser; cases huser
      | handling active => rw [hturn] at huser; cases huser

end Order

end Reactor

/-- **Callbacks run in order, each once.** What the answers of the polls call for,
from the masks as they were then, is what has run and what is left, whatever the
callbacks do to the channels. -/
theorem callbacks_in_order {ι : Type} [DecidableEq ι] {isSet : ι → Callback → Bool}
    {ms : List (Move (Reactor ι) (ReactorStep ι))} {s : Reactor ι}
    (h : Run (reactor ι isSet) ms s) :
    Reactor.planned isSet ms = Reactor.ran ms ++ Reactor.remaining isSet s := by
  refine Run.history (I := fun ms s =>
    Reactor.planned isSet ms = Reactor.ran ms ++ Reactor.remaining isSet s) ?_ ?_ h
  · rintro s ⟨fd, -, rfl⟩
    rfl
  · intro ms s l t hrun ih hstep
    have hplanned : Reactor.planned isSet (ms ++ [⟨s, l, t⟩]) =
        Reactor.planned isSet ms ++ Reactor.plannedBy isSet ⟨s, l, t⟩ := by
      rw [Reactor.planned, List.flatMap_append, List.flatMap_singleton]
      rfl
    have hran : Reactor.ran (ms ++ [⟨s, l, t⟩]) =
        Reactor.ran ms ++ (Reactor.ranBy ⟨s, l, t⟩).toList := visible_snoc _ _ _
    rw [hplanned, hran, ih, List.append_assoc, List.append_assoc]
    exact congrArg _ (Reactor.Step.dispatch hstep (reactor_sound hrun))

/-! ## Asked for -/

namespace Reactor

variable {ι : Type}

def isPoll : ReactorStep ι → Bool
  | .poll _ _ | .interrupted => true
  | _ => false

/-- What is pending makes the callback due, and the channel asked for it. -/
def Wanted (c : Channel) (pending : Events) : Callback → Prop
  | .error => pending &&& EPOLLERR ≠ 0
  | .read => c.isReading = true ∧ pending &&& (EPOLLIN ||| EPOLLPRI) ≠ 0
  | .write => c.isWriting = true ∧ pending &&& EPOLLOUT ≠ 0

/-- The poll reported the channel, which was registered, and the callback was
wanted and set. -/
def Justified (isSet : ι → Callback → Bool) (m : Move (Reactor ι) (ReactorStep ι))
    (r : ι × Callback) : Prop :=
  ∃ pending fds, m.label = .poll pending fds ∧ (m.pre.table.channels r.1).fd ∈ fds ∧
    (m.pre.table.channels r.1).state = .kAdded ∧ isSet r.1 r.2 = true ∧
    Wanted (m.pre.table.channels r.1) (pending (m.pre.table.channels r.1).fd) r.2

variable {isSet : ι → Callback → Bool}

theorem received_and {pending events : Events}
    (hasks : events &&& (EPOLLIN ||| EPOLLPRI ||| EPOLLOUT) = events) (mask : Events) :
    pending &&& (events ||| (EPOLLERR ||| EPOLLHUP)) &&& mask =
      pending &&& (events &&& ((EPOLLIN ||| EPOLLPRI ||| EPOLLOUT) &&& mask) |||
        (EPOLLERR ||| EPOLLHUP) &&& mask) := by
  rw [BitVec.and_assoc, BitVec.and_or_distrib_right, ← BitVec.and_assoc events, hasks]

/-- The bits of a mask that were received were pending and asked for. -/
theorem received_asked {pending events mask asked : Events}
    (hasks : events &&& (EPOLLIN ||| EPOLLPRI ||| EPOLLOUT) = events)
    (hmask : (EPOLLIN ||| EPOLLPRI ||| EPOLLOUT) &&& mask = asked)
    (hforced : (EPOLLERR ||| EPOLLHUP) &&& mask = 0#32)
    (h : pending &&& (events ||| (EPOLLERR ||| EPOLLHUP)) &&& mask ≠ 0) :
    events &&& asked ≠ 0 ∧ pending &&& asked ≠ 0 := by
  rw [received_and hasks, hmask, hforced, BitVec.or_zero] at h
  constructor
  · intro hzero
    rw [hzero] at h
    exact h BitVec.and_zero
  · intro hzero
    rw [BitVec.and_comm events, ← BitVec.and_assoc, hzero] at h
    exact h BitVec.zero_and

theorem wanted_of_due {c : Channel} {pending : Events} {set : Callback → Bool} {f : Callback}
    (hasks : c.events &&& (EPOLLIN ||| EPOLLPRI ||| EPOLLOUT) = c.events)
    (h : f ∈ Channel.handleEventWithGuard set (pending &&& (c.events ||| (EPOLLERR ||| EPOLLHUP)))) :
    set f = true ∧ Wanted c pending f := by
  simp only [Channel.handleEventWithGuard, List.mem_append, List.mem_ite_nil_right,
    List.mem_singleton] at h
  rcases h with (⟨⟨hbits, hset⟩, rfl⟩ | ⟨⟨hbits, hset⟩, rfl⟩) | ⟨⟨hbits, hset⟩, rfl⟩
  · have hmask : (EPOLLIN ||| EPOLLPRI ||| EPOLLOUT) &&& (EPOLLERR ||| POLLNVAL) = 0#32 := by decide
    have hforced : (EPOLLERR ||| EPOLLHUP) &&& (EPOLLERR ||| POLLNVAL) = EPOLLERR := by decide
    rw [received_and hasks, hmask, hforced, BitVec.and_zero, BitVec.zero_or] at hbits
    exact ⟨hset, hbits⟩
  · have hmask : (EPOLLIN ||| EPOLLPRI ||| EPOLLOUT) &&& (EPOLLIN ||| EPOLLPRI ||| EPOLLRDHUP) =
        EPOLLIN ||| EPOLLPRI := by decide
    obtain ⟨hasked, hpending⟩ := received_asked hasks hmask (by decide) hbits
    exact ⟨hset, decide_eq_true hasked, hpending⟩
  · have hmask : (EPOLLIN ||| EPOLLPRI ||| EPOLLOUT) &&& EPOLLOUT = EPOLLOUT := by decide
    obtain ⟨hasked, hpending⟩ := received_asked hasks hmask (by decide) hbits
    exact ⟨hset, decide_eq_true hasked, hpending⟩

theorem remaining_of_ran {m : Move (Reactor ι) (ReactorStep ι)} {r : ι × Callback}
    (h : ranBy m = some r) : r ∈ remaining isSet m.pre := by
  unfold ranBy at h
  split at h
  · rename_i p c callbacks active _ hturn
    obtain rfl := Option.some.inj h
    rw [remaining, hturn]
    exact List.mem_append_left _ List.mem_cons_self
  · cases h

variable {s t : Reactor ι} {l : ReactorStep ι}

theorem justified_of_planned (hs : s.Sound) {r : ι × Callback}
    (hr : r ∈ plannedBy isSet ⟨s, l, t⟩) : Justified isSet ⟨s, l, t⟩ r := by
  cases l with
  | poll pending fds =>
      obtain ⟨e, he, hr⟩ := List.mem_flatMap.mp hr
      obtain ⟨fd, hfd, hevent⟩ := List.mem_filterMap.mp he
      obtain ⟨k, hk, rfl⟩ := Option.map_eq_some_iff.mp hevent
      obtain ⟨f, hf, rfl⟩ := List.mem_map.mp hr
      obtain ⟨rfl, hadded, hmask⟩ := hs.added hk
      rw [Epoller.ready, hk] at hf
      simp only [hmask] at hf
      obtain ⟨hset, hwanted⟩ := wanted_of_due (hs.asks k.1) hf
      exact ⟨pending, fds, rfl, hfd, hadded, hset, hwanted⟩
  | _ => exact absurd hr List.not_mem_nil

/-- The last poll of the history justifies it. -/
def Owed (isSet : ι → Callback → Bool) (ms : List (Move (Reactor ι) (ReactorStep ι)))
    (r : ι × Callback) : Prop :=
  ∃ earlier poll since, ms = earlier ++ poll :: since ∧
    (∀ m ∈ since, isPoll m.label = false) ∧ Justified isSet poll r

theorem Owed.snoc {ms : List (Move (Reactor ι) (ReactorStep ι))} {r : ι × Callback}
    (h : Owed isSet ms r) {m : Move (Reactor ι) (ReactorStep ι)} (hm : isPoll m.label = false) :
    Owed isSet (ms ++ [m]) r := by
  obtain ⟨earlier, poll, since, rfl, hsince, hr⟩ := h
  refine ⟨earlier, poll, since ++ [m], by simp, ?_, hr⟩
  exact List.forall_mem_append.mpr ⟨hsince, List.forall_mem_singleton.mpr hm⟩

/-- **What is left to run is owed by the last poll.** -/
theorem owed_of_remaining [DecidableEq ι] {ms : List (Move (Reactor ι) (ReactorStep ι))} {s : Reactor ι}
    (h : Run (reactor ι isSet) ms s) : ∀ r ∈ remaining isSet s, Owed isSet ms r := by
  refine Run.history (I := fun ms s => ∀ r ∈ remaining isSet s, Owed isSet ms r) ?_ ?_ h
  · rintro s ⟨fd, -, rfl⟩ r hr
    exact absurd hr List.not_mem_nil
  · intro ms s l t hrun ih hstep r hr
    have hs := reactor_sound hrun
    have hstep' : Step isSet s l t := hstep
    have hmem : r ∈ remaining isSet s ++ plannedBy isSet ⟨s, l, t⟩ := by
      rw [hstep'.dispatch hs]
      exact List.mem_append_right _ hr
    rcases List.mem_append.mp hmem with hleft | hnew
    · refine (ih r hleft).snoc ?_
      cases hstep' with
      | poll hturn _ => rw [remaining, hturn] at hleft; exact absurd hleft List.not_mem_nil
      | interrupted hturn => rw [remaining, hturn] at hleft; exact absurd hleft List.not_mem_nil
      | _ => rfl
    · exact ⟨ms, _, [], rfl, fun _ h => absurd h List.not_mem_nil, justified_of_planned hs hnew⟩

end Reactor

/-- **No callback runs unasked.** The last poll before it reported the channel,
which was registered and asked for what the callback is for, and that was pending. -/
theorem callback_justified {ι : Type} [DecidableEq ι] {isSet : ι → Callback → Bool}
    {ms before after : List (Move (Reactor ι) (ReactorStep ι))} {s : Reactor ι}
    {m : Move (Reactor ι) (ReactorStep ι)} {r : ι × Callback}
    (h : Run (reactor ι isSet) ms s) (hms : ms = before ++ m :: after)
    (hran : Reactor.ranBy m = some r) :
    ∃ earlier poll since, before = earlier ++ poll :: since ∧
      (∀ x ∈ since, Reactor.isPoll x.label = false) ∧ Reactor.Justified isSet poll r := by
  have hbefore := (h.split hms).1
  exact Reactor.owed_of_remaining hbefore r (Reactor.remaining_of_ran hran)

namespace Reactor

/-- The loop with two channels, both of them reading. -/
def two : Reactor Bool :=
  ⟨((⟨fun p => Channel.new (cond p 5 6), Epoller.new⟩ : ChannelTable Bool).call true
    .enableReading).call false .enableReading, fun _ => 0, kDefaultEvents, .polling⟩

theorem answers_two : two.table.poller.Answers (fun _ => EPOLLIN) kDefaultEvents [5, 6] where
  nodup := by decide
  ready := by decide
  room := by decide
  all := by
    intro _ fd hfd
    by_contra hout
    rw [List.mem_cons, List.mem_singleton, not_or] at hout
    have hinterest : two.table.poller.interest fd = Function.update (Function.update
        (fun _ : ℕ => (none : Option (Bool × Events))) 5 (some (true, EPOLLIN ||| EPOLLPRI)))
        6 (some (false, EPOLLIN ||| EPOLLPRI)) fd := rfl
    rw [Function.update_of_ne hout.2, Function.update_of_ne hout.1] at hinterest
    exact Epoller.registered_of_ready hfd hinterest

def twoPolled : Reactor Bool :=
  two.fillActiveChannels ([5, 6].filterMap (two.table.poller.event fun _ => EPOLLIN))

/-- The callback of the first one takes the second one out of the poller. -/
def twoRemoved : Reactor Bool :=
  { twoPolled with
    table := twoPolled.table.call false .remove
    turn := .inEvent true [] [false] }

def readers : Bool → Callback → Bool := fun _ c => c = .read

/-- The callback of a channel that has been removed runs all the same. -/
theorem exists_stale_run :
    ∃ before m s, Run (reactor Bool readers) (before ++ [m]) s ∧
      ran (before ++ [m]) = [(true, .read), (false, .read)] ∧
      ranBy m = some (false, .read) ∧ (m.pre.table.channels false).state = .kNew := by
  have hstart : Run (reactor Bool readers) []
      ⟨⟨fun p => Channel.new (cond p 5 6), Epoller.new⟩, fun _ => 0, kDefaultEvents, .calling⟩ :=
    .start ⟨fun p => cond p 5 6, by decide, rfl⟩
  have hcalls := (hstart.next (Step.call (p := true) (f := .enableReading) rfl (by rintro ⟨⟩))).next
    (Step.call (p := false) (f := .enableReading) rfl (by rintro ⟨⟩))
  have hturn : (reactor Bool readers).step { two with turn := .calling } .returnToPoll two :=
    Step.returnToPoll rfl
  have hpoll : (reactor Bool readers).step two (.poll (fun _ => EPOLLIN) [5, 6]) twoPolled :=
    Step.poll rfl answers_two
  have hfirst : (reactor Bool readers).step twoPolled .handleEvent
      { twoPolled with turn := .inEvent true [.read] [false] } := Step.handleEvent rfl
  have hran : (reactor Bool readers).step { twoPolled with turn := .inEvent true [.read] [false] }
      .callback { twoPolled with turn := .inEvent true [] [false] } := Step.callback rfl
  have hremove : (reactor Bool readers).step { twoPolled with turn := .inEvent true [] [false] }
      (.call false .remove) twoRemoved := Step.call rfl fun _ => Or.inl rfl
  have hend : (reactor Bool readers).step twoRemoved .endEvent
      { twoRemoved with turn := .handling [false] } := Step.endEvent rfl
  have hsecond : (reactor Bool readers).step { twoRemoved with turn := .handling [false] }
      .handleEvent { twoRemoved with turn := .inEvent false [.read] [] } := Step.handleEvent rfl
  have hlast : (reactor Bool readers).step { twoRemoved with turn := .inEvent false [.read] [] }
      .callback { twoRemoved with turn := .inEvent false [] [] } := Step.callback rfl
  have hrun := ((((((((hcalls.next hturn).next hpoll).next hfirst).next hran).next hremove).next
    hend).next hsecond).next hlast)
  exact ⟨_, _, _, hrun, rfl, rfl, rfl⟩

end Reactor

/-- What the poll called for has run, although the first callback has removed the
second channel. -/
theorem callbacks_in_order_removed :
    ∃ ms s, Run (reactor Bool Reactor.readers) ms s ∧ Reactor.planned Reactor.readers ms =
      [(true, .read), (false, .read)] ++ Reactor.remaining Reactor.readers s := by
  obtain ⟨before, m, s, hrun, hran, -, -⟩ := Reactor.exists_stale_run
  exact ⟨_, s, hrun, hran ▸ callbacks_in_order hrun⟩

/-- The second callback is justified by that poll, and by nothing later. -/
theorem callback_justified_removed :
    ∃ (m poll : Move (Reactor Bool) (ReactorStep Bool)),
      Reactor.ranBy m = some (false, .read) ∧ (m.pre.table.channels false).state = .kNew ∧
      Reactor.Justified Reactor.readers poll (false, .read) := by
  obtain ⟨before, m, s, hrun, -, hran, hstate⟩ := Reactor.exists_stale_run
  obtain ⟨-, poll, -, -, -, hpoll⟩ := callback_justified hrun rfl hran
  exact ⟨m, poll, hran, hstate, hpoll⟩

end TinyMuduo
