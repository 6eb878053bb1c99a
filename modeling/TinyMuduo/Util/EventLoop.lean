import Mathlib.Logic.Function.Basic
import TinyMuduo.Lib.Fifo
import TinyMuduo.Lib.Transition

/-!
# `EventLoop`: queued functors and the wake-up

Translation of `Util/eventloop.cc` as one loop thread and any number of other
threads. Taking the mutex is one step, so the push of `QueueOneFunc` and its
write to the eventfd are two steps, between which anything may happen. A label
says who moves and how, and determines the next state.
-/

namespace TinyMuduo

open Transition

inductive LoopPhase (φ : Type) where
  /-- About to wait in `epoll_wait`. -/
  | polling
  /-- In the event handlers; `wake` while the wake-up channel is still to be
  handled. -/
  | handling (wake : Bool)
  /-- In `DoToDoList`, before the swap. -/
  | calling
  /-- In `DoToDoList`, with the functor being run and those still to be run. -/
  | running (current : Option φ) (rest : List φ)

/-- The members of `EventLoop` that `QueueOneFunc` and `Loop` share, the counter
of the eventfd, and who has pushed but not yet written: other threads, and the
loop thread itself. -/
structure EventLoop (τ φ : Type) where
  toDoList : List φ
  callingFunctors : Bool
  counter : ℕ
  between : τ → Bool
  ownWrite : Bool
  phase : LoopPhase φ

inductive LoopStep (τ φ : Type) where
  /-- `QueueOneFunc` from another thread, up to the end of its critical section. -/
  | queueOneFunc (thread : τ) (func : φ)
  /-- The write of that call. -/
  | writeWakeup (thread : τ)
  /-- `QueueOneFunc` from the loop thread, and its write when it makes one. -/
  | queueOwnFunc (func : φ)
  | writeOwnWakeup
  /-- `Poll` returns, with or without the wake-up channel among its channels. -/
  | poll (wake : Bool)
  | handleRead
  /-- `DoToDoList` is entered, swaps, starts and finishes functors, and returns. -/
  | callFunctors
  | swapFunctors
  | startFunctor
  | finishFunctor
  | returnToPoll
deriving DecidableEq

/-- The eventfd refuses to count further. -/
def kMaxCounter : ℕ := 0xfffffffffffffffe

namespace EventLoop

variable {τ φ : Type} [DecidableEq τ]

/-- A loop that entered `Loop` with nothing queued. -/
def new : EventLoop τ φ where
  toDoList := []
  callingFunctors := false
  counter := 0
  between := fun _ => false
  ownWrite := false
  phase := .polling

/-- `to_do_list_.emplace_back(func)`. -/
def push (func : φ) (s : EventLoop τ φ) : EventLoop τ φ :=
  { s with toDoList := s.toDoList ++ [func] }

/-- `::write(wakeup_fd_, 1)`. -/
def write (s : EventLoop τ φ) : EventLoop τ φ :=
  { s with counter := if s.counter < kMaxCounter then s.counter + 1 else s.counter }

/-- The loop thread runs a handler or a functor, not `Loop` itself. -/
def inUserCode : LoopPhase φ → Bool
  | .handling _ => true
  | .running (some _) _ => true
  | _ => false

/-- The step of the loop thread itself, when it is not between a push and a
write of its own. -/
def nextOwn (s : EventLoop τ φ) : LoopStep τ φ → Option (EventLoop τ φ)
  | .queueOwnFunc func =>
      if inUserCode s.phase then some { s.push func with ownWrite := s.callingFunctors } else none
  | .poll wake =>
      match s.phase with
      | .polling =>
          if wake = true → 0 < s.counter then some { s with phase := .handling wake } else none
      | _ => none
  | .handleRead =>
      match s.phase with
      | .handling true => some { s with counter := 0, phase := .handling false }
      | _ => none
  | .callFunctors =>
      match s.phase with
      | .handling false => some { s with callingFunctors := true, phase := .calling }
      | _ => none
  | .swapFunctors =>
      match s.phase with
      | .calling => some { s with toDoList := [], phase := .running none s.toDoList }
      | _ => none
  | .startFunctor =>
      match s.phase with
      | .running none (func :: rest) => some { s with phase := .running (some func) rest }
      | _ => none
  | .finishFunctor =>
      match s.phase with
      | .running (some _) rest => some { s with phase := .running none rest }
      | _ => none
  | .returnToPoll =>
      match s.phase with
      | .running none [] => some { s with callingFunctors := false, phase := .polling }
      | _ => none
  | _ => none

def next (s : EventLoop τ φ) : LoopStep τ φ → Option (EventLoop τ φ)
  | .queueOneFunc thread func =>
      if s.between thread then none
      else some { s.push func with between := Function.update s.between thread true }
  | .writeWakeup thread =>
      if s.between thread then
        some { s.write with between := Function.update s.between thread false }
      else none
  | .writeOwnWakeup => if s.ownWrite then some { s.write with ownWrite := false } else none
  | step => if s.ownWrite then none else s.nextOwn step

/-! ## What one step can do -/

omit [DecidableEq τ] in
theorem own_cases {s t : EventLoop τ φ} {o : Option (EventLoop τ φ)}
    (h : (if s.ownWrite then none else o) = some t) : s.ownWrite = false ∧ o = some t := by
  obtain ⟨hown, ho⟩ := Option.ite_none_left_eq_some.mp h
  exact ⟨Bool.eq_false_iff.mpr hown, ho⟩

theorem next_cases {s t : EventLoop τ φ} {l : LoopStep τ φ} (h : s.next l = some t) :
    match l with
    | .queueOneFunc thread func => s.between thread = false ∧
        t = { s.push func with between := Function.update s.between thread true }
    | .writeWakeup thread => s.between thread = true ∧
        t = { s.write with between := Function.update s.between thread false }
    | .writeOwnWakeup => s.ownWrite = true ∧ t = { s.write with ownWrite := false }
    | .queueOwnFunc func => s.ownWrite = false ∧ inUserCode s.phase = true ∧
        t = { s.push func with ownWrite := s.callingFunctors }
    | .poll wake => s.ownWrite = false ∧ s.phase = .polling ∧ (wake = true → 0 < s.counter) ∧
        t = { s with phase := .handling wake }
    | .handleRead => s.ownWrite = false ∧ s.phase = .handling true ∧
        t = { s with counter := 0, phase := .handling false }
    | .callFunctors => s.ownWrite = false ∧ s.phase = .handling false ∧
        t = { s with callingFunctors := true, phase := .calling }
    | .swapFunctors => s.ownWrite = false ∧ s.phase = .calling ∧
        t = { s with toDoList := [], phase := .running none s.toDoList }
    | .startFunctor => s.ownWrite = false ∧ ∃ func rest, s.phase = .running none (func :: rest) ∧
        t = { s with phase := .running (some func) rest }
    | .finishFunctor => s.ownWrite = false ∧ ∃ func rest, s.phase = .running (some func) rest ∧
        t = { s with phase := .running none rest }
    | .returnToPoll => s.ownWrite = false ∧ s.phase = .running none [] ∧
        t = { s with callingFunctors := false, phase := .polling } := by
  cases l with
  | queueOneFunc thread func =>
      simp only [next] at h
      split at h
      · cases h
      · next hb => exact ⟨Bool.eq_false_iff.mpr hb, (Option.some.inj h).symm⟩
  | writeWakeup thread =>
      simp only [next] at h
      split at h
      · next hb => exact ⟨hb, (Option.some.inj h).symm⟩
      · cases h
  | writeOwnWakeup =>
      simp only [next] at h
      split at h
      · next hb => exact ⟨hb, (Option.some.inj h).symm⟩
      · cases h
  | queueOwnFunc func =>
      obtain ⟨hown, h⟩ := own_cases h
      simp only [nextOwn] at h
      split at h
      · next hu => exact ⟨hown, hu, (Option.some.inj h).symm⟩
      · cases h
  | poll wake =>
      obtain ⟨hown, h⟩ := own_cases h
      simp only [nextOwn] at h
      split at h
      · next hp =>
          split at h
          · next hw => exact ⟨hown, hp, hw, (Option.some.inj h).symm⟩
          · cases h
      · cases h
  | handleRead =>
      obtain ⟨hown, h⟩ := own_cases h
      simp only [nextOwn] at h
      split at h
      · next hp => exact ⟨hown, hp, (Option.some.inj h).symm⟩
      · cases h
  | callFunctors =>
      obtain ⟨hown, h⟩ := own_cases h
      simp only [nextOwn] at h
      split at h
      · next hp => exact ⟨hown, hp, (Option.some.inj h).symm⟩
      · cases h
  | swapFunctors =>
      obtain ⟨hown, h⟩ := own_cases h
      simp only [nextOwn] at h
      split at h
      · next hp => exact ⟨hown, hp, (Option.some.inj h).symm⟩
      · cases h
  | startFunctor =>
      obtain ⟨hown, h⟩ := own_cases h
      simp only [nextOwn] at h
      split at h
      · next func rest hp =>
          exact ⟨hown, func, rest, hp, (Option.some.inj h).symm⟩
      · cases h
  | finishFunctor =>
      obtain ⟨hown, h⟩ := own_cases h
      simp only [nextOwn] at h
      split at h
      · next func rest hp =>
          exact ⟨hown, func, rest, hp, (Option.some.inj h).symm⟩
      · cases h
  | returnToPoll =>
      obtain ⟨hown, h⟩ := own_cases h
      simp only [nextOwn] at h
      split at h
      · next hp => exact ⟨hown, hp, (Option.some.inj h).symm⟩
      · cases h

omit [DecidableEq τ] in
theorem write_counter_pos (s : EventLoop τ φ) : 0 < s.write.counter := by
  show 0 < if s.counter < kMaxCounter then s.counter + 1 else s.counter
  split
  · exact Nat.succ_pos _
  · next h => exact Nat.lt_of_lt_of_le (by decide) (Nat.le_of_not_lt h)

/-! ## Whoever queued a functor wakes the loop up -/

/-- A wake-up is under way: it is in the counter, or someone is about to write
it. -/
def WakeUnderWay (s : EventLoop τ φ) : Prop :=
  0 < s.counter ∨ (∃ thread, s.between thread = true) ∨ s.ownWrite = true

/-- Between the swap and the next wait. -/
def PastSwap : LoopPhase φ → Prop
  | .polling => True
  | .running _ _ => True
  | _ => False

/-- The loop thread is inside `DoToDoList`. -/
def InDoToDoList : LoopPhase φ → Prop
  | .calling => True
  | .running _ _ => True
  | _ => False

/-- **The wake-up invariant**: what is queued behind the swap has a wake-up
under way, and the loop thread decides with `calling_functors_` whether it must
write one for itself. -/
structure Wakeful (s : EventLoop τ φ) : Prop where
  calling : s.callingFunctors = true ↔ InDoToDoList s.phase
  own : s.ownWrite = true → ∃ func rest, s.phase = .running (some func) rest
  covered : PastSwap s.phase → s.toDoList ≠ [] → s.WakeUnderWay

omit [DecidableEq τ] in
theorem Wakeful.quiet {s : EventLoop τ φ} (hown : s.ownWrite = false)
    (hcalling : s.callingFunctors = true ↔ InDoToDoList s.phase)
    (hcovered : PastSwap s.phase → s.toDoList ≠ [] → s.WakeUnderWay) : s.Wakeful where
  calling := hcalling
  own := by
    intro h
    rw [hown] at h
    cases h
  covered := hcovered

omit [DecidableEq τ] in
theorem new_wakeful : (new : EventLoop τ φ).Wakeful where
  calling := iff_of_false Bool.false_ne_true id
  own := by rintro ⟨⟩
  covered := by
    intro _ h
    exact absurd rfl h

theorem next_wakeful {s t : EventLoop τ φ} {l : LoopStep τ φ} (hs : s.Wakeful)
    (h : s.next l = some t) : t.Wakeful := by
  have hcase := next_cases h
  cases l with
  | queueOneFunc thread func =>
      obtain ⟨-, rfl⟩ := hcase
      exact ⟨hs.calling, hs.own, fun _ _ => Or.inr (Or.inl ⟨thread, Function.update_self ..⟩)⟩
  | writeWakeup thread =>
      obtain ⟨-, rfl⟩ := hcase
      exact ⟨hs.calling, hs.own, fun _ _ => Or.inl s.write_counter_pos⟩
  | writeOwnWakeup =>
      obtain ⟨-, rfl⟩ := hcase
      exact ⟨hs.calling, by rintro ⟨⟩, fun _ _ => Or.inl s.write_counter_pos⟩
  | queueOwnFunc func =>
      obtain ⟨-, huser, rfl⟩ := hcase
      refine ⟨hs.calling, ?_, ?_⟩
      · -- a handler runs with `calling_functors_` reset
        intro hown
        have hin : InDoToDoList s.phase := hs.calling.mp hown
        cases hp : s.phase with
        | polling => rw [hp] at hin; exact hin.elim
        | handling wake => rw [hp] at hin; exact hin.elim
        | calling => rw [hp] at huser; cases huser
        | running current rest =>
            cases current with
            | none => rw [hp] at huser; cases huser
            | some func' => exact ⟨func', rest, hp⟩
      · intro hpast _
        have hin : InDoToDoList s.phase := by
          cases hp : s.phase with
          | polling => rw [hp] at huser; cases huser
          | handling wake => rw [show ({ s.push func with ownWrite := s.callingFunctors } :
              EventLoop τ φ).phase = s.phase from rfl, hp] at hpast; exact hpast.elim
          | calling => trivial
          | running current rest => trivial
        exact Or.inr (Or.inr (hs.calling.mpr hin))
  | poll wake =>
      obtain ⟨hown, hp, -, rfl⟩ := hcase
      exact .quiet hown (by rw [hs.calling, hp]; exact Iff.rfl) fun hpast => hpast.elim
  | handleRead =>
      obtain ⟨hown, hp, rfl⟩ := hcase
      exact .quiet hown (by rw [hs.calling, hp]; exact Iff.rfl) fun hpast => hpast.elim
  | callFunctors =>
      obtain ⟨hown, hp, rfl⟩ := hcase
      exact .quiet hown (iff_of_true rfl trivial) fun hpast => hpast.elim
  | swapFunctors =>
      obtain ⟨hown, hp, rfl⟩ := hcase
      exact .quiet hown (by rw [hs.calling, hp]; exact Iff.rfl) fun _ hne => absurd rfl hne
  | startFunctor =>
      obtain ⟨hown, func, rest, hp, rfl⟩ := hcase
      exact .quiet hown (by rw [hs.calling, hp]; exact Iff.rfl)
        fun _ => hs.covered (by rw [hp]; trivial)
  | finishFunctor =>
      obtain ⟨hown, func, rest, hp, rfl⟩ := hcase
      exact .quiet hown (by rw [hs.calling, hp]; exact Iff.rfl)
        fun _ => hs.covered (by rw [hp]; trivial)
  | returnToPoll =>
      obtain ⟨hown, hp, rfl⟩ := hcase
      exact .quiet hown (iff_of_false Bool.false_ne_true id)
        fun _ => hs.covered (by rw [hp]; trivial)

/-! ## Functors leave the queue in the order they entered it -/

/-- Swapped out and not yet started. -/
def swapped (s : EventLoop τ φ) : List φ :=
  match s.phase with
  | .running _ rest => rest
  | _ => []

end EventLoop

/-! ## The queue of functors -/

inductive TaskEvent (φ : Type) where
  | queued (func : φ)
  | executed (func : φ)

/-- A queue of functors: each execution takes the oldest one. -/
def taskQueue (φ : Type) : LTS (Fifo φ) (TaskEvent φ) where
  init q := q = Fifo.empty
  step q e q' :=
    match e with
    | .queued func => q' = q.put [func]
    | .executed func => q.contents.head? = some func ∧ q' = q.pop 1

namespace TaskEvent

variable {φ : Type}

def queuedFunc : TaskEvent φ → Option φ
  | .queued func => some func
  | .executed _ => none

def executedFunc : TaskEvent φ → Option φ
  | .queued _ => none
  | .executed func => some func

end TaskEvent

/-- **What was executed is what left the queue**, in the order it entered. -/
theorem taskQueue_order {φ : Type} {qs : List (Move (Fifo φ) (TaskEvent φ))} {q : Fifo φ}
    (h : Run (taskQueue φ) qs q) :
    (labels qs).filterMap TaskEvent.queuedFunc = q.input ∧
      (labels qs).filterMap TaskEvent.executedFunc = q.removed := by
  refine Run.history (I := fun qs q => (labels qs).filterMap TaskEvent.queuedFunc = q.input ∧
    (labels qs).filterMap TaskEvent.executedFunc = q.removed) ?_ ?_ h
  · rintro q rfl
    exact ⟨rfl, rfl⟩
  · rintro qs q e q' - ⟨hqueued, hexecuted⟩ hstep
    have hlabels : labels (qs ++ [⟨q, e, q'⟩]) = labels qs ++ [e] := List.map_append
    rw [hlabels, List.filterMap_append, List.filterMap_append, hqueued, hexecuted]
    cases e with
    | queued func =>
        obtain rfl : q' = q.put [func] := hstep
        refine ⟨rfl, ?_⟩
        show q.removed ++ [] = (q.input ++ [func]).take q.taken
        rw [List.append_nil, List.take_append_of_le_length q.taken_le]
        rfl
    | executed func =>
        obtain ⟨hhead, rfl⟩ := hstep
        refine ⟨List.append_nil _, ?_⟩
        rw [Fifo.removed_pop_one hhead]
        rfl

/-! ## Whole runs -/

def eventLoopSystem (τ φ : Type) [DecidableEq τ] : LTS (EventLoop τ φ) (LoopStep τ φ) :=
  LTS.ofNext (fun s => s = EventLoop.new) EventLoop.next

section Runs

variable {τ φ : Type} [DecidableEq τ]

theorem eventLoop_run (steps : List (LoopStep τ φ)) {s : EventLoop τ φ}
    (h : steps.foldlM EventLoop.next EventLoop.new = some s) :
    ∃ ms, Run (eventLoopSystem τ φ) ms s := by
  have hinit : (eventLoopSystem τ φ).init EventLoop.new := rfl
  obtain ⟨ms, hrun, -⟩ := exists_run_of_labels hinit h
  exact ⟨ms, hrun⟩

/-- The functor a move queues or starts. -/
def taskEvent (m : Move (EventLoop τ φ) (LoopStep τ φ)) : Option (TaskEvent φ) :=
  match m.label, m.pre.phase with
  | .queueOneFunc _ func, _ => some (.queued func)
  | .queueOwnFunc func, _ => some (.queued func)
  | .startFunctor, .running none (func :: _) => some (.executed func)
  | _, _ => none

/-- The queue of functors holds what is swapped out and what is queued. -/
def Queues (s : EventLoop τ φ) (q : Fifo φ) : Prop := q.contents = s.swapped ++ s.toDoList

/-- **One move** is one step of the queue of functors, or hidden from it. -/
theorem next_refines {s t : EventLoop τ φ} {l : LoopStep τ φ} {q : Fifo φ}
    (hq : Queues s q) (h : s.next l = some t) :
    Follows (taskQueue φ) Queues t q (taskEvent ⟨s, l, t⟩) := by
  unfold Queues at hq
  have hcase := EventLoop.next_cases h
  cases l with
  | queueOneFunc thread func =>
      obtain ⟨-, rfl⟩ := hcase
      refine ⟨q.put [func], rfl, ?_⟩
      rw [Queues, Fifo.contents_put, hq, List.append_assoc]
      rfl
  | writeWakeup thread =>
      obtain ⟨-, rfl⟩ := hcase
      exact hq
  | writeOwnWakeup =>
      obtain ⟨-, rfl⟩ := hcase
      exact hq
  | queueOwnFunc func =>
      obtain ⟨-, -, rfl⟩ := hcase
      refine ⟨q.put [func], rfl, ?_⟩
      rw [Queues, Fifo.contents_put, hq, List.append_assoc]
      rfl
  | poll wake =>
      obtain ⟨-, hp, -, rfl⟩ := hcase
      rw [EventLoop.swapped, hp] at hq
      exact hq
  | handleRead =>
      obtain ⟨-, hp, rfl⟩ := hcase
      rw [EventLoop.swapped, hp] at hq
      exact hq
  | callFunctors =>
      obtain ⟨-, hp, rfl⟩ := hcase
      rw [EventLoop.swapped, hp] at hq
      exact hq
  | swapFunctors =>
      obtain ⟨-, hp, rfl⟩ := hcase
      rw [EventLoop.swapped, hp] at hq
      exact hq.trans (List.append_nil _).symm
  | startFunctor =>
      obtain ⟨-, func, rest, hp, rfl⟩ := hcase
      rw [EventLoop.swapped, hp] at hq
      simp only [taskEvent, hp]
      refine ⟨q.pop 1, ⟨by rw [hq]; rfl, rfl⟩, ?_⟩
      rw [Queues, Fifo.contents_pop, hq]
      rfl
  | finishFunctor =>
      obtain ⟨-, func, rest, hp, rfl⟩ := hcase
      rw [EventLoop.swapped, hp] at hq
      exact hq
  | returnToPoll =>
      obtain ⟨-, hp, rfl⟩ := hcase
      rw [EventLoop.swapped, hp] at hq
      exact hq

/-- **The event loop refines the queue of functors.** -/
theorem eventLoop_refines {ms : List (Move (EventLoop τ φ) (LoopStep τ φ))} {s : EventLoop τ φ}
    (h : Run (eventLoopSystem τ φ) ms s) :
    ∃ qs q, Run (taskQueue φ) qs q ∧ Queues s q ∧ labels qs = visible taskEvent ms := by
  refine Run.simulate taskEvent ?_ ?_ h
  · rintro s rfl
    exact ⟨Fifo.empty, rfl, rfl⟩
  · intro s l t q hq hstep
    exact next_refines hq hstep

/-- The functors queued in a history, in the order of the pushes. -/
def queuedFuncs (ms : List (Move (EventLoop τ φ) (LoopStep τ φ))) : List φ :=
  (visible taskEvent ms).filterMap TaskEvent.queuedFunc

/-- The functors executed in a history, in the order of their execution. -/
def executedFuncs (ms : List (Move (EventLoop τ φ) (LoopStep τ φ))) : List φ :=
  (visible taskEvent ms).filterMap TaskEvent.executedFunc

/-- **No lost wake-up, and every functor at most once and in order.** When the
loop is about to wait with functors queued, a wake-up is in the eventfd or
another thread is about to write it; and the executed functors, those swapped
out and those queued are together what was pushed, in the order of the pushes. -/
theorem no_lost_wakeup {ms : List (Move (EventLoop τ φ) (LoopStep τ φ))} {s : EventLoop τ φ}
    (h : Run (eventLoopSystem τ φ) ms s) :
    (s.phase = .polling → s.toDoList ≠ [] →
        0 < s.counter ∨ ∃ thread, s.between thread = true) ∧
      queuedFuncs ms = executedFuncs ms ++ (s.swapped ++ s.toDoList) := by
  have hwakeful : s.Wakeful := by
    refine Run.invariant (I := EventLoop.Wakeful) ?_ ?_ h
    · rintro s rfl
      exact EventLoop.new_wakeful
    · intro s l t hs hstep
      exact EventLoop.next_wakeful hs hstep
  constructor
  · intro hp hne
    rcases hwakeful.covered (by rw [hp]; trivial) hne with hc | hb | hown
    · exact Or.inl hc
    · exact Or.inr hb
    · obtain ⟨func, rest, hrun⟩ := hwakeful.own hown
      rw [hp] at hrun
      cases hrun
  · obtain ⟨qs, q, hrun, hcontents, hlabels⟩ := eventLoop_refines h
    obtain ⟨hqueued, hexecuted⟩ := taskQueue_order hrun
    rw [queuedFuncs, executedFuncs, ← hlabels, hqueued, hexecuted,
      ← show q.contents = _ from hcontents, Fifo.removed_append_contents]

end Runs

/-- A functor that queues another one: at the next wait the second one is
queued, and its wake-up is in the counter. -/
theorem no_lost_wakeup_nested :
    ∃ (ms : List (Move (EventLoop Unit ℕ) (LoopStep Unit ℕ))) (s : EventLoop Unit ℕ),
      Run (eventLoopSystem Unit ℕ) ms s ∧ s.phase = .polling ∧ s.toDoList = [2] ∧
      (0 < s.counter ∨ ∃ thread, s.between thread = true) ∧
      queuedFuncs ms = executedFuncs ms ++ [2] := by
  obtain ⟨ms, hrun⟩ := eventLoop_run
    [.queueOneFunc () 1, .writeWakeup (), .poll true, .handleRead, .callFunctors,
      .swapFunctors, .startFunctor, .queueOwnFunc 2, .writeOwnWakeup, .finishFunctor,
      .returnToPoll] rfl
  obtain ⟨hwake, horder⟩ := no_lost_wakeup hrun
  exact ⟨ms, _, hrun, rfl, rfl, hwake rfl (List.cons_ne_nil _ _), horder⟩

end TinyMuduo
