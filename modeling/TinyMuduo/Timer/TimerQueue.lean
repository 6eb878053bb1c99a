import Mathlib.Data.List.AList
import Mathlib.Data.Prod.Lex
import TinyMuduo.Lib.OrderedSet
import TinyMuduo.Lib.Transition
import TinyMuduo.Timer.Timer

/-!
# The timer queue

Translation of `Timer/timerqueue.h` and `Timer/timerqueue.cc`, with the timerfd
of the kernel and the memory the timers live in. `HandleRead` calls back into
arbitrary code, which may add timers, so it is not one step: it takes the expired
timers out, then each `Run` begins and ends, then each timer is restarted or
deleted, and last the timerfd is set again.

`AddTimer` called in another thread leaves the loop a functor to run. Following a
pointer to a deleted timer has no next state.
-/

namespace TinyMuduo

open Transition Ordered

/-! ## The timerfd -/

structure Timespec where
  tvSec : ℤ
  tvNsec : ℤ
deriving DecidableEq

/-- A timerfd that has been set and whose expiry has not been read. -/
structure TimerFd where
  lastSet : Timestamp
  value : Timespec
  expired : Bool
deriving DecidableEq

/-- The moment the timer goes off, on a clock that runs uniformly. -/
def TimerFd.deadline (fd : TimerFd) : Timestamp :=
  ⟨fd.lastSet.microSeconds + fd.value.tvSec * kMicrosecond2Second + fd.value.tvNsec / 1000⟩

/-! ## The queue -/

abbrev TimerPair := Timestamp × TimerPtr

/-- `std::pair` compares the times first and then the addresses. -/
def timerKey (e : TimerPair) : ℤ ×ₗ ℕ := toLex (e.1.microSeconds, e.2.address)

/-- `timerfd` is empty when there is nothing to wait for and nothing to read. -/
structure TimerQueue where
  timers : OrderedSet timerKey
  activeTimers : List TimerPair
  timerfd : Option TimerFd

namespace TimerQueue

def new : TimerQueue where
  timers := OrderedSet.empty
  activeTimers := []
  timerfd := none

/-- The value of `new_.it_value`. -/
def itValue (timer : Timer) (now : Timestamp) : Timespec :=
  let dif := timer.expiration.microSeconds - now.microSeconds
  let dif := if dif < 100 then 100 else dif
  ⟨dif.tdiv kMicrosecond2Second, dif.tmod kMicrosecond2Second * 1000⟩

/-- `timerfd_settime` also takes back an expiry that has not been read. -/
def resetTimer (q : TimerQueue) (timer : Timer) (now : Timestamp) : TimerQueue :=
  { q with timerfd := some ⟨now, itValue timer now, false⟩ }

/-- The new timer comes before all others. -/
def resetInstantly (q : TimerQueue) (timer : Timer) : Bool :=
  match q.timers.first with
  | none => true
  | some e => timer.expiration.microSeconds < e.1.microSeconds

def insert (q : TimerQueue) (ptr : TimerPtr) (timer : Timer) : TimerQueue :=
  { q with timers := q.timers.emplace (timer.expiration, ptr) }

def addTimerInLoop (q : TimerQueue) (ptr : TimerPtr) (timer : Timer) (now : Timestamp) :
    TimerQueue :=
  if q.resetInstantly timer then (q.insert ptr timer).resetTimer timer now
  else q.insert ptr timer

/-- Before its expiry there is nothing to read, and the timerfd stays as it is. -/
def readTimerFd (q : TimerQueue) : TimerQueue :=
  match q.timerfd with
  | some fd => if fd.expired then { q with timerfd := none } else q
  | none => q

/-- The key of `TimerPair(now, UINTPTR_MAX)`. -/
def expiryKey (now : Timestamp) : ℤ ×ₗ ℕ := toLex (now.microSeconds, kUintptrMax)

/-- `HandleRead` up to its loop. -/
def takeExpired (q : TimerQueue) (now : Timestamp) : TimerQueue :=
  { q.readTimerFd with
    activeTimers := q.timers.below (expiryKey now)
    timers := q.timers.eraseBelow (expiryKey now) }

end TimerQueue

/-! ## The steps -/

inductive TimerPhase where
  /-- Outside `TimerQueue`. -/
  | idle
  /-- In `HandleRead`, before the next `Run`. -/
  | running (rest : List TimerPair)
  /-- In a callback. -/
  | calling (rest : List TimerPair)
  /-- In the loop of `ResetTimers`. -/
  | resetting (rest : List TimerPair)
deriving DecidableEq

abbrev TimerHeap := AList fun _ : TimerPtr => Timer

structure TimerState where
  queue : TimerQueue
  heap : TimerHeap
  nextId : ℕ
  toDoList : List TimerPtr
  phase : TimerPhase

/-- The clock reading of a step is its argument `now`. -/
inductive TimerLabel where
  | queueTimer (timestamp : Timestamp) (interval : ℚ) (address : ℕ)
  | addTimer (timestamp : Timestamp) (interval : ℚ) (address : ℕ) (now : Timestamp)
  | runFunctor (now : Timestamp)
  | expire (now : Timestamp)
  | handleRead (now : Timestamp)
  | run
  | returned
  | resetTimers
  | settle (now : Timestamp)
  | rearm (now : Timestamp)
deriving DecidableEq

namespace TimerState

def new : TimerState where
  queue := TimerQueue.new
  heap := ∅
  nextId := 0
  toDoList := []
  phase := .idle

/-- `ptr` may be what `new Timer` returns next: no other timer lies there. -/
structure Fresh (s : TimerState) (ptr : TimerPtr) : Prop where
  id : ptr.id = s.nextId
  address : ∀ p ∈ s.heap, p.address ≠ ptr.address

def allocated (s : TimerState) (ptr : TimerPtr) (timer : Timer) : TimerState :=
  { s with heap := s.heap.insert ptr timer, nextId := s.nextId + 1 }

/-- `new Timer` at an address that is free. -/
def alloc (s : TimerState) (timer : Timer) (address : ℕ) : Option (TimerPtr × TimerState) :=
  if h : address < kUintptrMax ∧ ∀ p ∈ s.heap.keys, p.address ≠ address then
    some (⟨s.nextId, address, h.1⟩, s.allocated ⟨s.nextId, address, h.1⟩ timer)
  else none

/-- The loop thread is in code that may call `AddTimer`. -/
def mayAdd (s : TimerState) : Bool :=
  match s.phase with
  | .idle => true
  | .calling _ => true
  | _ => false

def step (s : TimerState) : TimerLabel → Option TimerState
  | .queueTimer timestamp interval address => do
      let (ptr, s) ← s.alloc (Timer.new timestamp interval) address
      some { s with toDoList := s.toDoList ++ [ptr] }
  | .addTimer timestamp interval address now =>
      if s.mayAdd then do
        let timer := Timer.new timestamp interval
        let (ptr, s) ← s.alloc timer address
        some { s with queue := s.queue.addTimerInLoop ptr timer now }
      else none
  | .runFunctor now =>
      match s.phase, s.toDoList with
      | .idle, ptr :: toDoList => do
          let timer ← s.heap.lookup ptr
          some { s with queue := s.queue.addTimerInLoop ptr timer now, toDoList := toDoList }
      | _, _ => none
  | .expire now =>
      match s.queue.timerfd with
      | some fd =>
          if fd.expired = false ∧ fd.deadline.microSeconds ≤ now.microSeconds then
            some { s with queue := { s.queue with timerfd := some { fd with expired := true } } }
          else none
      | none => none
  | .handleRead now =>
      match s.phase with
      | .idle =>
          some { s with
            queue := s.queue.takeExpired now
            phase := .running (s.queue.takeExpired now).activeTimers }
      | _ => none
  | .run =>
      match s.phase with
      | .running (e :: rest) => do
          let _ ← s.heap.lookup e.2
          some { s with phase := .calling rest }
      | _ => none
  | .returned =>
      match s.phase with
      | .calling rest => some { s with phase := .running rest }
      | _ => none
  | .resetTimers =>
      match s.phase with
      | .running [] => some { s with phase := .resetting s.queue.activeTimers }
      | _ => none
  | .settle now =>
      match s.phase with
      | .resetting (e :: rest) => do
          let timer ← s.heap.lookup e.2
          if timer.repeats then
            some { s with
              queue := s.queue.insert e.2 (timer.restart now)
              heap := s.heap.insert e.2 (timer.restart now)
              phase := .resetting rest }
          else some { s with heap := s.heap.erase e.2, phase := .resetting rest }
      | _ => none
  | .rearm now =>
      match s.phase with
      | .resetting [] =>
          match s.queue.timers.first with
          | none => some { s with phase := .idle }
          | some e => do
              let timer ← s.heap.lookup e.2
              some { s with queue := s.queue.resetTimer timer now, phase := .idle }
      | _ => none

inductive Steps (s : TimerState) : TimerLabel → TimerState → Prop where
  | queueTimer {timestamp : Timestamp} {interval : ℚ} {ptr : TimerPtr} (h : s.Fresh ptr) :
      Steps s (.queueTimer timestamp interval ptr.address)
        { s.allocated ptr (Timer.new timestamp interval) with
          toDoList := s.toDoList ++ [ptr] }
  | addTimer {timestamp : Timestamp} {interval : ℚ} {ptr : TimerPtr} {now : Timestamp}
      (hphase : s.mayAdd) (h : s.Fresh ptr) :
      Steps s (.addTimer timestamp interval ptr.address now)
        { s.allocated ptr (Timer.new timestamp interval) with
          queue := s.queue.addTimerInLoop ptr (Timer.new timestamp interval) now }
  | runFunctor {ptr : TimerPtr} {toDoList : List TimerPtr} {timer : Timer} {now : Timestamp}
      (hphase : s.phase = .idle) (hlist : s.toDoList = ptr :: toDoList)
      (h : s.heap.lookup ptr = some timer) :
      Steps s (.runFunctor now)
        { s with queue := s.queue.addTimerInLoop ptr timer now, toDoList := toDoList }
  | expire {fd : TimerFd} {now : Timestamp} (hfd : s.queue.timerfd = some fd)
      (h : fd.deadline.microSeconds ≤ now.microSeconds) :
      Steps s (.expire now)
        { s with queue := { s.queue with timerfd := some { fd with expired := true } } }
  | handleRead {now : Timestamp} (hphase : s.phase = .idle) :
      Steps s (.handleRead now)
        { s with
          queue := s.queue.takeExpired now
          phase := .running (s.queue.takeExpired now).activeTimers }
  | run {e : TimerPair} {rest : List TimerPair} {timer : Timer}
      (hphase : s.phase = .running (e :: rest)) (h : s.heap.lookup e.2 = some timer) :
      Steps s .run { s with phase := .calling rest }
  | returned {rest : List TimerPair} (hphase : s.phase = .calling rest) :
      Steps s .returned { s with phase := .running rest }
  | resetTimers (hphase : s.phase = .running []) :
      Steps s .resetTimers { s with phase := .resetting s.queue.activeTimers }
  | restart {e : TimerPair} {rest : List TimerPair} {timer : Timer} {now : Timestamp}
      (hphase : s.phase = .resetting (e :: rest)) (h : s.heap.lookup e.2 = some timer)
      (hrepeats : timer.repeats = true) :
      Steps s (.settle now)
        { s with
          queue := s.queue.insert e.2 (timer.restart now)
          heap := s.heap.insert e.2 (timer.restart now)
          phase := .resetting rest }
  | delete {e : TimerPair} {rest : List TimerPair} {timer : Timer} {now : Timestamp}
      (hphase : s.phase = .resetting (e :: rest)) (h : s.heap.lookup e.2 = some timer)
      (hrepeats : timer.repeats = false) :
      Steps s (.settle now) { s with heap := s.heap.erase e.2, phase := .resetting rest }
  | rest {now : Timestamp} (hphase : s.phase = .resetting []) (h : s.queue.timers.first = none) :
      Steps s (.rearm now) { s with phase := .idle }
  | rearm {e : TimerPair} {timer : Timer} {now : Timestamp} (hphase : s.phase = .resetting [])
      (hfirst : s.queue.timers.first = some e) (h : s.heap.lookup e.2 = some timer) :
      Steps s (.rearm now) { s with queue := s.queue.resetTimer timer now, phase := .idle }

theorem alloc_cases {s t : TimerState} {timer : Timer} {address : ℕ} {ptr : TimerPtr}
    (h : s.alloc timer address = some (ptr, t)) :
    s.Fresh ptr ∧ ptr.address = address ∧ t = s.allocated ptr timer := by
  unfold alloc at h
  split at h
  · next hroom =>
      obtain ⟨rfl, rfl⟩ := Prod.mk.inj (Option.some.inj h)
      exact ⟨⟨rfl, fun p hp => hroom.2 p (AList.mem_keys.mp hp)⟩, rfl, rfl⟩
  · cases h

theorem step_cases {s t : TimerState} {l : TimerLabel} (h : s.step l = some t) : Steps s l t := by
  cases l with
  | queueTimer timestamp interval address =>
      obtain ⟨⟨ptr, s'⟩, halloc, h⟩ := Option.bind_eq_some_iff.mp h
      obtain ⟨hfresh, rfl, rfl⟩ := alloc_cases halloc
      exact Option.some.inj h ▸ .queueTimer hfresh
  | addTimer timestamp interval address now =>
      obtain ⟨hphase, h⟩ := Option.ite_none_right_eq_some.mp h
      obtain ⟨⟨ptr, s'⟩, halloc, h⟩ := Option.bind_eq_some_iff.mp h
      obtain ⟨hfresh, rfl, rfl⟩ := alloc_cases halloc
      exact Option.some.inj h ▸ .addTimer hphase hfresh
  | runFunctor now =>
      simp only [step] at h
      split at h
      · next ptr toDoList hphase hlist =>
          obtain ⟨timer, htimer, h⟩ := Option.bind_eq_some_iff.mp h
          exact Option.some.inj h ▸ .runFunctor hphase hlist htimer
      · cases h
  | expire now =>
      simp only [step] at h
      split at h
      · next fd hfd =>
          obtain ⟨⟨-, hnow⟩, h⟩ := Option.ite_none_right_eq_some.mp h
          exact Option.some.inj h ▸ .expire hfd hnow
      · cases h
  | handleRead now =>
      simp only [step] at h
      split at h
      · next hphase => exact Option.some.inj h ▸ .handleRead hphase
      · cases h
  | run =>
      simp only [step] at h
      split at h
      · next e rest hphase =>
          obtain ⟨timer, htimer, h⟩ := Option.bind_eq_some_iff.mp h
          exact Option.some.inj h ▸ .run hphase htimer
      · cases h
  | returned =>
      simp only [step] at h
      split at h
      · next rest hphase => exact Option.some.inj h ▸ .returned hphase
      · cases h
  | resetTimers =>
      simp only [step] at h
      split at h
      · next hphase => exact Option.some.inj h ▸ .resetTimers hphase
      · cases h
  | settle now =>
      simp only [step] at h
      split at h
      · next e rest hphase =>
          obtain ⟨timer, htimer, h⟩ := Option.bind_eq_some_iff.mp h
          cases hrepeats : timer.repeats with
          | true =>
              rw [if_pos hrepeats] at h
              exact Option.some.inj h ▸ .restart hphase htimer hrepeats
          | false =>
              rw [if_neg (by rw [hrepeats]; decide)] at h
              exact Option.some.inj h ▸ .delete hphase htimer hrepeats
      · cases h
  | rearm now =>
      simp only [step] at h
      split at h
      · next hphase =>
          split at h
          · next hfirst => exact Option.some.inj h ▸ .rest hphase hfirst
          · next e hfirst =>
              obtain ⟨timer, htimer, h⟩ := Option.bind_eq_some_iff.mp h
              exact Option.some.inj h ▸ .rearm hphase hfirst htimer
      · cases h

end TimerState

def timerQueue : LTS TimerState TimerLabel := LTS.ofNext (· = TimerState.new) TimerState.step

end TinyMuduo
