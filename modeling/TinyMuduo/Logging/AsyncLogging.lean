import TinyMuduo.Lib.Losses
import TinyMuduo.Lib.Transition
import TinyMuduo.Logging.FixedBuffer
import TinyMuduo.Logging.LogFile

/-!
# Asynchronous logging

Translation of `Logging/asynclogging.h` and `Logging/asynclogging.cc`. Any
number of threads call `Append`; one thread runs `ThreadFunc`. Both sides work
on the shared buffers under the mutex, so an `Append` is one step, and so is
the swap of the back end. `cond_` decides only when a wait ends, and a timed
wait may end at any moment.

A `unique_ptr` is an optional buffer. Where the source would dereference a null
pointer or take `back()` of an empty vector there is no next state.
-/

namespace TinyMuduo

open Transition

abbrev BufferPtr := Option (FixedBuffer kLargeSize)

/-- What a slot or vector element adds to the log; a null pointer adds nothing. -/
def BufferPtr.contents (p : BufferPtr) : Bytes := p.elim [] FixedBuffer.contents

def kSingleFileMaximumSize : ℕ := 1024 * 1024 * 1024

/-! ## The front end -/

/-- The members both sides share. -/
structure AsyncLogging where
  running : Bool
  current : BufferPtr
  next : BufferPtr
  buffersToWrite : List BufferPtr

namespace AsyncLogging

def new : AsyncLogging where
  running := false
  current := some FixedBuffer.new
  next := some FixedBuffer.new
  buffersToWrite := []

def append (a : AsyncLogging) (data : Bytes) : Option AsyncLogging :=
  match a.current with
  | none => none
  | some current =>
      if data.length ≤ current.writableBytes then
        some { a with current := some (current.append data) }
      else
        -- `current_` is handed over and replaced; `data` itself goes nowhere
        some { a with
          buffersToWrite := a.buffersToWrite ++ [a.current]
          current := if a.next.isSome then a.next else some FixedBuffer.new
          next := none }

def HasRoom (a : AsyncLogging) (data : Bytes) : Prop :=
  ∃ current, a.current = some current ∧ data.length ≤ current.writableBytes

instance (a : AsyncLogging) (data : Bytes) : Decidable (a.HasRoom data) :=
  match h : a.current with
  | none => isFalse (by rintro ⟨c, hc, -⟩; rw [h] at hc; cases hc)
  | some current =>
      decidable_of_iff (data.length ≤ current.writableBytes)
        ⟨fun hle => ⟨current, h, hle⟩,
         by rintro ⟨c, hc, hle⟩; rw [h] at hc; cases hc; exact hle⟩

end AsyncLogging

/-! ## The back end -/

/-- The local variables of `ThreadFunc`, and the log files it has finished. The
`for` loop stands at byte `pos` of `buffers[index]`. -/
structure Backend where
  newbufferCurrent : BufferPtr
  newbufferNext : BufferPtr
  log : LogFile
  finished : List LogFile
  buffers : List BufferPtr
  index : ℕ
  pos : ℕ

namespace Backend

def new : Backend where
  newbufferCurrent := some FixedBuffer.new
  newbufferNext := some FixedBuffer.new
  log := LogFile.new
  finished := []
  buffers := []
  index := 0
  pos := 0

/-- One `fwrite_unlocked` of `log->Write(buffer->data(), buffer->len())`. -/
def fwrite (b : Backend) (count : ℕ) : Option Backend :=
  match b.buffers[b.index]? with
  | some (some buffer) =>
      if b.pos ≠ buffer.len ∧ count ≤ buffer.len - b.pos then
        some { b with
          log := b.log.fwrite buffer.contents b.pos count
          pos := b.pos + count }
      else none
  | _ => none

/-- `log->Write` returns and the `for` loop moves on. -/
def endWrite (b : Backend) : Option Backend :=
  match b.buffers[b.index]? with
  | some (some buffer) =>
      if b.pos = buffer.len then
        some { b with log := b.log.endWrite buffer.len, index := b.index + 1, pos := 0 }
      else none
  | _ => none

/-- A full log file is replaced. -/
def rotate (b : Backend) : Backend :=
  if kSingleFileMaximumSize ≤ b.log.writtenBytes then
    { b with log := LogFile.new, finished := b.finished ++ [b.log] }
  else b

/-- `buffers.resize(2)` when there are more. -/
def trim (b : Backend) : Backend :=
  { b with buffers := if 2 < b.buffers.length then b.buffers.take 2 else b.buffers }

/-- `newbuffer_current = std::move(buffers.back())`, `pop_back` and
`SetBufferZero`. -/
def takeBack (b : Backend) : Option Backend :=
  match b.buffers.getLast? with
  | some (some buffer) =>
      some { b with
        newbufferCurrent := some buffer.setBufferZero
        buffers := b.buffers.dropLast }
  | _ => none

def refillCurrent (b : Backend) : Option Backend :=
  if b.newbufferCurrent.isNone then b.takeBack else some b

/-- For want of `newbuffer_next`, too, it is `newbuffer_current` that is filled. -/
def refillNext (b : Backend) : Option Backend :=
  if b.newbufferNext.isNone then b.takeBack else some b

/-- From the end of the `for` loop to the end of the iteration. -/
def recycle (b : Backend) : Option Backend := do
  let b ← b.rotate.trim.refillCurrent
  let b ← b.refillNext
  some { b with buffers := [] }

end Backend

/-! ## Both sides together -/

inductive ThreadPhase where
  | unstarted
  | top
  | locking
  | waiting
  | writing
  | done
deriving DecidableEq

structure LogState where
  front : AsyncLogging
  back : Backend
  phase : ThreadPhase

inductive LogLabel where
  | append (data : Bytes)
  | start
  | stop
  | testRunning
  | lock
  | wake
  | fwrite (count : ℕ)
  | endWrite
  | recycle
deriving DecidableEq

namespace LogState

def new : LogState := ⟨AsyncLogging.new, Backend.new, .unstarted⟩

/-- The rest of the critical section once the lock is held and the wait, if
any, is over. -/
def swap (s : LogState) : LogState where
  front :=
    { s.front with
      buffersToWrite := s.back.buffers
      current := s.back.newbufferCurrent
      next := if s.front.next.isNone then s.back.newbufferNext else s.front.next }
  back :=
    { s.back with
      buffers := s.front.buffersToWrite ++ [s.front.current]
      newbufferCurrent := none
      newbufferNext := if s.front.next.isNone then none else s.back.newbufferNext
      index := 0
      pos := 0 }
  phase := .writing

def step (s : LogState) : LogLabel → Option LogState
  | .append data => do
      let front ← s.front.append data
      some { s with front := front }
  | .start =>
      if s.phase = .unstarted then
        some { s with front := { s.front with running := true }, phase := .top }
      else none
  | .stop => some { s with front := { s.front with running := false } }
  | .testRunning =>
      if s.phase = .top then
        some { s with phase := if s.front.running then .locking else .done }
      else none
  | .lock =>
      if s.phase = .locking then
        some (if s.front.buffersToWrite.isEmpty then { s with phase := .waiting } else s.swap)
      else none
  | .wake => if s.phase = .waiting then some s.swap else none
  | .fwrite count =>
      if s.phase = .writing then do
        let back ← s.back.fwrite count
        some { s with back := back }
      else none
  | .endWrite =>
      if s.phase = .writing then do
        let back ← s.back.endWrite
        some { s with back := back }
      else none
  | .recycle =>
      if s.phase = .writing ∧ s.back.index = s.back.buffers.length then do
        let back ← s.back.recycle
        some { s with back := back, phase := .top }
      else none

inductive Steps (s : LogState) : LogLabel → LogState → Prop where
  | append {data : Bytes} {front : AsyncLogging} (h : s.front.append data = some front) :
      Steps s (.append data) { s with front := front }
  | start (h : s.phase = .unstarted) :
      Steps s .start { s with front := { s.front with running := true }, phase := .top }
  | stop : Steps s .stop { s with front := { s.front with running := false } }
  | testRunning (h : s.phase = .top) :
      Steps s .testRunning { s with phase := if s.front.running then .locking else .done }
  | wait (h : s.phase = .locking) (hempty : s.front.buffersToWrite = []) :
      Steps s .lock { s with phase := .waiting }
  | lock (h : s.phase = .locking) (hbuffers : s.front.buffersToWrite ≠ []) :
      Steps s .lock s.swap
  | wake (h : s.phase = .waiting) : Steps s .wake s.swap
  | fwrite {count : ℕ} {back : Backend} (h : s.phase = .writing)
      (hback : s.back.fwrite count = some back) : Steps s (.fwrite count) { s with back := back }
  | endWrite {back : Backend} (h : s.phase = .writing) (hback : s.back.endWrite = some back) :
      Steps s .endWrite { s with back := back }
  | recycle {back : Backend} (h : s.phase = .writing)
      (hend : s.back.index = s.back.buffers.length) (hback : s.back.recycle = some back) :
      Steps s .recycle { s with back := back, phase := .top }

theorem step_cases {s t : LogState} {l : LogLabel} (h : s.step l = some t) : Steps s l t := by
  cases l with
  | append data =>
      obtain ⟨front, hfront, h⟩ := Option.bind_eq_some_iff.mp h
      exact Option.some.inj h ▸ .append hfront
  | start =>
      obtain ⟨hphase, h⟩ := Option.ite_none_right_eq_some.mp h
      exact Option.some.inj h ▸ .start hphase
  | stop => exact Option.some.inj h ▸ .stop
  | testRunning =>
      obtain ⟨hphase, h⟩ := Option.ite_none_right_eq_some.mp h
      exact Option.some.inj h ▸ .testRunning hphase
  | lock =>
      obtain ⟨hphase, h⟩ := Option.ite_none_right_eq_some.mp h
      obtain rfl := Option.some.inj h
      by_cases hempty : s.front.buffersToWrite = []
      · rw [hempty]
        exact .wait hphase hempty
      · rw [if_neg (by simpa using hempty)]
        exact .lock hphase hempty
  | wake =>
      obtain ⟨hphase, h⟩ := Option.ite_none_right_eq_some.mp h
      exact Option.some.inj h ▸ .wake hphase
  | fwrite count =>
      obtain ⟨hphase, h⟩ := Option.ite_none_right_eq_some.mp h
      obtain ⟨back, hback, h⟩ := Option.bind_eq_some_iff.mp h
      exact Option.some.inj h ▸ .fwrite hphase hback
  | endWrite =>
      obtain ⟨hphase, h⟩ := Option.ite_none_right_eq_some.mp h
      obtain ⟨back, hback, h⟩ := Option.bind_eq_some_iff.mp h
      exact Option.some.inj h ▸ .endWrite hphase hback
  | recycle =>
      obtain ⟨⟨hphase, hend⟩, h⟩ := Option.ite_none_right_eq_some.mp h
      obtain ⟨back, hback, h⟩ := Option.bind_eq_some_iff.mp h
      exact Option.some.inj h ▸ .recycle hphase hend hback

end LogState

def asyncLogging : LTS LogState LogLabel := LTS.ofNext (· = LogState.new) LogState.step

end TinyMuduo
