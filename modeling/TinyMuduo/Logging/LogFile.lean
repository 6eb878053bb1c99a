import TinyMuduo.Base.Bytes
import TinyMuduo.Lib.While

/-!
# `LogFile`

Translation of `Logging/logfile.h` and `Logging/logfile.cc`: the bytes the
stream took and the counter that decides when the file is full. `Write` is a
loop around `fwrite_unlocked`, which may take less than it is given; `fwrite`
is one round of it and `endWrite` what follows the loop.

`TimedLogFile` has the other members too, and `write` is the whole of `Write`,
for any results of `fwrite_unlocked`.
-/

namespace TinyMuduo

structure LogFile where
  stream : Bytes
  writtenBytes : ℕ
deriving DecidableEq

namespace LogFile

def new : LogFile := ⟨[], 0⟩

def fwrite (log : LogFile) (data : Bytes) (pos count : ℕ) : LogFile :=
  { log with stream := log.stream ++ (data.drop pos).take count }

def endWrite (log : LogFile) (len : ℕ) : LogFile :=
  { log with writtenBytes := log.writtenBytes + len }

end LogFile

/-! ## `Write` -/

def kFlushInterval : ℤ := 3

/-- All members; `flushed` counts the bytes of the stream that a `Flush` has sent on. -/
structure TimedLogFile extends LogFile where
  lastwrite : ℤ
  lastflush : ℤ
  flushed : ℕ
deriving DecidableEq

/-- What the calls of `fwrite_unlocked` in one `Write` return: each call at most what
it is asked for, and that is what the calls before it have left of `len`. -/
structure FwriteResults (len : ℕ) where
  count : ℕ → ℕ
  count_le : ∀ i, count i ≤ len - While.total count i

/-- The `while` loop: `fp_`, `pos`, and the number of the next call. -/
structure WriteLoop where
  log : LogFile
  pos : ℕ
  call : ℕ

namespace WriteLoop

/-- `pos += fwrite_unlocked(data + pos, sizeof(char), len - pos, fp_)` -/
def body (count : ℕ → ℕ) (data : Bytes) (s : WriteLoop) : WriteLoop where
  log := s.log.fwrite data s.pos (count s.call)
  pos := s.pos + count s.call
  call := s.call + 1

end WriteLoop

namespace TimedLogFile

def new : TimedLogFile := ⟨LogFile.new, 0, 0, 0⟩

def flush (log : TimedLogFile) : TimedLogFile := { log with flushed := log.stream.length }

/-- `while (pos != len)`, for `rounds` rounds at most. -/
def writeLoop (log : TimedLogFile) (data : Bytes) {len : ℕ} (results : FwriteResults len)
    (rounds : ℕ) : WriteLoop :=
  While.rounds (·.pos = len) (WriteLoop.body results.count data) rounds ⟨log.toLogFile, 0, 0⟩

/-- The end of `Write`: a `Flush` now and then. -/
def flushDue (log : TimedLogFile) (now : ℤ) : TimedLogFile :=
  if kFlushInterval < log.lastwrite - log.lastflush then { log.flush with lastflush := now }
  else log

/-- `Write` behind the loop, where `now` is what `::time` returned. -/
def afterLoop (log : TimedLogFile) (file : LogFile) (len : ℕ) (now : ℤ) : TimedLogFile :=
  let log := { log with toLogFile := file }
  let log :=
    if len ≠ 0 then { log with toLogFile := log.toLogFile.endWrite len, lastwrite := now }
    else log
  log.flushDue now

/-- `Write`; nothing is returned when the loop needs more rounds. -/
def write (log : TimedLogFile) (data : Bytes) {len : ℕ} (results : FwriteResults len) (now : ℤ)
    (rounds : ℕ) : Option TimedLogFile :=
  let s := log.writeLoop data results rounds
  if s.pos = len then some (log.afterLoop s.log len now) else none

end TimedLogFile

end TinyMuduo
