import Mathlib.Data.Int.Notation

/-!
# `Timestamp`

A point of the wall clock in microseconds, as `gettimeofday` reads it
(`Base/timestamp.h`). `Now` is not a function here: a step that reads the clock
takes the reading as an argument.
-/

namespace TinyMuduo

structure Timestamp where
  microSeconds : ℤ
deriving DecidableEq

def Timestamp.new : Timestamp := ⟨0⟩

end TinyMuduo
