import Mathlib.Algebra.Order.Ring.Rat
import TinyMuduo.Base.Timestamp

/-!
# `Timer`

Translation of `Timer/timer.h` and `Timer/timer.cc`. The callback is not data
here: what it does to the queue are steps of the queue. An interval is a finite
`double`, so a rational number of seconds, and a point of time is meant to stay
within `int64_t`.
-/

namespace TinyMuduo

def kMicrosecond2Second : ℤ := 1000 * 1000

/-- `static_cast<int64_t>(x)`: towards zero. -/
def toInt64 (x : ℚ) : ℤ := x.num.tdiv x.den

/-- `Timestamp::AddTime`: only whole seconds are added. -/
def Timestamp.addTime (timestamp : Timestamp) (addSeconds : ℚ) : Timestamp :=
  ⟨timestamp.microSeconds + toInt64 addSeconds * kMicrosecond2Second⟩

structure Timer where
  expiration : Timestamp
  interval : ℚ
  repeats : Bool
deriving DecidableEq

namespace Timer

def new (timestamp : Timestamp) (interval : ℚ) : Timer where
  expiration := timestamp
  interval := interval
  repeats := 0 < interval

def restart (timer : Timer) (now : Timestamp) : Timer :=
  { timer with expiration := now.addTime timer.interval }

end Timer

/-! ## Pointers to timers -/

def kUintptrMax : ℕ := 2 ^ 64 - 1

/-- What `new Timer` returns. `delete` gives an address back, so the same address
may come again in another `id`. No object lies at the last address. -/
structure TimerPtr where
  id : ℕ
  address : ℕ
  address_lt : address < kUintptrMax
deriving DecidableEq

end TinyMuduo
