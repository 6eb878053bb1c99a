import TinyMuduo.Base.Memory
import TinyMuduo.Lib.Numeral
import TinyMuduo.Logging.FixedBuffer

/-!
# `LogStream`

Translation of `Logging/logstream.h`. `FormatInteger` writes behind the cursor
through a bare pointer: a write outside the array and a read outside `digits` are
faults. The quotients of a number by ten fit in its type, so the arithmetic is
that of the integers. A floating-point number is printed by `snprintf` and then
appended like a string.
-/

namespace TinyMuduo

open Storage

def kNum2MaxStringLength : ℕ := 48

def digits : Bytes := ascii "9876543210123456789"

/-- `zero[remainder]`, where `zero` points to the middle of `digits`. -/
def zeroAt (remainder : ℤ) : Checked Byte :=
  if 0 ≤ 9 + remainder then load digits (9 + remainder).toNat else .error .outOfRange

/-- `*(now++) = b` in an array. -/
def storeNext (b : Byte) (p : Bytes × ℕ) : Checked (Bytes × ℕ) :=
  if p.2 < p.1.length then .ok (p.1.set p.2 b, p.2 + 1) else .error .outOfRange

/-- `if (negative) *(now++) = '-'`. -/
def storeSign (num : ℤ) (p : Bytes × ℕ) : Checked (Bytes × ℕ) :=
  if num < 0 then storeNext Numeral.minus p else .ok p

/-- The `do while` loop of `FormatInteger`: the array and `now`. -/
def digitLoop (num : ℤ) (p : Bytes × ℕ) : Checked (Bytes × ℕ) := do
  let digit ← zeroAt (num.tmod 10)
  let p ← storeNext digit p
  if num.tdiv 10 = 0 then return p else digitLoop (num.tdiv 10) p
termination_by num.natAbs
decreasing_by
  have hne : num ≠ 0 := by
    rintro rfl
    contradiction
  rw [Int.natAbs_tdiv]
  exact Nat.div_lt_self (Int.natAbs_pos.mpr hne) (by decide)

namespace FixedBuffer

variable {size : ℕ}

/-- `Add`: the bytes are in the array already. -/
def add (buf : Bytes) (cur : ℕ) : Checked (FixedBuffer size) :=
  if h : buf.length = size ∧ cur ≤ size then .ok ⟨buf, cur, h.1, h.2⟩ else .error .outOfRange

def formatInteger (b : FixedBuffer size) (num : ℤ) : Checked (FixedBuffer size) :=
  if kNum2MaxStringLength ≤ b.writableBytes then do
    let p ← digitLoop num (b.buf, b.cur)
    let (buf, now) ← storeSign num p
    let (buf, _) ← storeNext 0 (buf, now)
    add (reverseSlice b.cur (now - b.cur) buf) now
  else return b

end FixedBuffer

/-! ## The pieces of a record -/

structure IntegerType where
  signed : Bool
  bits : ℕ
  bits_pos : 0 < bits
  bits_le : bits ≤ 64

def IntegerType.Holds (type : IntegerType) (n : ℤ) : Prop :=
  if type.signed then -2 ^ (type.bits - 1) ≤ n ∧ n < 2 ^ (type.bits - 1)
  else 0 ≤ n ∧ n < 2 ^ type.bits

/-- The right-hand side of a `<<`. -/
inductive Piece where
  | integer (type : IntegerType) (num : ℤ) (holds : type.Holds num)
  | character (chr : Byte)
  | cstring (data : Bytes)
  | generalTemplate (data : Bytes)
  | str (text : Bytes)

/-- What a piece is when it is written out. -/
def Piece.rendering : Piece → Bytes
  | .integer _ num _ => Numeral.ofInt num
  | .character chr => [chr]
  | .cstring data => cString data
  | .generalTemplate data => data
  | .str text => text

structure LogStream where
  buffer : FixedBuffer kSmallSize

namespace LogStream

def new : LogStream := ⟨FixedBuffer.new⟩

/-- `operator<<`. -/
def put (s : LogStream) : Piece → Checked LogStream
  | .integer _ num _ => (s.buffer.formatInteger num).map LogStream.mk
  | .character chr => .ok ⟨s.buffer.append [chr]⟩
  | .cstring data => .ok ⟨s.buffer.append (cString data)⟩
  | .generalTemplate data => .ok ⟨s.buffer.append data⟩
  | .str text => .ok ⟨s.buffer.append text⟩

end LogStream

/-! ## The digits -/

/-- **The table is read in range**, and it holds the digit, with either sign. -/
theorem zeroAt_tmod (num : ℤ) : zeroAt (num.tmod 10) = .ok (Numeral.digit (num.natAbs % 10)) := by
  have htable : ∀ d : ℕ, d < 10 → zeroAt (d : ℤ) = .ok (Numeral.digit d) ∧
      zeroAt (-(d : ℤ)) = .ok (Numeral.digit d) := by
    decide
  have hd := htable (num.natAbs % 10) (Nat.mod_lt _ (by decide))
  rcases Int.natAbs_eq num with h | h
  · have hmod : num.tmod 10 = ((num.natAbs % 10 : ℕ) : ℤ) := by
      conv_lhs => rw [h]
      exact (Int.ofNat_tmod _ 10).symm
    rw [hmod]
    exact hd.1
  · have hmod : num.tmod 10 = -((num.natAbs % 10 : ℕ) : ℤ) := by
      conv_lhs => rw [h, Int.neg_tmod]
      congr 1
    rw [hmod]
    exact hd.2

theorem storeNext_of_lt {b : Byte} {buf : Bytes} {now : ℕ} (h : now < buf.length) :
    storeNext b (buf, now) = .ok (overwrite now [b] buf, now + 1) := by
  rw [storeNext, if_pos h, set_eq_overwrite h]

theorem storeNext_overwrite {b : Byte} {buf xs : Bytes} {cur : ℕ}
    (h : cur + xs.length < buf.length) :
    storeNext b (overwrite cur xs buf, cur + xs.length) =
      .ok (overwrite cur (xs ++ [b]) buf, cur + (xs ++ [b]).length) := by
  have hlen := length_overwrite (Nat.le_of_lt h)
  rw [storeNext_of_lt (hlen.symm ▸ h), overwrite_overwrite (Nat.le_of_lt h), List.length_append,
    Nat.add_assoc]
  rfl

theorem storeSign_overwrite {num : ℤ} {buf xs : Bytes} {cur : ℕ}
    (h : cur + xs.length < buf.length) :
    storeSign num (overwrite cur xs buf, cur + xs.length) =
      .ok (overwrite cur (xs ++ if num < 0 then [Numeral.minus] else []) buf,
        cur + (xs ++ if num < 0 then [Numeral.minus] else []).length) := by
  rw [storeSign]
  by_cases hneg : num < 0
  · rw [if_pos hneg, if_pos hneg]
    exact storeNext_overwrite h
  · rw [if_neg hneg, if_neg hneg, List.append_nil]

/-- **The loop writes the digits, the last one first.** -/
theorem digitLoop_spec : ∀ (n : ℕ) {num : ℤ} {buf : Bytes} {now : ℕ}, num.natAbs = n →
    now + (Numeral.lowFirst n).length ≤ buf.length →
    digitLoop num (buf, now) =
      .ok (overwrite now (Numeral.lowFirst n) buf, now + (Numeral.lowFirst n).length) := by
  intro n
  induction n using Nat.strong_induction_on with
  | _ n ih =>
      intro num buf now hn hroom
      have hquot : (num.tdiv 10).natAbs = n / 10 := by
        rw [Int.natAbs_tdiv, hn]
        rfl
      have hzero : num.tdiv 10 = 0 ↔ n / 10 = 0 := by
        rw [← hquot, Int.natAbs_eq_zero]
      rw [Numeral.lowFirst_eq] at hroom ⊢
      rw [List.length_cons] at hroom ⊢
      rw [digitLoop, zeroAt_tmod, hn]
      simp only [bind, Except.bind, storeNext_of_lt (show now < buf.length by omega)]
      by_cases hlast : n / 10 = 0
      · rw [if_pos (hzero.mpr hlast), if_pos hlast]
        rfl
      · rw [if_neg (mt hzero.mp hlast), if_neg hlast]
        rw [if_neg hlast] at hroom
        have hsingle : now + [Numeral.digit (n % 10)].length ≤ buf.length := by
          rw [List.length_singleton]
          omega
        rw [ih (n / 10) (by omega) hquot (by rw [length_overwrite hsingle]; omega)]
        have happend : overwrite (now + 1) (Numeral.lowFirst (n / 10))
            (overwrite now [Numeral.digit (n % 10)] buf) =
            overwrite now ([Numeral.digit (n % 10)] ++ Numeral.lowFirst (n / 10)) buf :=
          overwrite_overwrite hsingle
        rw [happend, Nat.add_assoc, Nat.add_comm 1]
        rfl

namespace FixedBuffer

variable {size : ℕ}

/-- **`FormatInteger` where there is room for the numeral and its NUL**: both are
written behind the cursor, nothing else is, and the cursor moves behind the
numeral. -/
theorem formatInteger_spec {b : FixedBuffer size} {num : ℤ}
    (hroom : kNum2MaxStringLength ≤ b.writableBytes)
    (hlen : (Numeral.ofInt num).length < kNum2MaxStringLength) :
    ∃ b', b.formatInteger num = .ok b' ∧
      b'.buf = overwrite b.cur (Numeral.ofInt num ++ [0]) b.buf ∧
      b'.cur = b.cur + (Numeral.ofInt num).length := by
  have hsize := b.length_buf
  have hroom' : 48 ≤ size - b.cur := hroom
  obtain ⟨digits, hdigits⟩ : ∃ digits, digits = Numeral.lowFirst num.natAbs := ⟨_, rfl⟩
  obtain ⟨sign, hsign⟩ : ∃ sign, sign = if num < 0 then [Numeral.minus] else [] := ⟨_, rfl⟩
  have htext : Numeral.ofInt num = (digits ++ sign).reverse := by
    rw [hdigits, hsign, Numeral.ofInt_eq_reverse]
  have hone : sign.length ≤ 1 := by
    rw [hsign]
    split <;> simp
  rw [htext, List.length_reverse, List.length_append, kNum2MaxStringLength] at hlen
  -- the digits and the sign, the NUL, and the turning round
  have hloop : digitLoop num (b.buf, b.cur) =
      .ok (overwrite b.cur digits b.buf, b.cur + digits.length) := by
    rw [hdigits]
    exact digitLoop_spec _ rfl (by rw [← hdigits]; omega)
  have hstored : storeSign num (overwrite b.cur digits b.buf, b.cur + digits.length) =
      .ok (overwrite b.cur (digits ++ sign) b.buf, b.cur + (digits ++ sign).length) := by
    rw [hsign]
    exact storeSign_overwrite (by omega)
  have hended : storeNext 0 (overwrite b.cur (digits ++ sign) b.buf,
      b.cur + (digits ++ sign).length) = .ok (overwrite b.cur (digits ++ sign ++ [0]) b.buf,
        b.cur + (digits ++ sign ++ [0]).length) := by
    apply storeNext_overwrite
    rw [List.length_append]
    omega
  have hturned : reverseSlice b.cur (b.cur + (digits ++ sign).length - b.cur)
      (overwrite b.cur (digits ++ sign ++ [0]) b.buf) =
      overwrite b.cur (Numeral.ofInt num ++ [0]) b.buf := by
    rw [htext, Nat.add_sub_cancel_left]
    exact reverseSlice_overwrite (by omega)
  have hfit : b.cur + (Numeral.ofInt num ++ [0]).length ≤ b.buf.length := by
    rw [htext, List.length_append, List.length_reverse, List.length_append, List.length_singleton]
    omega
  have hend : b.cur + (digits ++ sign).length = b.cur + (Numeral.ofInt num).length := by
    rw [htext, List.length_reverse]
  have hinside : (overwrite b.cur (Numeral.ofInt num ++ [0]) b.buf).length = size ∧
      b.cur + (Numeral.ofInt num).length ≤ size := by
    rw [length_overwrite hfit]
    rw [List.length_append, List.length_singleton] at hfit
    exact ⟨hsize, by omega⟩
  rw [hend] at hstored hended hturned
  refine ⟨⟨_, _, hinside.1, hinside.2⟩, ?_, rfl, rfl⟩
  rw [formatInteger, if_pos hroom]
  simp only [bind, Except.bind, hloop, hstored, hended, hturned, add, dif_pos hinside]

end FixedBuffer

end TinyMuduo
