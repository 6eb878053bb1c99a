import TinyMuduo.Base.Bytes
import TinyMuduo.Lib.Storage

/-!
# `FixedBuffer`: a buffer that never grows

Translation of the buffer of `Logging/logstream.h`. What does not fit is cut
off, so the cursor cannot leave the array; the structure carries both facts.
-/

namespace TinyMuduo

open Storage

def kSmallSize : ℕ := 4096

def kLargeSize : ℕ := 4096 * 1000

structure FixedBuffer (size : ℕ) where
  buf : Bytes
  cur : ℕ
  length_buf : buf.length = size
  cur_le : cur ≤ size

namespace FixedBuffer

variable {size : ℕ}

def new : FixedBuffer size where
  buf := List.replicate size 0
  cur := 0
  length_buf := List.length_replicate
  cur_le := Nat.zero_le _

def len (b : FixedBuffer size) : ℕ := b.cur

def writableBytes (b : FixedBuffer size) : ℕ := size - b.cur

/-- The bytes `data()` and `len()` delimit. -/
def contents (b : FixedBuffer size) : Bytes := slice b.buf 0 b.cur

theorem clipped_fits (b : FixedBuffer size) (input : Bytes) :
    b.cur + (input.take b.writableBytes).length ≤ size := by
  have := b.cur_le
  rw [List.length_take, writableBytes]
  omega

/-- `Append`: the length is clipped to what is writable. -/
def append (b : FixedBuffer size) (input : Bytes) : FixedBuffer size where
  buf := overwrite b.cur (input.take b.writableBytes) b.buf
  cur := b.cur + (input.take b.writableBytes).length
  length_buf := by
    have h := b.clipped_fits input
    rw [length_overwrite (b.length_buf.symm ▸ h), b.length_buf]
  cur_le := b.clipped_fits input

def setBufferZero (_ : FixedBuffer size) : FixedBuffer size := new

/-! ## What the buffer holds -/

@[simp] theorem contents_new : (new : FixedBuffer size).contents = [] := slice_zero _ 0

@[simp] theorem contents_setBufferZero (b : FixedBuffer size) : b.setBufferZero.contents = [] :=
  contents_new

theorem length_contents (b : FixedBuffer size) : b.contents.length = b.len := by
  refine length_slice ?_
  rw [Nat.zero_add, b.length_buf]
  exact b.cur_le

/-- **`Append` adds the part of its input that fits.** -/
theorem contents_append (b : FixedBuffer size) (input : Bytes) :
    (b.append input).contents = b.contents ++ input.take b.writableBytes := by
  have hfit : 0 + b.cur ≤ b.buf.length := by
    rw [Nat.zero_add, b.length_buf]
    exact b.cur_le
  calc (b.append input).contents
      = slice (overwrite (0 + b.cur) (input.take b.writableBytes) b.buf) 0
          (b.cur + (input.take b.writableBytes).length) := by
        rw [Nat.zero_add]
        rfl
    _ = b.contents ++ input.take b.writableBytes := slice_overwrite hfit

theorem contents_append_of_le {b : FixedBuffer size} {input : Bytes}
    (h : input.length ≤ b.writableBytes) : (b.append input).contents = b.contents ++ input := by
  rw [contents_append, List.take_of_length_le h]

theorem len_append_of_le {b : FixedBuffer size} {input : Bytes}
    (h : input.length ≤ b.writableBytes) : (b.append input).len = b.len + input.length := by
  show b.cur + (input.take b.writableBytes).length = b.cur + input.length
  rw [List.take_of_length_le h]

end FixedBuffer

end TinyMuduo
