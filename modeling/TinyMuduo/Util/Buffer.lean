import TinyMuduo.Base.Bytes
import TinyMuduo.Lib.Search
import TinyMuduo.Lib.Storage

/-!
# `Buffer`: one block of storage and two indices

Translation of `Util/buffer.h` and `Util/buffer.cc`. The indices are natural
numbers: every statement below is about sizes for which the `int` arithmetic of
the source does not overflow. A `const char*` into the readable part is its
distance from `Peek()`.
-/

namespace TinyMuduo

open Storage

def kPrePendIndex : ℕ := 8

def kInitialSize : ℕ := 1024

structure Buffer where
  storage : Bytes
  readIndex : ℕ
  writeIndex : ℕ
deriving DecidableEq

namespace Buffer

def new : Buffer := ⟨List.replicate kInitialSize 0, kPrePendIndex, kPrePendIndex⟩

def readableBytes (b : Buffer) : ℕ := b.writeIndex - b.readIndex

def writableBytes (b : Buffer) : ℕ := b.storage.length - b.writeIndex

def prependableBytes (b : Buffer) : ℕ := b.readIndex

def peekAsString (b : Buffer) (len : ℕ) : Bytes := slice b.storage b.readIndex len

def peekAllAsString (b : Buffer) : Bytes :=
  slice b.storage b.readIndex (b.writeIndex - b.readIndex)

/-- `FindCRLF`: `nullptr` when the search ran to `beginwrite()`. -/
def findCRLF (b : Buffer) : Option ℕ :=
  let find := Search.search kCRLF b.peekAllAsString
  if find = b.readableBytes then none else some find

/-! ## Storage -/

/-- The three ways `MakeSureEnoughStorage` finds room. -/
inductive Regime where
  | room
  | compact
  | grow
deriving DecidableEq

def regime (b : Buffer) (len : ℕ) : Regime :=
  if len ≤ b.writableBytes then .room
  else if kPrePendIndex + len ≤ b.writableBytes + b.prependableBytes then .compact
  else .grow

def makeSureEnoughStorage (b : Buffer) (len : ℕ) : Buffer :=
  match b.regime len with
  | .room => b
  | .compact =>
      { storage := copyForward b.readIndex kPrePendIndex b.readableBytes b.storage
        writeIndex := kPrePendIndex + b.readableBytes
        readIndex := kPrePendIndex }
  | .grow => { b with storage := resize (b.writeIndex + len) 0 b.storage }

/-! ## Putting bytes in -/

/-- `Append(const char*, int)`. -/
def append (b : Buffer) (message : Bytes) : Buffer :=
  let b := b.makeSureEnoughStorage message.length
  { b with
    storage := overwrite b.writeIndex message b.storage
    writeIndex := b.writeIndex + message.length }

/-- `Append(const char*)`: the argument is a C string. -/
def appendCString (b : Buffer) (message : Bytes) : Buffer := b.append (cString message)

/-- `Append(const string&)`. -/
def appendString (b : Buffer) (message : Bytes) : Buffer := b.append message

/-- What `readv` answers: the bytes it delivered, or `-1`. -/
inductive ReadResult where
  | data (bytes : Bytes)
  | error

/-- `sizeof(extrabuf)`. -/
def extraSize : ℕ := 65536

/-- The bytes the two `iovec`s admit. -/
def readCapacity (b : Buffer) : ℕ :=
  if b.writableBytes < extraSize then b.writableBytes + extraSize else b.writableBytes

/-- `ReadFd`. What does not fit behind `write_index_` lands in `extrabuf` and is
appended from there. -/
def readFd (b : Buffer) : ReadResult → ℤ × Buffer
  | .error => (-1, b)
  | .data bytes =>
      let writable := b.writableBytes
      let filled := overwrite b.writeIndex (bytes.take writable) b.storage
      if bytes.length ≤ writable then
        (bytes.length, { b with storage := filled, writeIndex := b.writeIndex + bytes.length })
      else
        (bytes.length,
          append { b with storage := filled, writeIndex := filled.length } (bytes.drop writable))

/-! ## Taking bytes out -/

def retrieveAll (b : Buffer) : Buffer :=
  { b with writeIndex := kPrePendIndex, readIndex := kPrePendIndex }

def retrieve (b : Buffer) (len : ℕ) : Buffer :=
  if len + b.readIndex < b.writeIndex then { b with readIndex := b.readIndex + len }
  else b.retrieveAll

/-- `RetrieveUntilIndex(index)`: never resets the indices. -/
def retrieveUntilIndex (b : Buffer) (index : ℕ) : Buffer :=
  { b with readIndex := b.readIndex + index }

def retrieveAsString (b : Buffer) (len : ℕ) : Bytes × Buffer :=
  (b.peekAsString len, b.retrieve len)

def retrieveAllAsString (b : Buffer) : Bytes × Buffer :=
  (b.peekAllAsString, b.retrieveAll)

/-! ## The representation invariant -/

/-- The two indices delimit the readable part inside the storage. -/
structure Inv (b : Buffer) : Prop where
  prepend_le_read : kPrePendIndex ≤ b.readIndex
  read_le_write : b.readIndex ≤ b.writeIndex
  write_le_size : b.writeIndex ≤ b.storage.length

/-- The bytes a reader of the buffer sees. -/
abbrev readable (b : Buffer) : Bytes := b.peekAllAsString

theorem new_inv : new.Inv := by
  refine ⟨Nat.le_refl _, Nat.le_refl _, ?_⟩
  rw [show new.storage.length = kInitialSize from List.length_replicate]
  decide

@[simp] theorem readable_new : new.readable = [] := rfl

/-- A buffer whose indices are in order is a window `[r, r + n)` of its block. -/
theorem Inv.window {b : Buffer} (h : b.Inv) :
    ∃ s r n, b = ⟨s, r, r + n⟩ ∧ kPrePendIndex ≤ r ∧ r + n ≤ s.length := by
  obtain ⟨s, r, w⟩ := b
  obtain ⟨h8, hrw, hws⟩ := h
  obtain ⟨n, rfl⟩ := Nat.exists_eq_add_of_le (show r ≤ w from hrw)
  exact ⟨s, r, n, rfl, h8, hws⟩

theorem inv_window {s : Bytes} {r n : ℕ} (h8 : kPrePendIndex ≤ r) (hs : r + n ≤ s.length) :
    Inv ⟨s, r, r + n⟩ :=
  ⟨h8, Nat.le_add_right r n, hs⟩

@[simp] theorem readable_window (s : Bytes) (r n : ℕ) :
    readable ⟨s, r, r + n⟩ = slice s r n := by
  show slice s r (r + n - r) = slice s r n
  rw [Nat.add_sub_cancel_left]

@[simp] theorem readableBytes_window (s : Bytes) (r n : ℕ) :
    readableBytes ⟨s, r, r + n⟩ = n :=
  Nat.add_sub_cancel_left r n

theorem length_readable {b : Buffer} (h : b.Inv) : b.readable.length = b.readableBytes := by
  obtain ⟨s, r, n, rfl, h8, hs⟩ := h.window
  rw [readable_window, readableBytes_window, length_slice hs]

/-! ## `MakeSureEnoughStorage` -/

theorem regime_spec (b : Buffer) (len : ℕ) :
    match b.regime len with
    | .room => len ≤ b.writableBytes
    | .compact => b.writableBytes < len ∧
        kPrePendIndex + len ≤ b.writableBytes + b.prependableBytes
    | .grow => b.writableBytes < len := by
  unfold regime
  by_cases h1 : len ≤ b.writableBytes
  · rw [if_pos h1]
    exact h1
  · rw [if_neg h1]
    by_cases h2 : kPrePendIndex + len ≤ b.writableBytes + b.prependableBytes
    · rw [if_pos h2]
      exact ⟨Nat.lt_of_not_le h1, h2⟩
    · rw [if_neg h2]
      exact Nat.lt_of_not_le h1

/-- **Compaction is never reached with `read_index_` at its initial value**, so
the destination of the copy lies strictly before its source. -/
theorem prepend_lt_read_of_compact {b : Buffer} {len : ℕ} (h : b.regime len = .compact) :
    kPrePendIndex < b.readIndex := by
  have hspec := regime_spec b len
  rw [h] at hspec
  obtain ⟨hlt, hle⟩ := hspec
  unfold prependableBytes at hle
  omega

theorem makeSureEnoughStorage_spec {b : Buffer} (h : b.Inv) (len : ℕ) :
    (b.makeSureEnoughStorage len).Inv ∧
      len ≤ (b.makeSureEnoughStorage len).writableBytes ∧
      (b.makeSureEnoughStorage len).readable = b.readable := by
  have hcompact : b.regime len = .compact → kPrePendIndex < b.readIndex :=
    prepend_lt_read_of_compact
  have hspec := regime_spec b len
  obtain ⟨s, r, n, rfl, h8, hs⟩ := h.window
  unfold makeSureEnoughStorage
  cases hreg : regime ⟨s, r, r + n⟩ len with
  | room =>
      rw [hreg] at hspec
      exact ⟨h, hspec, rfl⟩
  | compact =>
      rw [hreg] at hspec
      have hlt : kPrePendIndex < r := hcompact hreg
      obtain ⟨h1, h2⟩ := hspec
      simp only [writableBytes, prependableBytes] at h1 h2
      simp only [readableBytes_window, readable_window]
      refine ⟨inv_window (Nat.le_refl _) ?_, ?_, ?_⟩
      · rw [length_copyForward]
        omega
      · simp only [writableBytes, length_copyForward]
        omega
      · exact copyForward_slice hlt.le hs
  | grow =>
      rw [hreg] at hspec
      simp only [writableBytes] at hspec
      simp only [readable_window]
      refine ⟨inv_window h8 ?_, ?_, ?_⟩
      · rw [length_resize]
        omega
      · simp only [writableBytes, length_resize]
        omega
      · exact slice_resize 0 (by omega) hs

/-! ## One lemma per operation -/

theorem overwrite_window {s message : Bytes} {r n : ℕ} (h8 : kPrePendIndex ≤ r)
    (hs : r + n + message.length ≤ s.length) :
    Inv ⟨overwrite (r + n) message s, r, r + n + message.length⟩ ∧
      readable ⟨overwrite (r + n) message s, r, r + n + message.length⟩ =
        slice s r n ++ message := by
  rw [Nat.add_assoc, readable_window, slice_overwrite (by omega)]
  refine ⟨inv_window h8 ?_, rfl⟩
  rw [length_overwrite hs]
  omega

theorem append_spec {b : Buffer} (h : b.Inv) (message : Bytes) :
    (b.append message).Inv ∧ (b.append message).readable = b.readable ++ message := by
  obtain ⟨hinv, hroom, hread⟩ := makeSureEnoughStorage_spec h message.length
  rw [← hread]
  unfold append
  generalize b.makeSureEnoughStorage message.length = c at hinv hroom ⊢
  obtain ⟨s, r, n, rfl, h8, hs⟩ := hinv.window
  have hfit : message.length ≤ s.length - (r + n) := hroom
  rw [readable_window]
  exact overwrite_window h8 (show r + n + message.length ≤ s.length by omega)

theorem readFd_count (b : Buffer) (bytes : Bytes) :
    (b.readFd (.data bytes)).1 = bytes.length := by
  unfold readFd
  by_cases h : bytes.length ≤ b.writableBytes
  · simp only [if_pos h]
  · simp only [if_neg h]

theorem readFd_spec {b : Buffer} (h : b.Inv) (bytes : Bytes) :
    (b.readFd (.data bytes)).1 = bytes.length ∧ (b.readFd (.data bytes)).2.Inv ∧
      (b.readFd (.data bytes)).2.readable = b.readable ++ bytes := by
  obtain ⟨s, r, n, rfl, h8, hs⟩ := h.window
  unfold readFd
  by_cases hle : bytes.length ≤ writableBytes ⟨s, r, r + n⟩
  · simp only [if_pos hle, List.take_of_length_le hle, readable_window]
    simp only [writableBytes] at hle
    exact ⟨trivial, overwrite_window h8 (by omega)⟩
  · simp only [if_neg hle, readable_window]
    simp only [writableBytes] at hle ⊢
    -- the first `writable` bytes fill the block to its end, the rest is appended
    have htake : (bytes.take (s.length - (r + n))).length = s.length - (r + n) := by
      rw [List.length_take]
      omega
    have hfit : r + n + (bytes.take (s.length - (r + n))).length ≤ s.length := by omega
    have hfull := overwrite_window h8 hfit
    have hend : (overwrite (r + n) (bytes.take (s.length - (r + n))) s).length =
        r + n + (bytes.take (s.length - (r + n))).length := by
      rw [length_overwrite hfit]
      omega
    rw [hend]
    obtain ⟨hi, hr⟩ := append_spec hfull.1 (bytes.drop (s.length - (r + n)))
    refine ⟨trivial, hi, ?_⟩
    rw [hr, hfull.2, List.append_assoc, List.take_append_drop]

theorem retrieveAll_spec {b : Buffer} (h : b.Inv) :
    b.retrieveAll.Inv ∧ b.retrieveAll.readable = [] := by
  obtain ⟨h8, hrw, hws⟩ := h
  have hs : kPrePendIndex + 0 ≤ b.storage.length := by omega
  exact ⟨inv_window (Nat.le_refl _) hs, by
    rw [← slice_zero b.storage kPrePendIndex]
    exact readable_window b.storage kPrePendIndex 0⟩

theorem retrieveUntilIndex_spec {b : Buffer} (h : b.Inv) {index : ℕ}
    (hi : index ≤ b.readableBytes) :
    (b.retrieveUntilIndex index).Inv ∧
      (b.retrieveUntilIndex index).readable = b.readable.drop index := by
  obtain ⟨s, r, n, rfl, h8, hs⟩ := h.window
  rw [readableBytes_window] at hi
  have hsplit : r + n = r + index + (n - index) := by omega
  unfold retrieveUntilIndex
  rw [readable_window, drop_slice]
  simp only [hsplit]
  rw [readable_window]
  exact ⟨inv_window (by omega) (by omega), rfl⟩

theorem retrieve_spec {b : Buffer} (h : b.Inv) {len : ℕ} (hl : len ≤ b.readableBytes) :
    (b.retrieve len).Inv ∧ (b.retrieve len).readable = b.readable.drop len := by
  unfold retrieve
  by_cases hlt : len + b.readIndex < b.writeIndex
  · rw [if_pos hlt]
    exact retrieveUntilIndex_spec h hl
  · rw [if_neg hlt]
    obtain ⟨hi, hr⟩ := retrieveAll_spec h
    have hlen := length_readable h
    refine ⟨hi, ?_⟩
    rw [hr, List.drop_eq_nil_of_le]
    unfold readableBytes at hl hlen
    omega

theorem peekAsString_eq {b : Buffer} {len : ℕ} (hl : len ≤ b.readableBytes) :
    b.peekAsString len = b.readable.take len :=
  (take_slice hl).symm

theorem findCRLF_eq {b : Buffer} (h : b.Inv) :
    b.findCRLF = (Search.cut kCRLF b.readable).map fun p => p.1.length := by
  unfold findCRLF
  rw [← length_readable h]
  cases hc : Search.cut kCRLF b.readable with
  | none => simp [Search.search_of_cut_none hc]
  | some p =>
      have hlen := Search.length_of_cut hc
      have hk : kCRLF.length = 2 := rfl
      rw [Search.search_of_cut hc, if_neg (by omega)]
      rfl

end Buffer

end TinyMuduo
