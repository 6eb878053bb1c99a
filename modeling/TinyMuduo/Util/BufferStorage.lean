import TinyMuduo.Util.BufferQueue

/-!
# The block of a `Buffer` stays proportional to what is in it

`RetrieveUntilIndex` leaves dead space in front of the readable bytes, and the
block is only made larger when that space does not help. So when it is made
larger, what is dead is less than what is being appended
(`storage_makeSureEnoughStorage`), and that is bounded by what is readable
afterwards. How many bytes have passed through does not matter.
-/

namespace TinyMuduo

open Storage Transition

namespace Buffer

/-! ## One operation -/

/-- **The block grows only when there is less dead space than room wanted.** -/
theorem storage_makeSureEnoughStorage {b : Buffer} (h : b.Inv) (len : ℕ) :
    (b.makeSureEnoughStorage len).storage.length ≤
      max b.storage.length (2 * (b.readableBytes + len) + 7) := by
  have hgrow : b.regime len = .grow → b.writableBytes + b.readIndex < kPrePendIndex + len := by
    intro hreg
    unfold regime at hreg
    split at hreg
    · cases hreg
    split at hreg
    · cases hreg
    · next hle => exact Nat.lt_of_not_le hle
  unfold makeSureEnoughStorage
  cases hreg : b.regime len with
  | room => exact Nat.le_max_left _ _
  | compact =>
      simp only [length_copyForward]
      exact Nat.le_max_left _ _
  | grow =>
      simp only [length_resize]
      have hlt := hgrow hreg
      have hrw := h.read_le_write
      unfold readableBytes
      rw [kPrePendIndex] at hlt
      omega

theorem storage_append {b : Buffer} (h : b.Inv) (message : Bytes) :
    (b.append message).storage.length ≤
      max b.storage.length (2 * (b.readableBytes + message.length) + 7) := by
  obtain ⟨hinv, hroom, -⟩ := makeSureEnoughStorage_spec h message.length
  have hfit : (b.makeSureEnoughStorage message.length).writeIndex + message.length ≤
      (b.makeSureEnoughStorage message.length).storage.length := by
    have := hinv.write_le_size
    unfold writableBytes at hroom
    omega
  unfold append
  simp only [length_overwrite hfit]
  exact storage_makeSureEnoughStorage h message.length

/-- `ReadFd` fills the block first, without asking for room, and appends only what
is left. -/
theorem storage_readFd {b : Buffer} (h : b.Inv) (bytes : Bytes) :
    (b.readFd (.data bytes)).2.storage.length ≤
      max b.storage.length (2 * (b.readableBytes + bytes.length) + 7) := by
  obtain ⟨s, r, n, rfl, h8, hs⟩ := h.window
  have htake : (bytes.take (s.length - (r + n))).length = min (s.length - (r + n)) bytes.length :=
    List.length_take
  have hfit : r + n + (bytes.take (s.length - (r + n))).length ≤ s.length := by
    rw [htake]
    omega
  rw [readableBytes_window]
  unfold readFd
  by_cases hle : bytes.length ≤ writableBytes ⟨s, r, r + n⟩
  · simp only [if_pos hle]
    show (overwrite (r + n) (bytes.take (s.length - (r + n))) s).length ≤ _
    rw [length_overwrite hfit]
    exact Nat.le_max_left _ _
  · simp only [if_neg hle]
    simp only [writableBytes] at hle ⊢
    have hfull := (overwrite_window h8 hfit).1
    have hend : (overwrite (r + n) (bytes.take (s.length - (r + n))) s).length =
        r + n + (bytes.take (s.length - (r + n))).length := by
      rw [length_overwrite hfit, htake]
      omega
    rw [hend]
    have happend := storage_append hfull (bytes.drop (s.length - (r + n)))
    rw [Nat.add_assoc, readableBytes_window, ← Nat.add_assoc] at happend
    simp only [length_overwrite hfit, List.length_drop, htake] at happend ⊢
    omega

theorem call_inv {b : Buffer} (h : b.Inv) {c : BufferCall} (ha : b.Admits c) :
    (b.call c).2.Inv := by
  have hr : Represents b (Fifo.empty.put b.readable) := ⟨h, by rw [Fifo.contents_put]; rfl⟩
  exact (call_refines hr ha).2.1

theorem storage_call {b : Buffer} (h : b.Inv) {c : BufferCall} (ha : b.Admits c) :
    (b.call c).2.storage.length ≤
      max b.storage.length (2 * (b.call c).2.readableBytes + 7) := by
  have hput : ∀ message, (b.append message).storage.length ≤
      max b.storage.length (2 * (b.append message).readableBytes + 7) := by
    intro message
    obtain ⟨hinv, hread⟩ := append_spec h message
    rw [← length_readable hinv, hread, List.length_append, length_readable h]
    exact storage_append h message
  have hretrieve : ∀ len, (b.retrieve len).storage.length = b.storage.length := by
    intro len
    unfold retrieve
    split <;> rfl
  cases c with
  | append message => exact hput message
  | appendCString message => exact hput (cString message)
  | appendString message => exact hput message
  | readFd result =>
      cases result with
      | error => exact Nat.le_max_left _ _
      | data bytes =>
          obtain ⟨-, hinv, hread⟩ := readFd_spec h bytes
          show (b.readFd (.data bytes)).2.storage.length ≤
            max b.storage.length (2 * (b.readFd (.data bytes)).2.readableBytes + 7)
          rw [← length_readable hinv, hread, List.length_append, length_readable h]
          exact storage_readFd h bytes
  | retrieve len => exact hretrieve len ▸ Nat.le_max_left _ _
  | retrieveUntilIndex index => exact Nat.le_max_left _ _
  | retrieveAll => exact Nat.le_max_left _ _
  | retrieveAsString len => exact hretrieve len ▸ Nat.le_max_left _ _
  | retrieveAllAsString => exact Nat.le_max_left _ _

end Buffer

/-! ## Whole runs -/

/-- **The block stays proportional to the backlog**: while no more than `M` bytes
are readable after any call, it has no more than 1024 or `2 * M + 8` bytes. -/
theorem storage_proportional {ms : List (Move Buffer (BufferCall × Returned))} {b : Buffer}
    {M : ℕ} (h : Run bufferSystem ms b) (hM : ∀ m ∈ ms, m.post.readableBytes ≤ M) :
    b.storage.length ≤ max kInitialSize (2 * M + 8) ∧
      ∀ m ∈ ms, m.post.storage.length ≤ max kInitialSize (2 * M + 8) := by
  have hrun : b.Inv ∧ ((∀ m ∈ ms, m.post.readableBytes ≤ M) →
      b.storage.length ≤ max kInitialSize (2 * M + 8) ∧
      ∀ m ∈ ms, m.post.storage.length ≤ max kInitialSize (2 * M + 8)) := by
    refine Run.history (I := fun ms b => b.Inv ∧ ((∀ m ∈ ms, m.post.readableBytes ≤ M) →
      b.storage.length ≤ max kInitialSize (2 * M + 8) ∧
      ∀ m ∈ ms, m.post.storage.length ≤ max kInitialSize (2 * M + 8))) ?_ ?_ h
    · rintro b rfl
      refine ⟨Buffer.new_inv, fun _ => ⟨?_, by simp⟩⟩
      rw [show Buffer.new.storage.length = kInitialSize from List.length_replicate]
      exact Nat.le_max_left _ _
    · rintro ms b l b' - ⟨hinv, ih⟩ ⟨hadmits, hcall⟩
      have hpost : (b.call l.1).2 = b' := congrArg Prod.snd hcall
      refine ⟨hpost ▸ (Buffer.call_inv hinv hadmits), fun hle => ?_⟩
      obtain ⟨hb, hms⟩ := ih fun m hm => hle m (List.mem_append_left _ hm)
      have hb' : b'.readableBytes ≤ M :=
        hle ⟨b, l, b'⟩ (List.mem_append_right _ List.mem_cons_self)
      have hstep := Buffer.storage_call hinv hadmits
      rw [hpost] at hstep
      have hlen : b'.storage.length ≤ max kInitialSize (2 * M + 8) :=
        by omega
      refine ⟨hlen, fun m hm => ?_⟩
      rcases List.mem_append.mp hm with hm | hm
      · exact hms m hm
      · obtain rfl := List.mem_singleton.mp hm
        exact hlen
  exact hrun.2 hM

/-- Three bytes come in and one goes out. -/
theorem storage_proportional_append_retrieve :
    ((Buffer.new.append (ascii "GET")).retrieve 1).storage.length ≤
      max kInitialSize (2 * 3 + 8) := by
  obtain ⟨hinv, hread⟩ := Buffer.append_spec Buffer.new_inv (ascii "GET")
  have hthree : (Buffer.new.append (ascii "GET")).readableBytes = 3 := by
    rw [← Buffer.length_readable hinv, hread]
    rfl
  have hone : 1 ≤ (Buffer.new.append (ascii "GET")).readableBytes := by omega
  obtain ⟨hinv', hread'⟩ := Buffer.retrieve_spec hinv hone
  have htwo : ((Buffer.new.append (ascii "GET")).retrieve 1).readableBytes = 2 := by
    rw [← Buffer.length_readable hinv', hread', List.length_drop, Buffer.length_readable hinv,
      hthree]
  have hput : bufferSystem.step Buffer.new (.append (ascii "GET"), .nothing)
      (Buffer.new.append (ascii "GET")) := ⟨trivial, rfl⟩
  have htake : bufferSystem.step (Buffer.new.append (ascii "GET"))
      (.retrieve 1, .nothing) ((Buffer.new.append (ascii "GET")).retrieve 1) := ⟨hone, rfl⟩
  refine (storage_proportional (.next (.next (.start rfl) hput) htake) ?_).1
  intro m hm
  rcases List.mem_append.mp hm with hm | hm
  · obtain rfl := List.mem_singleton.mp hm
    exact Nat.le_of_eq hthree
  · obtain rfl := List.mem_singleton.mp hm
    dsimp only
    omega

end TinyMuduo
