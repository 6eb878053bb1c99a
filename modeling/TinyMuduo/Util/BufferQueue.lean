import TinyMuduo.Lib.Fifo
import TinyMuduo.Lib.Transition
import TinyMuduo.Util.Buffer

/-!
# `Buffer` is a first-in first-out byte queue

The abstract side is the queue of `Lib/Fifo`: all bytes ever put in and the
length of the prefix taken out. The concrete side is a run of calls on a
`Buffer` within their documented ranges. Each call on the buffer is matched by
the same call on the queue with the same result (`call_refines`), so every run
is (`buffer_refines_fifo`).
-/

namespace TinyMuduo

open Transition

/-! ## The calls -/

inductive BufferCall where
  | append (message : Bytes)
  | appendCString (message : Bytes)
  | appendString (message : Bytes)
  | readFd (result : Buffer.ReadResult)
  | retrieve (len : ℕ)
  | retrieveUntilIndex (index : ℕ)
  | retrieveAll
  | retrieveAsString (len : ℕ)
  | retrieveAllAsString

inductive Returned where
  | nothing
  | count (n : ℤ)
  | str (s : Bytes)
deriving DecidableEq

namespace BufferCall

def input : BufferCall → Bytes
  | .append message => message
  | .appendCString message => cString message
  | .appendString message => message
  | .readFd (.data bytes) => bytes
  | _ => []

end BufferCall

namespace Buffer

def call (b : Buffer) : BufferCall → Returned × Buffer
  | .append message => (.nothing, b.append message)
  | .appendCString message => (.nothing, b.appendCString message)
  | .appendString message => (.nothing, b.appendString message)
  | .readFd result => ((.count (b.readFd result).1), (b.readFd result).2)
  | .retrieve len => (.nothing, b.retrieve len)
  | .retrieveUntilIndex index => (.nothing, b.retrieveUntilIndex index)
  | .retrieveAll => (.nothing, b.retrieveAll)
  | .retrieveAsString len => (.str (b.retrieveAsString len).1, (b.retrieveAsString len).2)
  | .retrieveAllAsString => (.str b.retrieveAllAsString.1, b.retrieveAllAsString.2)

/-- The range of a call: `readv` returns what its two `iovec`s admit, and the
retrieved stretch lies inside the readable part. -/
def Admits (b : Buffer) : BufferCall → Prop
  | .readFd (.data bytes) => bytes.length ≤ b.readCapacity
  | .retrieve len => len ≤ b.readableBytes
  | .retrieveUntilIndex index => index ≤ b.readableBytes
  | .retrieveAsString len => len ≤ b.readableBytes
  | _ => True

end Buffer

def bufferSystem : LTS Buffer (BufferCall × Returned) where
  init b := b = Buffer.new
  step b l b' := b.Admits l.1 ∧ b.call l.1 = (l.2, b')

/-! ## The abstract queue -/

def fifoCall (q : Fifo Byte) : BufferCall → Returned × Fifo Byte
  | .append message => (.nothing, q.put message)
  | .appendCString message => (.nothing, q.put (cString message))
  | .appendString message => (.nothing, q.put message)
  | .readFd (.data bytes) => (.count bytes.length, q.put bytes)
  | .readFd .error => (.count (-1), q)
  | .retrieve len => (.nothing, q.pop len)
  | .retrieveUntilIndex index => (.nothing, q.pop index)
  | .retrieveAll => (.nothing, q.pop q.contents.length)
  | .retrieveAsString len => (.str (q.contents.take len), q.pop len)
  | .retrieveAllAsString => (.str q.contents, q.pop q.contents.length)

def fifoSystem : LTS (Fifo Byte) (BufferCall × Returned) where
  init q := q = Fifo.empty
  step q l q' := fifoCall q l.1 = (l.2, q')

theorem fifoCall_input (q : Fifo Byte) (c : BufferCall) :
    (fifoCall q c).2.input = q.input ++ c.input := by
  cases c with
  | readFd result => cases result <;> simp [fifoCall, BufferCall.input, Fifo.put]
  | _ => simp [fifoCall, BufferCall.input, Fifo.put, Fifo.pop]

theorem fifo_run_input {qs : List (Move (Fifo Byte) (BufferCall × Returned))} {q : Fifo Byte}
    (h : Run fifoSystem qs q) : q.input = (labels qs).flatMap fun l => l.1.input := by
  refine Run.history (I := fun qs q => q.input = (labels qs).flatMap fun l => l.1.input)
    ?_ ?_ h
  · rintro q rfl
    rfl
  · intro qs q l q' _ ih hs
    have hq : q' = (fifoCall q l.1).2 := by rw [show fifoCall q l.1 = (l.2, q') from hs]
    rw [hq, fifoCall_input, ih]
    simp [labels]

/-! ## The refinement -/

def Represents (b : Buffer) (q : Fifo Byte) : Prop := b.Inv ∧ b.readable = q.contents

/-- **One call**: same result, and the representation is kept. -/
theorem call_refines {b : Buffer} {q : Fifo Byte} {c : BufferCall}
    (hr : Represents b q) (ha : b.Admits c) :
    (b.call c).1 = (fifoCall q c).1 ∧ Represents (b.call c).2 (fifoCall q c).2 := by
  obtain ⟨hi, hq⟩ := hr
  have hlen := Buffer.length_readable hi
  unfold Represents
  cases c with
  | append message =>
      obtain ⟨h1, h2⟩ := Buffer.append_spec hi message
      exact ⟨rfl, h1, by rw [fifoCall, Fifo.contents_put, ← hq]; exact h2⟩
  | appendCString message =>
      obtain ⟨h1, h2⟩ := Buffer.append_spec hi (cString message)
      exact ⟨rfl, h1, by rw [fifoCall, Fifo.contents_put, ← hq]; exact h2⟩
  | appendString message =>
      obtain ⟨h1, h2⟩ := Buffer.append_spec hi message
      exact ⟨rfl, h1, by rw [fifoCall, Fifo.contents_put, ← hq]; exact h2⟩
  | readFd result =>
      cases result with
      | error => exact ⟨rfl, hi, hq⟩
      | data bytes =>
          obtain ⟨h1, h2, h3⟩ := Buffer.readFd_spec hi bytes
          exact ⟨congrArg Returned.count h1, h2, by
            rw [fifoCall, Fifo.contents_put, ← hq]; exact h3⟩
  | retrieve len =>
      obtain ⟨h1, h2⟩ := Buffer.retrieve_spec hi ha
      exact ⟨rfl, h1, by rw [fifoCall, Fifo.contents_pop, ← hq]; exact h2⟩
  | retrieveUntilIndex index =>
      obtain ⟨h1, h2⟩ := Buffer.retrieveUntilIndex_spec hi ha
      exact ⟨rfl, h1, by rw [fifoCall, Fifo.contents_pop, ← hq]; exact h2⟩
  | retrieveAll =>
      obtain ⟨h1, h2⟩ := Buffer.retrieveAll_spec hi
      exact ⟨rfl, h1, by
        rw [fifoCall, Fifo.contents_pop, List.drop_length]; exact h2⟩
  | retrieveAsString len =>
      obtain ⟨h1, h2⟩ := Buffer.retrieve_spec hi ha
      refine ⟨?_, h1, by rw [fifoCall, Fifo.contents_pop, ← hq]; exact h2⟩
      rw [fifoCall, ← hq]
      exact congrArg Returned.str (Buffer.peekAsString_eq ha)
  | retrieveAllAsString =>
      obtain ⟨h1, h2⟩ := Buffer.retrieveAll_spec hi
      refine ⟨congrArg Returned.str hq, h1, ?_⟩
      rw [fifoCall, Fifo.contents_pop, List.drop_length]
      exact h2

theorem represents_new : Represents Buffer.new Fifo.empty :=
  ⟨Buffer.new_inv, Buffer.readable_new⟩

/-- **`Buffer` refines a FIFO byte queue.** After any run of calls the indices
are in order, the readable bytes are the bytes put in minus the prefix taken
out, every returned string is what the queue returns, and
`MakeSureEnoughStorage` makes room without touching the readable bytes or
copying onto its own source. -/
theorem buffer_refines_fifo {ms : List (Move Buffer (BufferCall × Returned))} {b : Buffer}
    (h : Run bufferSystem ms b) :
    b.Inv ∧
      (∃ qs q, Run fifoSystem qs q ∧ labels qs = labels ms ∧
        q.input = (labels ms).flatMap (fun l => l.1.input) ∧
        b.readable = q.input.drop q.taken) ∧
      ∀ len, len ≤ (b.makeSureEnoughStorage len).writableBytes ∧
        (b.makeSureEnoughStorage len).readable = b.readable ∧
        (b.regime len = .compact → kPrePendIndex < b.readIndex) := by
  obtain ⟨qs, q, hrun, ⟨hi, hq⟩, hl⟩ :=
    Run.simulate (A := fifoSystem) (R := Represents) (fun m => some m.label)
      (fun b hb => ⟨Fifo.empty, rfl, by
        obtain rfl : b = Buffer.new := hb
        exact represents_new⟩)
      (fun b l b' q hr hs => by
        obtain ⟨ha, hcall⟩ := hs
        have href := call_refines hr ha
        rw [hcall] at href
        exact ⟨(fifoCall q l.1).2, Prod.ext href.1.symm rfl, href.2⟩) h
  have hlabels : labels qs = labels ms := by
    rw [hl]
    simp [visible, labels]
  refine ⟨hi, ⟨qs, q, hrun, hlabels, ?_, hq⟩, fun len => ?_⟩
  · rw [← hlabels]
    exact fifo_run_input hrun
  · obtain ⟨-, hroom, hread⟩ := Buffer.makeSureEnoughStorage_spec hi len
    exact ⟨hroom, hread, Buffer.prepend_lt_read_of_compact⟩

theorem buffer_refines_fifo_append_retrieve :
    let b := ((Buffer.new.append (ascii "GET")).retrieveAsString 1).2
    b.Inv ∧ ∃ q : Fifo Byte, q.input = ascii "GET" ∧ b.readable = q.input.drop q.taken := by
  intro b
  obtain ⟨hi, hr⟩ := Buffer.append_spec Buffer.new_inv (ascii "GET")
  have hone : 1 ≤ (Buffer.new.append (ascii "GET")).readableBytes := by
    rw [← Buffer.length_readable hi, hr]
    decide
  have hput : bufferSystem.step Buffer.new (.append (ascii "GET"), .nothing)
      (Buffer.new.append (ascii "GET")) := ⟨trivial, rfl⟩
  have htake : bufferSystem.step (Buffer.new.append (ascii "GET"))
      (.retrieveAsString 1, .str ((Buffer.new.append (ascii "GET")).retrieveAsString 1).1) b :=
    ⟨hone, rfl⟩
  obtain ⟨hinv, ⟨_, q, _, _, hq, hread⟩, _⟩ :=
    buffer_refines_fifo (.next (.next (.start rfl) hput) htake)
  exact ⟨hinv, q, hq, hread⟩

end TinyMuduo
