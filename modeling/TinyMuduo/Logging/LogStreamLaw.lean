import TinyMuduo.Logging.AsyncLogging

/-!
# The stream of log lines

What the log files got, what the back end still has to write and what the front
end still holds make up, in this order, every appended line that found room in
`current_` (`run_logged`). The line that finds it full is dropped by `Append`
itself: it starts a new buffer and forgets to fill it.
-/

namespace TinyMuduo

open Transition

/-! ## The three parts of the stream -/

/-- The bytes in the log files. -/
def Backend.written (b : Backend) : Bytes := (b.finished ++ [b.log]).flatMap LogFile.stream

/-- What the `for` loop has not written yet. -/
def Backend.unwritten (b : Backend) : Bytes :=
  ((b.buffers.drop b.index).flatMap BufferPtr.contents).drop b.pos

/-- `buffers_to_write_` in order, then `current_`. -/
def AsyncLogging.pending (a : AsyncLogging) : Bytes :=
  a.buffersToWrite.flatMap BufferPtr.contents ++ a.current.contents

namespace LogState

def logged (s : LogState) : Bytes := s.back.written ++ s.back.unwritten ++ s.front.pending

/-- Spare buffers are empty, and outside the `for` loop so is `buffers`. -/
structure Inv (s : LogState) : Prop where
  next : s.front.next.contents = []
  newbufferCurrent : s.back.newbufferCurrent.contents = []
  newbufferNext : s.back.newbufferNext.contents = []
  buffers : s.phase ≠ .writing → s.back.buffers = []

end LogState

/-! ## One step of the front end -/

@[simp] theorem BufferPtr.contents_none : BufferPtr.contents none = [] := rfl

@[simp] theorem BufferPtr.contents_some (b : FixedBuffer kLargeSize) :
    BufferPtr.contents (some b) = b.contents := rfl

theorem BufferPtr.contents_new : BufferPtr.contents (some FixedBuffer.new) = [] :=
  @FixedBuffer.contents_new kLargeSize

namespace AsyncLogging

theorem append_cases {a a' : AsyncLogging} {data : Bytes} (h : a.append data = some a') :
    (∃ current, a.current = some current ∧ data.length ≤ current.writableBytes ∧
      a' = { a with current := some (current.append data) }) ∨
    (¬ a.HasRoom data ∧
      a' = { a with
        buffersToWrite := a.buffersToWrite ++ [a.current]
        current := if a.next.isSome then a.next else some FixedBuffer.new
        next := none }) := by
  unfold append at h
  cases hc : a.current with
  | none =>
      rw [hc] at h
      cases h
  | some current =>
      simp only [hc] at h
      by_cases hle : data.length ≤ current.writableBytes
      · rw [if_pos hle] at h
        exact Or.inl ⟨current, rfl, hle, (Option.some.inj h).symm⟩
      · rw [if_neg hle] at h
        refine Or.inr ⟨?_, (Option.some.inj h).symm⟩
        rintro ⟨c, hc', hle'⟩
        rw [hc] at hc'
        cases hc'
        exact hle hle'

/-- **What `Append` adds to the stream**: its argument, if there is room for it. -/
theorem append_pending {a a' : AsyncLogging} {data : Bytes} (hnext : a.next.contents = [])
    (h : a.append data = some a') :
    a'.next.contents = [] ∧
      a'.pending = a.pending ++ if a.HasRoom data then data else [] := by
  rcases append_cases h with ⟨current, hc, hle, rfl⟩ | ⟨hroom, rfl⟩
  · refine ⟨hnext, ?_⟩
    have hroom : a.HasRoom data := ⟨current, hc, hle⟩
    rw [if_pos hroom, pending, pending, hc, List.append_assoc]
    congr 1
    exact FixedBuffer.contents_append_of_le hle
  · refine ⟨rfl, ?_⟩
    have hempty : BufferPtr.contents
        (if a.next.isSome then a.next else some FixedBuffer.new) = [] := by
      split
      · exact hnext
      · exact BufferPtr.contents_new
    rw [if_neg hroom, List.append_nil, pending, pending, List.flatMap_append,
      List.flatMap_singleton]
    show _ ++ BufferPtr.contents (if a.next.isSome then a.next else some FixedBuffer.new) = _
    rw [hempty, List.append_nil]

theorem append_of_le {a : AsyncLogging} {current : FixedBuffer kLargeSize} {data : Bytes}
    (hc : a.current = some current) (h : data.length ≤ current.writableBytes) :
    a.append data = some { a with current := some (current.append data) } := by
  simp only [append, hc, if_pos h]

theorem append_of_not_le {a : AsyncLogging} {current : FixedBuffer kLargeSize} {data : Bytes}
    (hc : a.current = some current) (h : ¬ data.length ≤ current.writableBytes) :
    a.append data = some { a with
      buffersToWrite := a.buffersToWrite ++ [a.current]
      current := if a.next.isSome then a.next else some FixedBuffer.new
      next := none } := by
  simp only [append, hc, if_neg h]

theorem hasRoom_nil {a a' : AsyncLogging} (h : a.append [] = some a') : a.HasRoom [] := by
  unfold append at h
  split at h
  · cases h
  · next current hc => exact ⟨current, hc, Nat.zero_le _⟩

end AsyncLogging

/-! ## One step of the back end -/

namespace Backend

theorem unwritten_of_get {b : Backend} {buffer : FixedBuffer kLargeSize}
    (h : b.buffers[b.index]? = some (some buffer)) :
    b.unwritten = (buffer.contents ++
      (b.buffers.drop (b.index + 1)).flatMap BufferPtr.contents).drop b.pos := by
  obtain ⟨hlt, hget⟩ := List.getElem?_eq_some_iff.mp h
  rw [unwritten, List.drop_eq_getElem_cons hlt, hget]
  rfl

theorem fwrite_cases {b b' : Backend} {count : ℕ} (h : b.fwrite count = some b') :
    ∃ buffer, b.buffers[b.index]? = some (some buffer) ∧ b.pos ≠ buffer.len ∧
      count ≤ buffer.len - b.pos ∧
      b' = { b with
        log := b.log.fwrite buffer.contents b.pos count
        pos := b.pos + count } := by
  unfold fwrite at h
  split at h
  · next buffer hget =>
      by_cases hg : b.pos ≠ buffer.len ∧ count ≤ buffer.len - b.pos
      · rw [if_pos hg] at h
        exact ⟨buffer, hget, hg.1, hg.2, (Option.some.inj h).symm⟩
      · rw [if_neg hg] at h
        cases h
  · cases h

theorem endWrite_cases {b b' : Backend} (h : b.endWrite = some b') :
    ∃ buffer, b.buffers[b.index]? = some (some buffer) ∧ b.pos = buffer.len ∧
      b' = { b with log := b.log.endWrite buffer.len, index := b.index + 1, pos := 0 } := by
  unfold endWrite at h
  split at h
  · next buffer hget =>
      by_cases hg : b.pos = buffer.len
      · rw [if_pos hg] at h
        exact ⟨buffer, hget, hg, (Option.some.inj h).symm⟩
      · rw [if_neg hg] at h
        cases h
  · cases h

theorem takeBack_cases {b b' : Backend} (h : b.takeBack = some b') :
    ∃ buffer : FixedBuffer kLargeSize, b' = { b with
      newbufferCurrent := some buffer.setBufferZero
      buffers := b.buffers.dropLast } := by
  unfold takeBack at h
  split at h
  · next buffer _ => exact ⟨buffer, (Option.some.inj h).symm⟩
  · cases h

/-- **An `fwrite` moves bytes from the buffer to the file.** -/
theorem fwrite_stream {b b' : Backend} {count : ℕ} (h : b.fwrite count = some b') :
    b'.written ++ b'.unwritten = b.written ++ b.unwritten := by
  obtain ⟨buffer, hget, -, hcount, hb'⟩ := fwrite_cases h
  have hget' : b'.buffers[b'.index]? = some (some buffer) := by
    rw [hb']
    exact hget
  obtain ⟨rest, hrest⟩ : ∃ rest, rest =
    (b.buffers.drop (b.index + 1)).flatMap BufferPtr.contents := ⟨_, rfl⟩
  have hwritten : b'.written = b.written ++ (buffer.contents.drop b.pos).take count := by
    rw [hb']
    simp only [written, LogFile.fwrite, List.flatMap_append, List.flatMap_singleton,
      List.append_assoc]
  have hunwritten : b'.unwritten = ((buffer.contents ++ rest).drop b.pos).drop count := by
    rw [unwritten_of_get hget', List.drop_drop, hrest, hb']
  -- the bytes `fwrite` took lie within the buffer
  have hchunk : (buffer.contents.drop b.pos).take count =
      ((buffer.contents ++ rest).drop b.pos).take count := by
    rw [List.drop_append, List.take_append_of_le_length]
    rw [List.length_drop, buffer.length_contents]
    exact hcount
  rw [hwritten, hunwritten, hchunk, List.append_assoc, List.take_append_drop,
    unwritten_of_get hget, hrest]

theorem endWrite_stream {b b' : Backend} (h : b.endWrite = some b') :
    b'.written ++ b'.unwritten = b.written ++ b.unwritten := by
  obtain ⟨buffer, hget, hpos, hb'⟩ := endWrite_cases h
  have hwritten : b'.written = b.written := by
    rw [hb']
    simp only [written, LogFile.endWrite, List.flatMap_append, List.flatMap_singleton]
  have hunwritten : b'.unwritten = b.unwritten := by
    rw [unwritten_of_get hget, hpos, ← buffer.length_contents, List.drop_left, hb']
    rfl
  rw [hwritten, hunwritten]

theorem written_rotate (b : Backend) : b.rotate.written = b.written := by
  unfold rotate
  split
  · simp only [written, LogFile.new, List.flatMap_append, List.flatMap_singleton,
      List.append_nil]
  · rfl

/-- What the end of an iteration leaves alone. -/
structure Recycled (b b' : Backend) : Prop where
  written : b'.written = b.written
  newbufferCurrent : b.newbufferCurrent.contents = [] → b'.newbufferCurrent.contents = []
  newbufferNext : b'.newbufferNext = b.newbufferNext

theorem takeBack_recycled {b b' : Backend} (h : b.takeBack = some b') : Recycled b b' := by
  obtain ⟨buffer, rfl⟩ := takeBack_cases h
  exact ⟨rfl, fun _ => buffer.contents_setBufferZero, rfl⟩

theorem Recycled.trans {a b c : Backend} (h : Recycled a b) (h' : Recycled b c) :
    Recycled a c where
  written := h'.written.trans h.written
  newbufferCurrent hc := h'.newbufferCurrent (h.newbufferCurrent hc)
  newbufferNext := h'.newbufferNext.trans h.newbufferNext

theorem rotate_trim_recycled (b : Backend) : Recycled b b.rotate.trim := by
  refine ⟨b.written_rotate, ?_, ?_⟩
  · intro hc
    unfold rotate
    split <;> exact hc
  · unfold rotate
    split <;> rfl

theorem refillCurrent_recycled {b b' : Backend} (h : b.refillCurrent = some b') :
    Recycled b b' := by
  unfold refillCurrent at h
  split at h
  · exact takeBack_recycled h
  · exact Option.some.inj h ▸ ⟨rfl, id, rfl⟩

theorem refillNext_recycled {b b' : Backend} (h : b.refillNext = some b') : Recycled b b' := by
  unfold refillNext at h
  split at h
  · exact takeBack_recycled h
  · exact Option.some.inj h ▸ ⟨rfl, id, rfl⟩

/-- **The end of an iteration writes nothing and leaves only empty spare buffers.** -/
theorem recycle_spec {b b' : Backend} (h : b.recycle = some b') :
    Recycled b b' ∧ b'.buffers = [] := by
  obtain ⟨b₁, h₁, h⟩ := Option.bind_eq_some_iff.mp h
  obtain ⟨b₂, h₂, h⟩ := Option.bind_eq_some_iff.mp h
  obtain rfl := Option.some.inj h
  have hall := (b.rotate_trim_recycled.trans (refillCurrent_recycled h₁)).trans
    (refillNext_recycled h₂)
  exact ⟨⟨hall.written, hall.newbufferCurrent, hall.newbufferNext⟩, rfl⟩

end Backend

/-! ## One step of the whole -/

def LogLabel.data : LogLabel → Bytes
  | .append data => data
  | _ => []

namespace LogState

/-- The back end works on buffers of its own, and the stream stays. -/
theorem logged_of_back {s t : LogState} (hfront : t.front.pending = s.front.pending)
    (hback : t.back.written ++ t.back.unwritten = s.back.written ++ s.back.unwritten) :
    t.logged = s.logged := by
  rw [logged, logged, hfront, hback]

theorem unwritten_of_nil {b : Backend} (h : b.buffers = []) : b.unwritten = [] := by
  rw [Backend.unwritten, h]
  simp

/-- **The swap hands the pending buffers over and nothing else.** -/
theorem swap_logged {s : LogState} (hs : s.Inv) (hphase : s.phase ≠ .writing) :
    s.swap.Inv ∧ s.swap.logged = s.logged := by
  have hbuffers := hs.buffers hphase
  refine ⟨⟨?_, rfl, ?_, fun h => absurd rfl h⟩, ?_⟩
  · show BufferPtr.contents (if s.front.next.isNone then _ else _) = []
    split
    · exact hs.newbufferNext
    · exact hs.next
  · show BufferPtr.contents (if s.front.next.isNone then _ else _) = []
    split
    · rfl
    · exact hs.newbufferNext
  · have hunwritten : s.swap.back.unwritten = s.front.pending := by
      show (s.front.buffersToWrite ++ [s.front.current]).flatMap BufferPtr.contents = _
      rw [List.flatMap_append, List.flatMap_singleton]
      rfl
    have hpending : s.swap.front.pending = [] := by
      show s.back.buffers.flatMap BufferPtr.contents ++ s.back.newbufferCurrent.contents = []
      rw [hbuffers, hs.newbufferCurrent]
      rfl
    rw [logged, logged, hunwritten, hpending, unwritten_of_nil hbuffers, List.append_nil,
      List.append_nil]
    rfl

theorem recycle_logged {s : LogState} {back : Backend} (hs : s.Inv)
    (hend : s.back.index = s.back.buffers.length) (h : s.back.recycle = some back) :
    Inv { s with back := back, phase := .top } ∧
      logged { s with back := back, phase := .top } = s.logged := by
  obtain ⟨hrec, hnil⟩ := Backend.recycle_spec h
  have hdone : s.back.unwritten = [] := by
    rw [Backend.unwritten, hend, List.drop_length]
    simp
  refine ⟨⟨hs.next, hrec.newbufferCurrent hs.newbufferCurrent, ?_, fun _ => hnil⟩, ?_⟩
  · show back.newbufferNext.contents = []
    rw [hrec.newbufferNext]
    exact hs.newbufferNext
  · refine logged_of_back rfl ?_
    show back.written ++ back.unwritten = _
    rw [hrec.written, unwritten_of_nil hnil, hdone]

theorem Steps.quiet {s t : LogState} {l : LogLabel} (h : Steps s l t) (hs : s.Inv)
    (hl : ∀ data, l ≠ .append data) : t.Inv ∧ t.logged = s.logged := by
  have hidle : s.phase ≠ .writing → s.back.buffers = [] := hs.buffers
  cases h with
  | append _ => exact absurd rfl (hl _)
  | start hphase =>
      rw [hphase] at hidle
      exact ⟨⟨hs.next, hs.newbufferCurrent, hs.newbufferNext, fun _ => hidle (by decide)⟩, rfl⟩
  | stop => exact ⟨⟨hs.next, hs.newbufferCurrent, hs.newbufferNext, hs.buffers⟩, rfl⟩
  | testRunning hphase =>
      rw [hphase] at hidle
      exact ⟨⟨hs.next, hs.newbufferCurrent, hs.newbufferNext, fun _ => hidle (by decide)⟩, rfl⟩
  | wait hphase _ =>
      rw [hphase] at hidle
      exact ⟨⟨hs.next, hs.newbufferCurrent, hs.newbufferNext, fun _ => hidle (by decide)⟩, rfl⟩
  | lock hphase _ => exact swap_logged hs (by rw [hphase]; decide)
  | wake hphase => exact swap_logged hs (by rw [hphase]; decide)
  | fwrite hphase hback =>
      refine ⟨?_, logged_of_back rfl (Backend.fwrite_stream hback)⟩
      obtain ⟨_, -, -, -, rfl⟩ := Backend.fwrite_cases hback
      exact ⟨hs.next, hs.newbufferCurrent, hs.newbufferNext, fun h => absurd hphase h⟩
  | endWrite hphase hback =>
      refine ⟨?_, logged_of_back rfl (Backend.endWrite_stream hback)⟩
      obtain ⟨_, -, -, rfl⟩ := Backend.endWrite_cases hback
      exact ⟨hs.next, hs.newbufferCurrent, hs.newbufferNext, fun h => absurd hphase h⟩
  | recycle _ hend hback => exact recycle_logged hs hend hback

/-- A line is dropped when `current_` lacks the room for it. -/
def Drops (s : LogState) (l : LogLabel) : Prop := ¬ s.front.HasRoom l.data

instance (s : LogState) (l : LogLabel) : Decidable (s.Drops l) := instDecidableNot

/-- **What one step does to the stream.** -/
theorem step_logged {s t : LogState} {l : LogLabel} (hs : s.Inv) (h : s.step l = some t) :
    t.Inv ∧ t.logged = s.logged ++ if s.Drops l then [] else l.data := by
  have hsteps := step_cases h
  by_cases hl : ∃ data, l = .append data
  · obtain ⟨data, rfl⟩ := hl
    cases hsteps with
    | @append _ front hfront =>
        obtain ⟨hnext, hpending⟩ := AsyncLogging.append_pending hs.next hfront
        refine ⟨⟨hnext, hs.newbufferCurrent, hs.newbufferNext, hs.buffers⟩, ?_⟩
        show s.back.written ++ s.back.unwritten ++ front.pending = _
        rw [hpending, ← List.append_assoc, logged]
        congr 1
        exact (ite_not (s.front.HasRoom data) [] data).symm
  · have hquiet : ∀ data, l ≠ .append data := fun data he => hl ⟨data, he⟩
    have hdata : l.data = [] := by
      cases l with
      | append data => exact absurd rfl (hquiet data)
      | _ => rfl
    rw [hdata, ite_self, List.append_nil]
    exact hsteps.quiet hs hquiet

end LogState

/-! ## Runs -/

/-- All appended bytes of a run, in lock order. -/
def appendedData (ms : List (Move LogState LogLabel)) : Bytes :=
  ms.flatMap fun m => m.label.data

/-- Those that were not dropped. -/
def keptData (ms : List (Move LogState LogLabel)) : Bytes :=
  Losses.arriving (fun m : Move LogState LogLabel => m.pre.Drops m.label)
    (fun m => m.label.data) ms

theorem LogState.step_append {s : LogState} {data : Bytes} {front : AsyncLogging}
    (h : s.front.append data = some front) :
    s.step (.append data) = some { s with front := front } :=
  Option.bind_eq_some_iff.mpr ⟨front, h, rfl⟩

theorem asyncLogging_run {ls : List LogLabel} {s : LogState}
    (h : ls.foldlM LogState.step LogState.new = some s) :
    ∃ ms, Run asyncLogging ms s ∧ labels ms = ls := by
  have hinit : asyncLogging.init LogState.new := rfl
  exact exists_run_of_labels hinit h

theorem LogState.new_inv : LogState.new.Inv where
  next := BufferPtr.contents_new
  newbufferCurrent := BufferPtr.contents_new
  newbufferNext := BufferPtr.contents_new
  buffers _ := rfl

theorem run_logged {ms : List (Move LogState LogLabel)} {s : LogState}
    (h : Run asyncLogging ms s) : s.Inv ∧ s.logged = keptData ms := by
  refine Run.history (I := fun ms s => s.Inv ∧ s.logged = keptData ms) ?_ ?_ h
  · rintro s rfl
    refine ⟨LogState.new_inv, ?_⟩
    have hnew : LogState.new.front.current.contents = [] := BufferPtr.contents_new
    show [] ++ [] ++ ([] ++ LogState.new.front.current.contents) = []
    rw [hnew]
    rfl
  · rintro ms s l t - ⟨hs, hlogged⟩ hstep
    obtain ⟨ht, hstream⟩ := LogState.step_logged hs hstep
    refine ⟨ht, ?_⟩
    rw [hstream, hlogged, keptData, keptData, Losses.arriving_snoc]

/-- The stream is complete when no line with a byte in it was dropped. -/
theorem logged_eq_appendedData_iff {ms : List (Move LogState LogLabel)} {s : LogState}
    (h : Run asyncLogging ms s) :
    s.logged = appendedData ms ↔ ∀ m ∈ ms, m.pre.Drops m.label → m.label.data = [] := by
  rw [(run_logged h).2]
  exact Losses.arriving_eq_iff _ _ ms

/-- **No line is lost, duplicated or reordered exactly when every `Append` of the
run found room for it in `current_`.** -/
theorem log_stream_iff {ms : List (Move LogState LogLabel)} {s : LogState}
    (h : Run asyncLogging ms s) :
    s.back.written ++ s.back.unwritten ++
        s.front.buffersToWrite.flatMap BufferPtr.contents ++ s.front.current.contents =
      appendedData ms ↔
    ∀ m ∈ ms, ∀ data, m.label = .append data → m.pre.front.HasRoom data := by
  have hlaw := logged_eq_appendedData_iff h
  rw [LogState.logged, AsyncLogging.pending, ← List.append_assoc] at hlaw
  rw [hlaw]
  constructor
  · intro hkept m hm data hl
    have hstep : m.pre.step m.label = some m.post := (h.move m hm).2
    have hdrop := hkept m hm
    rw [hl] at hstep hdrop
    by_contra hroom
    -- only an empty line may be dropped, and an empty line always finds room
    obtain rfl : data = [] := hdrop hroom
    obtain ⟨front, hfront, -⟩ := Option.bind_eq_some_iff.mp hstep
    exact hroom (AsyncLogging.hasRoom_nil hfront)
  · intro hroom m hm hdrop
    cases hl : m.label with
    | append data =>
        rw [hl] at hdrop
        exact absurd (hroom m hm data hl) hdrop
    | _ => rfl

/-- A line, the back end's swap, half of the line written, and another line. -/
theorem log_stream_iff_swap : ∃ ms s, Run asyncLogging ms s ∧
    labels ms = [.append [72, 105], .start, .testRunning, .lock, .wake, .fwrite 1,
      .append [33]] ∧
    (s.back.written ++ s.back.unwritten ++
        s.front.buffersToWrite.flatMap BufferPtr.contents ++ s.front.current.contents =
      appendedData ms ↔
    ∀ m ∈ ms, ∀ data, m.label = .append data → m.pre.front.HasRoom data) := by
  obtain ⟨ms, hrun, hlabels⟩ := asyncLogging_run
    (show List.foldlM LogState.step LogState.new [.append [72, 105], .start, .testRunning,
      .lock, .wake, .fwrite 1, .append [33]] = some _ from rfl)
  exact ⟨ms, _, hrun, hlabels, log_stream_iff hrun⟩

/-- A line that comes when `current_` is full is lost. -/
theorem rollover_line_lost :
    ∃ ms s, Run asyncLogging ms s ∧
      labels ms = [.append (List.replicate kLargeSize 0), .append [10]] ∧
      s.back.written ++ s.back.unwritten ++
        s.front.buffersToWrite.flatMap BufferPtr.contents ++ s.front.current.contents ≠
          appendedData ms := by
  -- of the first line only the length matters
  obtain ⟨line, hline⟩ : ∃ line : Bytes, line = List.replicate kLargeSize 0 := ⟨_, rfl⟩
  have hlen : line.length = kLargeSize := by
    rw [hline, List.length_replicate]
  rw [← hline]
  obtain ⟨full, hfull⟩ : ∃ full : FixedBuffer kLargeSize, full = FixedBuffer.new.append line :=
    ⟨_, rfl⟩
  have hfits : line.length ≤ (FixedBuffer.new : FixedBuffer kLargeSize).writableBytes :=
    Nat.le_of_eq hlen
  have hnoroom : ¬ [(10 : Byte)].length ≤ full.writableBytes := by
    rw [hfull, FixedBuffer.writableBytes, ← FixedBuffer.len,
      FixedBuffer.len_append_of_le hfits, hlen]
    decide
  obtain ⟨filled, hfilled⟩ : ∃ filled : LogState, filled =
    { LogState.new with front := { AsyncLogging.new with current := some full } } := ⟨_, rfl⟩
  have hcurrent : filled.front.current = some full := by rw [hfilled]
  have hfirst : LogState.new.step (.append line) = some filled := by
    rw [hfilled, hfull]
    exact LogState.step_append (AsyncLogging.append_of_le rfl hfits)
  have hsecond := LogState.step_append (AsyncLogging.append_of_not_le hcurrent hnoroom)
  have hrun : Run asyncLogging _ _ := .next (.next (.start rfl) hfirst) hsecond
  refine ⟨_, _, hrun, rfl, ?_⟩
  rw [List.append_assoc]
  intro hlaw
  have hkept := (logged_eq_appendedData_iff hrun).mp hlaw
  have hnil := hkept ⟨_, .append [10], _⟩ (List.mem_append_right _ (List.mem_singleton_self _)) ?_
  · cases hnil
  · rintro ⟨current, hc, hle⟩
    obtain rfl : full = current := Option.some.inj (hcurrent.symm.trans hc)
    exact hnoroom hle

end TinyMuduo
