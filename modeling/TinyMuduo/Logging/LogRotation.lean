import TinyMuduo.Logging.LogStreamLaw

/-!
# Log files hold whole lines

A line is copied into one buffer, a buffer is written to one `LogFile`, and the
`LogFile` is replaced between two batches. So rotation tears no line: the finished
files hold the first of the lines that were not dropped, each file some of them, whole
and in their order (`files_hold_lines`). A file is finished with one gibibyte or more,
and what it has beyond is less than what one batch holds. The lines that `Append` drops
are rare: each of them comes when a buffer was filled (`drops_rare`).
-/

namespace TinyMuduo

open Transition

/-! ## Lines -/

def LogLabel.lines : LogLabel → List Bytes
  | .append data => [data]
  | _ => []

/-- The lines of a run that were not dropped, in lock order. -/
def keptLines (ms : List (Move LogState LogLabel)) : List Bytes :=
  Losses.arriving (fun m : Move LogState LogLabel => m.pre.Drops m.label)
    (fun m => m.label.lines) ms

/-- Where the lines are: in the finished files, in the file, in the buffers that are
still to be written, in `buffers_to_write_` and in `current_`. -/
structure Lots where
  files : List (List Bytes)
  file : List Bytes
  taken : List (List Bytes)
  handed : List (List Bytes)
  current : List Bytes

def Lots.waiting (lots : Lots) : List Bytes :=
  lots.taken.flatten ++ (lots.handed.flatten ++ lots.current)

def Lots.lines (lots : Lots) : List Bytes := lots.files.flatten ++ lots.file ++ lots.waiting

/-- The files and buffers hold these lines. Of the first buffer that is to be written
`pos` bytes are in the file already. -/
structure LogState.Holds (s : LogState) (lots : Lots) : Prop where
  files : s.back.finished.map LogFile.stream = lots.files.map List.flatten
  file : s.back.log.stream = lots.file.flatten ++ (lots.taken.headD []).flatten.take s.back.pos
  taken : (s.back.buffers.drop s.back.index).map BufferPtr.contents = lots.taken.map List.flatten
  handed : s.front.buffersToWrite.map BufferPtr.contents = lots.handed.map List.flatten
  current : s.front.current.contents = lots.current.flatten

theorem AsyncLogging.contents_replacement {a : AsyncLogging} (h : a.next.contents = []) :
    BufferPtr.contents (if a.next.isSome then a.next else some FixedBuffer.new) = [] := by
  split
  · exact h
  · exact BufferPtr.contents_new

namespace Backend

theorem refill_files {b b' : Backend} {c : Prop} [Decidable c]
    (h : (if c then b.takeBack else some b) = some b') :
    b'.log = b.log ∧ b'.finished = b.finished ∧ b'.pos = b.pos := by
  split at h
  · obtain ⟨buffer, rfl⟩ := takeBack_cases h
    exact ⟨rfl, rfl, rfl⟩
  · obtain rfl := Option.some.inj h
    exact ⟨rfl, rfl, rfl⟩

theorem recycle_files {b b' : Backend} (h : b.recycle = some b') :
    b'.log = b.rotate.log ∧ b'.finished = b.rotate.finished ∧ b'.pos = b.pos := by
  have hrotate : b.rotate.pos = b.pos := by
    unfold rotate
    split <;> rfl
  obtain ⟨b₁, h₁, h⟩ := Option.bind_eq_some_iff.mp h
  obtain ⟨b₂, h₂, h⟩ := Option.bind_eq_some_iff.mp h
  obtain rfl := Option.some.inj h
  obtain ⟨hlog₁, hfinished₁, hpos₁⟩ := refill_files h₁
  obtain ⟨hlog₂, hfinished₂, hpos₂⟩ := refill_files h₂
  exact ⟨hlog₂.trans hlog₁, hfinished₂.trans hfinished₁, (hpos₂.trans hpos₁).trans hrotate⟩

end Backend

namespace LogState

/-! ## One step -/

variable {s t : LogState} {lots : Lots}

theorem holds_new : LogState.new.Holds ⟨[], [], [], [], []⟩ where
  files := rfl
  file := rfl
  taken := rfl
  handed := rfl
  current := BufferPtr.contents_new

/-- Without a buffer to be written the file holds whole lines. -/
theorem Holds.idle (h : s.Holds lots) (hdrop : s.back.buffers.drop s.back.index = []) :
    lots.taken = [] ∧ s.back.log.stream = lots.file.flatten := by
  have htaken := h.taken
  rw [hdrop, List.map_nil, eq_comm, List.map_eq_nil_iff] at htaken
  refine ⟨htaken, ?_⟩
  rw [h.file, htaken]
  simp

theorem Holds.taken_cons (h : s.Holds lots) {buffer : FixedBuffer kLargeSize}
    (hget : s.back.buffers[s.back.index]? = some (some buffer)) :
    ∃ first rest, lots.taken = first :: rest ∧ buffer.contents = first.flatten ∧
      (s.back.buffers.drop (s.back.index + 1)).map BufferPtr.contents =
        rest.map List.flatten := by
  obtain ⟨hlt, hget⟩ := List.getElem?_eq_some_iff.mp hget
  have htaken := h.taken
  rw [List.drop_eq_getElem_cons hlt, hget, List.map_cons] at htaken
  obtain ⟨first, rest, hcons, hfirst, hrest⟩ := List.map_eq_cons_iff.mp htaken.symm
  exact ⟨first, rest, hcons, hfirst.symm, hrest.symm⟩

/-- **`Append`** puts a line into `current_` or hands `current_` over. -/
theorem Holds.append (h : s.Holds lots) (hs : s.Inv) {data : Bytes} {front : AsyncLogging}
    (hfront : s.front.append data = some front) :
    ∃ lots', Holds { s with front := front } lots' ∧
      lots'.lines = lots.lines ++ if s.Drops (.append data) then [] else [data] := by
  rcases AsyncLogging.append_cases hfront with ⟨current, hc, hle, rfl⟩ | ⟨hroom, rfl⟩
  · refine ⟨{ lots with current := lots.current ++ [data] },
      ⟨h.files, h.file, h.taken, h.handed, ?_⟩, ?_⟩
    · have hcontents : current.contents = lots.current.flatten := by
        have := h.current
        rwa [hc] at this
      show (current.append data).contents = _
      rw [FixedBuffer.contents_append_of_le hle, hcontents, List.flatten_append,
        List.flatten_singleton]
    · have hkept : ¬ s.Drops (.append data) := not_not.mpr ⟨current, hc, hle⟩
      rw [if_neg hkept]
      simp only [Lots.lines, Lots.waiting, List.append_assoc]
  · refine ⟨{ lots with handed := lots.handed ++ [lots.current], current := [] },
      ⟨h.files, h.file, h.taken, ?_, ?_⟩, ?_⟩
    · show (s.front.buffersToWrite ++ [s.front.current]).map BufferPtr.contents = _
      rw [List.map_append, List.map_append, h.handed, List.map_singleton, List.map_singleton,
        h.current]
    · exact AsyncLogging.contents_replacement hs.next
    · have hdrops : s.Drops (.append data) := hroom
      rw [if_pos hdrops]
      simp only [Lots.lines, Lots.waiting, List.flatten_append, List.flatten_singleton,
        List.append_nil, List.append_assoc]

/-- **The swap** takes all lines that are in no file yet. -/
theorem Holds.swap (h : s.Holds lots) (hs : s.Inv) (hphase : s.phase ≠ .writing) :
    ∃ lots', s.swap.Holds lots' ∧ lots'.lines = lots.lines := by
  have hbuffers := hs.buffers hphase
  obtain ⟨htaken, hfile⟩ := h.idle (by rw [hbuffers, List.drop_nil])
  refine ⟨{ lots with taken := lots.handed ++ [lots.current], handed := [], current := [] },
    ⟨h.files, ?_, ?_, ?_, hs.newbufferCurrent⟩, ?_⟩
  · show s.back.log.stream = _ ++ (List.flatten _).take 0
    rw [List.take_zero, List.append_nil, hfile]
  · show (s.front.buffersToWrite ++ [s.front.current]).map BufferPtr.contents = _
    rw [List.map_append, List.map_append, h.handed, List.map_singleton, List.map_singleton,
      h.current]
  · show s.back.buffers.map BufferPtr.contents = []
    rw [hbuffers, List.map_nil]
  · simp only [Lots.lines, Lots.waiting, htaken, List.flatten_append, List.flatten_singleton,
      List.flatten_nil, List.nil_append, List.append_nil]

/-- **An `fwrite`** copies more of the buffer. -/
theorem Holds.fwrite (h : s.Holds lots) {count : ℕ} {back : Backend}
    (hback : s.back.fwrite count = some back) : Holds { s with back := back } lots := by
  obtain ⟨buffer, hget, -, -, rfl⟩ := Backend.fwrite_cases hback
  obtain ⟨first, rest, hcons, hfirst, -⟩ := h.taken_cons hget
  refine ⟨h.files, ?_, h.taken, h.handed, h.current⟩
  have hfile := h.file
  rw [hcons, List.headD_cons] at hfile ⊢
  show s.back.log.stream ++ (buffer.contents.drop s.back.pos).take count = _
  rw [hfile, hfirst, List.take_add, List.append_assoc]

theorem Holds.endWrite (h : s.Holds lots) {back : Backend}
    (hback : s.back.endWrite = some back) :
    ∃ lots', Holds { s with back := back } lots' ∧ lots'.lines = lots.lines := by
  obtain ⟨buffer, hget, hpos, rfl⟩ := Backend.endWrite_cases hback
  obtain ⟨first, rest, hcons, hfirst, hrest⟩ := h.taken_cons hget
  refine ⟨{ lots with file := lots.file ++ first, taken := rest },
    ⟨h.files, ?_, hrest, h.handed, h.current⟩, ?_⟩
  · have hfile := h.file
    rw [hcons, List.headD_cons, hpos, ← buffer.length_contents, hfirst, List.take_length] at hfile
    show s.back.log.stream = _ ++ (List.flatten _).take 0
    rw [List.take_zero, List.append_nil, List.flatten_append, hfile]
  · simp only [Lots.lines, Lots.waiting, hcons, List.flatten_cons, List.append_assoc]

/-- **The end of an iteration**: a full file is finished with the lines it has. -/
theorem Holds.recycle (h : s.Holds lots) (hend : s.back.index = s.back.buffers.length)
    {back : Backend} (hback : s.back.recycle = some back) :
    ∃ lots', Holds { s with back := back, phase := .top } lots' ∧ lots'.lines = lots.lines := by
  obtain ⟨htaken, hfile⟩ := h.idle (by rw [hend, List.drop_length])
  obtain ⟨hlog, hfinished, -⟩ := Backend.recycle_files hback
  obtain ⟨-, hnil⟩ := Backend.recycle_spec hback
  have hbuffers : (back.buffers.drop back.index).map BufferPtr.contents =
      lots.taken.map List.flatten := by
    rw [hnil, htaken, List.drop_nil]
    rfl
  by_cases hfull : kSingleFileMaximumSize ≤ s.back.log.writtenBytes
  · rw [Backend.rotate, if_pos hfull] at hlog hfinished
    refine ⟨{ lots with files := lots.files ++ [lots.file], file := [] },
      ⟨?_, ?_, hbuffers, h.handed, h.current⟩, ?_⟩
    · show back.finished.map LogFile.stream = _
      rw [hfinished, List.map_append, List.map_append, h.files, List.map_singleton,
        List.map_singleton, hfile]
    · show back.log.stream = _
      rw [hlog, htaken]
      simp [LogFile.new]
    · simp only [Lots.lines, Lots.waiting, List.flatten_append, List.flatten_singleton,
        List.append_nil]
  · rw [Backend.rotate, if_neg hfull] at hlog hfinished
    refine ⟨lots, ⟨?_, ?_, hbuffers, h.handed, h.current⟩, rfl⟩
    · show back.finished.map LogFile.stream = _
      rw [hfinished, h.files]
    · show back.log.stream = _
      rw [hlog, hfile, htaken]
      simp

/-- **What one step does to the lines.** -/
theorem Holds.step {l : LogLabel} (h : s.Holds lots) (hs : s.Inv) (hstep : s.step l = some t) :
    ∃ lots', t.Holds lots' ∧
      lots'.lines = lots.lines ++ if s.Drops l then [] else l.lines := by
  have hquiet : l.lines = [] → (∃ lots', t.Holds lots' ∧ lots'.lines = lots.lines) →
      ∃ lots', t.Holds lots' ∧
        lots'.lines = lots.lines ++ if s.Drops l then [] else l.lines := by
    rintro hl ⟨lots', hholds, hlines⟩
    refine ⟨lots', hholds, ?_⟩
    rw [hl, ite_self, List.append_nil, hlines]
  cases step_cases hstep with
  | append hfront => exact h.append hs hfront
  | start _ =>
      exact hquiet rfl ⟨lots, ⟨h.files, h.file, h.taken, h.handed, h.current⟩, rfl⟩
  | stop => exact hquiet rfl ⟨lots, ⟨h.files, h.file, h.taken, h.handed, h.current⟩, rfl⟩
  | testRunning _ =>
      exact hquiet rfl ⟨lots, ⟨h.files, h.file, h.taken, h.handed, h.current⟩, rfl⟩
  | wait _ _ =>
      exact hquiet rfl ⟨lots, ⟨h.files, h.file, h.taken, h.handed, h.current⟩, rfl⟩
  | lock hphase _ => exact hquiet rfl (h.swap hs (by rw [hphase]; decide))
  | wake hphase => exact hquiet rfl (h.swap hs (by rw [hphase]; decide))
  | fwrite _ hback => exact hquiet rfl ⟨lots, h.fwrite hback, rfl⟩
  | endWrite _ hback => exact hquiet rfl (h.endWrite hback)
  | recycle _ hend hback => exact hquiet rfl (h.recycle hend hback)

/-! ## Sizes -/

/-- What the files have counted, if no batch has more than `n` buffers. -/
structure Sized (n : ℕ) (s : LogState) : Prop where
  finished : ∀ f ∈ s.back.finished, f.stream.length = f.writtenBytes ∧
    kSingleFileMaximumSize ≤ f.writtenBytes ∧
    f.writtenBytes < kSingleFileMaximumSize + kLargeSize * n
  log : s.back.log.stream.length = s.back.log.writtenBytes + s.back.pos
  /-- outside a `Write` nothing has been written without being counted -/
  pos : s.back.buffers.drop s.back.index = [] → s.back.pos = 0
  idle : s.phase ≠ .writing → s.back.log.writtenBytes < kSingleFileMaximumSize
  writing : s.phase = .writing →
    s.back.log.writtenBytes < kSingleFileMaximumSize + kLargeSize * s.back.index

theorem sized_new (n : ℕ) : LogState.new.Sized n where
  finished _ h := by cases h
  log := rfl
  pos _ := rfl
  idle _ := by decide
  writing h := by cases h

variable {n : ℕ}

theorem Sized.swap (h : s.Sized n) (hphase : s.phase ≠ .writing)
    (hbuffers : s.back.buffers = []) : s.swap.Sized n where
  finished := h.finished
  log := by
    have hlog := h.log
    rw [h.pos (by rw [hbuffers, List.drop_nil])] at hlog
    exact hlog
  pos _ := rfl
  idle hne := absurd rfl hne
  writing _ := by
    show s.back.log.writtenBytes < kSingleFileMaximumSize + kLargeSize * 0
    rw [Nat.mul_zero, Nat.add_zero]
    exact h.idle hphase

/-- **What one step does to the sizes.** -/
theorem Sized.step {l : LogLabel} (h : s.Sized n) (hs : s.Inv) (hn : s.back.buffers.length ≤ n)
    (hstep : s.step l = some t) : t.Sized n := by
  have hidle := hs.buffers
  have hmove : ∀ (front : AsyncLogging) (phase : ThreadPhase), s.phase ≠ .writing →
      phase ≠ .writing → Sized n { s with front := front, phase := phase } := by
    intro front phase hphase hphase'
    constructor
    · exact h.finished
    · exact h.log
    · exact h.pos
    · exact fun _ => h.idle hphase
    · exact fun hw => absurd hw hphase'
  cases step_cases hstep with
  | append _ => exact ⟨h.finished, h.log, h.pos, h.idle, h.writing⟩
  | start hphase => exact hmove _ _ (by rw [hphase]; decide) (by decide)
  | stop => exact ⟨h.finished, h.log, h.pos, h.idle, h.writing⟩
  | testRunning hphase =>
      apply hmove s.front
      · rw [hphase]
        decide
      · split <;> decide
  | wait hphase _ => exact hmove s.front _ (by rw [hphase]; decide) (by decide)
  | lock hphase _ =>
      have hne : s.phase ≠ .writing := by rw [hphase]; decide
      exact h.swap hne (hidle hne)
  | wake hphase =>
      have hne : s.phase ≠ .writing := by rw [hphase]; decide
      exact h.swap hne (hidle hne)
  | @fwrite count back hphase hback =>
      obtain ⟨buffer, hget, -, hcount, rfl⟩ := Backend.fwrite_cases hback
      refine ⟨h.finished, ?_, ?_, fun hne => absurd hphase hne, h.writing⟩
      · have hlog := h.log
        show (s.back.log.stream ++ (buffer.contents.drop s.back.pos).take count).length =
          s.back.log.writtenBytes + (s.back.pos + count)
        rw [List.length_append, List.length_take, List.length_drop, buffer.length_contents,
          Nat.min_eq_left hcount]
        omega
      · intro hdrop
        obtain ⟨hlt, -⟩ := List.getElem?_eq_some_iff.mp hget
        exact absurd (List.drop_eq_nil_iff.mp hdrop) (Nat.not_le.mpr hlt)
  | @endWrite back hphase hback =>
      obtain ⟨buffer, hget, hpos, rfl⟩ := Backend.endWrite_cases hback
      refine ⟨h.finished, ?_, fun _ => rfl, fun hne => absurd hphase hne, fun _ => ?_⟩
      · have hlog := h.log
        show s.back.log.stream.length = s.back.log.writtenBytes + buffer.len + 0
        omega
      · have hwriting := h.writing hphase
        have hlen : buffer.len ≤ kLargeSize := buffer.cur_le
        show s.back.log.writtenBytes + buffer.len <
          kSingleFileMaximumSize + kLargeSize * (s.back.index + 1)
        rw [Nat.mul_add, Nat.mul_one]
        omega
  | @recycle back hphase hend hback =>
      obtain ⟨hlog, hfinished, hpos⟩ := Backend.recycle_files hback
      have hzero : s.back.pos = 0 := h.pos (by rw [hend, List.drop_length])
      have hlen := h.log
      rw [hzero, Nat.add_zero] at hlen
      have hwriting := h.writing hphase
      by_cases hfull : kSingleFileMaximumSize ≤ s.back.log.writtenBytes
      · rw [Backend.rotate, if_pos hfull] at hlog hfinished
        refine ⟨?_, ?_, fun _ => hpos.trans hzero, fun _ => ?_, fun hw => by cases hw⟩
        · show ∀ f ∈ back.finished, _
          rw [hfinished, List.forall_mem_append, List.forall_mem_singleton]
          have hbatch : kLargeSize * s.back.index ≤ kLargeSize * n :=
            Nat.mul_le_mul_left _ (hend ▸ hn)
          exact ⟨h.finished, hlen, hfull, by omega⟩
        · show back.log.stream.length = back.log.writtenBytes + back.pos
          rw [hlog, hpos, hzero]
          rfl
        · show back.log.writtenBytes < _
          rw [hlog]
          show 0 < kSingleFileMaximumSize
          decide
      · rw [Backend.rotate, if_neg hfull] at hlog hfinished
        refine ⟨?_, ?_, fun _ => hpos.trans hzero, fun _ => ?_, fun hw => by cases hw⟩
        · show ∀ f ∈ back.finished, _
          rw [hfinished]
          exact h.finished
        · show back.log.stream.length = back.log.writtenBytes + back.pos
          rw [hlog, hpos, hzero]
          exact hlen
        · show back.log.writtenBytes < _
          rw [hlog]
          exact Nat.not_le.mp hfull

end LogState

/-! ## Runs -/

theorem run_holds {ms : List (Move LogState LogLabel)} {s : LogState}
    (h : Run asyncLogging ms s) : ∃ lots, s.Holds lots ∧ lots.lines = keptLines ms := by
  refine Run.history (I := fun ms s => ∃ lots, LogState.Holds s lots ∧ lots.lines = keptLines ms)
    ?_ ?_ h
  · rintro s rfl
    exact ⟨_, LogState.holds_new, rfl⟩
  · rintro ms s l t hrun ⟨lots, hholds, hlines⟩ hstep
    obtain ⟨lots', hholds', hlines'⟩ := hholds.step (run_logged hrun).1 hstep
    refine ⟨lots', hholds', ?_⟩
    rw [hlines', hlines, keptLines, keptLines, Losses.arriving_snoc]

theorem run_sized {n : ℕ} {ms : List (Move LogState LogLabel)} {s : LogState}
    (h : Run asyncLogging ms s) (hn : ∀ m ∈ ms, m.pre.back.buffers.length ≤ n) : s.Sized n := by
  refine Run.history (I := fun ms s => (∀ m ∈ ms, m.pre.back.buffers.length ≤ n) → s.Sized n)
    ?_ ?_ h hn
  · rintro s rfl -
    exact LogState.sized_new n
  · intro ms s l t hrun ih hstep hall
    rw [List.forall_mem_append, List.forall_mem_singleton] at hall
    exact (ih hall.1).step (run_logged hrun).1 hall.2 hstep

/-- **Rotation tears no line.** The finished files hold the first of the lines that
were not dropped, and the file that is written holds the next ones and a part of what
follows, which is there only while the `for` loop stands inside a buffer; a finished file
has a gibibyte, and less than a batch beyond. -/
theorem files_hold_lines {ms : List (Move LogState LogLabel)} {s : LogState}
    (h : Run asyncLogging ms s) :
    (∃ (files : List (List Bytes)) (file waiting : List Bytes) (part : Bytes),
      files.flatten ++ file ++ waiting = keptLines ms ∧
      s.back.finished.map LogFile.stream = files.map List.flatten ∧
      s.back.log.stream = file.flatten ++ part ∧ part <+: waiting.flatten ∧
      (s.back.pos = 0 → part = []) ∧ (s.phase ≠ .writing → s.back.pos = 0)) ∧
    ∀ f ∈ s.back.finished, kSingleFileMaximumSize ≤ f.stream.length ∧
      ∀ n, (∀ m ∈ ms, m.pre.back.buffers.length ≤ n) →
        f.stream.length < kSingleFileMaximumSize + kLargeSize * n := by
  -- some number bounds the batches of a finite run
  obtain ⟨n, hn⟩ : ∃ n, ∀ m ∈ ms, m.pre.back.buffers.length ≤ n :=
    ⟨(ms.map fun m => m.pre.back.buffers.length).max?.getD 0,
      fun m hm => List.le_max?_getD_of_mem (List.mem_map_of_mem hm)⟩
  have hsized := run_sized h hn
  constructor
  · obtain ⟨lots, hholds, hlines⟩ := run_holds h
    refine ⟨lots.files, lots.file, lots.waiting, _, hlines, hholds.files, hholds.file, ?_, ?_, ?_⟩
    · refine (List.take_prefix _ _).trans ?_
      rw [Lots.waiting, List.flatten_append]
      cases lots.taken with
      | nil => exact List.nil_prefix
      | cons first rest =>
          rw [List.headD_cons, List.flatten_cons, List.flatten_append, List.append_assoc]
          exact List.prefix_append _ _
    · intro hpos
      rw [hpos, List.take_zero]
    · intro hphase
      have hbuffers := (run_logged h).1.buffers hphase
      exact hsized.pos (by rw [hbuffers, List.drop_nil])
  · intro f hf
    obtain ⟨hlen, hfull, -⟩ := hsized.finished f hf
    refine ⟨hlen ▸ hfull, ?_⟩
    intro n' hn'
    obtain ⟨hlen', -, hlt⟩ := (run_sized h hn').finished f hf
    exact hlen' ▸ hlt

/-- A line of two bytes, of which one is written. -/
theorem files_hold_lines_half : ∃ ms s, Run asyncLogging ms s ∧
    labels ms = [.append [72, 10], .start, .testRunning, .lock, .wake, .fwrite 1] ∧
    s.back.log.stream = [72] ∧
    ∃ (files : List (List Bytes)) (file waiting : List Bytes) (part : Bytes),
      files.flatten ++ file ++ waiting = keptLines ms ∧
      s.back.finished.map LogFile.stream = files.map List.flatten ∧
      s.back.log.stream = file.flatten ++ part ∧ part <+: waiting.flatten ∧
      (s.back.pos = 0 → part = []) ∧ (s.phase ≠ .writing → s.back.pos = 0) := by
  obtain ⟨ms, hrun, hlabels⟩ := asyncLogging_run
    (show List.foldlM LogState.step LogState.new [.append [72, 10], .start, .testRunning,
      .lock, .wake, .fwrite 1] = some _ from rfl)
  refine ⟨ms, _, hrun, hlabels, ?_, (files_hold_lines hrun).1⟩
  have hcontents : ((FixedBuffer.new : FixedBuffer kLargeSize).append [72, 10]).contents =
      [72, 10] := by
    rw [FixedBuffer.contents_append_of_le (by decide), FixedBuffer.contents_new, List.nil_append]
  show [] ++ (((FixedBuffer.new : FixedBuffer kLargeSize).append [72, 10]).contents.drop 0).take 1 =
    [72]
  rw [hcontents]
  rfl

/-! ## How often a line is dropped -/

def droppedLines (ms : List (Move LogState LogLabel)) : List Bytes :=
  Losses.arriving (fun m : Move LogState LogLabel => ¬ m.pre.Drops m.label)
    (fun m => m.label.lines) ms

/-- **A line is dropped with a buffer that is almost full**, and the next one starts
empty. -/
theorem LogState.step_drops {s t : LogState} {l : LogLabel} {m : ℕ} (hs : s.Inv)
    (hm : l.data.length ≤ m) (h : s.step l = some t) :
    (if ¬ s.Drops l then [] else l.lines).length * (kLargeSize + 1 - m) +
        t.front.current.contents.length ≤
      s.front.current.contents.length + (if s.Drops l then [] else l.data).length := by
  have hquiet : l.lines = [] → t.front.current.contents.length ≤
      s.front.current.contents.length → (if ¬ s.Drops l then [] else l.lines).length *
        (kLargeSize + 1 - m) + t.front.current.contents.length ≤
      s.front.current.contents.length + (if s.Drops l then [] else l.data).length := by
    intro hl hle
    rw [hl, ite_self, List.length_nil, Nat.zero_mul]
    omega
  have hswap : s.swap.front.current.contents.length ≤ s.front.current.contents.length := by
    show s.back.newbufferCurrent.contents.length ≤ _
    rw [hs.newbufferCurrent]
    exact Nat.zero_le _
  cases step_cases h with
  | @append data front hfront =>
      rcases AsyncLogging.append_cases hfront with ⟨current, hc, hle, rfl⟩ | ⟨hroom, rfl⟩
      · have hkept : ¬ s.Drops (.append data) := not_not.mpr ⟨current, hc, hle⟩
        rw [if_pos hkept, if_neg hkept, hc]
        show 0 * _ + (current.append data).contents.length ≤
          current.contents.length + data.length
        rw [FixedBuffer.contents_append_of_le hle, List.length_append]
        omega
      · have hdrops : s.Drops (.append data) := hroom
        have hempty := AsyncLogging.contents_replacement hs.next
        rw [if_neg (not_not.mpr hdrops), if_pos hdrops]
        show 1 * (kLargeSize + 1 - m) + (BufferPtr.contents
          (if s.front.next.isSome then s.front.next else some FixedBuffer.new)).length ≤ _
        rw [hempty]
        cases hc : s.front.current with
        | none =>
            rw [AsyncLogging.append, hc] at hfront
            cases hfront
        | some current =>
            have hfull : ¬ data.length ≤ kLargeSize - current.cur :=
              fun hle => hroom ⟨current, hc, hle⟩
            have hlen : current.contents.length = current.cur := current.length_contents
            replace hm : data.length ≤ m := hm
            show _ ≤ current.contents.length + 0
            rw [hlen, List.length_nil]
            omega
  | start _ => exact hquiet rfl (Nat.le_refl _)
  | stop => exact hquiet rfl (Nat.le_refl _)
  | testRunning _ => exact hquiet rfl (Nat.le_refl _)
  | wait _ _ => exact hquiet rfl (Nat.le_refl _)
  | lock _ _ => exact hquiet rfl hswap
  | wake _ => exact hquiet rfl hswap
  | fwrite _ _ => exact hquiet rfl (Nat.le_refl _)
  | endWrite _ _ => exact hquiet rfl (Nat.le_refl _)
  | recycle _ _ _ => exact hquiet rfl (Nat.le_refl _)

/-- **For every dropped line a buffer was filled**, up to less than one line. -/
theorem drops_rare {m : ℕ} {ms : List (Move LogState LogLabel)} {s : LogState}
    (h : Run asyncLogging ms s) (hm : ∀ x ∈ ms, x.label.data.length ≤ m) :
    (droppedLines ms).length * (kLargeSize + 1 - m) + s.front.current.contents.length ≤
      (keptData ms).length := by
  refine Run.history (I := fun ms s => (∀ x ∈ ms, x.label.data.length ≤ m) →
    (droppedLines ms).length * (kLargeSize + 1 - m) + s.front.current.contents.length ≤
      (keptData ms).length) ?_ ?_ h hm
  · rintro s rfl -
    have hempty : LogState.new.front.current.contents = [] := BufferPtr.contents_new
    rw [hempty]
    show 0 * (kLargeSize + 1 - m) + 0 ≤ 0
    rw [Nat.zero_mul]
  · intro ms s l t hrun ih hstep hall
    rw [List.forall_mem_append, List.forall_mem_singleton] at hall
    have hbefore := ih hall.1
    have hdropped : droppedLines (ms ++ [⟨s, l, t⟩]) =
        droppedLines ms ++ if ¬ s.Drops l then [] else l.lines := Losses.arriving_snoc _ _ _ _
    have hkept : keptData (ms ++ [⟨s, l, t⟩]) =
        keptData ms ++ if s.Drops l then [] else l.data := Losses.arriving_snoc _ _ _ _
    have hdrops := LogState.step_drops (l := l) (run_logged hrun).1 hall.2 hstep
    rw [hdropped, hkept, List.length_append, List.length_append, Nat.add_mul]
    omega

/-- A line that fills the buffer, and one that is dropped. -/
theorem drops_rare_one : ∃ ms s, Run asyncLogging ms s ∧
    labels ms = [.append (List.replicate kLargeSize 65), .append [66]] ∧
    (droppedLines ms).length * (kLargeSize + 1 - kLargeSize) +
      s.front.current.contents.length ≤ (keptData ms).length := by
  -- of the first line only the length matters
  obtain ⟨line, hline⟩ : ∃ line : Bytes, line = List.replicate kLargeSize 65 := ⟨_, rfl⟩
  have hlen : line.length = kLargeSize := by
    rw [hline, List.length_replicate]
  rw [← hline]
  have hfits : line.length ≤ (FixedBuffer.new : FixedBuffer kLargeSize).writableBytes :=
    Nat.le_of_eq hlen
  have hnoroom : ¬ [(66 : Byte)].length ≤
      ((FixedBuffer.new : FixedBuffer kLargeSize).append line).writableBytes := by
    rw [FixedBuffer.writableBytes, ← FixedBuffer.len, FixedBuffer.len_append_of_le hfits, hlen]
    decide
  have hfirst := LogState.step_append (s := LogState.new) (AsyncLogging.append_of_le rfl hfits)
  have hsecond := LogState.step_append (s := { LogState.new with front := { AsyncLogging.new with
    current := some (FixedBuffer.new.append line) } }) (AsyncLogging.append_of_not_le rfl hnoroom)
  have hrun : Run asyncLogging _ _ := .next (.next (.start rfl) hfirst) hsecond
  refine ⟨_, _, hrun, rfl, drops_rare hrun ?_⟩
  intro x hx
  rcases List.mem_cons.mp hx with rfl | hx
  · exact Nat.le_of_eq hlen
  · obtain rfl := List.mem_singleton.mp hx
    show 1 ≤ kLargeSize
    decide

end TinyMuduo
