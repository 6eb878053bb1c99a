import TinyMuduo.Logging.LogStreamLaw

/-!
# Short and failing writes

`LogFile::Write` calls `fwrite_unlocked` again for what the call before it left, so
a short write costs a round and nothing else. It does not ask whether the stream
has failed: with an error that persists it calls for ever, and it returns exactly
when none does (`write_survives_iff`). The thread of the asynchronous log then
stays where it is, whatever the other threads do (`run_stalled`).
-/

namespace TinyMuduo

open Transition

/-- From some call on every call returns 0, and the calls before it have not taken all
the bytes. -/
def FwriteResults.ErrorPersists {len : ℕ} (results : FwriteResults len) : Prop :=
  ∃ i, While.total results.count i < len ∧ ∀ j, i ≤ j → results.count j = 0

namespace TimedLogFile

variable {len : ℕ}

def Returns (log : TimedLogFile) (data : Bytes) (results : FwriteResults len) (now : ℤ)
    (out : TimedLogFile) : Prop :=
  ∃ rounds, log.write data results now rounds = some out

/-- What a caller of `Write` relies on. -/
structure Survives (log : TimedLogFile) (data : Bytes) (results : FwriteResults len) (now : ℤ) :
    Prop where
  returns : ∃ out, log.Returns data results now out
  /-- at every moment the stream has got the first bytes of `data`, in their order -/
  handed : ∀ rounds, ∃ bytes, bytes <+: data.take len ∧
    (log.writeLoop data results rounds).log.stream = log.stream ++ bytes
  complete : ¬ results.ErrorPersists → ∃ out, log.Returns data results now out ∧
    out.stream = log.stream ++ data.take len ∧
    out.stream.length = log.stream.length + len ∧
    out.writtenBytes = log.writtenBytes + len

end TimedLogFile

/-! ## The loop -/

/-- What the rounds so far have done to the log. -/
structure WriteLoop.Inv (log : LogFile) (data : Bytes) {len : ℕ} (results : FwriteResults len)
    (s : WriteLoop) : Prop where
  pos : s.pos = While.total results.count s.call
  stream : s.log.stream = log.stream ++ data.take s.pos
  writtenBytes : s.log.writtenBytes = log.writtenBytes

namespace WriteLoop

variable {len : ℕ} {log : LogFile} {data : Bytes} {results : FwriteResults len} {s : WriteLoop}

theorem Inv.start (log : LogFile) (data : Bytes) (results : FwriteResults len) :
    Inv log data results ⟨log, 0, 0⟩ where
  pos := rfl
  stream := by rw [List.take_zero, List.append_nil]
  writtenBytes := rfl

/-- **One round** goes on where the stream has got to. -/
theorem Inv.body (h : Inv log data results s) :
    Inv log data results (s.body results.count data) where
  pos := by
    rw [WriteLoop.body, While.total_succ, h.pos]
  stream := by
    show s.log.stream ++ (data.drop s.pos).take (results.count s.call) =
      log.stream ++ data.take (s.pos + results.count s.call)
    rw [h.stream, List.take_add, List.append_assoc]
  writtenBytes := h.writtenBytes

theorem Inv.count_le (h : Inv log data results s) : results.count s.call ≤ len - s.pos := by
  rw [h.pos]
  exact results.count_le s.call

end WriteLoop

namespace TimedLogFile

variable {len : ℕ} (log : TimedLogFile) (data : Bytes) (results : FwriteResults len)

/-- **The rounds of `Write`.** -/
theorem writeLoop_inv (rounds : ℕ) :
    WriteLoop.Inv log.toLogFile data results (log.writeLoop data results rounds) := by
  refine While.rounds_invariant _ _ ?_ (WriteLoop.Inv.start log.toLogFile data results) rounds
  intro s _ hs
  exact hs.body

theorem writeLoop_succ (rounds : ℕ) : log.writeLoop data results (rounds + 1) =
    if (log.writeLoop data results rounds).pos = len then log.writeLoop data results rounds
    else (log.writeLoop data results rounds).body results.count data :=
  While.rounds_succ _ _ rounds _

theorem writeLoop_call (rounds : ℕ) : (log.writeLoop data results rounds).pos = len ∨
    (log.writeLoop data results rounds).call = rounds := by
  induction rounds with
  | zero => exact .inr rfl
  | succ rounds ih =>
      rw [writeLoop_succ]
      split
      next hpos => exact .inl hpos
      next hpos => exact .inr (congrArg Nat.succ (ih.resolve_left hpos))

/-- **The position is the number of bytes that were taken**, also behind the loop, where
nothing is left to be taken. -/
theorem writeLoop_pos (rounds : ℕ) :
    (log.writeLoop data results rounds).pos = While.total results.count rounds := by
  have hle := While.total_le results.count_le
  induction rounds with
  | zero => rfl
  | succ rounds ih =>
      rw [writeLoop_succ, While.total_succ]
      split
      next hpos =>
        have hnothing := results.count_le rounds
        rw [← ih, hpos] at hnothing ⊢
        omega
      next hpos =>
        have hcall := (log.writeLoop_call data results rounds).resolve_left hpos
        show (log.writeLoop data results rounds).pos +
          results.count (log.writeLoop data results rounds).call = _
        rw [hcall, ih]

/-- **The loop ends exactly when no error persists.** -/
theorem writeLoop_exits_iff :
    (∃ rounds, (log.writeLoop data results rounds).pos = len) ↔ ¬ results.ErrorPersists :=
  While.exits_iff WriteLoop.pos (fun _ => Iff.rfl) (log.writeLoop_pos data results)
    results.count_le

/-! ## `Write` -/

theorem toLogFile_flushDue (now : ℤ) : (log.flushDue now).toLogFile = log.toLogFile := by
  unfold flushDue
  split <;> rfl

theorem flushed_flushDue (now : ℤ) : (log.flushDue now).flushed = log.stream.length ∨
    (log.flushDue now).lastwrite - (log.flushDue now).lastflush ≤ kFlushInterval := by
  unfold flushDue
  split
  next => exact .inl rfl
  next hrecent => exact .inr (not_lt.mp hrecent)

theorem toLogFile_afterLoop (file : LogFile) (len : ℕ) (now : ℤ) :
    (log.afterLoop file len now).toLogFile = file.endWrite len := by
  rw [afterLoop, toLogFile_flushDue]
  by_cases hlen : len = 0
  · rw [hlen, if_neg (not_not_intro rfl)]
    rfl
  · rw [if_pos hlen]

variable {log data results}

theorem write_eq_some_iff {now : ℤ} {rounds : ℕ} {out : TimedLogFile} :
    log.write data results now rounds = some out ↔
      (log.writeLoop data results rounds).pos = len ∧
        log.afterLoop (log.writeLoop data results rounds).log len now = out := by
  rw [write]
  exact Option.ite_none_right_eq_some.trans (and_congr_right fun _ => Option.some_inj)

/-- **A `Write` that returns has written everything**, and has counted it. -/
theorem Returns.written {now : ℤ} {out : TimedLogFile} (h : log.Returns data results now out) :
    out.stream = log.stream ++ data.take len ∧ out.writtenBytes = log.writtenBytes + len := by
  obtain ⟨rounds, hwrite⟩ := h
  obtain ⟨hpos, rfl⟩ := write_eq_some_iff.mp hwrite
  have hinv := log.writeLoop_inv data results rounds
  rw [toLogFile_afterLoop]
  refine ⟨?_, ?_⟩
  · show (log.writeLoop data results rounds).log.stream = _
    rw [hinv.stream, hpos]
  · show (log.writeLoop data results rounds).log.writtenBytes + len = _
    rw [hinv.writtenBytes]

theorem exists_returns_iff {now : ℤ} :
    (∃ out, log.Returns data results now out) ↔ ¬ results.ErrorPersists := by
  rw [← log.writeLoop_exits_iff data results]
  constructor
  · rintro ⟨out, rounds, hwrite⟩
    exact ⟨rounds, (write_eq_some_iff.mp hwrite).1⟩
  · rintro ⟨rounds, hpos⟩
    exact ⟨_, rounds, write_eq_some_iff.mpr ⟨hpos, rfl⟩⟩

theorem Returns.flushed {now : ℤ} {out : TimedLogFile} (h : log.Returns data results now out) :
    out.flushed = out.stream.length ∨ out.lastwrite - out.lastflush ≤ kFlushInterval := by
  obtain ⟨rounds, hwrite⟩ := h
  obtain ⟨-, rfl⟩ := write_eq_some_iff.mp hwrite
  rw [afterLoop, toLogFile_flushDue]
  exact flushed_flushDue _ now

/-- What was handed over is the beginning of `data`. -/
theorem writeLoop_handed (rounds : ℕ) : ∃ bytes, bytes <+: data.take len ∧
    (log.writeLoop data results rounds).log.stream = log.stream ++ bytes := by
  have hinv := log.writeLoop_inv data results rounds
  refine ⟨data.take (log.writeLoop data results rounds).pos, ?_, hinv.stream⟩
  apply List.take_prefix_take_left
  rw [hinv.pos]
  exact While.total_le results.count_le _

/-- One call writes everything. -/
def atOnce (len : ℕ) : FwriteResults len where
  count
    | 0 => len
    | _ + 1 => 0
  count_le
    | 0 => Nat.le_refl len
    | _ + 1 => Nat.zero_le _

theorem returns_atOnce (log : TimedLogFile) (data : Bytes) (len : ℕ) (now : ℤ) :
    ∃ out, log.Returns data (atOnce len) now out := by
  refine ⟨_, 1, write_eq_some_iff.mpr ⟨?_, rfl⟩⟩
  rw [writeLoop_pos, While.total_succ, While.total_zero, Nat.zero_add]
  rfl

/-- **`Write` survives short writes and errors** exactly when no error persists. -/
theorem write_survives_iff (log : TimedLogFile) {data : Bytes} (hlen : len ≤ data.length)
    (results : FwriteResults len) (now : ℤ) :
    log.Survives data results now ↔ ¬ results.ErrorPersists := by
  constructor
  · intro h
    exact exists_returns_iff.mp h.returns
  · intro h
    obtain ⟨out, hout⟩ : ∃ out, log.Returns data results now out := exists_returns_iff.mpr h
    refine ⟨⟨out, hout⟩, writeLoop_handed, fun _ => ?_⟩
    obtain ⟨hstream, hwritten⟩ := hout.written
    refine ⟨out, hout, hstream, ?_, hwritten⟩
    rw [hstream, List.length_append, List.length_take, Nat.min_eq_left hlen]

/-- A stream that takes two bytes, none, and the three that are left. -/
def interrupted : FwriteResults 5 where
  count
    | 0 => 2
    | 2 => 3
    | _ => 0
  count_le
    | 0 => by decide
    | 1 => by decide
    | 2 => by decide
    | _ + 3 => Nat.zero_le _

/-- The bytes that an error has held up are written. -/
theorem write_survives_iff_interrupted : new.Survives (ascii "hello") interrupted 7 := by
  apply (write_survives_iff new (by decide) interrupted 7).mpr
  rintro ⟨i, hi, hzero⟩
  rcases Nat.lt_or_ge i 3 with hlt | hge
  · exact absurd (hzero 2 (by omega)) (by decide)
  · have hall := While.total_mono interrupted.count hge
    have htaken : While.total interrupted.count 3 = 5 := by decide
    omega

def nothingWritten (len : ℕ) : FwriteResults len := ⟨fun _ => 0, fun _ => Nat.zero_le _⟩

/-- No call takes the one byte, and `Write` does not return. -/
theorem nothing_written_hangs : (∀ rounds, new.write (ascii "a") (nothingWritten 1) 0 rounds = none) ∧
    ¬ new.Survives (ascii "a") (nothingWritten 1) 0 := by
  have hnever : ∀ rounds, new.write (ascii "a") (nothingWritten 1) 0 rounds = none := by
    intro rounds
    have hpos := new.writeLoop_pos (ascii "a") (nothingWritten 1) rounds
    have hzero : While.total (nothingWritten 1).count rounds = 0 :=
      While.total_stalled (fun _ _ => rfl) (Nat.zero_le rounds)
    rw [hzero] at hpos
    apply if_neg
    rw [hpos]
    decide
  refine ⟨hnever, ?_⟩
  intro h
  obtain ⟨out, rounds, hwrite⟩ := h.returns
  rw [hnever rounds] at hwrite
  cases hwrite

end TimedLogFile

/-! ## The thread of the asynchronous log -/

namespace Backend

variable {b : Backend} {buffer : FixedBuffer kLargeSize}

theorem fwrite_of_get {count : ℕ} (hbuffer : b.buffers[b.index]? = some (some buffer))
    (hpos : b.pos ≠ buffer.len) (hcount : count ≤ buffer.len - b.pos) :
    b.fwrite count = some { b with
      log := b.log.fwrite buffer.contents b.pos count
      pos := b.pos + count } := by
  unfold fwrite
  simp only [hbuffer]
  exact if_pos ⟨hpos, hcount⟩

theorem endWrite_of_get (hbuffer : b.buffers[b.index]? = some (some buffer))
    (hpos : b.pos = buffer.len) :
    b.endWrite = some { b with
      log := b.log.endWrite buffer.len, index := b.index + 1, pos := 0 } := by
  unfold endWrite
  simp only [hbuffer]
  exact if_pos hpos

end Backend

namespace LogState

/-- The `for` loop of `ThreadFunc` stands inside a `Write`, in this state of its loop. -/
def withLoop (s : LogState) (w : WriteLoop) : LogState :=
  { s with back := { s.back with log := w.log, pos := w.pos } }

theorem step_fwrite {s : LogState} {count : ℕ} {back : Backend} (hphase : s.phase = .writing)
    (h : s.back.fwrite count = some back) :
    s.step (.fwrite count) = some { s with back := back } := by
  rw [step, if_pos hphase, h]
  rfl

theorem step_endWrite {s : LogState} {back : Backend} (hphase : s.phase = .writing)
    (h : s.back.endWrite = some back) : s.step .endWrite = some { s with back := back } := by
  rw [step, if_pos hphase, h]
  rfl

section Thread

variable {s : LogState} (hs : Reachable asyncLogging s) (hphase : s.phase = .writing)
  {buffer : FixedBuffer kLargeSize} (hbuffer : s.back.buffers[s.back.index]? = some (some buffer))
  (hpos : s.back.pos = 0) {log : TimedLogFile} (hlog : log.toLogFile = s.back.log)

include hs hphase hbuffer hpos hlog

/-- **The thread makes the rounds of `Write`** on the buffer it stands at, whatever
`fwrite_unlocked` returns. -/
theorem reachable_writeLoop (results : FwriteResults buffer.len) (rounds : ℕ) :
    Reachable asyncLogging (s.withLoop (log.writeLoop buffer.contents results rounds)) := by
  induction rounds with
  | zero =>
      have hstart : s.withLoop ⟨log.toLogFile, 0, 0⟩ = s := by
        rw [withLoop, hlog, ← hpos]
      exact hstart.symm ▸ hs
  | succ rounds ih =>
      rw [TimedLogFile.writeLoop_succ]
      split
      · exact ih
      next hrunning =>
        have hcount := (log.writeLoop_inv buffer.contents results rounds).count_le
        obtain ⟨w, hw⟩ : ∃ w, w = log.writeLoop buffer.contents results rounds := ⟨_, rfl⟩
        rw [← hw] at ih hrunning hcount ⊢
        exact ih.next (l := .fwrite (results.count w.call))
          (step_fwrite hphase (Backend.fwrite_of_get hbuffer hrunning hcount))

/-- **A `Write` that returns** lets it go on to the next buffer. -/
theorem reachable_write {out : TimedLogFile} {results : FwriteResults buffer.len} {now : ℤ}
    (hout : log.Returns buffer.contents results now out) :
    Reachable asyncLogging { s with
      back := { s.back with log := out.toLogFile, index := s.back.index + 1, pos := 0 } } := by
  obtain ⟨rounds, hwrite⟩ := hout
  obtain ⟨hend, rfl⟩ := TimedLogFile.write_eq_some_iff.mp hwrite
  have hloop := reachable_writeLoop hs hphase hbuffer hpos hlog results rounds
  rw [TimedLogFile.toLogFile_afterLoop]
  exact hloop.next (l := .endWrite) (step_endWrite hphase (Backend.endWrite_of_get hbuffer hend))

end Thread

/-- The back end stands inside a `Write` with bytes left. -/
def MidWrite (s : LogState) : Prop :=
  s.phase = .writing ∧ ∃ buffer, s.back.buffers[s.back.index]? = some (some buffer) ∧
    s.back.pos ≠ buffer.len

/-- **Nothing but an `fwrite` that takes a byte** moves the back end on. -/
theorem Steps.stalled {s t : LogState} {l : LogLabel} (h : Steps s l t) (hs : s.MidWrite)
    (hl : ∀ count, l = .fwrite count → count = 0) : t.phase = .writing ∧ t.back = s.back := by
  obtain ⟨hphase, buffer, hbuffer, hpos⟩ := hs
  cases h with
  | append _ => exact ⟨hphase, rfl⟩
  | start h => rw [hphase] at h; cases h
  | stop => exact ⟨hphase, rfl⟩
  | testRunning h => rw [hphase] at h; cases h
  | wait h _ => rw [hphase] at h; cases h
  | lock h _ => rw [hphase] at h; cases h
  | wake h => rw [hphase] at h; cases h
  | @fwrite count back _ hback =>
      obtain rfl := hl count rfl
      obtain ⟨buffer', -, -, -, rfl⟩ := Backend.fwrite_cases hback
      refine ⟨hphase, ?_⟩
      rw [LogFile.fwrite, List.take_zero, List.append_nil, Nat.add_zero]
  | endWrite _ hback =>
      obtain ⟨buffer', hbuffer', hend, -⟩ := Backend.endWrite_cases hback
      rw [hbuffer] at hbuffer'
      cases hbuffer'
      exact absurd hend hpos
  | recycle _ hend _ =>
      rw [hend, List.getElem?_length] at hbuffer
      cases hbuffer

/-- **A persistent error stops the logging thread**: whatever the other threads do, it
stays inside the `Write`, with the bytes that were written before. -/
theorem run_stalled {ms before after : List (Move LogState LogLabel)}
    {m : Move LogState LogLabel} {s : LogState} (h : Run asyncLogging ms s)
    (hms : ms = before ++ m :: after) (hm : m.post.MidWrite)
    (herror : ∀ x ∈ after, ∀ count, x.label = .fwrite count → count = 0) :
    s.phase = .writing ∧ s.back = m.post.back := by
  refine h.since (I := fun s => s.phase = .writing ∧ s.back = m.post.back) hms ⟨hm.1, rfl⟩ ?_
  rintro x hx ⟨hphase, hback⟩ hstep
  have hmid : x.pre.MidWrite := ⟨hphase, hback ▸ hm.2⟩
  obtain ⟨hphase', hback'⟩ := (step_cases hstep).stalled hmid (herror x hx)
  exact ⟨hphase', hback'.trans hback⟩

end LogState

end TinyMuduo
