import TinyMuduo.Lib.Transition
import TinyMuduo.Logging.ShortWrites

/-!
# What a `LogFile` has not flushed

`Write` flushes when it comes more than three seconds after the last `Flush`, and
nothing else does while the `LogFile` lives. So what is not flushed was written in the
three seconds behind the last `Flush`; but it is flushed by the next `Write` that
brings bytes, and by no `Write` of an empty buffer, however late (`flush_lag`).
-/

namespace TinyMuduo

open Transition

/-- A call of `Write`, and what `fwrite_unlocked` and `time` return in it. -/
structure WriteCall where
  data : Bytes
  len : ℕ
  len_le : len ≤ data.length
  results : FwriteResults len
  now : ℤ

namespace WriteCall

def bytes (call : WriteCall) : Bytes := call.data.take call.len

theorem bytes_of_len {call : WriteCall} (h : call.len = 0) : call.bytes = [] := by
  rw [bytes, h, List.take_zero]

end WriteCall

/-- The life of a `LogFile`: calls of `Write` that return. -/
def logFile : LTS TimedLogFile WriteCall where
  init log := log = TimedLogFile.new
  step log call out := log.Returns call.data call.results call.now out

namespace TimedLogFile

/-! ## One `Write` -/

/-- The bytes are in the stream and counted. -/
def wrote (log : TimedLogFile) (call : WriteCall) : TimedLogFile :=
  { log with
    stream := log.stream ++ call.bytes
    writtenBytes := log.writtenBytes + call.len
    lastwrite := call.now }

/-- What a `Write` does when the last one was recent. -/
inductive Writes (log : TimedLogFile) (call : WriteCall) : TimedLogFile → Prop where
  | nothing (h : call.len = 0) : Writes log call log
  | buffered (h : call.len ≠ 0) (hrecent : call.now - log.lastflush ≤ kFlushInterval) :
      Writes log call (log.wrote call)
  | flushed (h : call.len ≠ 0) (hlate : kFlushInterval < call.now - log.lastflush) :
      Writes log call { (log.wrote call).flush with lastflush := call.now }

/-- A `Flush` is due only behind a `Write` that has brought bytes. -/
def Recent (log : TimedLogFile) : Prop := log.lastwrite - log.lastflush ≤ kFlushInterval

variable {log out : TimedLogFile} {call : WriteCall}

theorem Returns.writes (h : log.Returns call.data call.results call.now out)
    (hrecent : log.Recent) : Writes log call out := by
  obtain ⟨rounds, hwrite⟩ := h
  obtain ⟨hpos, rfl⟩ := write_eq_some_iff.mp hwrite
  have hinv := log.writeLoop_inv call.data call.results rounds
  have hstream := hinv.stream
  have hwritten := hinv.writtenBytes
  rw [hpos] at hstream
  have hfile : (log.writeLoop call.data call.results rounds).log =
      ⟨log.stream ++ call.bytes, log.writtenBytes⟩ := by
    rw [← hwritten]
    exact congrArg (LogFile.mk · _) hstream
  rw [hfile, afterLoop]
  by_cases hlen : call.len = 0
  · have hsame : { log with toLogFile := ⟨log.stream ++ call.bytes, log.writtenBytes⟩ } = log := by
      rw [call.bytes_of_len hlen, List.append_nil]
    rw [if_neg (not_not.mpr hlen), hsame, flushDue, if_neg (not_lt.mpr hrecent)]
    exact .nothing hlen
  · rw [if_pos hlen]
    show Writes log call ((log.wrote call).flushDue call.now)
    by_cases hlate : kFlushInterval < call.now - log.lastflush
    · have hdue : (log.wrote call).flushDue call.now =
          { (log.wrote call).flush with lastflush := call.now } := if_pos hlate
      rw [hdue]
      exact .flushed hlen hlate
    · have hdue : (log.wrote call).flushDue call.now = log.wrote call := if_neg hlate
      rw [hdue]
      exact .buffered hlen (not_lt.mp hlate)

theorem Writes.eq_of_len (h : Writes log call out) (hlen : call.len = 0) : out = log := by
  cases h with
  | nothing _ => rfl
  | buffered hne _ => exact absurd hlen hne
  | flushed hne _ => exact absurd hlen hne

theorem Writes.recent (h : Writes log call out) (hrecent : log.Recent) : out.Recent := by
  cases h with
  | nothing _ => exact hrecent
  | buffered _ hnow => exact hnow
  | flushed _ _ =>
      show call.now - call.now ≤ kFlushInterval
      rw [sub_self]
      decide

/-! ## A life -/

theorem run_recent {ms : List (Move TimedLogFile WriteCall)} {log : TimedLogFile}
    (h : Run logFile ms log) : log.Recent := by
  refine Run.invariant (I := Recent) ?_ ?_ h
  · rintro log rfl
    unfold Recent
    decide
  · intro log call out hrecent hstep
    exact (Returns.writes hstep hrecent).recent hrecent

/-- The calls up to the last `Flush`, and those behind it. -/
structure Lag (before after : List WriteCall) (log : TimedLogFile) : Prop where
  stream : log.stream = before.flatMap WriteCall.bytes ++ after.flatMap WriteCall.bytes
  flushed : log.flushed = (before.flatMap WriteCall.bytes).length
  lastflush : log.lastflush = 0 ∨ ∃ call ∈ before, log.lastflush = call.now
  before : ∀ call ∈ before, call.len ≠ 0 → call.now ≤ log.lastflush
  after : ∀ call ∈ after, call.len ≠ 0 →
    log.lastflush ≤ call.now ∧ call.now ≤ log.lastflush + kFlushInterval

theorem lag_new : Lag [] [] new where
  stream := rfl
  flushed := rfl
  lastflush := .inl rfl
  before _ h := by cases h
  after _ h := by cases h

theorem Writes.lag {before after : List WriteCall} (h : Writes log call out)
    (hlag : Lag before after log) (hzero : 0 ≤ call.now)
    (hclock : ∀ c ∈ before ++ after, c.now ≤ call.now) :
    ∃ before' after', before' ++ after' = before ++ after ++ [call] ∧ Lag before' after' out := by
  have hstream : log.stream ++ call.bytes =
      before.flatMap WriteCall.bytes ++ (after ++ [call]).flatMap WriteCall.bytes := by
    rw [hlag.stream, List.flatMap_append, List.flatMap_singleton, List.append_assoc]
  cases h with
  | nothing hlen =>
      refine ⟨before, after ++ [call], (List.append_assoc _ _ _).symm,
        ⟨?_, hlag.flushed, hlag.lastflush, hlag.before, ?_⟩⟩
      · rw [← hstream, call.bytes_of_len hlen, List.append_nil]
      · rw [List.forall_mem_append, List.forall_mem_singleton]
        exact ⟨hlag.after, fun hne => absurd hlen hne⟩
  | buffered hlen hrecent =>
      refine ⟨before, after ++ [call], (List.append_assoc _ _ _).symm,
        ⟨hstream, hlag.flushed, hlag.lastflush, hlag.before, ?_⟩⟩
      rw [List.forall_mem_append, List.forall_mem_singleton]
      refine ⟨hlag.after, fun _ => ⟨?_, ?_⟩⟩
      · show log.lastflush ≤ call.now
        rcases hlag.lastflush with hstart | ⟨c, hc, hflush⟩
        · exact hstart ▸ hzero
        · exact hflush ▸ hclock c (List.mem_append_left _ hc)
      · show call.now ≤ log.lastflush + kFlushInterval
        omega
  | flushed hlen hlate =>
      refine ⟨before ++ after ++ [call], [], List.append_nil _, ⟨?_, ?_, ?_, ?_, ?_⟩⟩
      · show log.stream ++ call.bytes = _
        rw [hstream, List.flatMap_nil, List.append_nil, ← List.flatMap_append, List.append_assoc]
      · show (log.stream ++ call.bytes).length = _
        rw [hstream, ← List.flatMap_append, List.append_assoc]
      · exact .inr ⟨call, List.mem_append_right _ (List.mem_singleton_self _), rfl⟩
      · rw [List.forall_mem_append, List.forall_mem_singleton]
        exact ⟨fun c hc _ => hclock c hc, fun _ => le_refl _⟩
      · intro c hc
        cases hc

theorem run_lag {ms : List (Move TimedLogFile WriteCall)} {log : TimedLogFile}
    (h : Run logFile ms log) (hzero : ∀ call ∈ labels ms, 0 ≤ call.now)
    (hclock : (labels ms).Pairwise fun a b => a.now ≤ b.now) :
    ∃ before after, before ++ after = labels ms ∧ Lag before after log := by
  refine Run.history (I := fun ms log => (∀ call ∈ labels ms, 0 ≤ call.now) →
    ((labels ms).Pairwise fun a b => a.now ≤ b.now) →
    ∃ before after, before ++ after = labels ms ∧ Lag before after log) ?_ ?_ h hzero hclock
  · rintro log rfl - -
    exact ⟨[], [], rfl, lag_new⟩
  · intro ms log call out hrun ih hstep hzero hclock
    rw [labels_snoc] at hzero hclock ⊢
    rw [List.forall_mem_append, List.forall_mem_singleton] at hzero
    obtain ⟨hclock, -, hlast⟩ := List.pairwise_append.mp hclock
    obtain ⟨before, after, hcalls, hlag⟩ := ih hzero.1 hclock
    have hwrites := Returns.writes hstep (run_recent hrun)
    have hle : ∀ c ∈ before ++ after, c.now ≤ call.now := by
      intro c hc
      exact hlast c (hcalls ▸ hc) call (List.mem_singleton_self _)
    obtain ⟨before', after', hcalls', hlag'⟩ := hwrites.lag hlag hzero.2 hle
    exact ⟨before', after', by rw [hcalls', hcalls], hlag'⟩

/-- **What is not flushed was written within three seconds behind the last `Flush`**,
and all that was written before it is flushed; but a `Write` of nothing changes
nothing, however long ago the last bytes were written. -/
theorem flush_lag {ms : List (Move TimedLogFile WriteCall)} {log : TimedLogFile}
    (h : Run logFile ms log) (hzero : ∀ call ∈ labels ms, 0 ≤ call.now)
    (hclock : (labels ms).Pairwise fun a b => a.now ≤ b.now) :
    (∃ before after, before ++ after = labels ms ∧
      log.stream.take log.flushed = before.flatMap WriteCall.bytes ∧
      log.stream.drop log.flushed = after.flatMap WriteCall.bytes ∧
      (∀ call ∈ before, call.len ≠ 0 → call.now ≤ log.lastflush) ∧
      ∀ call ∈ after, call.len ≠ 0 →
        log.lastflush ≤ call.now ∧ call.now ≤ log.lastflush + kFlushInterval) ∧
    ∀ m ∈ ms, m.label.len = 0 → m.post = m.pre := by
  constructor
  · obtain ⟨before, after, hcalls, hlag⟩ := run_lag h hzero hclock
    refine ⟨before, after, hcalls, ?_, ?_, hlag.before, hlag.after⟩
    · rw [hlag.stream, hlag.flushed, List.take_left]
    · rw [hlag.stream, hlag.flushed, List.drop_left]
  · intro m hm hlen
    obtain ⟨⟨_, hpre⟩, hstep⟩ := h.move m hm
    exact (Returns.writes hstep (run_recent hpre)).eq_of_len hlen

/-- `text` is written at once, at the second `now`. -/
def sampleWrite (text : Bytes) (now : ℤ) : WriteCall where
  data := text
  len := text.length
  len_le := Nat.le_refl _
  results := atOnce _
  now := now

/-- The second line comes too early for a `Flush`, and the empty buffers that follow
do not flush it. -/
theorem flush_lag_tail : ∃ ms log, Run logFile ms log ∧
    labels ms = [sampleWrite [72] 10, sampleWrite [73] 12, sampleWrite [] 15, sampleWrite [] 99] ∧
    log.stream = [72, 73] ∧ log.flushed = 1 ∧
    (∃ before after, before ++ after = labels ms ∧
      log.stream.take log.flushed = before.flatMap WriteCall.bytes ∧
      log.stream.drop log.flushed = after.flatMap WriteCall.bytes ∧
      (∀ call ∈ before, call.len ≠ 0 → call.now ≤ log.lastflush) ∧
      ∀ call ∈ after, call.len ≠ 0 →
        log.lastflush ≤ call.now ∧ call.now ≤ log.lastflush + kFlushInterval) := by
  have hrun : Run logFile _ _ := .next (.next (.next (.next (.start rfl)
    (l := sampleWrite [72] 10) (t := ⟨⟨[72], 1⟩, 10, 10, 1⟩) ⟨1, rfl⟩)
    (l := sampleWrite [73] 12) (t := ⟨⟨[72, 73], 2⟩, 12, 10, 1⟩) ⟨1, rfl⟩)
    (l := sampleWrite [] 15) (t := ⟨⟨[72, 73], 2⟩, 12, 10, 1⟩) ⟨0, rfl⟩)
    (l := sampleWrite [] 99) (t := ⟨⟨[72, 73], 2⟩, 12, 10, 1⟩) ⟨0, rfl⟩
  refine ⟨_, _, hrun, rfl, rfl, rfl, (flush_lag hrun ?_ ?_).1⟩
  · simp [labels, sampleWrite]
  · simp [labels, sampleWrite]

end TimedLogFile

end TinyMuduo
