import TinyMuduo.Logging.ShortWrites

/-!
# The spare buffers of the back end

Each swap gives `newbuffer_current` to the front end, and `newbuffer_next` as
well when it finds `next_` null. The end of the iteration fills
`newbuffer_current` again, but `newbuffer_next` never: the line meant for it
assigns to `newbuffer_current`. So the spare buffers last exactly as long as no
swap has found `next_` null (`run_stocked`).
-/

namespace TinyMuduo

open Transition

/-! ## What is never null -/

namespace LogState

/-- Buffers that are there in every state, whatever happened to
`newbuffer_next`. -/
structure Stocked (s : LogState) : Prop where
  current : s.front.current ≠ none
  queued : ∀ p ∈ s.front.buffersToWrite, p ≠ none
  buffers : ∀ p ∈ s.back.buffers, p ≠ none
  taken : s.back.newbufferCurrent = none ↔ s.phase = .writing
  filled : s.phase = .writing → s.back.buffers ≠ []

def Swaps (s : LogState) (l : LogLabel) : Prop :=
  (l = .lock ∧ s.front.buffersToWrite ≠ []) ∨ l = .wake

theorem new_stocked : LogState.new.Stocked where
  current := by rintro ⟨⟩
  queued := by rintro p ⟨⟩
  buffers := by rintro p ⟨⟩
  taken := iff_of_false (by rintro ⟨⟩) (by rintro ⟨⟩)
  filled := by rintro ⟨⟩

theorem append_stocked {s : LogState} (hs : s.Stocked) {data : Bytes} {front : AsyncLogging}
    (h : s.front.append data = some front) : Stocked { s with front := front } := by
  rcases AsyncLogging.append_cases h with ⟨current, -, -, rfl⟩ | ⟨-, rfl⟩
  · exact ⟨by rintro ⟨⟩, hs.queued, hs.buffers, hs.taken, hs.filled⟩
  · refine ⟨?_, ?_, hs.buffers, hs.taken, hs.filled⟩
    · show (if s.front.next.isSome then s.front.next else some FixedBuffer.new) ≠ none
      split
      · next hsome => exact Option.isSome_iff_ne_none.mp hsome
      · rintro ⟨⟩
    · intro p hp
      rcases List.mem_append.mp hp with hp | hp
      · exact hs.queued p hp
      · obtain rfl := List.mem_singleton.mp hp
        exact hs.current

theorem swap_stocked {s : LogState} (hs : s.Stocked) (hi : s.Inv) (hphase : s.phase ≠ .writing) :
    s.swap.Stocked := by
  refine ⟨?_, ?_, ?_, iff_of_true rfl rfl, fun _ => ?_⟩
  · exact fun hnone => hphase (hs.taken.mp hnone)
  · show ∀ p ∈ s.back.buffers, p ≠ none
    rw [hi.buffers hphase]
    rintro p ⟨⟩
  · intro p hp
    rcases List.mem_append.mp hp with hp | hp
    · exact hs.queued p hp
    · obtain rfl := List.mem_singleton.mp hp
      exact hs.current
  · exact List.append_ne_nil_of_right_ne_nil _ (List.cons_ne_nil _ _)

end LogState

/-! ## The recycling step -/

namespace Backend

theorem takeBack_some {b : Backend} (hnull : ∀ p ∈ b.buffers, p ≠ none) (hne : b.buffers ≠ []) :
    ∃ buffer : FixedBuffer kLargeSize, b.takeBack = some { b with
      newbufferCurrent := some buffer.setBufferZero
      buffers := b.buffers.dropLast } := by
  have hlast := List.getLast?_eq_some_getLast hne
  obtain ⟨buffer, hbuffer⟩ :=
    Option.ne_none_iff_exists'.mp (hnull _ (List.getLast_mem hne))
  exact ⟨buffer, by simp only [takeBack, hlast, hbuffer]⟩

/-- What `recycle` starts from once a full file has been replaced. -/
theorem rotate_trim_spec (b : Backend) :
    b.rotate.trim.newbufferCurrent = b.newbufferCurrent ∧
      b.rotate.trim.newbufferNext = b.newbufferNext ∧
      b.rotate.trim.buffers = b.buffers.take 2 := by
  have hbuffers : (if 2 < b.buffers.length then b.buffers.take 2 else b.buffers) =
      b.buffers.take 2 := by
    split
    · rfl
    · next h => rw [List.take_of_length_le (Nat.le_of_not_lt h)]
  unfold rotate
  split
  · exact ⟨rfl, rfl, hbuffers⟩
  · exact ⟨rfl, rfl, hbuffers⟩

/-- **The recycling step** takes one buffer for `newbuffer_current`, and another
one when `newbuffer_next` is null. -/
theorem recycle_some {b : Backend} (hnull : ∀ p ∈ b.buffers, p ≠ none)
    (hcurrent : b.newbufferCurrent = none) (hne : b.buffers ≠ [])
    (htwo : b.newbufferNext = none → 2 ≤ b.buffers.length) :
    ∃ b', b.recycle = some b' := by
  obtain ⟨hc, hn, hb⟩ := b.rotate_trim_spec
  have hnull' : ∀ p ∈ b.rotate.trim.buffers, p ≠ none := by
    rw [hb]
    exact fun p hp => hnull p (List.mem_of_mem_take hp)
  have hlen : b.rotate.trim.buffers.length = min 2 b.buffers.length := by
    rw [hb, List.length_take]
  have hpos : 0 < b.buffers.length := List.length_pos_iff.mpr hne
  have hne' : b.rotate.trim.buffers ≠ [] := by
    rw [← List.length_pos_iff, hlen]
    omega
  obtain ⟨buffer, hfirst⟩ := takeBack_some hnull' hne'
  have hrefill : b.rotate.trim.refillCurrent = b.rotate.trim.takeBack := by
    rw [refillCurrent, hc, hcurrent]
    rfl
  rw [recycle, hrefill, hfirst]
  simp only [Option.bind_eq_bind, Option.bind_some]
  by_cases hnext : b.newbufferNext = none
  · -- `newbuffer_next` is null: a second buffer goes to `newbuffer_current`
    obtain ⟨buffer', hsecond⟩ := takeBack_some
      (b := { b.rotate.trim with
        newbufferCurrent := some buffer.setBufferZero
        buffers := b.rotate.trim.buffers.dropLast })
      (fun p hp => hnull' p (List.dropLast_subset _ hp)) (by
        have := htwo hnext
        rw [← List.length_pos_iff, List.length_dropLast, hlen]
        omega)
    rw [refillNext, if_pos (by rw [hn, hnext]; rfl), hsecond]
    exact ⟨_, rfl⟩
  · rw [refillNext, if_neg (by rw [hn]; simpa using hnext)]
    exact ⟨_, rfl⟩

theorem recycle_refills {b b' : Backend} (h : b.recycle = some b')
    (hcurrent : b.newbufferCurrent = none) : b'.newbufferCurrent ≠ none := by
  obtain ⟨b₁, h₁, h⟩ := Option.bind_eq_some_iff.mp h
  obtain ⟨b₂, h₂, h⟩ := Option.bind_eq_some_iff.mp h
  obtain rfl := Option.some.inj h
  have hfirst : b₁.newbufferCurrent ≠ none := by
    rw [refillCurrent, if_pos (by rw [b.rotate_trim_spec.1, hcurrent]; rfl)] at h₁
    obtain ⟨buffer, rfl⟩ := takeBack_cases h₁
    rintro ⟨⟩
  show b₂.newbufferCurrent ≠ none
  unfold refillNext at h₂
  split at h₂
  · obtain ⟨buffer, rfl⟩ := takeBack_cases h₂
    rintro ⟨⟩
  · exact Option.some.inj h₂ ▸ hfirst

/-- With both spare buffers gone, one buffer is not enough. -/
theorem recycle_none {b : Backend} {p : BufferPtr} (hcurrent : b.newbufferCurrent = none)
    (hnext : b.newbufferNext = none) (hone : b.buffers = [p]) : b.recycle = none := by
  obtain ⟨hc, hn, hb⟩ := b.rotate_trim_spec
  have hrefill : b.rotate.trim.refillCurrent = b.rotate.trim.takeBack := by
    rw [refillCurrent, hc, hcurrent]
    rfl
  rw [recycle, hrefill]
  cases hfirst : b.rotate.trim.takeBack with
  | none => rfl
  | some b₁ =>
      obtain ⟨buffer, rfl⟩ := takeBack_cases hfirst
      -- the first refill took the only buffer
      have hempty : b.rotate.trim.buffers.dropLast = [] := by
        rw [hb, hone]
        rfl
      simp [refillNext, takeBack, hn, hnext, hempty]

end Backend

/-! ## Runs -/

namespace LogState

theorem step_stocked {s t : LogState} {l : LogLabel} (hs : s.Stocked) (hi : s.Inv)
    (h : s.step l = some t) :
    t.Stocked ∧ (t.back.newbufferNext ≠ none ↔
      s.back.newbufferNext ≠ none ∧ (s.Swaps l → s.front.next ≠ none)) := by
  -- only a swap can touch `newbuffer_next`
  have hkeep : ∀ {u : LogState}, u.back.newbufferNext = s.back.newbufferNext → ¬ s.Swaps l →
      (u.back.newbufferNext ≠ none ↔
        s.back.newbufferNext ≠ none ∧ (s.Swaps l → s.front.next ≠ none)) := by
    intro u hu hl
    rw [hu]
    exact ⟨fun h => ⟨h, fun hx => absurd hx hl⟩, And.left⟩
  have hswap : s.swap.back.newbufferNext ≠ none ↔
      s.back.newbufferNext ≠ none ∧ s.front.next ≠ none := by
    show (if s.front.next.isNone then none else s.back.newbufferNext) ≠ none ↔ _
    cases s.front.next <;> simp
  cases step_cases h with
  | @append data front hfront =>
      exact ⟨append_stocked hs hfront, hkeep rfl (by rintro (⟨⟨⟩, -⟩ | ⟨⟨⟩⟩))⟩
  | start hphase =>
      refine ⟨⟨hs.current, hs.queued, hs.buffers, ?_, ?_⟩, hkeep rfl (by rintro (⟨⟨⟩, -⟩ | ⟨⟨⟩⟩))⟩
      · rw [hs.taken, hphase]
        exact iff_of_false (by decide) (by rintro ⟨⟩)
      · rintro ⟨⟩
  | stop =>
      exact ⟨⟨hs.current, hs.queued, hs.buffers, hs.taken, hs.filled⟩,
        hkeep rfl (by rintro (⟨⟨⟩, -⟩ | ⟨⟨⟩⟩))⟩
  | testRunning hphase =>
      have hphase' : (if s.front.running then ThreadPhase.locking else .done) ≠ .writing := by
        split <;> decide
      refine ⟨⟨hs.current, hs.queued, hs.buffers, ?_, fun h => absurd h hphase'⟩,
        hkeep rfl (by rintro (⟨⟨⟩, -⟩ | ⟨⟨⟩⟩))⟩
      rw [hs.taken, hphase]
      exact iff_of_false (by decide) hphase'
  | wait hphase hempty =>
      refine ⟨⟨hs.current, hs.queued, hs.buffers, ?_, ?_⟩, hkeep rfl ?_⟩
      · rw [hs.taken, hphase]
        exact iff_of_false (by decide) (by rintro ⟨⟩)
      · rintro ⟨⟩
      · rintro (⟨-, hne⟩ | ⟨⟨⟩⟩)
        exact hne hempty
  | lock hphase hbuffers =>
      refine ⟨swap_stocked hs hi (by rw [hphase]; decide), hswap.trans ?_⟩
      exact and_congr_right fun _ => ⟨fun h _ => h, fun h => h (Or.inl ⟨rfl, hbuffers⟩)⟩
  | wake hphase =>
      refine ⟨swap_stocked hs hi (by rw [hphase]; decide), hswap.trans ?_⟩
      exact and_congr_right fun _ => ⟨fun h _ => h, fun h => h (Or.inr rfl)⟩
  | fwrite hphase hback =>
      obtain ⟨_, -, -, -, rfl⟩ := Backend.fwrite_cases hback
      exact ⟨⟨hs.current, hs.queued, hs.buffers, hs.taken, hs.filled⟩,
        hkeep rfl (by rintro (⟨⟨⟩, -⟩ | ⟨⟨⟩⟩))⟩
  | endWrite hphase hback =>
      obtain ⟨_, -, -, rfl⟩ := Backend.endWrite_cases hback
      exact ⟨⟨hs.current, hs.queued, hs.buffers, hs.taken, hs.filled⟩,
        hkeep rfl (by rintro (⟨⟨⟩, -⟩ | ⟨⟨⟩⟩))⟩
  | @recycle back hphase hend hback =>
      obtain ⟨hrec, hnil⟩ := Backend.recycle_spec hback
      refine ⟨⟨hs.current, hs.queued, ?_, iff_of_false ?_ ?_, ?_⟩, hkeep hrec.newbufferNext
        (by rintro (⟨⟨⟩, -⟩ | ⟨⟨⟩⟩))⟩
      · show ∀ p ∈ back.buffers, p ≠ none
        rw [hnil]
        rintro p ⟨⟩
      · exact Backend.recycle_refills hback (hs.taken.mpr hphase)
      · rintro ⟨⟩
      · rintro ⟨⟩

end LogState

/-- No swap of the run finds `next_` null. -/
def NextAtEverySwap (ms : List (Move LogState LogLabel)) : Prop :=
  ∀ m ∈ ms, m.pre.Swaps m.label → m.pre.front.next ≠ none

/-- **`newbuffer_next` lasts exactly as long as no swap has taken it.** -/
theorem run_stocked {ms : List (Move LogState LogLabel)} {s : LogState}
    (h : Run asyncLogging ms s) :
    s.Stocked ∧ (s.back.newbufferNext ≠ none ↔ NextAtEverySwap ms) := by
  refine Run.history (I := fun ms s => s.Stocked ∧
    (s.back.newbufferNext ≠ none ↔ NextAtEverySwap ms)) ?_ ?_ h
  · rintro s rfl
    refine ⟨LogState.new_stocked, iff_of_true (by rintro ⟨⟩) ?_⟩
    rintro m ⟨⟩
  · rintro ms s l t hrun ⟨hs, hnext⟩ hstep
    obtain ⟨ht, hiff⟩ := LogState.step_stocked hs (run_logged hrun).1 hstep
    refine ⟨ht, hiff.trans ?_⟩
    rw [hnext, NextAtEverySwap, NextAtEverySwap, List.forall_mem_append, List.forall_mem_singleton]

/-- `newbuffer_current` and `newbuffer_next` are there and empty. -/
def Backend.HasSpares (b : Backend) : Prop :=
  ∃ current next : FixedBuffer kLargeSize, b.newbufferCurrent = some current ∧ current.len = 0 ∧
    b.newbufferNext = some next ∧ next.len = 0

/-- **The spare buffers are there at the top of an iteration exactly when no swap
so far has found `next_` null**; then the recycling step, too, finds the buffers
it takes. `current_` is never null. -/
theorem spare_buffers_iff {ms : List (Move LogState LogLabel)} {s : LogState}
    (h : Run asyncLogging ms s) :
    s.front.current ≠ none ∧
      (s.phase = .locking → (s.back.HasSpares ↔ NextAtEverySwap ms)) ∧
      (NextAtEverySwap ms → s.phase = .writing → s.back.index = s.back.buffers.length →
        s.back.recycle ≠ none) := by
  obtain ⟨hs, hnext⟩ := run_stocked h
  obtain ⟨hi, -⟩ := run_logged h
  refine ⟨hs.current, ?_, ?_⟩
  · intro hphase
    rw [← hnext]
    constructor
    · rintro ⟨_, next, -, -, hsome, -⟩
      rw [hsome]
      rintro ⟨⟩
    · intro hne
      obtain ⟨next, hnext'⟩ := Option.ne_none_iff_exists'.mp hne
      have hcurrent : s.back.newbufferCurrent ≠ none := by
        intro hnone
        have hwriting := hs.taken.mp hnone
        rw [hphase] at hwriting
        cases hwriting
      obtain ⟨current, hcurrent'⟩ := Option.ne_none_iff_exists'.mp hcurrent
      have hempty := hi.newbufferCurrent
      have hempty' := hi.newbufferNext
      rw [hcurrent', BufferPtr.contents_some] at hempty
      rw [hnext', BufferPtr.contents_some] at hempty'
      refine ⟨current, next, hcurrent', ?_, hnext', ?_⟩
      · rw [← current.length_contents, hempty, List.length_nil]
      · rw [← next.length_contents, hempty', List.length_nil]
  · intro hall hphase _ hnone
    obtain ⟨b', hrecycle⟩ := Backend.recycle_some hs.buffers (hs.taken.mpr hphase)
      (hs.filled hphase) fun hx => absurd hx (hnext.mpr hall)
    rw [hrecycle] at hnone
    cases hnone

/-- One iteration without a line: the next one starts with its spare buffers. -/
theorem spare_buffers_iff_idle : ∃ ms s, Run asyncLogging ms s ∧
    labels ms = [.start, .testRunning, .lock, .wake, .endWrite, .recycle, .testRunning] ∧
    s.phase = .locking ∧ NextAtEverySwap ms ∧ s.back.HasSpares := by
  obtain ⟨ms, hrun, hlabels⟩ := asyncLogging_run
    (show List.foldlM LogState.step LogState.new [.start, .testRunning, .lock, .wake, .endWrite,
      .recycle, .testRunning] = some _ from rfl)
  have hnext : NextAtEverySwap ms := (run_stocked hrun).2.mp (by rintro ⟨⟩)
  exact ⟨ms, _, hrun, hlabels, rfl, hnext, ((spare_buffers_iff hrun).2.1 rfl).mpr hnext⟩

/-! ## One roll-over is enough -/

namespace LogState

theorem step_recycle {s : LogState} {back : Backend} (hphase : s.phase = .writing)
    (hend : s.back.index = s.back.buffers.length) (h : s.back.recycle = some back) :
    s.step .recycle = some { s with back := back, phase := .top } := by
  rw [step, if_pos ⟨hphase, hend⟩, h]
  rfl

end LogState

theorem exists_write {front : AsyncLogging} {b : Backend} {buffer : FixedBuffer kLargeSize}
    (h : Reachable asyncLogging ⟨front, b, .writing⟩) (hpos : b.pos = 0)
    (hget : b.buffers[b.index]? = some (some buffer)) :
    ∃ log, Reachable asyncLogging
      ⟨front, { b with log := log, index := b.index + 1, pos := 0 }, .writing⟩ := by
  let log : TimedLogFile := ⟨b.log, 0, 0, 0⟩
  obtain ⟨out, hout⟩ := log.returns_atOnce buffer.contents buffer.len 0
  exact ⟨out.toLogFile, LogState.reachable_write h rfl hget hpos rfl hout⟩

theorem exists_full : ∃ (line : Bytes) (full : FixedBuffer kLargeSize),
    line.length = kLargeSize ∧ FixedBuffer.new.append line = full ∧ full.len = kLargeSize := by
  have hline : (List.replicate kLargeSize (0 : Byte)).length = kLargeSize := List.length_replicate
  have hlen := FixedBuffer.len_append_of_le (b := (FixedBuffer.new : FixedBuffer kLargeSize))
    (Nat.le_of_eq hline)
  refine ⟨_, _, hline, rfl, hlen.trans ?_⟩
  rw [hline]
  exact Nat.zero_add _

/-- A line that fills `current_` and one that rolls it over: the swap takes
`newbuffer_next`. -/
theorem exists_rolled_over : ∃ full : FixedBuffer kLargeSize, Reachable asyncLogging
    { front := ⟨true, some FixedBuffer.new, some FixedBuffer.new, []⟩
      back := ⟨none, none, LogFile.new, [], [some full, some FixedBuffer.new], 0, 0⟩
      phase := .writing } := by
  obtain ⟨line, full, hline, hfull, hlen⟩ := exists_full
  have hfits : line.length ≤ (FixedBuffer.new : FixedBuffer kLargeSize).writableBytes :=
    Nat.le_of_eq hline
  have hnoroom : ¬ [(10 : Byte)].length ≤ full.writableBytes := by
    rw [FixedBuffer.writableBytes, ← FixedBuffer.len, hlen]
    decide
  have hfirst : Reachable asyncLogging
      ⟨⟨false, some full, some FixedBuffer.new, []⟩, Backend.new, .unstarted⟩ := by
    have hnew : Reachable asyncLogging LogState.new := .start rfl
    have hstep := LogState.step_append (s := LogState.new) (AsyncLogging.append_of_le rfl hfits)
    rw [hfull] at hstep
    exact hnew.next hstep
  have hsecond : Reachable asyncLogging
      ⟨⟨false, some FixedBuffer.new, none, [some full]⟩, Backend.new, .unstarted⟩ :=
    hfirst.next (LogState.step_append (AsyncLogging.append_of_not_le rfl hnoroom))
  exact ⟨full, hsecond.steps [.start, .testRunning, .lock] rfl⟩

/-- **One roll-over is enough**: the next iteration starts without
`newbuffer_next`, and its recycling step finds nothing to take. -/
theorem spare_buffers_run_out :
    (∃ ms s, Run asyncLogging ms s ∧ s.phase = .locking ∧ s.back.newbufferNext = none) ∧
      ∃ ms s, Run asyncLogging ms s ∧ s.phase = .writing ∧
        s.back.index = s.back.buffers.length ∧ s.back.recycle = none := by
  obtain ⟨full, hrolled⟩ := exists_rolled_over
  obtain ⟨_, hfirst⟩ := exists_write hrolled rfl rfl
  obtain ⟨log, ms, hsecond⟩ := exists_write hfirst rfl rfl
  -- the two buffers are there to be recycled, and both go to `newbuffer_current`
  obtain ⟨hs, -⟩ := run_stocked hsecond
  obtain ⟨b, hrecycle⟩ := Backend.recycle_some hs.buffers rfl (hs.filled rfl)
    fun _ => Nat.le_refl 2
  obtain ⟨hrec, hnil⟩ := Backend.recycle_spec hrecycle
  have hlocking : Reachable asyncLogging
      ⟨⟨true, some FixedBuffer.new, some FixedBuffer.new, []⟩, b, .locking⟩ :=
    (Reachable.next ⟨ms, hsecond⟩ (LogState.step_recycle rfl rfl hrecycle)).steps
      [.testRunning] rfl
  have hnext : b.newbufferNext = none := hrec.newbufferNext
  refine ⟨⟨_, _, hlocking.choose_spec, rfl, hnext⟩, ?_⟩
  -- the second iteration has one buffer to write and would recycle two
  have hwriting : Reachable asyncLogging
      ⟨⟨true, b.newbufferCurrent, some FixedBuffer.new, b.buffers⟩,
        { b with
          newbufferCurrent := none
          buffers := [some FixedBuffer.new]
          index := 0
          pos := 0 }, .writing⟩ :=
    hlocking.steps [.lock, .wake] rfl
  obtain ⟨log', ms', hend⟩ := exists_write hwriting rfl rfl
  refine ⟨_, _, hend, rfl, rfl, ?_⟩
  refine Backend.recycle_none rfl hnext rfl

end TinyMuduo
