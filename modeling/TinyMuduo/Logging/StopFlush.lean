import TinyMuduo.Logging.LogStreamLaw

/-!
# What `Stop` leaves behind

`ThreadFunc` tests `running_` at the head of its loop only. A back end that has
passed the test still has a swap before it, and writes all that was pending when
`Stop` was called. One that is behind its swap finishes the buffers it has and
leaves; what is still in `current_` and `buffers_to_write_` is never written
(`stop_flushes_iff`).
-/

namespace TinyMuduo

open Transition

namespace LogState

/-! ## Before `Stop` -/

def Working (s : LogState) : Prop :=
  s.phase ≠ .unstarted → s.front.running = true ∧ s.phase ≠ .done

theorem Steps.working {s t : LogState} {l : LogLabel} (h : Steps s l t) (hs : s.Working)
    (hl : l ≠ .stop) : t.Working := by
  intro hphase
  cases h with
  | @append data front hfront =>
      obtain ⟨hrunning, hdone⟩ := hs hphase
      refine ⟨?_, hdone⟩
      rcases AsyncLogging.append_cases hfront with ⟨current, -, -, rfl⟩ | ⟨-, rfl⟩ <;>
        exact hrunning
  | start _ => exact ⟨rfl, by rintro ⟨⟩⟩
  | stop => exact absurd rfl hl
  | testRunning h =>
      obtain ⟨hrunning, -⟩ := hs (by rw [h]; decide)
      refine ⟨hrunning, ?_⟩
      show (if s.front.running then ThreadPhase.locking else .done) ≠ .done
      rw [if_pos hrunning]
      decide
  | wait h _ => exact ⟨(hs (by rw [h]; decide)).1, by rintro ⟨⟩⟩
  | lock h _ => exact ⟨(hs (by rw [h]; decide)).1, by rintro ⟨⟩⟩
  | wake h => exact ⟨(hs (by rw [h]; decide)).1, by rintro ⟨⟩⟩
  | fwrite _ _ => exact hs hphase
  | endWrite _ _ => exact hs hphase
  | recycle h _ _ => exact ⟨(hs (by rw [h]; decide)).1, by rintro ⟨⟩⟩

/-! ## Behind `Stop` -/

/-- `running_` is false and the back end has its last swap behind it. -/
structure Leaving (s : LogState) : Prop where
  running : s.front.running = false
  phase : s.phase = .writing ∨ s.phase = .top ∨ s.phase = .done

/-- `running_` is false, but the back end has yet to swap. -/
structure Swapping (s : LogState) : Prop where
  running : s.front.running = false
  phase : s.phase = .locking ∨ s.phase = .waiting

theorem append_running {s : LogState} {data : Bytes} {front : AsyncLogging}
    (h : s.front.append data = some front) : front.running = s.front.running := by
  rcases AsyncLogging.append_cases h with ⟨current, -, -, rfl⟩ | ⟨-, rfl⟩ <;> rfl

/-- **A leaving back end finishes its buffers and takes no others.** -/
theorem Steps.leaving {s t : LogState} {l : LogLabel} (h : Steps s l t) (hi : s.Inv)
    (hs : s.Leaving) :
    t.Leaving ∧ t.back.written ++ t.back.unwritten = s.back.written ++ s.back.unwritten := by
  have hphase := hs.phase
  cases h with
  | append hfront => exact ⟨⟨(append_running hfront).trans hs.running, hs.phase⟩, rfl⟩
  | start h => rcases hphase with h' | h' | h' <;> · rw [h'] at h; cases h
  | stop => exact ⟨⟨rfl, hs.phase⟩, rfl⟩
  | testRunning _ =>
      refine ⟨⟨hs.running, Or.inr (Or.inr ?_)⟩, rfl⟩
      rw [hs.running]
      rfl
  | wait h _ => rcases hphase with h' | h' | h' <;> · rw [h'] at h; cases h
  | lock h _ => rcases hphase with h' | h' | h' <;> · rw [h'] at h; cases h
  | wake h => rcases hphase with h' | h' | h' <;> · rw [h'] at h; cases h
  | fwrite _ hback => exact ⟨⟨hs.running, hs.phase⟩, Backend.fwrite_stream hback⟩
  | endWrite _ hback => exact ⟨⟨hs.running, hs.phase⟩, Backend.endWrite_stream hback⟩
  | recycle _ hend hback =>
      refine ⟨⟨hs.running, Or.inr (Or.inl rfl)⟩, ?_⟩
      obtain ⟨-, hlogged⟩ := recycle_logged hi hend hback
      exact List.append_cancel_right hlogged

/-- **A swapping back end waits or takes all there is.** -/
theorem Steps.swapping {s t : LogState} {l : LogLabel} (h : Steps s l t) (hi : s.Inv)
    (hs : s.Swapping) :
    (t.Swapping ∧ s.logged <+: t.logged) ∨
      (t.Leaving ∧ t.back.written ++ t.back.unwritten = s.logged) := by
  have hphase := hs.phase
  have hswap : s.swap.Leaving ∧ s.swap.back.written ++ s.swap.back.unwritten = s.logged := by
    have hidle : s.phase ≠ .writing := by rcases hphase with h' | h' <;> rw [h'] <;> decide
    obtain ⟨-, hlogged⟩ := swap_logged hi hidle
    refine ⟨⟨hs.running, Or.inl rfl⟩, ?_⟩
    have hpending : s.swap.front.pending = [] := by
      show s.back.buffers.flatMap BufferPtr.contents ++ s.back.newbufferCurrent.contents = []
      rw [hi.buffers hidle, hi.newbufferCurrent]
      rfl
    rw [← hlogged, logged, hpending, List.append_nil]
  cases h with
  | append hfront =>
      refine Or.inl ⟨⟨(append_running hfront).trans hs.running, hs.phase⟩, ?_⟩
      obtain ⟨-, hpending⟩ := AsyncLogging.append_pending hi.next hfront
      rw [logged, logged, hpending, ← List.append_assoc]
      exact List.prefix_append _ _
  | start h => rcases hphase with h' | h' <;> · rw [h'] at h; cases h
  | stop => exact Or.inl ⟨⟨rfl, hs.phase⟩, List.prefix_rfl⟩
  | testRunning h => rcases hphase with h' | h' <;> · rw [h'] at h; cases h
  | wait _ _ => exact Or.inl ⟨⟨hs.running, Or.inr rfl⟩, List.prefix_rfl⟩
  | lock _ _ => exact Or.inr hswap
  | wake _ => exact Or.inr hswap
  | fwrite h _ => rcases hphase with h' | h' <;> · rw [h'] at h; cases h
  | endWrite h _ => rcases hphase with h' | h' <;> · rw [h'] at h; cases h
  | recycle h _ _ => rcases hphase with h' | h' <;> · rw [h'] at h; cases h

/-- The log files hold `stream` and are about to hold nothing else of it. -/
def Finishing (stream : Bytes) (s : LogState) : Prop :=
  s.Inv ∧ s.Leaving ∧ s.back.written ++ s.back.unwritten = stream

/-- All of `stream` is on its way to the log files. -/
def Flushing (stream : Bytes) (s : LogState) : Prop :=
  s.Inv ∧ ((s.Swapping ∧ stream <+: s.logged) ∨
    (s.Leaving ∧ stream <+: s.back.written ++ s.back.unwritten))

theorem Finishing.step {stream : Bytes} {s t : LogState} {l : LogLabel} (hs : s.Finishing stream)
    (h : s.step l = some t) : t.Finishing stream := by
  obtain ⟨hi, hleaving, hstream⟩ := hs
  obtain ⟨hleaving', hstream'⟩ := (step_cases h).leaving hi hleaving
  exact ⟨(step_logged hi h).1, hleaving', hstream'.trans hstream⟩

theorem Flushing.step {stream : Bytes} {s t : LogState} {l : LogLabel} (hs : s.Flushing stream)
    (h : s.step l = some t) : t.Flushing stream := by
  obtain ⟨hi, ⟨hswapping, hstream⟩ | ⟨hleaving, hstream⟩⟩ := hs
  · refine ⟨(step_logged hi h).1, ?_⟩
    rcases (step_cases h).swapping hi hswapping with ⟨hs', hlogged⟩ | ⟨hs', hwritten⟩
    · exact Or.inl ⟨hs', hstream.trans hlogged⟩
    · exact Or.inr ⟨hs', hwritten ▸ hstream⟩
  · obtain ⟨hleaving', hstream'⟩ := (step_cases h).leaving hi hleaving
    exact ⟨(step_logged hi h).1, Or.inr ⟨hleaving', hstream' ▸ hstream⟩⟩

/-- A back end that has left holds no buffers any more. -/
theorem written_of_done {s : LogState} (hi : s.Inv) (hdone : s.phase = .done) :
    s.back.written ++ s.back.unwritten = s.back.written := by
  rw [unwritten_of_nil (hi.buffers (by rw [hdone]; decide)), List.append_nil]

end LogState

/-! ## Runs -/

theorem run_working {ms : List (Move LogState LogLabel)} {s : LogState}
    (h : Run asyncLogging ms s) (hstop : ∀ m ∈ ms, m.label ≠ .stop) : s.Working := by
  refine Run.history (I := fun ms s => (∀ m ∈ ms, m.label ≠ .stop) → s.Working) ?_ ?_ h hstop
  · rintro s rfl - hphase
    exact absurd rfl hphase
  · intro ms s l t _ ih hstep hall
    rw [List.forall_mem_append, List.forall_mem_singleton] at hall
    exact (LogState.step_cases hstep).working (ih hall.1) hall.2

/-- A back end that was leaving at some move has by the end written what it had
taken by then. -/
theorem written_of_leaving {ms before after : List (Move LogState LogLabel)}
    {m : Move LogState LogLabel} {s : LogState} (h : Run asyncLogging ms s)
    (hms : ms = before ++ m :: after) (hi : m.post.Inv) (hleaving : m.post.Leaving)
    (hdone : s.phase = .done) :
    s.back.written = m.post.back.written ++ m.post.back.unwritten := by
  obtain ⟨hs, -, hstream⟩ := h.since hms
    (I := LogState.Finishing (m.post.back.written ++ m.post.back.unwritten))
    ⟨hi, hleaving, rfl⟩ fun _ _ hx hstep => hx.step hstep
  rw [← hstream, LogState.written_of_done hs hdone]

/-- One that had yet to swap has by the end written all there was. -/
theorem logged_prefix_of_swapping {ms before after : List (Move LogState LogLabel)}
    {m : Move LogState LogLabel} {s : LogState} (h : Run asyncLogging ms s)
    (hms : ms = before ++ m :: after) (hi : m.post.Inv) (hswapping : m.post.Swapping)
    (hdone : s.phase = .done) : m.post.logged <+: s.back.written := by
  obtain ⟨hs, ⟨hswapping', -⟩ | ⟨-, hstream⟩⟩ := h.since hms
    (I := LogState.Flushing m.post.logged)
    ⟨hi, Or.inl ⟨hswapping, List.prefix_rfl⟩⟩ fun _ _ hx hstep => hx.step hstep
  · rcases hswapping'.phase with hphase | hphase <;>
    · rw [hdone] at hphase
      cases hphase
  · rw [LogState.written_of_done hs hdone] at hstream
    exact hstream

/-- **`Stop` flushes exactly when the back end is between its test of `running_`
and its swap, or when nothing is pending.** -/
theorem stop_flushes_iff {ms before after : List (Move LogState LogLabel)}
    {m : Move LogState LogLabel} {s : LogState} (h : Run asyncLogging ms s)
    (hms : ms = before ++ m :: after) (hstop : m.label = .stop)
    (hone : ∀ x ∈ before ++ after, x.label ≠ .stop) (hdone : s.phase = .done) :
    keptData before <+: s.back.written ↔
      m.pre.phase = .locking ∨ m.pre.phase = .waiting ∨ m.pre.front.pending = [] := by
  obtain ⟨hbefore, hstep⟩ := h.split hms
  obtain ⟨hi, hlogged⟩ := run_logged hbefore
  have hworking := run_working hbefore fun x hx => hone x (List.mem_append_left _ hx)
  have hi' : m.post.Inv := (LogState.step_logged hi hstep).1
  have hpost : m.post = { m.pre with front := { m.pre.front with running := false } } := by
    rw [hstop] at hstep
    exact (Option.some.inj hstep).symm
  have hphase' : m.post.phase = m.pre.phase := by rw [hpost]
  have hrunning : m.post.front.running = false := by rw [hpost]
  have hback : m.post.back = m.pre.back := by rw [hpost]
  have hlogged' : m.post.logged = m.pre.logged := by rw [hpost]; rfl
  rw [← hlogged]
  -- behind its last swap the back end writes all but what is pending
  have hleft : m.post.Leaving →
      (m.pre.logged <+: s.back.written ↔ m.pre.front.pending = []) := by
    intro hleaving
    have hwritten := written_of_leaving h hms hi' hleaving hdone
    rw [hback, ← List.append_nil (_ ++ _)] at hwritten
    rw [hwritten, LogState.logged, List.prefix_append_right_inj, List.prefix_nil]
  cases hphase : m.pre.phase with
  | unstarted =>
      -- started after its only `Stop`, the back end never leaves
      have hs : s.Working := by
        refine h.since hms (I := LogState.Working) (fun hne => absurd ?_ hne) ?_
        · rw [hphase', hphase]
        · intro x hx hpre hnext
          exact (LogState.step_cases hnext).working hpre (hone x (List.mem_append_right _ hx))
      exact absurd hdone (hs (by rw [hdone]; decide)).2
  | done => exact absurd hphase (hworking (by rw [hphase]; decide)).2
  | locking =>
      refine iff_of_true ?_ (Or.inl rfl)
      rw [← hlogged']
      exact logged_prefix_of_swapping h hms hi' ⟨hrunning, Or.inl (hphase'.trans hphase)⟩ hdone
  | waiting =>
      refine iff_of_true ?_ (Or.inr (Or.inl rfl))
      rw [← hlogged']
      exact logged_prefix_of_swapping h hms hi' ⟨hrunning, Or.inr (hphase'.trans hphase)⟩ hdone
  | top =>
      rw [hleft ⟨hrunning, Or.inr (Or.inl (hphase'.trans hphase))⟩]
      simp
  | writing =>
      rw [hleft ⟨hrunning, Or.inl (hphase'.trans hphase)⟩]
      simp

/-- `Stop` comes while the back end waits: the line before it is written. -/
theorem stop_flushes_iff_waiting : ∃ ms before m after s, Run asyncLogging ms s ∧
    ms = before ++ m :: after ∧ m.pre.phase = .waiting ∧ s.phase = .done ∧
    (keptData before <+: s.back.written ↔
      m.pre.phase = .locking ∨ m.pre.phase = .waiting ∨ m.pre.front.pending = []) := by
  have h := (Run.start (T := asyncLogging) rfl).moves [.start, .testRunning, .lock, .append [72],
    .stop, .wake, .fwrite 1, .endWrite, .recycle, .testRunning] rfl
  exact ⟨_, [_, _, _, _], _, [_, _, _, _, _], _, h, rfl, rfl, rfl,
    stop_flushes_iff h rfl rfl (by simp) rfl⟩

/-- A line that comes while the back end writes is not written when `Stop` comes next. -/
theorem stop_loses_line : ∃ ms before m after s, Run asyncLogging ms s ∧
    ms = before ++ m :: after ∧ m.label = .stop ∧
    (∀ x ∈ before ++ after, x.label ≠ .stop) ∧ s.phase = .done ∧
    keptData before = [72] ∧ s.back.written = [] := by
  have h := (Run.start (T := asyncLogging) rfl).moves [.start, .testRunning, .lock, .wake,
    .append [72], .stop, .endWrite, .recycle, .testRunning] rfl
  exact ⟨_, [_, _, _, _, _], _, [_, _, _], _, h, rfl, rfl, by simp, rfl, rfl, rfl⟩

end TinyMuduo
