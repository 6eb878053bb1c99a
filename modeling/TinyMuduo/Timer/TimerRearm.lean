import TinyMuduo.Timer.TimerOwnership

/-!
# A waiting timer keeps the timerfd set

`AddTimerInLoop` sets the timerfd when the new timer comes before all others, and
`ResetTimers` sets it for the first timer at the end of every pass. In between
its answer about a restarted timer is not used, and need not be: outside
`HandleRead` the timerfd is always set for a moment that is not too late for the
first timer (`timerfd_armed`).
-/

namespace TinyMuduo

open Transition Ordered

/-! ## The value that is set -/

/-- A value that `timerfd_settime` accepts and that does not disarm. -/
structure Timespec.Valid (v : Timespec) : Prop where
  tvSec : 0 ≤ v.tvSec
  tvNsec : 0 ≤ v.tvNsec
  normalised : v.tvNsec < 10 ^ 9
  positive : v.tvSec ≠ 0 ∨ v.tvNsec ≠ 0

namespace TimerQueue

/-- The difference is never below 100, so it splits into seconds and nanoseconds. -/
theorem itValue_eq (timer : Timer) (now : Timestamp) : ∃ dif : ℤ,
    dif = max (timer.expiration.microSeconds - now.microSeconds) 100 ∧
      itValue timer now = ⟨dif / 1000000, dif % 1000000 * 1000⟩ := by
  have hdif : (if timer.expiration.microSeconds - now.microSeconds < 100 then 100
      else timer.expiration.microSeconds - now.microSeconds) =
      max (timer.expiration.microSeconds - now.microSeconds) 100 := by
    split <;> omega
  refine ⟨_, rfl, ?_⟩
  simp only [itValue, hdif, kMicrosecond2Second]
  have hnonneg : 0 ≤ max (timer.expiration.microSeconds - now.microSeconds) 100 := by omega
  rw [Int.tdiv_eq_ediv_of_nonneg hnonneg, Int.tmod_eq_emod_of_nonneg hnonneg]
  rfl

theorem itValue_valid (timer : Timer) (now : Timestamp) : (itValue timer now).Valid := by
  obtain ⟨dif, hdif, hvalue⟩ := itValue_eq timer now
  rw [hvalue]
  constructor <;> simp only <;> omega

/-- **The timerfd goes off at the expiration, but not within 100 microseconds.** -/
theorem deadline_itValue (timer : Timer) (now : Timestamp) (expired : Bool) :
    (TimerFd.deadline ⟨now, itValue timer now, expired⟩).microSeconds =
      max timer.expiration.microSeconds (now.microSeconds + 100) := by
  obtain ⟨dif, hdif, hvalue⟩ := itValue_eq timer now
  rw [TimerFd.deadline, hvalue, kMicrosecond2Second]
  simp only
  omega

/-! ## The first timer -/

theorem first_time_le {q : TimerQueue} {e : TimerPair} (h : q.timers.first = some e) :
    ∀ x ∈ q.timers.entries, e.1.microSeconds ≤ x.1.microSeconds := by
  intro x hx
  rcases Prod.Lex.toLex_le_toLex.mp (OrderedSet.first_le h x hx) with hlt | ⟨heq, -⟩
  · exact le_of_lt hlt
  · exact le_of_eq heq

/-- The timerfd is set, and its expiry not read, for a moment that is not too late
for any timer in `timers_`. -/
def Armed (q : TimerQueue) : Prop :=
  ∀ e, q.timers.first = some e → ∃ fd, q.timerfd = some fd ∧
    fd.deadline.microSeconds ≤ max e.1.microSeconds (fd.lastSet.microSeconds + 100)

/-- **Adding a timer keeps the timerfd set.** -/
theorem addTimerInLoop_armed {q : TimerQueue} (hq : q.Armed) (ptr : TimerPtr) (timer : Timer)
    (now : Timestamp) : (q.addTimerInLoop ptr timer now).Armed := by
  intro e he
  rw [addTimerInLoop_timers] at he
  have hmem : e = (timer.expiration, ptr) ∨ e ∈ q.timers.entries :=
    OrderedSet.mem_emplace (OrderedSet.first_mem he)
  cases hfirst : q.timers.first with
  | none =>
      have hinstant : q.resetInstantly timer = true := by rw [resetInstantly, hfirst]
      rw [addTimerInLoop, if_pos hinstant]
      refine ⟨_, rfl, ?_⟩
      rw [OrderedSet.first_eq_none.mp hfirst] at hmem
      obtain rfl := hmem.resolve_right List.not_mem_nil
      exact le_of_eq (deadline_itValue timer now false)
  | some e₀ =>
      have hleast := first_time_le hfirst
      by_cases hlt : timer.expiration.microSeconds < e₀.1.microSeconds
      · -- the new timer is the first one
        have hinstant : q.resetInstantly timer = true := by
          rw [resetInstantly, hfirst]
          exact decide_eq_true hlt
        rw [addTimerInLoop, if_pos hinstant]
        refine ⟨_, rfl, ?_⟩
        rw [deadline_itValue]
        refine max_le_max ?_ (le_refl _)
        rcases hmem with rfl | hmem
        · exact le_refl _
        · exact le_of_lt (lt_of_lt_of_le hlt (hleast e hmem))
      · -- the first expiration is as early as before
        have hinstant : ¬ q.resetInstantly timer = true := by
          rw [resetInstantly, hfirst]
          simpa using hlt
        rw [addTimerInLoop, if_neg hinstant]
        obtain ⟨fd, hfd, hle⟩ := hq e₀ hfirst
        refine ⟨fd, hfd, le_trans hle (max_le_max ?_ (le_refl _))⟩
        rcases hmem with rfl | hmem
        · exact not_lt.mp hlt
        · exact hleast e hmem

end TimerQueue

/-! ## Runs -/

namespace TimerState

theorem Steps.armed {s t : TimerState} {l : TimerLabel} (h : Steps s l t) (hs : s.Inv)
    (harmed : s.phase = .idle → s.queue.Armed) : t.phase = .idle → t.queue.Armed := by
  intro hidle
  cases h with
  | queueTimer _ => exact harmed hidle
  | addTimer _ _ => exact TimerQueue.addTimerInLoop_armed (harmed hidle) _ _ _
  | runFunctor hphase _ _ => exact TimerQueue.addTimerInLoop_armed (harmed hphase) _ _ _
  | expire hfd _ =>
      intro e he
      obtain ⟨fd, hfd', hle⟩ := harmed hidle e he
      rw [hfd] at hfd'
      cases hfd'
      exact ⟨_, rfl, hle⟩
  | handleRead _ => cases hidle
  | run _ _ => cases hidle
  | returned _ => cases hidle
  | resetTimers _ => cases hidle
  | restart _ _ _ => cases hidle
  | delete _ _ _ => cases hidle
  | rest _ hfirst =>
      intro e he
      rw [hfirst] at he
      cases he
  | @rearm e timer now _ hfirst htimer =>
      intro x hx
      obtain rfl : e = x := Option.some.inj (hfirst.symm.trans hx)
      obtain ⟨timer', htimer', hexp⟩ := hs.keyed e (OrderedSet.first_mem hfirst)
      obtain rfl := Option.some.inj (htimer.symm.trans htimer')
      refine ⟨_, rfl, ?_⟩
      rw [TimerQueue.deadline_itValue, hexp]

theorem Steps.valid {s t : TimerState} {l : TimerLabel} (h : Steps s l t)
    (hs : ∀ fd, s.queue.timerfd = some fd → fd.value.Valid) :
    ∀ fd, t.queue.timerfd = some fd → fd.value.Valid := by
  have hadd : ∀ (ptr : TimerPtr) (timer : Timer) (now : Timestamp) (fd : TimerFd),
      (s.queue.addTimerInLoop ptr timer now).timerfd = some fd → fd.value.Valid := by
    intro ptr timer now fd hfd
    unfold TimerQueue.addTimerInLoop at hfd
    split at hfd
    · obtain rfl := Option.some.inj hfd
      exact TimerQueue.itValue_valid timer now
    · exact hs fd hfd
  cases h with
  | addTimer _ _ => exact hadd _ _ _
  | runFunctor _ _ _ => exact hadd _ _ _
  | @expire fd now hfd _ =>
      intro fd' hfd'
      obtain rfl := Option.some.inj hfd'
      exact hs fd hfd
  | @handleRead now _ =>
      intro fd hfd
      change s.queue.readTimerFd.timerfd = some fd at hfd
      unfold TimerQueue.readTimerFd at hfd
      split at hfd
      · split at hfd
        · cases hfd
        · exact hs fd hfd
      · exact hs fd hfd
  | @rearm e timer now _ _ _ =>
      intro fd hfd
      obtain rfl := Option.some.inj hfd
      exact TimerQueue.itValue_valid timer now
  | queueTimer _ => exact hs
  | run _ _ => exact hs
  | returned _ => exact hs
  | resetTimers _ => exact hs
  | restart _ _ _ => exact hs
  | delete _ _ _ => exact hs
  | rest _ _ => exact hs

end TimerState

theorem run_armed {ms : List (Move TimerState TimerLabel)} {s : TimerState}
    (h : Run timerQueue ms s) : s.Inv ∧ (s.phase = .idle → s.queue.Armed) ∧
      ∀ fd, s.queue.timerfd = some fd → fd.value.Valid := by
  refine Run.invariant (I := fun s => s.Inv ∧ (s.phase = .idle → s.queue.Armed) ∧
    ∀ fd, s.queue.timerfd = some fd → fd.value.Valid) ?_ ?_ h
  · rintro s rfl
    refine ⟨TimerState.new_inv, ?_, ?_⟩
    · rintro - e ⟨⟩
    · rintro fd ⟨⟩
  · intro s l t ⟨hs, harmed, hvalid⟩ hstep
    have hsteps := TimerState.step_cases hstep
    exact ⟨hsteps.inv hs, hsteps.armed hs harmed, hsteps.valid hvalid⟩

/-- **While a timer waits outside a pass, the timerfd is set for it, or for an
expiry that has not been read**; and whatever the timerfd is set to is a positive
normalised time. -/
theorem timerfd_armed {ms : List (Move TimerState TimerLabel)} {s : TimerState}
    (h : Run timerQueue ms s) :
    (s.phase = .idle → s.queue.timers.entries ≠ [] →
      ∃ earliest ∈ s.queue.timers.entries, ∃ fd, s.queue.timerfd = some fd ∧
        (∀ e ∈ s.queue.timers.entries, earliest.1.microSeconds ≤ e.1.microSeconds) ∧
        fd.deadline.microSeconds ≤
          max earliest.1.microSeconds (fd.lastSet.microSeconds + 100)) ∧
      ∀ m ∈ ms, ∀ fd, m.post.queue.timerfd = some fd → fd.value.Valid := by
  constructor
  · intro hidle hne
    obtain ⟨-, harmed, -⟩ := run_armed h
    obtain ⟨e, he⟩ := Option.ne_none_iff_exists'.mp fun hnone =>
      hne (OrderedSet.first_eq_none.mp hnone)
    obtain ⟨fd, hfd, hle⟩ := harmed hidle e he
    exact ⟨e, OrderedSet.first_mem he, fd, hfd, TimerQueue.first_time_le he, hle⟩
  · intro m hm fd hfd
    obtain ⟨⟨ms', hrun⟩, hstep⟩ := h.move m hm
    obtain ⟨-, -, hvalid⟩ := run_armed (hrun.next hstep)
    exact hvalid fd hfd

/-- A timer is added while the expiry of another one has not been read. -/
theorem timerfd_armed_unread : ∃ ms s, Run timerQueue ms s ∧
    labels ms = [.addTimer ⟨300⟩ 1 32 ⟨0⟩, .expire ⟨300⟩, .addTimer ⟨200⟩ 0 16 ⟨310⟩] ∧
    s.phase = .idle ∧ s.queue.timers.entries.length = 2 ∧
    (∃ earliest ∈ s.queue.timers.entries, ∃ fd, s.queue.timerfd = some fd ∧
      (∀ e ∈ s.queue.timers.entries, earliest.1.microSeconds ≤ e.1.microSeconds) ∧
      fd.deadline.microSeconds ≤
        max earliest.1.microSeconds (fd.lastSet.microSeconds + 100)) ∧
    ∀ m ∈ ms, ∀ fd, m.post.queue.timerfd = some fd → fd.value.Valid := by
  have h := (Run.start (T := timerQueue) rfl).moves
    [.addTimer ⟨300⟩ 1 32 ⟨0⟩, .expire ⟨300⟩, .addTimer ⟨200⟩ 0 16 ⟨310⟩] rfl
  obtain ⟨harmed, hvalid⟩ := timerfd_armed h
  exact ⟨_, _, h, rfl, rfl, rfl, harmed rfl (List.cons_ne_nil _ _), hvalid⟩

end TinyMuduo
