import Mathlib.Algebra.Order.Floor.Ring
import Mathlib.Data.Rat.Floor
import Mathlib.Tactic.Linarith
import Mathlib.Tactic.NormNum
import TinyMuduo.Timer.TimerClock

/-!
# `RunAfter` and `RunEvery` wait for whole seconds

`AddTime` converts its argument to an integer before it multiplies, so the
fraction of a second is lost. The queue itself runs no callback before its
expiration, and a duration is honoured exactly when there is no fraction to lose,
to within the microsecond of the clock (`delays_honoured`).
-/

namespace TinyMuduo

open Transition

/-! ## What a caller expects -/

/-- From `start` to `stop` it is `duration` seconds, or up to a microsecond less. -/
def Elapsed (duration : ℚ) (start stop : Timestamp) : Prop :=
  start.microSeconds + duration * 10 ^ 6 - 1 ≤ stop.microSeconds

/-- The move sets the timer `p` for a call made at the time `called`. -/
structure Sets (m : Move ClockedState ClockedLabel) (l : TimerLabel) (called : Timestamp)
    (p : TimerPtr) : Prop where
  label : m.label.1 = l
  called_le : called.microSeconds ≤ m.label.2.microSeconds
  creates : m.pre.1.Touches p m.label.1

def Restarted (r : Move ClockedState ClockedLabel) (p : TimerPtr) : Prop :=
  r.pre.1.event r.label.1 = some (.reinserted p)

/-- The timers of a run that were set for a duration keep it. -/
structure KeepsDelay (duration : ℚ) (ms : List (Move ClockedState ClockedLabel)) : Prop where
  runAfter : ∀ m r called address now p, Later ms m r →
    Sets m (.runAfter duration called address now) called p → Ran r p →
    Elapsed duration called r.label.2
  firstRun : ∀ m r called address now p, Later ms m r →
    Sets m (.runEvery duration called address now) called p → Ran r p →
    Elapsed duration called r.label.2
  restartToRun : ∀ m x r called address now p, Later ms m x → Later ms x r →
    Sets m (.runEvery duration called address now) called p → Restarted x p → Ran r p →
    Elapsed duration x.label.2 r.label.2
  runToRun : ∀ m x r called address now p, Later ms m x → Later ms x r →
    Sets m (.runEvery duration called address now) called p → Ran x p → Ran r p →
    Elapsed duration x.label.2 r.label.2

/-- What a duration is expected to do. -/
structure DurationHonoured (duration : ℚ) : Prop where
  addTime : ∀ t : Timestamp,
    |((t.addTime duration).microSeconds : ℚ) - (t.microSeconds + duration * 10 ^ 6)| ≤ 1
  restart : 1 / 10 ^ 6 ≤ duration → ∀ (timer : Timer) (now : Timestamp),
    timer.interval = duration → now.microSeconds < (timer.restart now).expiration.microSeconds
  runs : ∀ ms s, Run clockedTimerQueue ms s → KeepsDelay duration ms

/-! ## The conversion -/

theorem toInt64_eq_floor {x : ℚ} (h : 0 ≤ x) : toInt64 x = ⌊x⌋ := by
  rw [toInt64, Int.tdiv_eq_ediv_of_nonneg (Rat.num_nonneg.mpr h), Rat.floor_def']

/-- **`AddTime` loses the fraction of a second.** -/
theorem addTime_eq {duration : ℚ} (h : 0 ≤ duration) (t : Timestamp) :
    ((t.addTime duration).microSeconds : ℚ) =
      t.microSeconds + duration * 10 ^ 6 - Int.fract duration * 10 ^ 6 := by
  have hsplit := Int.floor_add_fract duration
  rw [Timestamp.addTime, toInt64_eq_floor h, kMicrosecond2Second]
  push_cast
  linarith

theorem addTime_near {duration : ℚ} (h : 0 ≤ duration) (t : Timestamp) :
    |((t.addTime duration).microSeconds : ℚ) - (t.microSeconds + duration * 10 ^ 6)| ≤ 1 ↔
      Int.fract duration * 10 ^ 6 ≤ 1 := by
  have hnonneg := Int.fract_nonneg duration
  rw [addTime_eq h, sub_sub_cancel_left, abs_neg, abs_of_nonneg (by positivity)]

/-- The time that is set is not too early when there is no fraction to lose. -/
theorem elapsed_addTime {duration : ℚ} (h : 0 ≤ duration) (hfract : Int.fract duration * 10 ^ 6 ≤ 1)
    {start stop : Timestamp}
    (hstop : (start.addTime duration).microSeconds ≤ stop.microSeconds) :
    Elapsed duration start stop := by
  have hset := addTime_eq h start
  have hle : ((start.addTime duration).microSeconds : ℚ) ≤ stop.microSeconds := by
    exact_mod_cast hstop
  unfold Elapsed
  linarith

/-! ## When a timer is due -/

namespace ClockedState

theorem notBefore_created {s t : TimerState} {c timestamp : Timestamp} {interval : ℚ}
    {p : TimerPtr} (hs : s.Inv) (hsuffix : s.upcoming <:+ s.inFlight) (hfresh : s.Fresh p)
    (hheap : t.heap = s.heap.insert p (Timer.new timestamp interval))
    (hid : t.nextId = s.nextId + 1) (hupcoming : t.upcoming = s.upcoming)
    (hrepeat : 0 < interval → timestamp.microSeconds ≤ (c.addTime interval).microSeconds) :
    NotBefore p timestamp (t, c) ∧
      ∀ timer, t.heap.lookup p = some timer → timer = Timer.new timestamp interval := by
  have hlookup : ∀ timer, t.heap.lookup p = some timer → timer = Timer.new timestamp interval := by
    intro timer htimer
    rw [hheap, AList.lookup_insert] at htimer
    exact (Option.some.inj htimer).symm
  refine ⟨⟨?_, ?_, ?_, ?_⟩, hlookup⟩
  · show p.id < t.nextId
    rw [hid, hfresh.id]
    exact Nat.lt_succ_self _
  · intro hmem
    rw [hupcoming] at hmem
    exact absurd (hs.upcoming_mem hsuffix hmem) hfresh.notMem
  · intro _ timer htimer
    rw [hlookup timer htimer]
    exact le_refl _
  · intro timer htimer hrepeats
    rw [hlookup timer htimer] at hrepeats ⊢
    exact hrepeat (of_decide_eq_true hrepeats)

theorem notBefore_add {s t : TimerState} {c timestamp : Timestamp} {interval : ℚ} {address : ℕ}
    {now : Option Timestamp} {p : TimerPtr} (hs : s.Inv) (hsuffix : s.upcoming <:+ s.inFlight)
    (hstep : s.Steps (.add timestamp interval address now) t)
    (hp : s.Touches p (.add timestamp interval address now))
    (hrepeat : 0 < interval → timestamp.microSeconds ≤ (c.addTime interval).microSeconds) :
    NotBefore p timestamp (t, c) ∧
      ∀ timer, t.heap.lookup p = some timer → timer = Timer.new timestamp interval := by
  cases now with
  | none =>
      cases hstep with
      | queueTimer hfresh =>
          obtain rfl := TimerState.eq_of_touches hfresh.id hp
          exact notBefore_created hs hsuffix hfresh rfl rfl rfl hrepeat
  | some now =>
      cases hstep with
      | addTimer _ hfresh =>
          obtain rfl := TimerState.eq_of_touches hfresh.id hp
          exact notBefore_created hs hsuffix hfresh rfl rfl rfl hrepeat

theorem notBefore_restarted {s t : TimerState} {c : Timestamp} {l : TimerLabel} {p : TimerPtr}
    (hstep : s.Steps l t) (hreading : ∀ now ∈ l.reading, now = c)
    (hp : s.event l = some (.reinserted p)) {interval : ℚ} (hid : p.id < s.nextId)
    (hinterval : ∀ timer, s.heap.lookup p = some timer → timer.interval = interval) :
    NotBefore p (c.addTime interval) (t, c) := by
  rcases hstep.event_cases hp with
    ⟨e, rest, hev, -⟩ | ⟨e, rest, timer, now, hev, hphase, htimer, -, rfl, rfl⟩ |
    ⟨e, rest, timer, hev, -⟩
  · cases hev
  · cases hev
    obtain rfl : now = c := hreading now rfl
    have hlookup : ∀ timer', (s.heap.insert e.2 (timer.restart now)).lookup e.2 = some timer' →
        timer' = timer.restart now := by
      intro timer' htimer'
      rw [AList.lookup_insert] at htimer'
      exact (Option.some.inj htimer').symm
    refine ⟨hid, by rintro ⟨⟩, ?_, ?_⟩
    · intro _ timer' htimer'
      rw [hlookup timer' htimer', ← hinterval timer htimer]
      exact le_refl _
    · intro timer' htimer' _
      rw [hlookup timer' htimer', ← hinterval timer htimer]
      exact le_refl _
  · cases hev

theorem notBefore_ran {s t : TimerState} {c : Timestamp} {l : TimerLabel} {p : TimerPtr}
    (hs : s.Inv) (hsuffix : s.upcoming <:+ s.inFlight) (hstep : s.Steps l t)
    (hp : s.event l = some (.ran p)) {interval : ℚ} (hid : p.id < s.nextId)
    (hinterval : ∀ timer, s.heap.lookup p = some timer → timer.interval = interval) :
    NotBefore p (c.addTime interval) (t, c) := by
  rcases hstep.event_cases hp with
    ⟨e, rest, hev, hphase, rfl⟩ | ⟨e, rest, timer, now, hev, -⟩ | ⟨e, rest, timer, hev, -⟩
  · cases hev
    have hflight : (e :: rest) <:+ s.inFlight := by
      rw [TimerState.upcoming, hphase] at hsuffix
      exact hsuffix
    have hnodup := hs.inFlight_nodup.sublist (hflight.sublist.map Prod.snd)
    have hmem : e.2 ∈ s.inFlight.map Prod.snd :=
      List.mem_map_of_mem (hflight.subset List.mem_cons_self)
    refine ⟨hid, ?_, ?_, ?_⟩
    · intro hup
      exact absurd hup (List.nodup_cons.mp hnodup).1
    · rintro (htodo | hpointers)
      · exact absurd hmem (hs.toDoList_notMem_inFlight htodo)
      · exact absurd hpointers (hs.inFlight_notMem hmem)
    · intro timer htimer _
      rw [hinterval timer htimer]
  · cases hev
  · cases hev

end ClockedState

/-! ## Runs -/

theorem run_interval {ms : List (Move ClockedState ClockedLabel)} {s : ClockedState}
    (h : Run clockedTimerQueue ms s) {m r : Move ClockedState ClockedLabel} (hlater : Later ms m r)
    {p : TimerPtr} {interval : ℚ} (hid : p.id < m.post.1.nextId)
    (hm : ∀ timer, m.post.1.heap.lookup p = some timer → timer.interval = interval) :
    p.id < r.pre.1.nextId ∧
      ∀ timer, r.pre.1.heap.lookup p = some timer → timer.interval = interval := by
  refine h.later (I := fun s => p.id < s.1.nextId ∧
    ∀ timer, s.1.heap.lookup p = some timer → timer.interval = interval) hlater ⟨hid, hm⟩ ?_
  intro s l t ⟨hs, hinterval⟩ hstep
  have hsteps := (ClockedState.step_cases hstep).timers
  refine ⟨lt_of_lt_of_le hs hsteps.nextId_le, ?_⟩
  intro timer' htimer'
  obtain ⟨timer, htimer, heq, -⟩ := hsteps.lookup_old hs htimer'
  exact heq.trans (hinterval timer htimer)

theorem keepsDelay {duration : ℚ} (hd : 0 ≤ duration) (hfract : Int.fract duration * 10 ^ 6 ≤ 1)
    {ms : List (Move ClockedState ClockedLabel)} {s : ClockedState}
    (h : Run clockedTimerQueue ms s) : KeepsDelay duration ms := by
  have hmove : ∀ m ∈ ms, m.pre.Steps m.label m.post ∧ m.pre.1.Inv ∧
      m.pre.1.upcoming <:+ m.pre.1.inFlight := by
    intro m hm
    obtain ⟨⟨ms', hrun⟩, hstep⟩ := h.move m hm
    exact ⟨ClockedState.step_cases hstep, run_clocked_inv hrun⟩
  have hadd : ∀ m ∈ ms, ∀ timestamp interval address now called p,
      Sets m (.add timestamp interval address now) called p →
      (0 < interval → timestamp.microSeconds ≤ (m.post.2.addTime interval).microSeconds) →
      ClockedState.NotBefore p timestamp m.post ∧
        ∀ timer, m.post.1.heap.lookup p = some timer → timer = Timer.new timestamp interval := by
    intro m hm timestamp interval address now called p hsets hrepeat
    obtain ⟨hstep, hinv, hsuffix⟩ := hmove m hm
    have hsteps := hstep.timers
    have htouches := hsets.creates
    rw [hsets.label] at hsteps htouches
    exact ClockedState.notBefore_add hinv hsuffix hsteps htouches hrepeat
  have hset : ∀ m ∈ ms, ∀ called address now p,
      Sets m (.runEvery duration called address now) called p →
      ClockedState.NotBefore p (called.addTime duration) m.post ∧
        ∀ timer, m.post.1.heap.lookup p = some timer → timer.interval = duration := by
    intro m hm called address now p hsets
    have hlate := ClockedState.addTime_mono ((hmove m hm).1.time ▸ hsets.called_le) duration
    obtain ⟨hdue, hnew⟩ := hadd m hm _ _ address now called p hsets fun _ => hlate
    exact ⟨hdue, fun timer htimer => congrArg Timer.interval (hnew timer htimer)⟩
  refine ⟨?_, ?_, ?_, ?_⟩
  · intro m r called address now p hlater hsets hran
    obtain ⟨hdue, -⟩ := hadd m hlater.mem.1 _ _ address now called p hsets
      fun hpos => absurd hpos (lt_irrefl 0)
    exact elapsed_addTime hd hfract (run_notBefore h hlater hdue hran)
  · intro m r called address now p hlater hsets hran
    obtain ⟨hdue, -⟩ := hset m hlater.mem.1 called address now p hsets
    exact elapsed_addTime hd hfract (run_notBefore h hlater hdue hran)
  · intro m x r called address now p hfirst hlater hsets hrestarted hran
    obtain ⟨hdue, hinterval⟩ := hset m hfirst.mem.1 called address now p hsets
    obtain ⟨hid, hpaced⟩ := run_interval h hfirst hdue.id hinterval
    obtain ⟨hstep, hinv, -⟩ := hmove x hlater.mem.1
    have hnext := ClockedState.notBefore_restarted hstep.timers hstep.reading hrestarted hid hpaced
    rw [← hstep.time]
    exact elapsed_addTime hd hfract (run_notBefore h hlater hnext hran)
  · intro m x r called address now p hfirst hlater hsets hran' hran
    obtain ⟨hdue, hinterval⟩ := hset m hfirst.mem.1 called address now p hsets
    obtain ⟨hid, hpaced⟩ := run_interval h hfirst hdue.id hinterval
    obtain ⟨hstep, hinv, hsuffix⟩ := hmove x hlater.mem.1
    have hnext := ClockedState.notBefore_ran (c := x.post.2) hinv hsuffix hstep.timers hran' hid
      hpaced
    rw [← hstep.time]
    exact elapsed_addTime hd hfract (run_notBefore h hlater hnext hran)

/-- A timer of at least a microsecond is restarted into the future when its interval
is not less than a second. -/
theorem restart_later {duration : ℚ} (hd : 0 ≤ duration) (timer : Timer) (now : Timestamp)
    (h : timer.interval = duration) :
    now.microSeconds < (timer.restart now).expiration.microSeconds ↔ 1 ≤ duration := by
  have hset : (timer.restart now).expiration.microSeconds =
      now.microSeconds + ⌊duration⌋ * 1000000 := by
    rw [Timer.restart, h, Timestamp.addTime, toInt64_eq_floor hd]
    rfl
  rw [hset, ← Int.cast_one, ← Int.le_floor]
  omega

/-- **A duration is honoured** exactly when its fraction of a second is at most a
microsecond, and it is not itself a microsecond. -/
theorem delays_honoured {duration : ℚ} (hd : 0 ≤ duration) :
    DurationHonoured duration ↔
      Int.fract duration * 10 ^ 6 ≤ 1 ∧ duration ≠ 1 / 10 ^ 6 := by
  constructor
  · intro h
    refine ⟨(addTime_near hd ⟨0⟩).mp (h.addTime ⟨0⟩), ?_⟩
    rintro rfl
    have hlater := h.restart (le_refl _) (Timer.new ⟨0⟩ (1 / 10 ^ 6)) ⟨0⟩ rfl
    rw [restart_later hd _ _ rfl] at hlater
    norm_num at hlater
  · rintro ⟨hfract, hne⟩
    refine ⟨fun t => (addTime_near hd t).mpr hfract, ?_, fun ms s hrun => keepsDelay hd hfract hrun⟩
    intro hle timer now hinterval
    rw [restart_later hd timer now hinterval]
    by_contra hlt
    have hfloor : Int.fract duration = duration := Int.fract_eq_self.mpr ⟨hd, not_le.mp hlt⟩
    rw [hfloor] at hfract
    apply hne
    linarith

theorem delays_honoured_two : DurationHonoured 2 :=
  (delays_honoured (by norm_num)).mpr ⟨by norm_num, by norm_num⟩

/-- A timer that is to run every half second, with the address 16. -/
def busyLabels : List ClockedLabel :=
  [.runEvery (1 / 2) ⟨0⟩ 16 (some ⟨0⟩), .handleRead ⟨0⟩, .run, .returned, .resetTimers,
    .settle ⟨0⟩, .rearm ⟨0⟩, .handleRead ⟨0⟩, .run].map (·, ⟨0⟩)

/-- **It runs without a pause**: it is restarted and run again at the moment it was set. -/
theorem half_second_lost : ¬ DurationHonoured (1 / 2) ∧
    ∃ ms s p, Run clockedTimerQueue ms s ∧ labels ms = busyLabels ∧
      visible (fun m => m.pre.1.event m.label.1) ms = [.ran p, .reinserted p, .ran p] := by
  constructor
  · intro h
    have hnear := h.addTime ⟨0⟩
    rw [addTime_near (by norm_num)] at hnear
    norm_num [Int.fract] at hnear
  · have hmoves : (moves ClockedState.step (TimerState.new, ⟨0⟩) busyLabels).map
        (fun q => (labels q.1, visible (fun m => m.pre.1.event m.label.1) q.1)) =
        some (busyLabels, [.ran ⟨0, 16, by decide⟩, .reinserted ⟨0, 16, by decide⟩,
          .ran ⟨0, 16, by decide⟩]) := by
      decide +kernel
    obtain ⟨q, hq, hsame⟩ := Option.map_eq_some_iff.mp hmoves
    obtain ⟨hlabels, hevents⟩ := Prod.mk.inj hsame
    have hstart : clockedTimerQueue.init (TimerState.new, ⟨0⟩) := rfl
    exact ⟨q.1, q.2, _, (Run.start hstart).moves busyLabels hq, hlabels, hevents⟩

end TinyMuduo
