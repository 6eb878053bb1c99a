import TinyMuduo.Timer.TimerPasses

/-!
# The timer queue and a clock

Each step of the timer queue happens at a time, no earlier than the step before
it, and what it reads from the clock is that time. A callback is not run before
the expiration its timer was given, in the queue or by a restart
(`run_notBefore`): `NotBefore` is what a step keeps.
-/

namespace TinyMuduo

open Transition Ordered

/-! ## The calls -/

/-- `AddTimer`, in the loop thread, where `ResetTimer` may read the clock once more, or in
another one. -/
def TimerLabel.add (timestamp : Timestamp) (interval : ℚ) (address : ℕ) :
    Option Timestamp → TimerLabel
  | some now => .addTimer timestamp interval address now
  | none => .queueTimer timestamp interval address

def TimerLabel.runAfter (waitTime : ℚ) (called : Timestamp) (address : ℕ)
    (now : Option Timestamp) : TimerLabel :=
  .add (called.addTime waitTime) 0 address now

def TimerLabel.runEvery (interval : ℚ) (called : Timestamp) (address : ℕ)
    (now : Option Timestamp) : TimerLabel :=
  .add (called.addTime interval) interval address now

namespace TimerState

theorem eq_of_touches {p ptr : TimerPtr} {n : ℕ} (hid : ptr.id = n)
    (hp : p.id = n ∧ p.address = ptr.address) : p = ptr := by
  obtain ⟨id, address, hlt⟩ := p
  obtain ⟨id', address', hlt'⟩ := ptr
  obtain ⟨rfl, rfl⟩ := hp
  obtain rfl : id' = id := hid
  rfl

theorem Steps.upcoming_suffix {s t : TimerState} {l : TimerLabel} (h : Steps s l t)
    (hs : s.upcoming <:+ s.inFlight) : t.upcoming <:+ t.inFlight := by
  unfold upcoming inFlight at hs ⊢
  cases h with
  | queueTimer _ => exact hs
  | addTimer _ _ =>
      simp only [TimerQueue.addTimerInLoop_activeTimers]
      exact hs
  | runFunctor hphase _ _ =>
      simp only [hphase]
      exact List.suffix_refl _
  | expire _ _ => exact hs
  | handleRead _ => exact List.suffix_refl _
  | run hphase _ =>
      rw [hphase] at hs
      exact (List.suffix_cons _ _).trans hs
  | returned hphase =>
      rw [hphase] at hs
      exact hs
  | resetTimers _ => exact List.nil_suffix
  | restart _ _ _ => exact List.nil_suffix
  | delete _ _ _ => exact List.nil_suffix
  | rest _ _ => exact List.nil_suffix
  | rearm _ _ _ => exact List.nil_suffix

/-- A timer that is there after a step was there before, with the same interval. -/
theorem Steps.lookup_old {s t : TimerState} {l : TimerLabel} {p : TimerPtr} (h : Steps s l t)
    (hp : p.id < s.nextId) {timer' : Timer} (ht : t.heap.lookup p = some timer') :
    ∃ timer, s.heap.lookup p = some timer ∧ timer'.interval = timer.interval ∧
      timer'.repeats = timer.repeats := by
  cases h with
  | queueTimer hfresh =>
      exact ⟨timer', (AList.lookup_insert_ne (hfresh.ne hp)).symm.trans ht, rfl, rfl⟩
  | addTimer _ hfresh =>
      exact ⟨timer', (AList.lookup_insert_ne (hfresh.ne hp)).symm.trans ht, rfl, rfl⟩
  | @restart e rest timer now hphase htimer hrepeats =>
      by_cases heq : p = e.2
      · subst heq
        obtain rfl := Option.some.inj ((AList.lookup_insert _).symm.trans ht)
        exact ⟨timer, htimer, rfl, rfl⟩
      · exact ⟨timer', (AList.lookup_insert_ne heq).symm.trans ht, rfl, rfl⟩
  | @delete e rest timer now hphase htimer hrepeats =>
      by_cases heq : p = e.2
      · subst heq
        exact absurd ((AList.lookup_erase _ _).symm.trans ht) (by rintro ⟨⟩)
      · exact ⟨timer', (AList.lookup_erase_ne heq).symm.trans ht, rfl, rfl⟩
  | runFunctor _ _ _ => exact ⟨timer', ht, rfl, rfl⟩
  | expire _ _ => exact ⟨timer', ht, rfl, rfl⟩
  | handleRead _ => exact ⟨timer', ht, rfl, rfl⟩
  | run _ _ => exact ⟨timer', ht, rfl, rfl⟩
  | returned _ => exact ⟨timer', ht, rfl, rfl⟩
  | resetTimers _ => exact ⟨timer', ht, rfl, rfl⟩
  | rest _ _ => exact ⟨timer', ht, rfl, rfl⟩
  | rearm _ _ _ => exact ⟨timer', ht, rfl, rfl⟩

theorem Inv.upcoming_mem {s : TimerState} (hs : s.Inv) (hsuffix : s.upcoming <:+ s.inFlight)
    {p : TimerPtr} (hp : p ∈ s.upcoming.map Prod.snd) : p ∈ s.heap := by
  obtain ⟨e, he, rfl⟩ := List.mem_map.mp hp
  exact inFlight_mem_heap hs (hsuffix.subset he)

end TimerState

def TimerLabel.reading : TimerLabel → Option Timestamp
  | .addTimer _ _ _ now => some now
  | .runFunctor now => some now
  | .expire now => some now
  | .handleRead now => some now
  | .settle now => some now
  | .rearm now => some now
  | _ => none

/-- The queue, and the time of the last step. -/
abbrev ClockedState := TimerState × Timestamp

abbrev ClockedLabel := TimerLabel × Timestamp

namespace ClockedState

def step (s : ClockedState) (l : ClockedLabel) : Option ClockedState :=
  if s.2.microSeconds ≤ l.2.microSeconds ∧ l.1.reading.getD l.2 = l.2 then
    (s.1.step l.1).map fun t => (t, l.2)
  else none

structure Steps (s : ClockedState) (l : ClockedLabel) (t : ClockedState) : Prop where
  forward : s.2.microSeconds ≤ t.2.microSeconds
  time : t.2 = l.2
  reading : ∀ now ∈ l.1.reading, now = t.2
  timers : s.1.Steps l.1 t.1

theorem step_cases {s t : ClockedState} {l : ClockedLabel} (h : s.step l = some t) :
    s.Steps l t := by
  obtain ⟨⟨hforward, hreading⟩, h⟩ := Option.ite_none_right_eq_some.mp h
  obtain ⟨u, hu, rfl⟩ := Option.map_eq_some_iff.mp h
  refine ⟨hforward, rfl, ?_, TimerState.step_cases hu⟩
  intro now hnow
  rw [Option.mem_def.mp hnow] at hreading
  exact hreading

/-- The timer will not be run before the time `due`. -/
structure NotBefore (p : TimerPtr) (due : Timestamp) (s : ClockedState) : Prop where
  id : p.id < s.1.nextId
  /-- it is about to be run, and the time has come -/
  upcoming : p ∈ s.1.upcoming.map Prod.snd → due.microSeconds ≤ s.2.microSeconds
  /-- it waits, and expires later -/
  waiting : p ∈ s.1.toDoList ∨ p ∈ s.1.queue.pointers → ∀ timer, s.1.heap.lookup p = some timer →
    due.microSeconds ≤ timer.expiration.microSeconds
  /-- a restart now would be late enough -/
  restart : ∀ timer, s.1.heap.lookup p = some timer → timer.repeats = true →
    due.microSeconds ≤ (s.2.addTime timer.interval).microSeconds

theorem addTime_mono {c c' : Timestamp} (h : c.microSeconds ≤ c'.microSeconds) (interval : ℚ) :
    (c.addTime interval).microSeconds ≤ (c'.addTime interval).microSeconds :=
  Int.add_le_add_right h _

theorem NotBefore.mono {p : TimerPtr} {due due' : Timestamp} {s : ClockedState}
    (h : NotBefore p due s) (hle : due'.microSeconds ≤ due.microSeconds) : NotBefore p due' s where
  id := h.id
  upcoming hp := le_trans hle (h.upcoming hp)
  waiting hp timer htimer := le_trans hle (h.waiting hp timer htimer)
  restart timer htimer hrepeats := le_trans hle (h.restart timer htimer hrepeats)

/-- A timer stays as it is while others are added, taken out and waited for. -/
theorem NotBefore.of_same {p : TimerPtr} {due c c' : Timestamp} {s t : TimerState}
    (hp : NotBefore p due (s, c)) (hclock : c.microSeconds ≤ c'.microSeconds)
    (hid : s.nextId ≤ t.nextId) (hlookup : t.heap.lookup p = s.heap.lookup p)
    (hupcoming : p ∈ t.upcoming.map Prod.snd → p ∈ s.upcoming.map Prod.snd)
    (hwaiting : p ∈ t.toDoList ∨ p ∈ t.queue.pointers → p ∈ s.toDoList ∨ p ∈ s.queue.pointers) :
    NotBefore p due (t, c') where
  id := lt_of_lt_of_le hp.id hid
  upcoming h := le_trans (hp.upcoming (hupcoming h)) hclock
  waiting h timer htimer := hp.waiting (hwaiting h) timer (hlookup.symm.trans htimer)
  restart timer htimer hrepeats :=
    le_trans (hp.restart timer (hlookup.symm.trans htimer) hrepeats) (addTime_mono hclock _)

theorem mem_pointers_insert {q : TimerQueue} {p ptr : TimerPtr} {timer : Timer}
    (h : p ∈ (q.insert ptr timer).pointers) : p = ptr ∨ p ∈ q.pointers := by
  by_contra hnot
  rw [not_or] at hnot
  exact TimerState.notMem_insert timer hnot.1 hnot.2 h

/-- **No step makes a callback early.** -/
theorem Steps.notBefore {s t : ClockedState} {l : ClockedLabel} {p : TimerPtr} {due : Timestamp}
    (h : s.Steps l t) (hs : s.1.Inv) (hp : NotBefore p due s) : NotBefore p due t := by
  obtain ⟨s, c⟩ := s
  obtain ⟨t, c'⟩ := t
  obtain ⟨hclock, rfl, hreading, hsteps⟩ := h
  obtain ⟨l, now⟩ := l
  cases hsteps with
  | queueTimer hfresh =>
      have hne := hfresh.ne hp.id
      refine hp.of_same hclock (Nat.le_succ _) (AList.lookup_insert_ne hne) id ?_
      rintro (hmem | hmem)
      · rcases List.mem_append.mp hmem with hmem | hmem
        · exact .inl hmem
        · exact absurd (List.mem_singleton.mp hmem) hne
      · exact .inr hmem
  | addTimer _ hfresh =>
      have hne := hfresh.ne hp.id
      refine hp.of_same hclock (Nat.le_succ _) (AList.lookup_insert_ne hne) id ?_
      rintro (hmem | hmem)
      · exact .inl hmem
      · rw [TimerQueue.pointers_addTimerInLoop] at hmem
        exact .inr ((mem_pointers_insert hmem).resolve_left hne)
  | runFunctor _ hlist _ =>
      refine hp.of_same hclock (le_refl _) rfl id ?_
      rintro (hmem | hmem)
      · exact .inl (hlist ▸ List.mem_cons_of_mem _ hmem)
      · rw [TimerQueue.pointers_addTimerInLoop] at hmem
        rcases mem_pointers_insert hmem with rfl | hmem
        · exact .inl (hlist ▸ List.mem_cons_self)
        · exact .inr hmem
  | expire _ _ => exact hp.of_same hclock (le_refl _) rfl id id
  | @handleRead now' hphase =>
      obtain rfl : now' = now := hreading now' rfl
      have hpointers : s.queue.pointers = (s.queue.takeExpired now').activeTimers.map Prod.snd ++
          (s.queue.takeExpired now').pointers := by
        rw [TimerQueue.pointers, ← s.queue.takeExpired_append now', List.map_append]
        rfl
      refine ⟨hp.id, ?_, ?_, ?_⟩
      · -- what expires now has waited until now
        intro hmem
        obtain ⟨e, he, rfl⟩ := List.mem_map.mp hmem
        obtain ⟨hentry, hle⟩ := TimerQueue.mem_takeExpired.mp he
        obtain ⟨timer, htimer, hexp⟩ := hs.keyed e hentry
        have hwait := hp.waiting (.inr (List.mem_map_of_mem hentry)) timer htimer
        rw [hexp] at hwait
        exact le_trans hwait hle
      · rintro (hmem | hmem)
        · exact hp.waiting (.inl hmem)
        · exact hp.waiting (.inr (hpointers ▸ List.mem_append_right _ hmem))
      · intro timer htimer hrepeats
        exact le_trans (hp.restart timer htimer hrepeats) (addTime_mono hclock _)
  | run hphase _ =>
      refine hp.of_same hclock (le_refl _) rfl ?_ id
      intro hmem
      rw [TimerState.upcoming, hphase]
      exact List.mem_cons_of_mem _ hmem
  | returned hphase =>
      refine hp.of_same hclock (le_refl _) rfl ?_ id
      intro hmem
      rw [TimerState.upcoming, hphase]
      exact hmem
  | resetTimers hphase => exact hp.of_same hclock (le_refl _) rfl (by rintro ⟨⟩) id
  | @restart e rest timer now' hphase htimer hrepeats =>
      obtain rfl : now' = now := hreading now' rfl
      by_cases heq : p = e.2
      · subst heq
        have hdue := le_trans (hp.restart timer htimer hrepeats) (addTime_mono hclock _)
        refine ⟨hp.id, by rintro ⟨⟩, ?_, ?_⟩
        · intro _ timer' htimer'
          obtain rfl := Option.some.inj ((AList.lookup_insert _).symm.trans htimer')
          exact hdue
        · intro timer' htimer' _
          obtain rfl := Option.some.inj ((AList.lookup_insert _).symm.trans htimer')
          exact hdue
      · refine hp.of_same hclock (le_refl _) (AList.lookup_insert_ne heq) (by rintro ⟨⟩) ?_
        rintro (hmem | hmem)
        · exact .inl hmem
        · exact .inr ((mem_pointers_insert hmem).resolve_left heq)
  | @delete e rest timer now' hphase htimer hrepeats =>
      by_cases heq : p = e.2
      · subst heq
        have hgone : (s.heap.erase e.2).lookup e.2 = none := AList.lookup_erase _ _
        refine ⟨hp.id, by rintro ⟨⟩, ?_, ?_⟩
        · intro _ timer' htimer'
          exact absurd (hgone.symm.trans htimer') (by rintro ⟨⟩)
        · intro timer' htimer' _
          exact absurd (hgone.symm.trans htimer') (by rintro ⟨⟩)
      · exact hp.of_same hclock (le_refl _) (AList.lookup_erase_ne heq) (by rintro ⟨⟩) id
  | rest hphase _ => exact hp.of_same hclock (le_refl _) rfl (by rintro ⟨⟩) id
  | rearm hphase _ _ => exact hp.of_same hclock (le_refl _) rfl (by rintro ⟨⟩) id

end ClockedState

def clockedTimerQueue : LTS ClockedState ClockedLabel :=
  LTS.ofNext (fun s => s.1 = TimerState.new) ClockedState.step

theorem run_clocked_inv {ms : List (Move ClockedState ClockedLabel)} {s : ClockedState}
    (h : Run clockedTimerQueue ms s) : s.1.Inv ∧ s.1.upcoming <:+ s.1.inFlight := by
  refine h.invariant (I := fun s => s.1.Inv ∧ s.1.upcoming <:+ s.1.inFlight) ?_ ?_
  · intro s hs
    rw [show s.1 = TimerState.new from hs]
    exact ⟨TimerState.new_inv, List.nil_suffix⟩
  · intro s l t ⟨hs, hsuffix⟩ hstep
    have hsteps := (ClockedState.step_cases hstep).timers
    exact ⟨hsteps.inv hs, hsteps.upcoming_suffix hsuffix⟩

def Ran (r : Move ClockedState ClockedLabel) (p : TimerPtr) : Prop :=
  r.pre.1.event r.label.1 = some (.ran p)

/-- **A callback is not run before its timer is due.** -/
theorem run_notBefore {ms : List (Move ClockedState ClockedLabel)} {s : ClockedState}
    (h : Run clockedTimerQueue ms s) {m r : Move ClockedState ClockedLabel} (hlater : Later ms m r)
    {p : TimerPtr} {due : Timestamp} (hm : ClockedState.NotBefore p due m.post) (hr : Ran r p) :
    due.microSeconds ≤ r.label.2.microSeconds := by
  have hpre : r.pre.1.Inv ∧ ClockedState.NotBefore p due r.pre := by
    refine h.later (I := fun s => s.1.Inv ∧ ClockedState.NotBefore p due s) hlater ?_ ?_
    · obtain ⟨⟨ms', hrun⟩, hstep⟩ := h.move m hlater.mem.1
      exact ⟨(run_clocked_inv (hrun.next hstep)).1, hm⟩
    · intro s l t ⟨hinv, hs⟩ hstep
      have hsteps := ClockedState.step_cases hstep
      exact ⟨hsteps.timers.inv hinv, hsteps.notBefore hinv hs⟩
  have hstep := ClockedState.step_cases (h.move r hlater.mem.2).2
  have hupcoming : p ∈ r.pre.1.upcoming.map Prod.snd := by
    rcases hstep.timers.event_cases hr with
      ⟨e, rest, hev, hphase, -⟩ | ⟨e, rest, timer, now, hev, -⟩ | ⟨e, rest, timer, hev, -⟩
    · cases hev
      rw [TimerState.upcoming, hphase]
      exact List.mem_cons_self
    · cases hev
    · cases hev
  have hle := le_trans (hpre.2.upcoming hupcoming) hstep.forward
  rw [hstep.time] at hle
  exact hle

end TinyMuduo
