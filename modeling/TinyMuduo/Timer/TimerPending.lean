import TinyMuduo.Timer.TimerClock

/-!
# The timers that are still to run

A timer is pending while it waits in a functor or in `timers_`, and while
`HandleRead` has it among those it has yet to run. A step adds one pending timer,
takes one out by running it, or only moves them (`Steps.pending_case`).
-/

namespace TinyMuduo

namespace TimerState

/-- The timers whose callback is still to be called. -/
def pending (s : TimerState) : List TimerPtr :=
  s.toDoList ++ (s.queue.pointers ++ s.upcoming.map Prod.snd)

theorem Inv.pending_mem {s : TimerState} (hs : s.Inv) (hsuffix : s.upcoming <:+ s.inFlight)
    {p : TimerPtr} (hp : p ∈ s.pending) : p ∈ s.heap := by
  rcases List.mem_append.mp hp with hp | hp
  · exact (hs.owned p).mp (List.mem_append_left _ hp)
  · rcases List.mem_append.mp hp with hp | hp
    · exact hs.mem_heap hp
    · exact hs.upcoming_mem hsuffix hp

/-- The timer that the next `Run` is of. -/
def upNext (s : TimerState) : Option TimerPtr :=
  match s.phase with
  | .running (e :: _) => some e.2
  | _ => none

theorem mem_upcoming {s : TimerState} {p : TimerPtr} (h : s.upNext = some p) :
    p ∈ s.upcoming.map Prod.snd := by
  unfold upNext at h
  split at h
  · next e rest hphase =>
      rw [upcoming, hphase]
      exact Option.some.inj h ▸ List.mem_cons_self
  · cases h

inductive PendingCase (s t : TimerState) : TimerLabel → Prop where
  | created {l : TimerLabel} {p : TimerPtr} (hl : l ≠ .run) (hfresh : s.Fresh p)
      (hperm : t.pending.Perm (p :: s.pending)) : PendingCase s t l
  | ran {p : TimerPtr} (hp : s.upNext = some p) (hperm : s.pending.Perm (p :: t.pending)) :
      PendingCase s t .run
  | restarted {p : TimerPtr} {timer : Timer} {now : Timestamp}
      (htimer : s.heap.lookup p = some timer) (hrepeats : timer.repeats = true)
      (hperm : t.pending.Perm (p :: s.pending)) : PendingCase s t (.settle now)
  | same {l : TimerLabel} (hl : l ≠ .run) (hperm : t.pending.Perm s.pending) : PendingCase s t l

theorem pending_insert {s t : TimerState} {p : TimerPtr} {toDoList : List TimerPtr}
    (hlist : t.toDoList = toDoList) (hpointers : t.queue.pointers.Perm (p :: s.queue.pointers))
    (hupcoming : t.upcoming = s.upcoming) :
    t.pending.Perm (p :: (toDoList ++ (s.queue.pointers ++ s.upcoming.map Prod.snd))) := by
  rw [pending, hlist, hupcoming]
  exact ((hpointers.append_right _).append_left _).trans List.perm_middle

theorem Steps.pending_add {s t : TimerState} {timestamp : Timestamp} {interval : ℚ} {address : ℕ}
    {now : Option Timestamp} (h : Steps s (.add timestamp interval address now) t) (hs : s.Inv) :
    ∃ p, s.Touches p (.add timestamp interval address now) ∧ s.Fresh p ∧
      t.pending.Perm (p :: s.pending) := by
  cases now with
  | none =>
      cases h with
      | @queueTimer _ _ ptr hfresh =>
          refine ⟨ptr, ⟨hfresh.id, rfl⟩, hfresh, ?_⟩
          show (s.toDoList ++ [ptr] ++ _).Perm (ptr :: (s.toDoList ++ _))
          rw [List.append_assoc]
          exact List.perm_middle
  | some now =>
      cases h with
      | addTimer _ hfresh =>
          refine ⟨_, ⟨hfresh.id, rfl⟩, hfresh, pending_insert rfl ?_ rfl⟩
          rw [TimerQueue.pointers_addTimerInLoop]
          exact TimerQueue.pointers_insert _ fun p hp => hfresh.address p (hs.mem_heap hp)

/-- **A timer becomes pending when it is created or restarted, and runs once.** -/
theorem Steps.pending_case {s t : TimerState} {l : TimerLabel} (h : Steps s l t) (hs : s.Inv) :
    PendingCase s t l := by
  cases h with
  | @queueTimer timestamp interval ptr hfresh =>
      have hadd : s.Steps (.add timestamp interval ptr.address none) _ := .queueTimer hfresh
      obtain ⟨p, -, hfresh', hperm⟩ := hadd.pending_add hs
      exact .created (by rintro ⟨⟩) hfresh' hperm
  | @addTimer timestamp interval ptr now hphase hfresh =>
      have hadd : s.Steps (.add timestamp interval ptr.address (some now)) _ :=
        .addTimer hphase hfresh
      obtain ⟨p, -, hfresh', hperm⟩ := hadd.pending_add hs
      exact .created (by rintro ⟨⟩) hfresh' hperm
  | @runFunctor ptr toDoList timer now hphase hlist htimer =>
      have hout := hs.toDoList_notMem (p := ptr) (by rw [hlist]; exact List.mem_cons_self)
      refine .same (by rintro ⟨⟩) ?_
      have hpending : s.pending =
          ptr :: (toDoList ++ (s.queue.pointers ++ s.upcoming.map Prod.snd)) := by
        rw [pending, hlist, List.cons_append]
      rw [hpending]
      refine pending_insert rfl ?_ rfl
      rw [TimerQueue.pointers_addTimerInLoop]
      exact TimerQueue.pointers_insert _ (hs.address_ne (mem_heap_of_lookup htimer) hout)
  | expire _ _ => exact .same (by rintro ⟨⟩) (List.Perm.refl _)
  | @handleRead now hphase =>
      refine .same (by rintro ⟨⟩) (List.Perm.append_left _ ?_)
      have hidle : s.upcoming = [] := by rw [upcoming, hphase]
      rw [hidle, List.map_nil, List.append_nil]
      show ((s.queue.takeExpired now).pointers ++
        (s.queue.takeExpired now).activeTimers.map Prod.snd).Perm s.queue.pointers
      rw [TimerQueue.pointers, TimerQueue.pointers, ← s.queue.takeExpired_append now,
        List.map_append]
      exact List.perm_append_comm
  | @run e rest timer hphase htimer =>
      refine .ran (p := e.2) (by rw [upNext, hphase]) ?_
      have hupcoming : s.upcoming = e :: rest := by rw [upcoming, hphase]
      rw [pending, hupcoming, List.map_cons]
      exact (List.Perm.append_left _ List.perm_middle).trans List.perm_middle
  | returned hphase =>
      refine .same (by rintro ⟨⟩) ?_
      rw [pending, pending, upcoming, upcoming, hphase]
  | resetTimers hphase =>
      refine .same (by rintro ⟨⟩) ?_
      rw [pending, pending, upcoming, upcoming, hphase]
  | @restart e rest timer now hphase htimer hrepeats =>
      have hout := (hs.settling hphase).1
      have hupcoming : s.upcoming = [] := by rw [upcoming, hphase]
      refine .restarted htimer hrepeats (pending_insert rfl ?_ hupcoming.symm)
      exact TimerQueue.pointers_insert _ (hs.address_ne (mem_heap_of_lookup htimer) hout)
  | delete hphase _ _ =>
      refine .same (by rintro ⟨⟩) ?_
      rw [pending, pending, upcoming, upcoming, hphase]
  | rest hphase _ =>
      refine .same (by rintro ⟨⟩) ?_
      rw [pending, pending, upcoming, upcoming, hphase]
  | rearm hphase _ _ =>
      refine .same (by rintro ⟨⟩) ?_
      rw [pending, pending, upcoming, upcoming, hphase]
      exact List.Perm.refl _

end TimerState

end TinyMuduo
