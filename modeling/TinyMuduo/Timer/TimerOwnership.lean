import TinyMuduo.Timer.TimerQueue

/-!
# Who owns a timer

Every allocated timer is in exactly one place: in a functor that has yet to add
it, in `timers_`, or in the part of `active_timers_` that has not been restarted
or deleted. The keys of `timers_` are the expirations of the timers they stand
for (`TimerState.Inv`).
-/

namespace TinyMuduo

open Transition Ordered

/-! ## The queue -/

namespace TimerQueue

def pointers (q : TimerQueue) : List TimerPtr := q.timers.entries.map Prod.snd

theorem addTimerInLoop_timers (q : TimerQueue) (ptr : TimerPtr) (timer : Timer) (now : Timestamp) :
    (q.addTimerInLoop ptr timer now).timers = (q.insert ptr timer).timers := by
  unfold addTimerInLoop
  split <;> rfl

theorem addTimerInLoop_activeTimers (q : TimerQueue) (ptr : TimerPtr) (timer : Timer)
    (now : Timestamp) : (q.addTimerInLoop ptr timer now).activeTimers = q.activeTimers := by
  unfold addTimerInLoop
  split <;> rfl

theorem pointers_addTimerInLoop (q : TimerQueue) (ptr : TimerPtr) (timer : Timer)
    (now : Timestamp) : (q.addTimerInLoop ptr timer now).pointers = (q.insert ptr timer).pointers :=
  congrArg (fun s : OrderedSet timerKey => s.entries.map Prod.snd)
    (q.addTimerInLoop_timers ptr timer now)

/-- A timer whose address is not in the set finds its place there. -/
theorem insert_perm {q : TimerQueue} {ptr : TimerPtr} (timer : Timer)
    (h : ∀ p ∈ q.pointers, p.address ≠ ptr.address) :
    (q.insert ptr timer).timers.entries.Perm ((timer.expiration, ptr) :: q.timers.entries) := by
  refine OrderedSet.emplace_perm ?_
  intro x hx hkey
  have haddress : x.2.address = ptr.address := congrArg (fun k => (ofLex k).2) hkey
  exact h x.2 (List.mem_map_of_mem hx) haddress

theorem pointers_insert {q : TimerQueue} {ptr : TimerPtr} (timer : Timer)
    (h : ∀ p ∈ q.pointers, p.address ≠ ptr.address) :
    (q.insert ptr timer).pointers.Perm (ptr :: q.pointers) :=
  (insert_perm timer h).map Prod.snd

theorem takeExpired_activeTimers (q : TimerQueue) (now : Timestamp) :
    (q.takeExpired now).activeTimers = q.timers.below (expiryKey now) := rfl

theorem takeExpired_append (q : TimerQueue) (now : Timestamp) :
    (q.takeExpired now).activeTimers ++ (q.takeExpired now).timers.entries = q.timers.entries :=
  q.timers.below_append (expiryKey now)

/-- **The expired pairs are those with a time up to `now`.** -/
theorem mem_takeExpired {q : TimerQueue} {now : Timestamp} {e : TimerPair} :
    e ∈ (q.takeExpired now).activeTimers ↔
      e ∈ q.timers.entries ∧ e.1.microSeconds ≤ now.microSeconds := by
  rw [takeExpired_activeTimers, OrderedSet.mem_below, timerKey, expiryKey, Prod.Lex.toLex_lt_toLex]
  refine and_congr_right fun _ => ?_
  rw [and_iff_left e.2.address_lt]
  exact le_iff_lt_or_eq.symm

end TimerQueue

/-! ## One place for each timer -/

namespace TimerState

/-- The pairs of `active_timers_` that are neither restarted nor deleted yet. -/
def inFlight (s : TimerState) : List TimerPair :=
  match s.phase with
  | .idle => []
  | .running _ => s.queue.activeTimers
  | .calling _ => s.queue.activeTimers
  | .resetting rest => rest

def places (s : TimerState) : List TimerPtr :=
  s.toDoList ++ (s.queue.pointers ++ s.inFlight.map Prod.snd)

structure Inv (s : TimerState) : Prop where
  keyed : ∀ e ∈ s.queue.timers.entries, ∃ timer,
    s.heap.lookup e.2 = some timer ∧ timer.expiration = e.1
  nodup : s.places.Nodup
  owned : ∀ p, p ∈ s.places ↔ p ∈ s.heap
  ids : ∀ p ∈ s.heap, p.id < s.nextId
  addresses : ∀ p ∈ s.heap, ∀ q ∈ s.heap, p.address = q.address → p = q

theorem new_inv : TimerState.new.Inv where
  keyed := by rintro e ⟨⟩
  nodup := List.nodup_nil
  owned p := iff_of_false List.not_mem_nil (AList.notMem_empty p)
  ids p hp := absurd hp (AList.notMem_empty p)
  addresses p hp := absurd hp (AList.notMem_empty p)

theorem mem_heap_of_lookup {s : TimerState} {p : TimerPtr} {timer : Timer}
    (h : s.heap.lookup p = some timer) : p ∈ s.heap :=
  AList.lookup_isSome.mp (by rw [h]; rfl)

theorem Fresh.notMem {s : TimerState} {ptr : TimerPtr} (h : s.Fresh ptr) : ptr ∉ s.heap :=
  fun hp => h.address ptr hp rfl

/-! ### The three ways a step can treat the places -/

theorem Inv.of_perm {s t : TimerState} (hs : s.Inv) (hplaces : t.places.Perm s.places)
    (hheap : ∀ p, p ∈ t.heap ↔ p ∈ s.heap) (hid : t.nextId = s.nextId)
    (hkeyed : ∀ e ∈ t.queue.timers.entries, ∃ timer,
      t.heap.lookup e.2 = some timer ∧ timer.expiration = e.1) : t.Inv where
  keyed := hkeyed
  nodup := hplaces.nodup_iff.mpr hs.nodup
  owned p := by rw [hplaces.mem_iff, hs.owned, hheap]
  ids p hp := by
    rw [hid]
    exact hs.ids p ((hheap p).mp hp)
  addresses p hp q hq := hs.addresses p ((hheap p).mp hp) q ((hheap q).mp hq)

/-- Only the phase changes, and no timer leaves the pass. -/
theorem Inv.of_phase {s : TimerState} {phase : TimerPhase} (hs : s.Inv)
    (hsame : inFlight { s with phase := phase } = s.inFlight) : Inv { s with phase := phase } := by
  refine hs.of_perm ?_ (fun _ => Iff.rfl) rfl hs.keyed
  rw [places, places, hsame]

theorem Inv.of_fresh {s t : TimerState} {ptr : TimerPtr} {timer : Timer} (hs : s.Inv)
    (hfresh : s.Fresh ptr) (hplaces : t.places.Perm (ptr :: s.places))
    (hheap : t.heap = s.heap.insert ptr timer) (hid : t.nextId = s.nextId + 1)
    (hkeyed : ∀ e ∈ t.queue.timers.entries, ∃ timer,
      t.heap.lookup e.2 = some timer ∧ timer.expiration = e.1) : t.Inv where
  keyed := hkeyed
  nodup := by
    rw [hplaces.nodup_iff, List.nodup_cons, hs.owned]
    exact ⟨hfresh.notMem, hs.nodup⟩
  owned p := by rw [hplaces.mem_iff, List.mem_cons, hs.owned, hheap, AList.mem_insert]
  ids p hp := by
    rw [hheap, AList.mem_insert] at hp
    rw [hid]
    rcases hp with rfl | hp
    · exact Nat.lt_succ_of_le (Nat.le_of_eq hfresh.id)
    · exact Nat.lt_succ_of_lt (hs.ids p hp)
  addresses p hp q hq heq := by
    rw [hheap, AList.mem_insert] at hp hq
    rcases hp with rfl | hp <;> rcases hq with rfl | hq
    · rfl
    · exact absurd heq.symm (hfresh.address q hq)
    · exact absurd heq (hfresh.address p hp)
    · exact hs.addresses p hp q hq heq

theorem Inv.of_erase {s t : TimerState} (hs : s.Inv) (ptr : TimerPtr)
    (hplaces : s.places.Perm (ptr :: t.places)) (hheap : t.heap = s.heap.erase ptr)
    (hid : t.nextId = s.nextId)
    (hkeyed : ∀ e ∈ t.queue.timers.entries, ∃ timer,
      t.heap.lookup e.2 = some timer ∧ timer.expiration = e.1) : t.Inv := by
  obtain ⟨hptr, hnodup⟩ := List.nodup_cons.mp (hplaces.nodup_iff.mp hs.nodup)
  refine ⟨hkeyed, hnodup, ?_, ?_, ?_⟩
  · intro p
    rw [hheap, AList.mem_erase, ← hs.owned, hplaces.mem_iff, List.mem_cons]
    constructor
    · intro hp
      exact ⟨fun heq => hptr (heq ▸ hp), Or.inr hp⟩
    · rintro ⟨hne, rfl | hp⟩
      · exact absurd rfl hne
      · exact hp
  · intro p hp
    rw [hheap, AList.mem_erase] at hp
    rw [hid]
    exact hs.ids p hp.2
  · intro p hp q hq
    rw [hheap, AList.mem_erase] at hp hq
    exact hs.addresses p hp.2 q hq.2

/-! ### The steps -/

theorem Inv.mem_heap {s : TimerState} (hs : s.Inv) {p : TimerPtr}
    (hp : p ∈ s.queue.pointers) : p ∈ s.heap := by
  rw [← hs.owned]
  exact List.mem_append_right _ (List.mem_append_left _ hp)

/-- A timer that is not in `timers_` has its address for itself. -/
theorem Inv.address_ne {s : TimerState} (hs : s.Inv) {ptr : TimerPtr} (hptr : ptr ∈ s.heap)
    (hout : ptr ∉ s.queue.pointers) : ∀ p ∈ s.queue.pointers, p.address ≠ ptr.address := by
  intro p hp heq
  exact hout (hs.addresses p (hs.mem_heap hp) ptr hptr heq ▸ hp)

theorem Inv.pointers_nodup {s : TimerState} (hs : s.Inv) : s.queue.pointers.Nodup := by
  obtain ⟨-, hrest, -⟩ := List.nodup_append.mp hs.nodup
  exact (List.nodup_append.mp hrest).1

theorem Inv.inFlight_nodup {s : TimerState} (hs : s.Inv) : (s.inFlight.map Prod.snd).Nodup := by
  obtain ⟨-, hrest, -⟩ := List.nodup_append.mp hs.nodup
  exact (List.nodup_append.mp hrest).2.1

theorem Inv.toDoList_notMem {s : TimerState} (hs : s.Inv) {p : TimerPtr} (hp : p ∈ s.toDoList) :
    p ∉ s.queue.pointers := by
  obtain ⟨-, -, hdisjoint⟩ := List.nodup_append.mp hs.nodup
  intro hq
  exact hdisjoint p hp p (List.mem_append_left _ hq) rfl

theorem Inv.toDoList_notMem_inFlight {s : TimerState} (hs : s.Inv) {p : TimerPtr}
    (hp : p ∈ s.toDoList) : p ∉ s.inFlight.map Prod.snd := by
  obtain ⟨-, -, hdisjoint⟩ := List.nodup_append.mp hs.nodup
  intro hq
  exact hdisjoint p hp p (List.mem_append_right _ hq) rfl

theorem Inv.inFlight_notMem {s : TimerState} (hs : s.Inv) {p : TimerPtr}
    (hp : p ∈ s.inFlight.map Prod.snd) : p ∉ s.queue.pointers := by
  obtain ⟨-, hrest, -⟩ := List.nodup_append.mp hs.nodup
  obtain ⟨-, -, hdisjoint⟩ := List.nodup_append.mp hrest
  intro hq
  exact hdisjoint p hq p hp rfl

/-- The next timer of `ResetTimers` is not in `timers_`, and has its place in the
pass. -/
theorem Inv.settling {s : TimerState} (hs : s.Inv) {e : TimerPair} {rest : List TimerPair}
    (hphase : s.phase = .resetting (e :: rest)) : e.2 ∉ s.queue.pointers ∧
      s.places.Perm (e.2 :: (s.toDoList ++ (s.queue.pointers ++ rest.map Prod.snd))) := by
  have hinFlight : s.inFlight = e :: rest := by rw [inFlight, hphase]
  constructor
  · refine hs.inFlight_notMem ?_
    rw [hinFlight]
    exact List.mem_cons_self
  · rw [places, hinFlight, List.map_cons]
    exact (List.Perm.append_left _ List.perm_middle).trans List.perm_middle

theorem inFlight_congr {s t : TimerState} (hphase : t.phase = s.phase)
    (hactive : t.queue.activeTimers = s.queue.activeTimers) : t.inFlight = s.inFlight := by
  unfold inFlight
  rw [hphase, hactive]

theorem places_insert {s t : TimerState} {ptr : TimerPtr} {toDoList : List TimerPtr}
    {inFlight : List TimerPair} (hlist : t.toDoList = toDoList)
    (hpointers : t.queue.pointers.Perm (ptr :: s.queue.pointers))
    (hinFlight : t.inFlight = inFlight) :
    t.places.Perm (ptr :: (toDoList ++ (s.queue.pointers ++ inFlight.map Prod.snd))) := by
  rw [places, hlist, hinFlight]
  exact ((hpointers.append_right _).append_left _).trans List.perm_middle

/-- The keys after an insertion: the timer that was inserted has the expiration it
was inserted with, and the others are as before. -/
theorem keyed_insert {q : TimerQueue} {heap heap' : TimerHeap} {ptr : TimerPtr} {timer : Timer}
    (hkeyed : ∀ e ∈ q.timers.entries, ∃ timer,
      heap.lookup e.2 = some timer ∧ timer.expiration = e.1)
    (hout : ptr ∉ q.pointers) (hlookup : heap'.lookup ptr = some timer)
    (hothers : ∀ p, p ≠ ptr → heap'.lookup p = heap.lookup p) :
    ∀ e ∈ (q.insert ptr timer).timers.entries, ∃ timer,
      heap'.lookup e.2 = some timer ∧ timer.expiration = e.1 := by
  intro e he
  rcases OrderedSet.mem_emplace he with rfl | he
  · exact ⟨timer, hlookup, rfl⟩
  · have hne : e.2 ≠ ptr := fun heq => hout (heq ▸ List.mem_map_of_mem he)
    rw [hothers e.2 hne]
    exact hkeyed e he

theorem Steps.inv {s t : TimerState} {l : TimerLabel} (h : Steps s l t) (hs : s.Inv) : t.Inv := by
  cases h with
  | @queueTimer timestamp interval ptr hfresh =>
      refine hs.of_fresh hfresh ?_ rfl rfl ?_
      · show (s.toDoList ++ [ptr] ++ _).Perm (ptr :: (s.toDoList ++ _))
        rw [List.append_assoc]
        exact List.perm_middle
      · intro e he
        have hne : e.2 ≠ ptr :=
          fun heq => hfresh.notMem (heq ▸ hs.mem_heap (List.mem_map_of_mem he))
        show ∃ timer, (s.heap.insert ptr _).lookup e.2 = some timer ∧ _
        rw [AList.lookup_insert_ne hne]
        exact hs.keyed e he
  | @addTimer timestamp interval ptr now hphase hfresh =>
      refine hs.of_fresh hfresh ?_ rfl rfl ?_
      · refine places_insert rfl ?_
          (inFlight_congr rfl (TimerQueue.addTimerInLoop_activeTimers _ _ _ _))
        show (s.queue.addTimerInLoop _ _ _).pointers.Perm _
        rw [TimerQueue.pointers_addTimerInLoop]
        exact TimerQueue.pointers_insert _ fun p hp => hfresh.address p (hs.mem_heap hp)
      · show ∀ e ∈ (s.queue.addTimerInLoop _ _ _).timers.entries, _
        rw [TimerQueue.addTimerInLoop_timers]
        exact keyed_insert hs.keyed (fun hp => hfresh.notMem (hs.mem_heap hp))
          (AList.lookup_insert _) fun p hp => AList.lookup_insert_ne hp
  | @runFunctor ptr toDoList timer now hphase hlist htimer =>
      have hout : ptr ∉ s.queue.pointers :=
        hs.toDoList_notMem (by rw [hlist]; exact List.mem_cons_self)
      have haddress := hs.address_ne (mem_heap_of_lookup htimer) hout
      refine hs.of_perm ?_ (fun _ => Iff.rfl) rfl ?_
      · have hplaces : s.places =
            ptr :: (toDoList ++ (s.queue.pointers ++ s.inFlight.map Prod.snd)) := by
          rw [places, hlist, List.cons_append]
        rw [hplaces]
        refine places_insert rfl ?_
          (inFlight_congr rfl (TimerQueue.addTimerInLoop_activeTimers _ _ _ _))
        show (s.queue.addTimerInLoop _ _ _).pointers.Perm _
        rw [TimerQueue.pointers_addTimerInLoop]
        exact TimerQueue.pointers_insert _ haddress
      · show ∀ e ∈ (s.queue.addTimerInLoop _ _ _).timers.entries, _
        rw [TimerQueue.addTimerInLoop_timers]
        exact keyed_insert hs.keyed hout htimer fun p _ => rfl
  | expire _ _ => exact hs.of_perm (List.Perm.refl _) (fun _ => Iff.rfl) rfl hs.keyed
  | @handleRead now hphase =>
      have happend := s.queue.takeExpired_append now
      refine hs.of_perm ?_ (fun _ => Iff.rfl) rfl ?_
      · have hidle : s.inFlight = [] := by
          rw [inFlight, hphase]
        rw [places, places, hidle, List.map_nil, List.append_nil]
        refine List.Perm.append_left _ ?_
        show ((s.queue.takeExpired now).pointers ++
          (s.queue.takeExpired now).activeTimers.map Prod.snd).Perm s.queue.pointers
        rw [TimerQueue.pointers, TimerQueue.pointers, ← happend, List.map_append]
        exact List.perm_append_comm
      · intro e he
        refine hs.keyed e ?_
        rw [← happend]
        exact List.mem_append_right _ he
  | run hphase _ => exact hs.of_phase (by rw [inFlight, inFlight, hphase])
  | returned hphase => exact hs.of_phase (by rw [inFlight, inFlight, hphase])
  | resetTimers hphase => exact hs.of_phase (by rw [inFlight, inFlight, hphase])
  | @restart e rest timer now hphase htimer hrepeats =>
      obtain ⟨hout, hplaces⟩ := hs.settling hphase
      have hmem := mem_heap_of_lookup htimer
      refine hs.of_perm ?_ ?_ rfl ?_
      · have hinsert := TimerQueue.pointers_insert (timer.restart now) (hs.address_ne hmem hout)
        exact (places_insert rfl hinsert rfl).trans hplaces.symm
      · intro p
        show p ∈ s.heap.insert e.2 _ ↔ _
        rw [AList.mem_insert]
        exact or_iff_right_of_imp fun heq => heq ▸ hmem
      · exact keyed_insert hs.keyed hout (AList.lookup_insert _)
          fun p hp => AList.lookup_insert_ne hp
  | @delete e rest timer now hphase htimer hrepeats =>
      obtain ⟨hout, hplaces⟩ := hs.settling hphase
      refine hs.of_erase e.2 hplaces rfl rfl ?_
      intro x hx
      have hne : x.2 ≠ e.2 := fun heq => hout (heq ▸ List.mem_map_of_mem hx)
      show ∃ timer, (s.heap.erase e.2).lookup x.2 = some timer ∧ _
      rw [AList.lookup_erase_ne hne]
      exact hs.keyed x hx
  | rest hphase _ => exact hs.of_phase (by rw [inFlight, inFlight, hphase])
  | rearm hphase _ _ =>
      refine hs.of_perm ?_ (fun _ => Iff.rfl) rfl hs.keyed
      show (s.toDoList ++ (s.queue.pointers ++ [])).Perm _
      rw [places, inFlight, hphase]
      rfl

end TimerState

theorem run_timer_inv {ms : List (Move TimerState TimerLabel)} {s : TimerState}
    (h : Run timerQueue ms s) : s.Inv := by
  refine Run.invariant (I := TimerState.Inv) ?_ ?_ h
  · rintro s rfl
    exact TimerState.new_inv
  · intro s l t hs hstep
    exact (TimerState.step_cases hstep).inv hs

end TinyMuduo
