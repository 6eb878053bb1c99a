import TinyMuduo.Timer.TimerOwnership

/-!
# What one `HandleRead` does, and what no later one undoes

The events of a pass are the `Run`s of the timers that were due when it started,
in the order of their expirations, followed by one restart or deletion for each
of them in the same order (`pass_events`). A deleted timer is never touched
again, and a one-shot timer that has run never comes back into the queue.
-/

namespace TinyMuduo

open Transition Ordered

/-! ## Events -/

inductive TimerEvent where
  | ran (ptr : TimerPtr)
  | reinserted (ptr : TimerPtr)
  | deleted (ptr : TimerPtr)
deriving DecidableEq

/-- What `ResetTimers` does with a timer that has run. -/
def settlement (ptr : TimerPtr) (timer : Timer) : TimerEvent :=
  if timer.repeats then .reinserted ptr else .deleted ptr

namespace TimerState

def event (s : TimerState) : TimerLabel → Option TimerEvent
  | .run =>
      match s.phase with
      | .running (e :: _) => some (.ran e.2)
      | _ => none
  | .settle _ =>
      match s.phase with
      | .resetting (e :: _) => (s.heap.lookup e.2).map (settlement e.2)
      | _ => none
  | _ => none

/-- The timers a step follows a pointer to, or creates. -/
def Touches (s : TimerState) (p : TimerPtr) : TimerLabel → Prop
  | .queueTimer _ _ address => p.id = s.nextId ∧ p.address = address
  | .addTimer _ _ address _ => p.id = s.nextId ∧ p.address = address
  | .runFunctor _ => s.toDoList.head? = some p
  | .run => ∃ e rest, s.phase = .running (e :: rest) ∧ e.2 = p
  | .settle _ => ∃ e rest, s.phase = .resetting (e :: rest) ∧ e.2 = p
  | .rearm _ => ∃ e, s.queue.timers.first = some e ∧ e.2 = p
  | _ => False

/-- The timer has been handed to the queue and its time is up. -/
def Due (s : TimerState) (now : Timestamp) (p : TimerPtr) : Prop :=
  p ∉ s.toDoList ∧ ∃ timer, s.heap.lookup p = some timer ∧
    timer.expiration.microSeconds ≤ now.microSeconds

/-- All due timers, each once, by their expirations. -/
structure IsDueList (s : TimerState) (now : Timestamp) (due : List TimerPtr) : Prop where
  mem : ∀ p, p ∈ due ↔ s.Due now p
  nodup : due.Nodup
  sorted : due.Pairwise fun p q => ∀ timer timer', s.heap.lookup p = some timer →
    s.heap.lookup q = some timer' →
    timer.expiration.microSeconds ≤ timer'.expiration.microSeconds

end TimerState

def timerEvents (ms : List (Move TimerState TimerLabel)) : List TimerEvent :=
  visible (fun m => m.pre.event m.label) ms

theorem timerEvents_snoc (ms : List (Move TimerState TimerLabel))
    (m : Move TimerState TimerLabel) :
    timerEvents (ms ++ [m]) = timerEvents ms ++ (m.pre.event m.label).toList :=
  visible_snoc _ ms m

/-- What `ResetTimers` does with the timers of `ptrs`, in this order. -/
def settlements (heap : TimerHeap) (ptrs : List TimerPtr) : List TimerEvent :=
  ptrs.filterMap fun p => (heap.lookup p).map (settlement p)

/-- `HandleRead` is not called again. -/
def SamePass (ms : List (Move TimerState TimerLabel)) : Prop :=
  ∀ m ∈ ms, ∀ now, m.label ≠ .handleRead now

/-! ## The expired pairs are the due timers -/

namespace TimerState

theorem Inv.pointers_mem {s : TimerState} (hs : s.Inv) (hidle : s.phase = .idle) {p : TimerPtr} :
    p ∈ s.queue.pointers ↔ p ∉ s.toDoList ∧ p ∈ s.heap := by
  have hplaces : s.places = s.toDoList ++ s.queue.pointers := by
    rw [places, inFlight, hidle, List.map_nil, List.append_nil]
  rw [← hs.owned, hplaces, List.mem_append]
  constructor
  · intro hp
    exact ⟨fun hq => hs.toDoList_notMem hq hp, Or.inr hp⟩
  · rintro ⟨hout, hp | hp⟩
    · exact absurd hp hout
    · exact hp

/-- **What `HandleRead` takes out is what is due.** -/
theorem Inv.takeExpired_due {s : TimerState} (hs : s.Inv) (hidle : s.phase = .idle)
    (now : Timestamp) :
    s.IsDueList now ((s.queue.takeExpired now).activeTimers.map Prod.snd) := by
  have hsub : ((s.queue.takeExpired now).activeTimers.map Prod.snd).Sublist s.queue.pointers := by
    rw [TimerQueue.pointers, ← s.queue.takeExpired_append now]
    exact (List.sublist_append_left _ _).map _
  refine ⟨?_, hs.pointers_nodup.sublist hsub, ?_⟩
  · intro p
    constructor
    · intro hp
      obtain ⟨e, he, rfl⟩ := List.mem_map.mp hp
      obtain ⟨hmem, hle⟩ := TimerQueue.mem_takeExpired.mp he
      obtain ⟨timer, hlookup, hexp⟩ := hs.keyed e hmem
      exact ⟨((hs.pointers_mem hidle).mp (List.mem_map_of_mem hmem)).1, timer, hlookup, hexp ▸ hle⟩
    · rintro ⟨hout, timer, hlookup, hle⟩
      have hp := (hs.pointers_mem hidle).mpr ⟨hout, mem_heap_of_lookup hlookup⟩
      obtain ⟨e, he, rfl⟩ := List.mem_map.mp hp
      obtain ⟨timer', hlookup', hexp⟩ := hs.keyed e he
      obtain rfl := Option.some.inj (hlookup.symm.trans hlookup')
      exact List.mem_map_of_mem (TimerQueue.mem_takeExpired.mpr ⟨he, hexp ▸ hle⟩)
  · rw [List.pairwise_map]
    have hsorted := s.queue.timers.below_sorted (TimerQueue.expiryKey now)
    refine List.Pairwise.imp_of_mem ?_ hsorted
    intro e e' he he' hlt timer timer' hlookup hlookup'
    obtain ⟨_, hlookup₁, hexp⟩ := hs.keyed e (TimerQueue.mem_takeExpired.mp he).1
    obtain ⟨_, hlookup₂, hexp'⟩ := hs.keyed e' (TimerQueue.mem_takeExpired.mp he').1
    obtain rfl := Option.some.inj (hlookup.symm.trans hlookup₁)
    obtain rfl := Option.some.inj (hlookup'.symm.trans hlookup₂)
    rw [hexp, hexp']
    rcases Prod.Lex.toLex_lt_toLex.mp hlt with h | ⟨h, -⟩
    · exact le_of_lt h
    · exact le_of_eq h

/-! ## One pass -/

/-- Where a pass over `batch` stands when `seen` has happened in it; `heap` is the
memory it started with. -/
inductive Pass (batch : List TimerPair) (heap : TimerHeap) (seen : List TimerEvent)
    (s : TimerState) : Prop where
  | running {done rest : List TimerPair} (hphase : s.phase = .running rest ∨ s.phase = .calling rest)
      (hactive : s.queue.activeTimers = batch) (hbatch : batch = done ++ rest)
      (hsame : ∀ e ∈ batch, s.heap.lookup e.2 = heap.lookup e.2)
      (hseen : seen = done.map fun e => .ran e.2)
  | resetting {done rest : List TimerPair} (hphase : s.phase = .resetting rest)
      (hbatch : batch = done ++ rest) (hsame : ∀ e ∈ rest, s.heap.lookup e.2 = heap.lookup e.2)
      (hseen : seen = (batch.map fun e => .ran e.2) ++ settlements heap (done.map Prod.snd))
  | finished (hphase : s.phase = .idle)
      (hseen : seen = (batch.map fun e => .ran e.2) ++ settlements heap (batch.map Prod.snd))

theorem settlements_snoc {heap : TimerHeap} {timer : Timer} {p : TimerPtr}
    (h : heap.lookup p = some timer) (ptrs : List TimerPtr) :
    settlements heap (ptrs ++ [p]) = settlements heap ptrs ++ [settlement p timer] := by
  rw [settlements, List.filterMap_append, settlements]
  congr 1
  rw [List.filterMap_cons_some (by rw [h]; rfl), List.filterMap_nil]

theorem inFlight_mem_heap {s : TimerState} (hs : s.Inv) {e : TimerPair} (he : e ∈ s.inFlight) :
    e.2 ∈ s.heap := by
  rw [← hs.owned]
  exact List.mem_append_right _ (List.mem_append_right _ (List.mem_map_of_mem he))

/-- A step that changes neither the phase nor the batch, and creates at most a
new timer. -/
theorem Pass.keep {s t : TimerState} {batch : List TimerPair} {heap : TimerHeap}
    {seen : List TimerEvent} (h : s.Pass batch heap seen) (hphase : t.phase = s.phase)
    (hactive : t.queue.activeTimers = s.queue.activeTimers)
    (hsame : ∀ e ∈ s.inFlight, t.heap.lookup e.2 = s.heap.lookup e.2) : t.Pass batch heap seen := by
  cases h with
  | @running done rest hphase' hactive' hbatch hsame' hseen =>
      have hinFlight : s.inFlight = batch := by
        rcases hphase' with h' | h' <;> rw [inFlight, h', ← hactive']
      refine .running (hphase ▸ hphase') (hactive.trans hactive') hbatch ?_ hseen
      intro e he
      rw [hsame e (hinFlight ▸ he), hsame' e he]
  | @resetting done rest hphase' hbatch hsame' hseen =>
      have hinFlight : s.inFlight = rest := by rw [inFlight, hphase']
      refine .resetting (hphase.trans hphase') hbatch ?_ hseen
      intro e he
      rw [hsame e (hinFlight ▸ he), hsame' e he]
  | finished hphase' hseen => exact .finished (hphase.trans hphase') hseen

theorem Pass.of_running {s : TimerState} {batch rest : List TimerPair} {heap : TimerHeap}
    {seen : List TimerEvent} (h : s.Pass batch heap seen)
    (hphase : s.phase = .running rest ∨ s.phase = .calling rest) :
    ∃ done, s.queue.activeTimers = batch ∧ batch = done ++ rest ∧
      (∀ e ∈ batch, s.heap.lookup e.2 = heap.lookup e.2) ∧
      seen = done.map fun e => .ran e.2 := by
  cases h with
  | @running done rest' hphase' hactive hbatch hsame hseen =>
      obtain rfl : rest' = rest := by
        rcases hphase with h | h <;> rcases hphase' with h' | h' <;> rw [h] at h' <;> cases h' <;> rfl
      exact ⟨done, hactive, hbatch, hsame, hseen⟩
  | resetting h' _ _ _ => rcases hphase with h | h <;> · rw [h] at h'; cases h'
  | finished h' _ => rcases hphase with h | h <;> · rw [h] at h'; cases h'

theorem Pass.of_resetting {s : TimerState} {batch rest : List TimerPair} {heap : TimerHeap}
    {seen : List TimerEvent} (h : s.Pass batch heap seen) (hphase : s.phase = .resetting rest) :
    ∃ done, batch = done ++ rest ∧ (∀ e ∈ rest, s.heap.lookup e.2 = heap.lookup e.2) ∧
      seen = (batch.map fun e => .ran e.2) ++ settlements heap (done.map Prod.snd) := by
  cases h with
  | running h' _ _ _ _ => rcases h' with h' | h' <;> · rw [hphase] at h'; cases h'
  | @resetting done rest' h' hbatch hsame hseen =>
      obtain rfl : rest' = rest := by
        rw [hphase] at h'
        cases h'
        rfl
      exact ⟨done, hbatch, hsame, hseen⟩
  | finished h' _ => rw [hphase] at h'; cases h'

theorem Pass.settle {s t : TimerState} {batch : List TimerPair} {heap : TimerHeap}
    {seen : List TimerEvent} {e : TimerPair} {rest : List TimerPair} {timer : Timer} {n : Timestamp}
    (h : s.Pass batch heap seen) (hs : s.Inv) (hphase : s.phase = .resetting (e :: rest))
    (htimer : s.heap.lookup e.2 = some timer) (hphase' : t.phase = .resetting rest)
    (hothers : ∀ p, p ≠ e.2 → t.heap.lookup p = s.heap.lookup p) :
    t.Pass batch heap (seen ++ (s.event (.settle n)).toList) := by
  have hevent : s.event (.settle n) = some (settlement e.2 timer) := by
    simp only [event, hphase, htimer, Option.map_some]
  rw [hevent]
  obtain ⟨done, hbatch, hsame, hseen⟩ := h.of_resetting hphase
  rw [List.forall_mem_cons] at hsame
  -- the timers behind it are other ones
  have hnodup := hs.inFlight_nodup
  rw [inFlight, hphase, List.map_cons] at hnodup
  have hbatch' : batch = (done ++ [e]) ++ rest := by
    rw [List.append_assoc]
    exact hbatch
  refine .resetting hphase' hbatch' ?_ ?_
  · intro x hx
    have hne : x.2 ≠ e.2 := by
      rintro heq
      exact (List.nodup_cons.mp hnodup).1 (heq ▸ List.mem_map_of_mem hx)
    rw [hothers x.2 hne, hsame.2 x hx]
  · rw [hseen, List.map_append, List.map_singleton,
      settlements_snoc (hsame.1.symm.trans htimer), List.append_assoc]
    rfl

theorem Pass.finish {s t : TimerState} {batch : List TimerPair} {heap : TimerHeap}
    {seen : List TimerEvent} (h : s.Pass batch heap seen) (hphase : s.phase = .resetting [])
    (hphase' : t.phase = .idle) : t.Pass batch heap seen := by
  obtain ⟨done, hbatch, -, hseen⟩ := h.of_resetting hphase
  rw [List.append_nil] at hbatch
  exact .finished hphase' (hbatch ▸ hseen)

/-- **One step of a pass.** -/
theorem Steps.pass {s t : TimerState} {l : TimerLabel} {batch : List TimerPair} {heap : TimerHeap}
    {seen : List TimerEvent} (h : Steps s l t) (hs : s.Inv) (hpass : s.Pass batch heap seen)
    (hl : ∀ now, l ≠ .handleRead now) : t.Pass batch heap (seen ++ (s.event l).toList) := by
  -- a step without an event
  have hquiet : ∀ {u : TimerState}, u.Pass batch heap seen → u.Pass batch heap (seen ++ []) := by
    intro u hu
    rw [List.append_nil]
    exact hu
  cases h with
  | @queueTimer timestamp interval ptr hfresh =>
      refine hquiet (hpass.keep rfl rfl ?_)
      intro e he
      refine AList.lookup_insert_ne fun heq => hfresh.notMem ?_
      exact heq ▸ inFlight_mem_heap hs he
  | @addTimer timestamp interval ptr now _ hfresh =>
      refine hquiet (hpass.keep rfl (TimerQueue.addTimerInLoop_activeTimers _ _ _ _) ?_)
      intro e he
      refine AList.lookup_insert_ne fun heq => hfresh.notMem ?_
      exact heq ▸ inFlight_mem_heap hs he
  | runFunctor _ _ _ =>
      exact hquiet (hpass.keep rfl (TimerQueue.addTimerInLoop_activeTimers _ _ _ _) fun _ _ => rfl)
  | expire _ _ => exact hquiet (hpass.keep rfl rfl fun _ _ => rfl)
  | handleRead _ => exact absurd rfl (hl _)
  | @run e rest timer hphase htimer =>
      have hevent : s.event .run = some (.ran e.2) := by rw [event, hphase]
      rw [hevent]
      obtain ⟨done, hactive, hbatch, hsame, hseen⟩ := hpass.of_running (Or.inl hphase)
      have hbatch' : batch = (done ++ [e]) ++ rest := by
        rw [List.append_assoc]
        exact hbatch
      refine .running (Or.inr rfl) hactive hbatch' hsame ?_
      rw [hseen, List.map_append]
      rfl
  | @returned rest hphase =>
      obtain ⟨done, hactive, hbatch, hsame, hseen⟩ := hpass.of_running (Or.inr hphase)
      exact hquiet (.running (Or.inl rfl) hactive hbatch hsame hseen)
  | resetTimers hphase =>
      obtain ⟨done, hactive, hbatch, hsame, hseen⟩ := hpass.of_running (Or.inl hphase)
      rw [List.append_nil] at hbatch
      have hbatch' : batch = [] ++ s.queue.activeTimers := hactive.symm
      refine hquiet (.resetting rfl hbatch' ?_ ?_)
      · rw [hactive]
        exact hsame
      · rw [hseen, hbatch]
        exact (List.append_nil _).symm
  | @restart e rest timer now hphase htimer hrepeats =>
      refine hpass.settle (n := now) hs hphase htimer rfl ?_
      intro p hp
      exact AList.lookup_insert_ne hp
  | @delete e rest timer now hphase htimer hrepeats =>
      refine hpass.settle (n := now) hs hphase htimer rfl ?_
      intro p hp
      exact AList.lookup_erase_ne hp
  | rest hphase _ => exact hquiet (hpass.finish hphase rfl)
  | rearm hphase _ _ => exact hquiet (hpass.finish hphase rfl)

/-! ## What no later step undoes -/

def Dead (p : TimerPtr) (s : TimerState) : Prop := p.id < s.nextId ∧ p ∉ s.heap

theorem Fresh.ne {s : TimerState} {p ptr : TimerPtr} (h : s.Fresh ptr) (hp : p.id < s.nextId) :
    p ≠ ptr := by
  rintro rfl
  exact absurd h.id (Nat.ne_of_lt hp)

/-- **A deleted timer stays deleted.** -/
theorem Steps.dead {s t : TimerState} {l : TimerLabel} {p : TimerPtr} (h : Steps s l t)
    (hp : s.Dead p) : t.Dead p := by
  obtain ⟨hid, hheap⟩ := hp
  cases h with
  | queueTimer hfresh =>
      refine ⟨Nat.lt_succ_of_lt hid, ?_⟩
      intro hmem
      exact hheap ((AList.mem_insert _).mp hmem |>.resolve_left (hfresh.ne hid))
  | addTimer _ hfresh =>
      refine ⟨Nat.lt_succ_of_lt hid, ?_⟩
      intro hmem
      exact hheap ((AList.mem_insert _).mp hmem |>.resolve_left (hfresh.ne hid))
  | restart _ htimer _ =>
      refine ⟨hid, ?_⟩
      intro hmem
      refine hheap ((AList.mem_insert _).mp hmem |>.resolve_left ?_)
      rintro rfl
      exact hheap (mem_heap_of_lookup htimer)
  | delete _ _ _ => exact ⟨hid, fun hmem => hheap (AList.mem_erase.mp hmem).2⟩
  | runFunctor _ _ _ => exact ⟨hid, hheap⟩
  | expire _ _ => exact ⟨hid, hheap⟩
  | handleRead _ => exact ⟨hid, hheap⟩
  | run _ _ => exact ⟨hid, hheap⟩
  | returned _ => exact ⟨hid, hheap⟩
  | resetTimers _ => exact ⟨hid, hheap⟩
  | rest _ _ => exact ⟨hid, hheap⟩
  | rearm _ _ _ => exact ⟨hid, hheap⟩

theorem Steps.touches {s t : TimerState} {l : TimerLabel} {p : TimerPtr} (h : Steps s l t)
    (hp : s.Touches p l) : p ∈ s.heap ∨ p.id = s.nextId := by
  cases h with
  | queueTimer _ => exact Or.inr hp.1
  | addTimer _ _ => exact Or.inr hp.1
  | runFunctor _ hlist htimer =>
      rw [Touches, hlist] at hp
      exact Or.inl (Option.some.inj hp ▸ mem_heap_of_lookup htimer)
  | run hphase htimer =>
      obtain ⟨e, rest, hphase', rfl⟩ := hp
      rw [hphase] at hphase'
      cases hphase'
      exact Or.inl (mem_heap_of_lookup htimer)
  | restart hphase htimer _ =>
      obtain ⟨e, rest, hphase', rfl⟩ := hp
      rw [hphase] at hphase'
      cases hphase'
      exact Or.inl (mem_heap_of_lookup htimer)
  | delete hphase htimer _ =>
      obtain ⟨e, rest, hphase', rfl⟩ := hp
      rw [hphase] at hphase'
      cases hphase'
      exact Or.inl (mem_heap_of_lookup htimer)
  | rest _ hfirst =>
      obtain ⟨e, hfirst', -⟩ := hp
      rw [hfirst] at hfirst'
      cases hfirst'
  | rearm _ hfirst htimer =>
      obtain ⟨e, hfirst', rfl⟩ := hp
      rw [hfirst] at hfirst'
      cases hfirst'
      exact Or.inl (mem_heap_of_lookup htimer)
  | expire _ _ => exact hp.elim
  | handleRead _ => exact hp.elim
  | returned _ => exact hp.elim
  | resetTimers _ => exact hp.elim

/-- The pairs that `HandleRead` has yet to run. -/
def upcoming (s : TimerState) : List TimerPair :=
  match s.phase with
  | .running rest => rest
  | .calling rest => rest
  | _ => []

/-- A one-shot timer that has run. -/
structure Spent (p : TimerPtr) (s : TimerState) : Prop where
  id : p.id < s.nextId
  toDoList : p ∉ s.toDoList
  pointers : p ∉ s.queue.pointers
  upcoming : p ∉ s.upcoming.map Prod.snd
  oneShot : ∀ timer, s.heap.lookup p = some timer → timer.repeats = false

theorem notMem_insert {q : TimerQueue} {p ptr : TimerPtr} (timer : Timer) (hne : p ≠ ptr)
    (hp : p ∉ q.pointers) : p ∉ (q.insert ptr timer).pointers := by
  intro hmem
  obtain ⟨e, he, rfl⟩ := List.mem_map.mp hmem
  rcases OrderedSet.mem_emplace he with rfl | he
  · exact hne rfl
  · exact hp (List.mem_map_of_mem he)

/-- **A one-shot timer that has run does not come back.** -/
theorem Steps.spent {s t : TimerState} {l : TimerLabel} {p : TimerPtr} (h : Steps s l t)
    (hp : s.Spent p) : t.Spent p := by
  have hshot := hp.oneShot
  have hupcoming := hp.upcoming
  cases h with
  | @queueTimer timestamp interval ptr hfresh =>
      have hne := hfresh.ne hp.id
      refine ⟨Nat.lt_succ_of_lt hp.id, ?_, hp.pointers, hp.upcoming, ?_⟩
      · intro hmem
        rcases List.mem_append.mp hmem with hmem | hmem
        · exact hp.toDoList hmem
        · exact hne (List.mem_singleton.mp hmem)
      · intro timer htimer
        exact hshot timer ((AList.lookup_insert_ne hne).symm.trans htimer)
  | @addTimer timestamp interval ptr now _ hfresh =>
      have hne := hfresh.ne hp.id
      refine ⟨Nat.lt_succ_of_lt hp.id, hp.toDoList, ?_, hp.upcoming, ?_⟩
      · show p ∉ (s.queue.addTimerInLoop _ _ _).pointers
        rw [TimerQueue.pointers_addTimerInLoop]
        exact notMem_insert _ hne hp.pointers
      · intro timer htimer
        exact hshot timer ((AList.lookup_insert_ne hne).symm.trans htimer)
  | @runFunctor ptr toDoList timer now _ hlist htimer =>
      have hout := hp.toDoList
      rw [hlist, List.mem_cons, not_or] at hout
      refine ⟨hp.id, hout.2, ?_, hp.upcoming, hshot⟩
      show p ∉ (s.queue.addTimerInLoop _ _ _).pointers
      rw [TimerQueue.pointers_addTimerInLoop]
      exact notMem_insert _ hout.1 hp.pointers
  | expire _ _ => exact ⟨hp.id, hp.toDoList, hp.pointers, hp.upcoming, hshot⟩
  | @handleRead now hphase =>
      have hsplit := hp.pointers
      rw [TimerQueue.pointers, ← s.queue.takeExpired_append now, List.map_append, List.mem_append,
        not_or] at hsplit
      exact ⟨hp.id, hp.toDoList, hsplit.2, hsplit.1, hshot⟩
  | run hphase _ =>
      rw [upcoming, hphase, List.map_cons, List.mem_cons, not_or] at hupcoming
      exact ⟨hp.id, hp.toDoList, hp.pointers, hupcoming.2, hshot⟩
  | returned hphase =>
      rw [upcoming, hphase] at hupcoming
      exact ⟨hp.id, hp.toDoList, hp.pointers, hupcoming, hshot⟩
  | resetTimers hphase =>
      exact ⟨hp.id, hp.toDoList, hp.pointers, List.not_mem_nil, hshot⟩
  | @restart e rest timer now hphase htimer hrepeats =>
      -- a timer that repeats is another one
      have hne : p ≠ e.2 := by
        rintro rfl
        rw [hshot timer htimer] at hrepeats
        cases hrepeats
      refine ⟨hp.id, hp.toDoList, notMem_insert _ hne hp.pointers, List.not_mem_nil, ?_⟩
      intro timer' htimer'
      exact hshot timer' ((AList.lookup_insert_ne hne).symm.trans htimer')
  | @delete e rest timer now hphase htimer hrepeats =>
      refine ⟨hp.id, hp.toDoList, hp.pointers, List.not_mem_nil, ?_⟩
      intro timer' htimer'
      by_cases heq : p = e.2
      · subst heq
        exact absurd (htimer'.symm.trans (AList.lookup_erase _ _)) (by rintro ⟨⟩)
      · exact hshot timer' ((AList.lookup_erase_ne heq).symm.trans htimer')
  | rest _ _ => exact ⟨hp.id, hp.toDoList, hp.pointers, List.not_mem_nil, hshot⟩
  | rearm _ _ _ => exact ⟨hp.id, hp.toDoList, hp.pointers, List.not_mem_nil, hshot⟩

theorem Steps.event_cases {s t : TimerState} {l : TimerLabel} {ev : TimerEvent} (h : Steps s l t)
    (hevent : s.event l = some ev) :
    (∃ e rest, ev = .ran e.2 ∧ s.phase = .running (e :: rest) ∧ t = { s with phase := .calling rest }) ∨
    (∃ e rest timer now, ev = .reinserted e.2 ∧ s.phase = .resetting (e :: rest) ∧
      s.heap.lookup e.2 = some timer ∧ timer.repeats = true ∧ l = .settle now ∧
      t = { s with
        queue := s.queue.insert e.2 (timer.restart now)
        heap := s.heap.insert e.2 (timer.restart now)
        phase := .resetting rest }) ∨
    (∃ e rest timer, ev = .deleted e.2 ∧ s.phase = .resetting (e :: rest) ∧
      s.heap.lookup e.2 = some timer ∧ timer.repeats = false ∧
      t = { s with heap := s.heap.erase e.2, phase := .resetting rest }) := by
  cases h with
  | @run e rest timer hphase htimer =>
      rw [event, hphase] at hevent
      exact Or.inl ⟨e, rest, (Option.some.inj hevent).symm, hphase, rfl⟩
  | @restart e rest timer now hphase htimer hrepeats =>
      simp only [event, hphase, htimer, Option.map_some, settlement, if_pos hrepeats] at hevent
      exact Or.inr (Or.inl ⟨e, rest, timer, now, (Option.some.inj hevent).symm, hphase, htimer,
        hrepeats, rfl, rfl⟩)
  | @delete e rest timer now hphase htimer hrepeats =>
      simp only [event, hphase, htimer, Option.map_some, settlement, hrepeats] at hevent
      exact Or.inr (Or.inr ⟨e, rest, timer, (Option.some.inj hevent).symm, hphase, htimer,
        hrepeats, rfl⟩)
  | queueTimer _ => cases hevent
  | addTimer _ _ => cases hevent
  | runFunctor _ _ _ => cases hevent
  | expire _ _ => cases hevent
  | handleRead _ => cases hevent
  | returned _ => cases hevent
  | resetTimers _ => cases hevent
  | rest _ _ => cases hevent
  | rearm _ _ _ => cases hevent

theorem Steps.nextId_le {s t : TimerState} {l : TimerLabel} (h : Steps s l t) :
    s.nextId ≤ t.nextId := by
  cases h <;> first | exact Nat.le_refl _ | exact Nat.le_succ _

/-- **Only a deletion frees a timer.** -/
theorem Steps.deleted_iff {s t : TimerState} {l : TimerLabel} {p : TimerPtr} (h : Steps s l t) :
    s.event l = some (.deleted p) ↔ p ∈ s.heap ∧ p ∉ t.heap := by
  constructor
  · intro hevent
    rcases h.event_cases hevent with
      ⟨e, rest, hev, -⟩ | ⟨e, rest, _, now, hev, -⟩ | ⟨e, rest, timer, hev, -, htimer, -, rfl⟩
    · cases hev
    · cases hev
    · cases hev
      exact ⟨mem_heap_of_lookup htimer, fun hmem => (AList.mem_erase.mp hmem).1 rfl⟩
  · rintro ⟨hmem, hgone⟩
    cases h with
    | queueTimer _ => exact absurd ((AList.mem_insert _).mpr (Or.inr hmem)) hgone
    | addTimer _ _ => exact absurd ((AList.mem_insert _).mpr (Or.inr hmem)) hgone
    | restart _ _ _ => exact absurd ((AList.mem_insert _).mpr (Or.inr hmem)) hgone
    | @delete e rest timer now hphase htimer hrepeats =>
        have heq : p = e.2 := by
          by_contra hne
          exact hgone (AList.mem_erase.mpr ⟨hne, hmem⟩)
        simp [event, hphase, htimer, settlement, hrepeats, heq]
    | runFunctor _ _ _ => exact absurd hmem hgone
    | expire _ _ => exact absurd hmem hgone
    | handleRead _ => exact absurd hmem hgone
    | run _ _ => exact absurd hmem hgone
    | returned _ => exact absurd hmem hgone
    | resetTimers _ => exact absurd hmem hgone
    | rest _ _ => exact absurd hmem hgone
    | rearm _ _ _ => exact absurd hmem hgone

end TimerState

/-! ## Runs -/

theorem timerQueue_step {ms : List (Move TimerState TimerLabel)} {s : TimerState}
    (h : Run timerQueue ms s) {m : Move TimerState TimerLabel} (hm : m ∈ ms) :
    m.pre.Inv ∧ TimerState.Steps m.pre m.label m.post := by
  obtain ⟨⟨ms', hrun⟩, hstep⟩ := h.move m hm
  exact ⟨run_timer_inv hrun, TimerState.step_cases hstep⟩

/-- Since the last `HandleRead`, a pass over the timers it took out. -/
theorem pass_of_run {ms before after : List (Move TimerState TimerLabel)}
    {m : Move TimerState TimerLabel} {s : TimerState} {now : Timestamp}
    (h : Run timerQueue ms s) (hms : ms = before ++ m :: after) (hl : m.label = .handleRead now)
    (hafter : SamePass after) :
    m.pre.phase = .idle ∧
      s.Pass (m.pre.queue.takeExpired now).activeTimers m.pre.heap (timerEvents after) := by
  have hmem : ∀ x ∈ after, x ∈ ms := by
    intro x hx
    rw [hms]
    exact List.mem_append_right _ (List.mem_cons_of_mem _ hx)
  obtain ⟨hs, hstep⟩ := timerQueue_step h (m := m) (by rw [hms]; simp)
  obtain ⟨pre, label, post⟩ := m
  obtain rfl : label = .handleRead now := hl
  change TimerState.Steps pre (.handleRead now) post at hstep
  cases hstep with
  | handleRead hphase =>
      refine ⟨hphase, ?_⟩
      refine h.after (I := fun xs s => s.Pass (pre.queue.takeExpired now).activeTimers pre.heap
        (timerEvents xs)) hms ?_ ?_
      · have hbatch : (pre.queue.takeExpired now).activeTimers =
            [] ++ (pre.queue.takeExpired now).activeTimers := rfl
        exact .running (Or.inl rfl) rfl hbatch (fun _ _ => rfl) rfl
      · intro xs x hx hpass _
        obtain ⟨hpre, hstep⟩ := timerQueue_step h (hmem x hx)
        rw [timerEvents_snoc]
        exact hstep.pass hpre hpass (hafter x hx)

/-- Outside `idle` there is a pass under way. -/
theorem exists_handleRead {ms : List (Move TimerState TimerLabel)} {s : TimerState}
    (h : Run timerQueue ms s) : s.phase ≠ .idle → ∃ before m after now,
      ms = before ++ m :: after ∧ m.label = .handleRead now ∧ SamePass after := by
  refine Run.history (I := fun ms s => s.phase ≠ .idle → ∃ before m after now,
    ms = before ++ m :: after ∧ m.label = .handleRead now ∧ SamePass after) ?_ ?_ h
  · rintro s rfl hphase
    exact absurd rfl hphase
  · intro ms s l t _ ih hstep hphase
    by_cases hl : ∃ now, l = .handleRead now
    · obtain ⟨now, rfl⟩ := hl
      refine ⟨ms, _, [], now, rfl, rfl, ?_⟩
      rintro x ⟨⟩
    · have hs : s.phase ≠ .idle := by
        intro hidle
        cases TimerState.step_cases hstep with
        | queueTimer _ => exact hphase hidle
        | addTimer _ _ => exact hphase hidle
        | runFunctor _ _ _ => exact hphase hidle
        | expire _ _ => exact hphase hidle
        | handleRead _ => exact hl ⟨_, rfl⟩
        | run h _ => rw [hidle] at h; cases h
        | returned h => rw [hidle] at h; cases h
        | resetTimers h => rw [hidle] at h; cases h
        | restart h _ _ => rw [hidle] at h; cases h
        | delete h _ _ => rw [hidle] at h; cases h
        | rest _ _ => exact hphase rfl
        | rearm _ _ _ => exact hphase rfl
      obtain ⟨before, m, after, now, rfl, hm, hafter⟩ := ih hs
      refine ⟨before, m, after ++ [⟨s, l, t⟩], now, ?_, hm, ?_⟩
      · rw [List.append_assoc, List.cons_append]
      · intro x hx n
        rcases List.mem_append.mp hx with hx | hx
        · exact hafter x hx n
        · obtain rfl := List.mem_singleton.mp hx
          exact fun heq => hl ⟨n, heq⟩

/-- A one-shot timer that is run has been waiting for the last time. -/
theorem spent_of_ran {before : List (Move TimerState TimerLabel)} {s t : TimerState}
    {e : TimerPair} {rest : List TimerPair} {timer : Timer} (h : Run timerQueue before s)
    (hphase : s.phase = .running (e :: rest)) (htimer : s.heap.lookup e.2 = some timer)
    (hshot : timer.repeats = false) (ht : t = { s with phase := .calling rest }) :
    t.Spent e.2 := by
  have hs := run_timer_inv h
  obtain ⟨b, m, a, now, hms, hl, ha⟩ := exists_handleRead h (by rw [hphase]; rintro ⟨⟩)
  obtain ⟨-, hpass⟩ := pass_of_run h hms hl ha
  obtain ⟨done, hactive, hbatch, -, -⟩ := hpass.of_running (Or.inl hphase)
  have hinFlight : s.inFlight = done ++ e :: rest := by
    rw [TimerState.inFlight, hphase, ← hbatch]
    exact hactive
  have hmem : e.2 ∈ s.inFlight.map Prod.snd := by
    rw [hinFlight, List.map_append]
    exact List.mem_append_right _ List.mem_cons_self
  have hlist := (List.nodup_append.mp hs.nodup).2.2
  have hnodup := hs.inFlight_nodup
  rw [hinFlight, List.map_append, List.map_cons] at hnodup
  obtain ⟨-, hnodup, -⟩ := List.nodup_append.mp hnodup
  subst ht
  refine ⟨hs.ids _ (TimerState.mem_heap_of_lookup htimer), ?_, hs.inFlight_notMem hmem,
    (List.nodup_cons.mp hnodup).1, ?_⟩
  · intro hout
    exact hlist e.2 hout e.2 (List.mem_append_right _ hmem) rfl
  · intro timer' htimer'
    exact Option.some.inj (htimer.symm.trans htimer') ▸ hshot

/-! ## The queue over whole runs -/

/-- What a history and the state it leads to say about every timer. -/
structure TimerLaw (ms : List (Move TimerState TimerLabel)) (s : TimerState) : Prop where
  /-- A key is the expiration of its timer. -/
  keyed : ∀ e ∈ s.queue.timers.entries, ∃ timer,
    s.heap.lookup e.2 = some timer ∧ timer.expiration = e.1
  /-- A live timer that has been handed to the queue has one entry. -/
  entry : s.phase = .idle → ∀ p ∈ s.heap, p ∉ s.toDoList → s.queue.pointers.count p = 1
  /-- A pass runs what was due when it started, in order, and then restarts or
  deletes each of them once. -/
  pass : ∀ before m after now, ms = before ++ m :: after → m.label = .handleRead now →
    SamePass after → ∃ due, m.pre.IsDueList now due ∧
      timerEvents after <+: due.map .ran ++ settlements m.pre.heap due ∧
      (s.phase = .idle → timerEvents after = due.map .ran ++ settlements m.pre.heap due)
  /-- Nothing happens to a timer outside a pass. -/
  inPass : ∀ before m after, ms = before ++ m :: after → m.pre.event m.label ≠ none →
    ∃ earlier read since now, before = earlier ++ read :: since ∧ read.label = .handleRead now ∧
      SamePass since
  /-- A one-shot timer runs at most once. -/
  oneShot : ∀ before m after p timer, ms = before ++ m :: after →
    m.pre.event m.label = some (.ran p) → m.pre.heap.lookup p = some timer →
    timer.repeats = false → .ran p ∉ timerEvents after
  /-- A deletion is what frees a timer, and nothing touches it afterwards. -/
  deleted : ∀ before m after p, ms = before ++ m :: after →
    (m.pre.event m.label = some (.deleted p) ↔ p ∈ m.pre.heap ∧ p ∉ m.post.heap) ∧
    (m.pre.event m.label = some (.deleted p) → ∀ x ∈ after, ¬ x.pre.Touches p x.label)
  /-- A repeating timer goes back with its restarted expiration. -/
  reinserted : ∀ m ∈ ms, ∀ p, m.pre.event m.label = some (.reinserted p) →
    ∃ timer now, m.label = .settle now ∧ m.pre.heap.lookup p = some timer ∧
      m.post.heap.lookup p = some (timer.restart now) ∧
      m.post.queue.timers.entries.Perm
        (((timer.restart now).expiration, p) :: m.pre.queue.timers.entries)

theorem isDueList_of_run {ms before after : List (Move TimerState TimerLabel)}
    {m : Move TimerState TimerLabel} {s : TimerState} {now : Timestamp}
    (h : Run timerQueue ms s) (hms : ms = before ++ m :: after) (hl : m.label = .handleRead now)
    (hafter : SamePass after) : ∃ due, m.pre.IsDueList now due ∧
      timerEvents after <+: due.map .ran ++ settlements m.pre.heap due ∧
      (s.phase = .idle → timerEvents after = due.map .ran ++ settlements m.pre.heap due) := by
  obtain ⟨hphase, hpass⟩ := pass_of_run h hms hl hafter
  have hinv := run_timer_inv (h.split hms).1
  refine ⟨_, hinv.takeExpired_due hphase now, ?_⟩
  rw [List.map_map]
  cases hpass with
  | @running done rest hphase' hactive hbatch hsame hseen =>
      refine ⟨?_, ?_⟩
      · rw [hseen, hbatch, List.map_append, List.append_assoc]
        exact List.prefix_append _ _
      · intro hidle
        rw [hidle] at hphase'
        rcases hphase' with h' | h' <;> cases h'
  | @resetting done rest hphase' hbatch hsame hseen =>
      refine ⟨?_, ?_⟩
      · have hdue : (m.pre.queue.takeExpired now).activeTimers.map Prod.snd =
            done.map Prod.snd ++ rest.map Prod.snd := by
          rw [hbatch, List.map_append]
        rw [hseen, hdue, settlements, settlements, List.filterMap_append, ← List.append_assoc]
        exact List.prefix_append _ _
      · intro hidle
        rw [hidle] at hphase'
        cases hphase'
  | finished hphase' hseen => exact ⟨hseen ▸ List.prefix_rfl, fun _ => hseen⟩

/-- **The timer queue is correct over whole runs.** -/
theorem timer_queue_law {ms : List (Move TimerState TimerLabel)} {s : TimerState}
    (h : Run timerQueue ms s) : TimerLaw ms s := by
  have hs := run_timer_inv h
  refine ⟨hs.keyed, ?_, fun before m after now hms hl hafter => isDueList_of_run h hms hl hafter,
    ?_, ?_, ?_, ?_⟩
  · intro hidle p hp hout
    exact List.count_eq_one_of_mem hs.pointers_nodup ((hs.pointers_mem hidle).mpr ⟨hout, hp⟩)
  · intro before m after hms hevent
    obtain ⟨hbefore, hstep⟩ := h.split hms
    refine exists_handleRead hbefore ?_
    intro hidle
    obtain ⟨ev, hev⟩ := Option.ne_none_iff_exists'.mp hevent
    rcases (TimerState.step_cases hstep).event_cases hev with
      ⟨e, rest, -, hphase, -⟩ | ⟨e, rest, timer, now, -, hphase, -⟩ | ⟨e, rest, timer, -, hphase, -⟩ <;>
    · rw [hidle] at hphase
      cases hphase
  · intro before m after p timer hms hevent htimer hshot hran
    obtain ⟨hbefore, hstep⟩ := h.split hms
    obtain ⟨x, hx, hran⟩ := List.mem_filterMap.mp hran
    have hspent : m.post.Spent p := by
      rcases (TimerState.step_cases hstep).event_cases hevent with
        ⟨e, rest, hev, hphase, hpost⟩ | ⟨e, rest, _, now, hev, -⟩ | ⟨e, rest, _, hev, -⟩
      · cases hev
        exact spent_of_ran hbefore hphase htimer hshot hpost
      · cases hev
      · cases hev
    have hpre : x.pre.Spent p :=
      h.since_pre hms hspent (fun y _ hy hstep => (TimerState.step_cases hstep).spent hy) x hx
    obtain ⟨-, hstep'⟩ := timerQueue_step h (m := x)
      (hms ▸ List.mem_append_right _ (List.mem_cons_of_mem _ hx))
    rcases hstep'.event_cases hran with
      ⟨e, rest, hev, hphase, -⟩ | ⟨e, rest, _, now, hev, -⟩ | ⟨e, rest, _, hev, -⟩
    · cases hev
      refine hpre.upcoming ?_
      rw [TimerState.upcoming, hphase]
      exact List.mem_cons_self
    · cases hev
    · cases hev
  · intro before m after p hms
    obtain ⟨hbefore, hstep⟩ := h.split hms
    have hpre := run_timer_inv hbefore
    have hfreed := (TimerState.step_cases hstep).deleted_iff (p := p)
    refine ⟨hfreed, ?_⟩
    intro hevent x hx htouches
    obtain ⟨hmem, hgone⟩ := hfreed.mp hevent
    have hid : m.pre.nextId ≤ m.post.nextId := (TimerState.step_cases hstep).nextId_le
    have hdead : m.post.Dead p := ⟨Nat.lt_of_lt_of_le (hpre.ids p hmem) hid, hgone⟩
    obtain ⟨hid', hout⟩ : x.pre.Dead p :=
      h.since_pre hms hdead (fun y _ hy hstep => (TimerState.step_cases hstep).dead hy) x hx
    obtain ⟨-, hstep'⟩ := timerQueue_step h (m := x)
      (hms ▸ List.mem_append_right _ (List.mem_cons_of_mem _ hx))
    rcases hstep'.touches htouches with hmem' | hid''
    · exact hout hmem'
    · exact absurd hid'' (Nat.ne_of_lt hid')
  · intro m hm p hevent
    obtain ⟨hpre, hstep⟩ := timerQueue_step h hm
    rcases hstep.event_cases hevent with
      ⟨e, rest, hev, -⟩ | ⟨e, rest, timer, now, hev, hphase, htimer, -, hl, hpost⟩ |
        ⟨e, rest, _, hev, -⟩
    · cases hev
    · cases hev
      have hout := (hpre.settling hphase).1
      refine ⟨timer, now, hl, htimer, ?_, ?_⟩
      · rw [hpost]
        exact AList.lookup_insert _
      · rw [hpost]
        exact TimerQueue.insert_perm _
          (hpre.address_ne (TimerState.mem_heap_of_lookup htimer) hout)
    · cases hev

/-- A repeating and a one-shot timer, the latter from another thread, and a
third one that is added by a callback and has to wait for the next pass. -/
theorem timer_queue_law_pass : ∃ ms s, Run timerQueue ms s ∧
    labels ms = [.addTimer ⟨3⟩ 1 32 ⟨0⟩, .queueTimer ⟨5⟩ 0 16, .runFunctor ⟨1⟩, .expire ⟨100⟩,
      .handleRead ⟨100⟩, .run, .addTimer ⟨50⟩ 0 48 ⟨101⟩, .returned, .run, .returned, .resetTimers,
      .settle ⟨102⟩, .settle ⟨103⟩, .rearm ⟨104⟩] ∧
    TimerLaw ms s := by
  have h := (Run.start (T := timerQueue) rfl).moves [.addTimer ⟨3⟩ 1 32 ⟨0⟩, .queueTimer ⟨5⟩ 0 16,
    .runFunctor ⟨1⟩, .expire ⟨100⟩, .handleRead ⟨100⟩, .run, .addTimer ⟨50⟩ 0 48 ⟨101⟩, .returned,
    .run, .returned, .resetTimers, .settle ⟨102⟩, .settle ⟨103⟩, .rearm ⟨104⟩] rfl
  exact ⟨_, _, h, rfl, timer_queue_law h⟩

end TinyMuduo
