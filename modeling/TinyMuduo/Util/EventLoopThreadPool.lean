import TinyMuduo.Util.LoopThreadProgress

/-!
# `EventLoopThreadPool::StartLoop`

Translation of `Util/eventloopthreadpool.h` and `StartLoop` of
`Util/eventloopthreadpool.cc`: the base thread makes one `EventLoopThread` after
the other and waits in its `StartLoop`, while the workers made so far run on. The
loop of the worker with index `i` has the address `i`. All workers share
`thread_id_`.
-/

namespace TinyMuduo

open Transition

/-- `threads_`, `loops_`, and `thread_id_` of `thread.h`. -/
structure EventLoopThreadPool where
  threads : List EventLoopThread
  loops : List (Option ℕ)
  threadId : ℕ

inductive PoolStep where
  /-- `threads_.emplace_back`, in the next round of the loop. -/
  | emplace
  /-- A step of the worker with this index, or of the base thread in its `StartLoop`. -/
  | thread (i : ℕ) (l : ThreadStep)
  /-- `loops_.emplace_back`. -/
  | push
deriving DecidableEq

def PoolStep.isSpurious : PoolStep → Bool
  | .thread _ l => l.isSpurious
  | _ => false

namespace EventLoopThreadPool

/-- A pool before `StartLoop`. -/
def new (threadId : ℕ) : EventLoopThreadPool := ⟨[], [], threadId⟩

def next (threadNums : ℤ) (s : EventLoopThreadPool) : PoolStep → Option EventLoopThreadPool
  | .emplace =>
      if s.loops.length = s.threads.length ∧ (s.threads.length : ℤ) < threadNums then
        some { s with threads := s.threads ++ [EventLoopThread.new] }
      else none
  | .thread i l =>
      match s.threads[i]? with
      | some th => (th.next i s.threadId l).map fun p =>
          { s with threads := s.threads.set i p.1, threadId := p.2 }
      | none => none
  | .push =>
      match s.threads.getLast?.map EventLoopThread.starter with
      | some (.returned loop) =>
          if s.loops.length < s.threads.length then some { s with loops := s.loops ++ [loop] }
          else none
      | _ => none

def Started (threadNums : ℤ) (s : EventLoopThreadPool) : Prop :=
  s.loops.length = s.threads.length ∧ ¬ (s.threads.length : ℤ) < threadNums

end EventLoopThreadPool

/-- Runs of `StartLoop` with `thread_nums_` threads. -/
def threadPool (threadNums : ℤ) (threadId : ℕ) : LTS EventLoopThreadPool PoolStep :=
  LTS.ofNext (· = EventLoopThreadPool.new threadId) (EventLoopThreadPool.next threadNums)

/-! ## The workers take their numbers one after the other -/

/-- The worker is past `thread_id_++`. -/
def WorkerPhase.isNamed : WorkerPhase → Bool
  | .constructing | .publishing | .looping => true
  | _ => false

namespace EventLoopThread

/-- What a worker that is to be the one with this number has of it. -/
def Numbered (number : ℕ) (th : EventLoopThread) : Prop :=
  (th.worker.isNamed = true → th.number = some number) ∧
    ∀ k, th.worker = .storing k → k = number ∧ th.number = some number

theorem numbered_new (number : ℕ) : new.Numbered number :=
  ⟨by rintro ⟨⟩, by rintro k ⟨⟩⟩

theorem next_number {address id id' : ℕ} {th th' : EventLoopThread} {l : ThreadStep}
    (hlink : th.Linked address) (hstep : th.next address id l = some (th', id')) :
    (l = .readId ∧ th.worker.isNamed = false ∧ id' = id ∧ th'.worker = .storing id ∧
        th'.number = some id) ∨
      (∃ k, l = .storeId ∧ th.worker = .storing k ∧ id' = k + 1 ∧ th'.worker = .constructing ∧
        th'.number = th.number) ∨
      (id' = id ∧ th'.number = th.number ∧ th'.worker.isNamed = th.worker.isNamed ∧
        ∀ k, th'.worker = .storing k ↔ th.worker = .storing k) := by
  have hcases := next_cases hstep
  cases l with
  | create =>
      obtain ⟨hs, rfl, la, lb, -, -, rfl⟩ := hcases
      have hw := hlink.born.mpr hs
      exact .inr (.inr ⟨rfl, rfl, by rw [hw]; rfl, by simp [hw]⟩)
  | latch l =>
      obtain ⟨rfl, latch, hlatch, ⟨gate, -, -, rfl⟩ | ⟨rfl, rfl⟩ | ⟨-, -, rfl⟩⟩ := hcases
      · exact .inr (.inr ⟨rfl, rfl, rfl, fun _ => Iff.rfl⟩)
      · obtain ⟨-, -, m, hm⟩ := view_of_leave hlatch
        have hw := (hlink.at_countDown (Monitor.State.view_eq.mp hm).1).1
        exact .inr (.inr ⟨rfl, rfl, by rw [hw]; rfl, by simp [hw]⟩)
      · exact .inr (.inr ⟨rfl, rfl, rfl, fun _ => Iff.rfl⟩)
  | gate l =>
      obtain ⟨rfl, gate, hgate, ⟨loop, -, rfl⟩ | ⟨r, rfl, rfl⟩ | ⟨-, -, rfl⟩⟩ := hcases
      · exact .inr (.inr ⟨rfl, rfl, rfl, fun _ => Iff.rfl⟩)
      · obtain ⟨-, -, m, hm⟩ := view_of_leave hgate
        have hw := (hlink.at_publish (Monitor.State.view_eq.mp hm).1).1
        exact .inr (.inr ⟨rfl, rfl, by rw [hw]; rfl, by simp [hw]⟩)
      · exact .inr (.inr ⟨rfl, rfl, rfl, fun _ => Iff.rfl⟩)
  | readId =>
      obtain ⟨hw, rfl, rfl⟩ := hcases
      exact .inl ⟨rfl, by rw [hw]; rfl, rfl, rfl, rfl⟩
  | storeId =>
      obtain ⟨k, hw, rfl, rfl⟩ := hcases
      exact .inr (.inl ⟨k, rfl, hw, rfl, rfl, rfl⟩)
  | construct =>
      obtain ⟨hw, rfl, gate, -, rfl⟩ := hcases
      exact .inr (.inr ⟨rfl, rfl, by rw [hw]; rfl, by simp [hw]⟩)

theorem returned_stays {address id id' : ℕ} {th th' : EventLoopThread} {l : ThreadStep}
    {loop : Option ℕ} (hlink : th.Linked address) (hs : th.starter = .returned loop)
    (hstep : th.next address id l = some (th', id')) : th'.starter = .returned loop := by
  have hcases := next_cases hstep
  cases l with
  | create =>
      obtain ⟨hs', -⟩ := hcases
      rw [hs] at hs'
      cases hs'
  | latch l =>
      obtain ⟨-, latch, hlatch, ⟨gate, rfl, -, rfl⟩ | ⟨-, rfl⟩ | ⟨-, -, rfl⟩⟩ := hcases
      · obtain ⟨-, -, m, hm⟩ := view_of_leave hlatch
        have hs' := (hlink.at_wait (Monitor.State.view_eq.mp hm).1).1
        rw [hs] at hs'
        cases hs'
      · exact hs
      · exact hs
  | gate l =>
      obtain ⟨-, gate, hgate, ⟨r, rfl, rfl⟩ | ⟨r, -, rfl⟩ | ⟨-, -, rfl⟩⟩ := hcases
      · obtain ⟨-, -, m, hm⟩ := view_of_leave hgate
        have hs' := (hlink.at_take (Monitor.State.view_eq.mp hm).1).1
        rw [hs] at hs'
        cases hs'
      · exact hs
      · exact hs
  | readId =>
      obtain ⟨-, -, rfl⟩ := hcases
      exact hs
  | storeId =>
      obtain ⟨k, -, -, rfl⟩ := hcases
      exact hs
  | construct =>
      obtain ⟨-, -, gate, -, rfl⟩ := hcases
      exact hs

theorem Numbered.next {address id id' number : ℕ} {th th' : EventLoopThread} {l : ThreadStep}
    (h : th.Numbered number) (hlink : th.Linked address)
    (hturn : th.worker.isNamed = false → id = number)
    (hstep : th.next address id l = some (th', id')) :
    th'.Numbered number ∧
      (th'.worker.isNamed = false → th.worker.isNamed = false ∧ id' = number) ∧
      (th'.worker.isNamed = true → id' = if th.worker.isNamed then id else number + 1) := by
  rcases next_number hlink hstep with ⟨-, hw, rfl, hw', hn⟩ | ⟨k, -, hw, rfl, hw', hn⟩ |
      ⟨rfl, hn, hnamed, hstoring⟩
  · obtain rfl := hturn hw
    have hnot : th'.worker.isNamed = false := by rw [hw']; rfl
    refine ⟨⟨fun h => ?_, fun k hk => ?_⟩, fun _ => ⟨hw, rfl⟩, fun h => ?_⟩
    · rw [hnot] at h
      cases h
    · rw [hw'] at hk
      cases hk
      exact ⟨rfl, hn⟩
    · rw [hnot] at h
      cases h
  · obtain ⟨rfl, hnumber⟩ := h.2 k hw
    refine ⟨⟨fun _ => hn.trans hnumber, fun j hj => ?_⟩, fun h => ?_, fun _ => ?_⟩
    · rw [hw'] at hj
      cases hj
    · rw [hw'] at h
      cases h
    · rw [hw]
      rfl
  · refine ⟨⟨fun hx => ?_, fun k hk => ?_⟩, fun hx => ?_, fun hx => ?_⟩
    · rw [hn]
      exact h.1 (hnamed ▸ hx)
    · rw [hn]
      exact h.2 k ((hstoring k).mp hk)
    · rw [hnamed] at hx
      exact ⟨hx, hturn hx⟩
    · rw [hnamed] at hx
      rw [hx]
      rfl

end EventLoopThread

/-! ## What one step can do -/

namespace EventLoopThreadPool

variable {threadNums : ℤ} {s s' : EventLoopThreadPool}

theorem next_cases {l : PoolStep} (h : s.next threadNums l = some s') :
    match l with
    | .emplace => s.loops.length = s.threads.length ∧ (s.threads.length : ℤ) < threadNums ∧
        s' = { s with threads := s.threads ++ [EventLoopThread.new] }
    | .thread i l => ∃ th th' id', s.threads[i]? = some th ∧
        th.next i s.threadId l = some (th', id') ∧
        s' = { s with threads := s.threads.set i th', threadId := id' }
    | .push => ∃ th loop, s.threads.getLast? = some th ∧ th.starter = .returned loop ∧
        s.loops.length < s.threads.length ∧ s' = { s with loops := s.loops ++ [loop] } := by
  cases l with
  | emplace =>
      obtain ⟨⟨hlen, hlt⟩, h⟩ := Option.ite_none_right_eq_some.mp h
      exact ⟨hlen, hlt, (Option.some.inj h).symm⟩
  | thread i l =>
      simp only [next] at h
      split at h
      · next th hth =>
          obtain ⟨p, hp, rfl⟩ := Option.map_eq_some_iff.mp h
          exact ⟨th, p.1, p.2, hth, hp, rfl⟩
      · cases h
  | push =>
      simp only [next] at h
      split at h
      · next loop hlast =>
          obtain ⟨th, hth, hs⟩ := Option.map_eq_some_iff.mp hlast
          obtain ⟨hlt, h⟩ := Option.ite_none_right_eq_some.mp h
          exact ⟨th, loop, hth, hs, hlt, (Option.some.inj h).symm⟩
      · cases h

/-! ## The invariant -/

/-- The base thread is in at most one `StartLoop`, the last one, and only its
worker may not have its number yet. -/
structure InOrder (threadNums : ℤ) (start : ℕ) (s : EventLoopThreadPool) : Prop where
  linked : ∀ (i : ℕ) (th : EventLoopThread), s.threads[i]? = some th → th.Linked i
  numbered : ∀ (i : ℕ) (th : EventLoopThread), s.threads[i]? = some th → th.Numbered (start + i)
  started : ∀ (i : ℕ) (th : EventLoopThread), s.threads[i]? = some th → i < s.loops.length →
    th.starter = .returned (some i)
  loops : s.loops = (List.range s.loops.length).map some
  le : s.loops.length ≤ s.threads.length
  le_succ : s.threads.length ≤ s.loops.length + 1
  le_nums : s.threads.length ≤ threadNums.toNat
  unnamed : ∀ (i : ℕ) (th : EventLoopThread), s.threads[i]? = some th → th.worker.isNamed = false →
    s.threadId = start + i
  named : (∀ (i : ℕ) (th : EventLoopThread), s.threads[i]? = some th → th.worker.isNamed = true) →
    s.threadId = start + s.threads.length

theorem inOrder_new (threadNums : ℤ) (start : ℕ) : InOrder threadNums start (new start) where
  linked i th h := by cases h
  numbered i th h := by cases h
  started i th h := by cases h
  loops := rfl
  le := Nat.le_refl 0
  le_succ := Nat.zero_le 1
  le_nums := Nat.zero_le _
  unnamed i th h := by cases h
  named _ := rfl

theorem InOrder.serving {start : ℕ} (h : InOrder threadNums start s) {i : ℕ} {th : EventLoopThread}
    (hth : s.threads[i]? = some th) (hi : i < s.loops.length) :
    th.worker = .publishing ∨ th.worker = .looping := by
  have hlink := h.linked i th hth
  obtain ⟨-, hv⟩ := hlink.returned _ (h.started i th hth hi)
  rcases hlink.loop with ⟨-, hw⟩ | ⟨hnone, -⟩
  · exact hw
  · rw [hnone] at hv
    cases hv

theorem InOrder.last_of_unnamed {start : ℕ} (h : InOrder threadNums start s) {i : ℕ}
    {th : EventLoopThread} (hth : s.threads[i]? = some th) (hw : th.worker.isNamed = false) :
    i + 1 = s.threads.length ∧ s.loops.length = i := by
  have hi := (List.getElem?_eq_some_iff.mp hth).1
  have hle := h.le
  have hsucc := h.le_succ
  by_cases hlt : i < s.loops.length
  · rcases h.serving hth hlt with hs | hs
    · rw [hs] at hw
      cases hw
    · rw [hs] at hw
      cases hw
  · omega

theorem getElem?_set_cases {threads : List EventLoopThread} {i j : ℕ} {th th' x : EventLoopThread}
    (hth : threads[i]? = some th) (h : (threads.set i th')[j]? = some x) :
    (j = i ∧ x = th') ∨ (j ≠ i ∧ threads[j]? = some x) := by
  by_cases hji : j = i
  · subst hji
    have hlt := (List.getElem?_eq_some_iff.mp hth).1
    rw [List.getElem?_set_self hlt] at h
    exact .inl ⟨rfl, (Option.some.inj h).symm⟩
  · rw [List.getElem?_set_ne (Ne.symm hji)] at h
    exact .inr ⟨hji, h⟩

theorem getElem?_snoc_cases {threads : List EventLoopThread} {j : ℕ} {th x : EventLoopThread}
    (h : (threads ++ [th])[j]? = some x) :
    (j = threads.length ∧ x = th) ∨ (j < threads.length ∧ threads[j]? = some x) := by
  rcases Nat.lt_trichotomy j threads.length with hj | hj | hj
  · rw [List.getElem?_append_left hj] at h
    exact .inr ⟨hj, h⟩
  · subst hj
    rw [List.getElem?_concat_length] at h
    exact .inl ⟨rfl, (Option.some.inj h).symm⟩
  · rw [List.getElem?_eq_none (by simp; omega)] at h
    cases h

theorem InOrder.emplace {start : ℕ} (h : InOrder threadNums start s)
    (hlen : s.loops.length = s.threads.length) (hlt : (s.threads.length : ℤ) < threadNums) :
    InOrder threadNums start { s with threads := s.threads ++ [EventLoopThread.new] } := by
  -- everybody made so far has a number
  have hnamed : ∀ (i : ℕ) (th : EventLoopThread), s.threads[i]? = some th → th.worker.isNamed = true := by
    intro i th hth
    by_contra hw
    have hlast := h.last_of_unnamed hth (Bool.eq_false_iff.mpr hw)
    omega
  have hid := h.named hnamed
  refine ⟨?_, ?_, ?_, h.loops, ?_, ?_, ?_, ?_, ?_⟩
  · intro i th hth
    rcases getElem?_snoc_cases hth with ⟨-, rfl⟩ | ⟨-, hth⟩
    · exact EventLoopThread.linked_new i
    · exact h.linked i th hth
  · intro i th hth
    rcases getElem?_snoc_cases hth with ⟨-, rfl⟩ | ⟨-, hth⟩
    · exact EventLoopThread.numbered_new _
    · exact h.numbered i th hth
  · intro i th hth hi
    rcases getElem?_snoc_cases hth with ⟨rfl, -⟩ | ⟨-, hth⟩
    · exact absurd hi (by simp only; omega)
    · exact h.started i th hth hi
  · simp only [List.length_append, List.length_singleton]
    omega
  · simp only [List.length_append, List.length_singleton]
    omega
  · simp only [List.length_append, List.length_singleton]
    omega
  · intro i th hth hw
    rcases getElem?_snoc_cases hth with ⟨rfl, -⟩ | ⟨-, hth⟩
    · exact hid
    · rw [hnamed i th hth] at hw
      cases hw
  · intro hall
    have hnew := hall s.threads.length EventLoopThread.new List.getElem?_concat_length
    cases hnew

theorem InOrder.push {start : ℕ} (h : InOrder threadNums start s) {th : EventLoopThread}
    {loop : Option ℕ} (hth : s.threads.getLast? = some th) (hs : th.starter = .returned loop)
    (hlt : s.loops.length < s.threads.length) :
    InOrder threadNums start { s with loops := s.loops ++ [loop] } := by
  have hle := h.le_succ
  rw [List.getLast?_eq_getElem?] at hth
  have hindex : s.threads.length - 1 = s.loops.length := by omega
  rw [hindex] at hth
  obtain ⟨rfl, -⟩ := (h.linked _ th hth).returned loop hs
  refine ⟨h.linked, h.numbered, ?_, ?_, ?_, ?_, h.le_nums, h.unnamed, h.named⟩
  · intro i th' hth' hi
    rw [List.length_append, List.length_singleton] at hi
    rcases Nat.lt_succ_iff_lt_or_eq.mp hi with hi | rfl
    · exact h.started i th' hth' hi
    · rw [hth] at hth'
      cases hth'
      exact hs
  · rw [List.length_append, List.length_singleton, List.range_succ, List.map_append, ← h.loops]
    rfl
  · simp only [List.length_append, List.length_singleton]
    omega
  · simp only [List.length_append, List.length_singleton]
    omega

theorem InOrder.thread {start i id' : ℕ} (h : InOrder threadNums start s)
    {th th' : EventLoopThread} {l : ThreadStep} (hth : s.threads[i]? = some th)
    (hstep : th.next i s.threadId l = some (th', id')) :
    InOrder threadNums start { s with threads := s.threads.set i th', threadId := id' } := by
  have hlink := h.linked i th hth
  obtain ⟨hnumbered, hunnamed, hnamed⟩ :=
    (h.numbered i th hth).next hlink (h.unnamed i th hth) hstep
  have hstays : th.worker.isNamed = true → th'.worker.isNamed = true := by
    intro hw
    by_contra hno
    rw [(hunnamed (Bool.eq_false_iff.mpr hno)).1] at hw
    cases hw
  refine ⟨?_, ?_, ?_, h.loops, ?_, ?_, ?_, ?_, ?_⟩
  · intro j x hx
    rcases getElem?_set_cases hth hx with ⟨rfl, rfl⟩ | ⟨-, hx⟩
    · exact hlink.next hstep
    · exact h.linked j x hx
  · intro j x hx
    rcases getElem?_set_cases hth hx with ⟨rfl, rfl⟩ | ⟨-, hx⟩
    · exact hnumbered
    · exact h.numbered j x hx
  · intro j x hx hj
    rcases getElem?_set_cases hth hx with ⟨rfl, rfl⟩ | ⟨-, hx⟩
    · exact EventLoopThread.returned_stays hlink (h.started j th hth hj) hstep
    · exact h.started j x hx hj
  · rw [List.length_set]
    exact h.le
  · rw [List.length_set]
    exact h.le_succ
  · rw [List.length_set]
    exact h.le_nums
  · intro j x hx hw
    rcases getElem?_set_cases hth hx with ⟨rfl, rfl⟩ | ⟨hji, hx⟩
    · exact (hunnamed hw).2
    · -- the last worker is unnamed, so the one that moves is named and leaves the counter alone
      have hlast := h.last_of_unnamed hx hw
      have hth' : th.worker.isNamed = true := by
        by_contra hno
        have hlast' := h.last_of_unnamed hth (Bool.eq_false_iff.mpr hno)
        omega
      have hid := hnamed (hstays hth')
      rw [if_pos hth'] at hid
      exact hid.trans (h.unnamed j x hx hw)
  · intro hall
    rw [List.length_set] at *
    have hi := (List.getElem?_eq_some_iff.mp hth).1
    have hself : th'.worker.isNamed = true := hall i th' (List.getElem?_set_self hi)
    have hid := hnamed hself
    cases hw : th.worker.isNamed with
    | false =>
        obtain ⟨hlast, -⟩ := h.last_of_unnamed hth hw
        rw [hw] at hid
        exact hid.trans (by rw [if_neg Bool.false_ne_true]; omega)
    | true =>
        rw [hw, if_pos rfl] at hid
        refine hid.trans (h.named fun j x hx => ?_)
        by_cases hji : j = i
        · subst hji
          rw [hth] at hx
          cases hx
          exact hw
        · exact hall j x (by rw [List.getElem?_set_ne (Ne.symm hji)]; exact hx)

/-- **A step of anybody keeps it.** -/
theorem InOrder.next {start : ℕ} (h : InOrder threadNums start s) {l : PoolStep}
    (hstep : s.next threadNums l = some s') : InOrder threadNums start s' := by
  have hcases := next_cases hstep
  cases l with
  | emplace =>
      obtain ⟨hlen, hlt, rfl⟩ := hcases
      exact h.emplace hlen hlt
  | thread i l =>
      obtain ⟨th, th', id', hth, hthread, rfl⟩ := hcases
      exact h.thread hth hthread
  | push =>
      obtain ⟨th, loop, hth, hs, hlt, rfl⟩ := hcases
      exact h.push hth hs hlt

theorem reachable_inOrder {start : ℕ} (h : Reachable (threadPool threadNums start) s) :
    InOrder threadNums start s := by
  obtain ⟨ms, hrun⟩ := h
  refine Run.invariant (I := InOrder threadNums start) ?_ ?_ hrun
  · rintro s rfl
    exact inOrder_new threadNums start
  · intro s l s' hs hstep
    exact hs.next hstep

/-! ## `StartLoop` returns -/

theorem exists_push {start : ℕ} (h : InOrder threadNums start s) {th : EventLoopThread}
    (hth : s.threads[s.loops.length]? = some th) {loop : Option ℕ}
    (hs : th.starter = .returned loop) : ∃ s', s.next threadNums .push = some s' := by
  have hlt := (List.getElem?_eq_some_iff.mp hth).1
  have hle := h.le_succ
  have hindex : s.threads.length - 1 = s.loops.length := by omega
  have hlast : s.threads.getLast?.map EventLoopThread.starter = some (.returned loop) := by
    rw [List.getLast?_eq_getElem?, hindex, hth]
    exact congrArg some hs
  simp only [next, hlast, if_pos hlt]
  exact ⟨_, rfl⟩

/-- As long as `StartLoop` has not returned somebody can move by himself. -/
theorem start_moves {start : ℕ} (h : InOrder threadNums start s)
    (hgoing : ¬ s.Started threadNums) :
    ∃ l, PoolStep.isSpurious l = false ∧ ∃ s', s.next threadNums l = some s' := by
  by_cases hlen : s.loops.length = s.threads.length
  · have hlt : (s.threads.length : ℤ) < threadNums := not_not.mp fun hno => hgoing ⟨hlen, hno⟩
    exact ⟨.emplace, rfl, _, if_pos ⟨hlen, hlt⟩⟩
  · have hle := h.le
    have hlt : s.loops.length < s.threads.length := by omega
    obtain ⟨th, hth⟩ : ∃ th, s.threads[s.loops.length]? = some th :=
      ⟨_, List.getElem?_eq_getElem hlt⟩
    by_cases hs : ∃ loop, th.starter = .returned loop
    · obtain ⟨loop, hs⟩ := hs
      exact ⟨.push, rfl, exists_push h hth hs⟩
    · obtain ⟨l, hl, p, hp⟩ := EventLoopThread.start_moves (h.linked _ th hth) s.threadId
        fun loop hloop => hs ⟨loop, hloop⟩
      refine ⟨.thread s.loops.length l, hl, ?_⟩
      simp only [next, hth, hp, Option.map_some]
      exact ⟨_, rfl⟩

def threadsWork : List EventLoopThread → ℕ
  | [] => 0
  | th :: threads => th.work + threadsWork threads

theorem threadsWork_snoc (th : EventLoopThread) : ∀ threads : List EventLoopThread,
    threadsWork (threads ++ [th]) = threadsWork threads + th.work := by
  intro threads
  induction threads with
  | nil => exact Nat.add_comm _ _
  | cons x threads ih =>
      rw [List.cons_append, threadsWork, threadsWork, ih]
      omega

theorem threadsWork_set {th th' : EventLoopThread} : ∀ {threads : List EventLoopThread} {i : ℕ},
    threads[i]? = some th →
      threadsWork (threads.set i th') + th.work = threadsWork threads + th'.work := by
  intro threads
  induction threads with
  | nil =>
      intro i h
      cases h
  | cons x threads ih =>
      intro i h
      cases i with
      | zero =>
          cases h
          rw [List.set_cons_zero, threadsWork, threadsWork]
          omega
      | succ i =>
          have hrest := ih (i := i) h
          rw [List.set_cons_succ, threadsWork, threadsWork]
          omega

/-- What is still to be done: 38 steps for a thread that is not there yet, one to
push the loop of one that is. -/
def work (threadNums : ℤ) (s : EventLoopThreadPool) : ℕ :=
  threadsWork s.threads + 38 * (threadNums.toNat - s.threads.length) +
    (s.threads.length - s.loops.length)

theorem InOrder.next_work {start : ℕ} (h : InOrder threadNums start s) {l : PoolStep}
    (hstep : s.next threadNums l = some s') :
    (l.isSpurious = false → s'.work threadNums < s.work threadNums) ∧
      (l.isSpurious = true → s'.work threadNums ≤ s.work threadNums + 2) := by
  have hcases := next_cases hstep
  cases l with
  | emplace =>
      obtain ⟨hlen, hlt, rfl⟩ := hcases
      have hwork := EventLoopThread.work_new
      refine ⟨fun _ => ?_, by rintro ⟨⟩⟩
      simp only [work, threadsWork_snoc, List.length_append, List.length_singleton]
      omega
  | thread i l =>
      obtain ⟨th, th', id', hth, hthread, rfl⟩ := hcases
      have hset : threadsWork (s.threads.set i th') + th.work = _ := threadsWork_set hth
      obtain ⟨hless, hmore⟩ := EventLoopThread.next_work (h.linked i th hth) hthread
      simp only [work, List.length_set]
      exact ⟨fun hl => by have := hless hl; omega, fun hl => by have := hmore hl; omega⟩
  | push =>
      obtain ⟨th, loop, -, -, hlt, rfl⟩ := hcases
      refine ⟨fun _ => ?_, by rintro ⟨⟩⟩
      simp only [work, List.length_append, List.length_singleton]
      omega

end EventLoopThreadPool

/-- **`EventLoopThreadPool::StartLoop`**, under every interleaving of the base thread
and the workers and with wake-ups for no reason. The pointers in `loops_` are
those of the loops of the workers, in order and none of them null, and each
worker is in its `Loop` or about to enter it, under a number of its own. As long
as `StartLoop` has not returned somebody can move, and all threads together make
a bounded number of steps, so it does return, with `thread_nums_` loops. -/
theorem pool_starts {threadNums : ℤ} {start : ℕ} {ms : List (Move EventLoopThreadPool PoolStep)}
    {s : EventLoopThreadPool} (h : Run (threadPool threadNums start) ms s) :
    s.loops = (List.range s.loops.length).map some ∧
      (∀ i < s.loops.length, ∃ th, s.threads[i]? = some th ∧
        (th.worker = .publishing ∨ th.worker = .looping) ∧ th.number = some (start + i)) ∧
      (¬ s.Started threadNums →
        ∃ l, PoolStep.isSpurious l = false ∧ ∃ t, s.next threadNums l = some t) ∧
      (labels ms).countP (!PoolStep.isSpurious ·) ≤
        38 * threadNums.toNat + 2 * (labels ms).countP PoolStep.isSpurious ∧
      (s.Started threadNums → s.loops.length = threadNums.toNat) := by
  have hin := EventLoopThreadPool.reachable_inOrder ⟨ms, h⟩
  refine ⟨hin.loops, ?_, EventLoopThreadPool.start_moves hin, ?_, ?_⟩
  · intro i hi
    obtain ⟨th, hth⟩ : ∃ th, s.threads[i]? = some th :=
      ⟨_, List.getElem?_eq_getElem (Nat.lt_of_lt_of_le hi hin.le)⟩
    have hserving := hin.serving hth hi
    refine ⟨th, hth, hserving, (hin.numbered i th hth).1 ?_⟩
    rcases hserving with hw | hw <;> rw [hw] <;> rfl
  · have hbound := Run.potential (EventLoopThreadPool.work threadNums) (!PoolStep.isSpurious ·)
      (38 * threadNums.toNat) 2
      (by rintro s rfl; simp [EventLoopThreadPool.work, EventLoopThreadPool.new,
        EventLoopThreadPool.threadsWork])
      (fun s l t hs hstep hl => (((EventLoopThreadPool.reachable_inOrder hs).next_work hstep).1
        (by simpa using hl)))
      (fun s l t hs hstep hl => (((EventLoopThreadPool.reachable_inOrder hs).next_work hstep).2
        (by simpa using hl))) h
    simp only [Bool.not_not] at hbound
    exact le_trans (Nat.le_add_right _ _) hbound
  · rintro ⟨hlen, hlt⟩
    have hle := hin.le_nums
    omega

/-- One thread: the base thread sleeps at the latch and twice at `loop_`, once woken
for nothing. -/
theorem pool_starts_one : ∃ ms s, Run (threadPool 1 1) ms s ∧ s.Started 1 ∧
    s.loops = [some 0] ∧ (labels ms).countP (!PoolStep.isSpurious ·) ≤
      38 + 2 * (labels ms).countP PoolStep.isSpurious := by
  have h := (Run.start (T := threadPool 1 1) rfl).moves [.emplace, .thread 0 .create,
    .thread 0 (.latch (.lock .starter)), .thread 0 (.latch (.test .starter)),
    .thread 0 (.latch (.lock .worker)), .thread 0 (.latch (.test .worker)),
    .thread 0 (.latch (.signal .worker {.starter})), .thread 0 (.latch (.leave .worker ())),
    .thread 0 (.latch (.lock .starter)), .thread 0 (.latch (.test .starter)),
    .thread 0 (.latch (.signal .starter ∅)), .thread 0 (.latch (.leave .starter ())),
    .thread 0 (.gate (.lock .starter)), .thread 0 (.gate (.test .starter)),
    .thread 0 .readId, .thread 0 .storeId, .thread 0 .construct,
    .thread 0 (.gate (.spurious .starter)), .thread 0 (.gate (.lock .starter)),
    .thread 0 (.gate (.test .starter)), .thread 0 (.gate (.lock .worker)),
    .thread 0 (.gate (.test .worker)), .thread 0 (.gate (.signal .worker {.starter})),
    .thread 0 (.gate (.leave .worker none)), .thread 0 (.gate (.lock .starter)),
    .thread 0 (.gate (.test .starter)), .thread 0 (.gate (.signal .starter ∅)),
    .thread 0 (.gate (.leave .starter (some 0))), .push] rfl
  obtain ⟨hloops, -, -, hbound, -⟩ := pool_starts h
  exact ⟨_, _, h, ⟨rfl, by decide⟩, hloops, hbound⟩

end TinyMuduo
