import TinyMuduo.Base.Latch

/-!
# `EventLoopThread`: how a loop gets its thread

Translation of `Util/thread.h`, `Util/thread.cc` and `Util/eventloopthread.cc`.
The starter is the thread that calls `StartLoop`, the worker the one it creates.
They meet twice: at the latch of `Thread`, and at `loop_`, which the worker
publishes under `mutex_`. The worker takes its number from `thread_id_` between
the two meetings, without a lock. The `EventLoop` is a local variable of the
worker; its name is the address `address` and it is there from `constructing`
on, as `Loop` does not return.
-/

namespace TinyMuduo

open Transition Monitor Methods

inductive Party where
  | starter
  | worker
deriving DecidableEq

instance : Fintype Party where
  elems := {.starter, .worker}
  complete t := by cases t <;> simp

/-! ## The monitor around `loop_` -/

/-- The critical sections of `StartLoop` and of `StartFunc`. -/
inductive LoopCall where
  | take
  | publish (address : ℕ)
deriving DecidableEq

namespace LoopCall

def methods : Methods LoopCall (Option ℕ) (Option ℕ) where
  guard
    | .take, loop => loop.isSome
    | .publish _, _ => true
  body
    | .take, loop => (loop, loop)
    | .publish address, _ => (none, some address)
  signal
    | .take, _ => .nobody
    | .publish _, _ => .one

end LoopCall

/-! ## The two threads -/

inductive StarterPhase where
  /-- `pthread_create` is to come. -/
  | creating
  /-- In `latch_.Wait()`. -/
  | waiting
  /-- In the critical section of `StartLoop`. -/
  | taking
  | returned (loop : Option ℕ)
deriving DecidableEq

inductive WorkerPhase where
  | unborn
  /-- In `latch_->CountDown()`. -/
  | counting
  /-- Before and between the read and the write of `thread_id_++`. -/
  | naming
  | storing (id : ℕ)
  /-- `EventLoop loop` is to come. -/
  | constructing
  /-- In the critical section of `StartFunc`. -/
  | publishing
  /-- In `loop_->Loop()`. -/
  | looping
deriving DecidableEq

structure EventLoopThread where
  latch : State Party LatchCall ℤ Unit
  gate : State Party LoopCall (Option ℕ) (Option ℕ)
  starter : StarterPhase
  worker : WorkerPhase
  /-- The number in the name `prctl` gives the worker. -/
  number : Option ℕ

inductive ThreadStep where
  | create
  | latch (l : Label Party LatchCall Unit)
  | gate (l : Label Party LoopCall (Option ℕ))
  | readId
  | storeId
  | construct
deriving DecidableEq

/-- A wake-up for no reason. -/
def ThreadStep.isSpurious : ThreadStep → Bool
  | .latch (.spurious _) | .gate (.spurious _) => true
  | _ => false

namespace EventLoopThread

def new : EventLoopThread where
  latch := State.new 1
  gate := State.new none
  starter := .creating
  worker := .unborn
  number := none

/-- `StartThread` up to `latch_.Wait()`, with the `CountDown` of the new thread. -/
def create (th : EventLoopThread) : Option EventLoopThread := do
  let latch ← Latch.methods.next th.latch (.call .starter .wait)
  let latch ← Latch.methods.next latch (.call .worker .countDown)
  return { th with latch := latch, starter := .waiting, worker := .counting }

/-- A step at the latch. A thread that leaves it goes on. -/
def atLatch (th : EventLoopThread) (l : Label Party LatchCall Unit) : Option EventLoopThread := do
  let latch ← Latch.methods.next th.latch l
  match l with
  | .call _ _ => none
  | .leave .starter _ =>
      let gate ← LoopCall.methods.next th.gate (.call .starter .take)
      return { th with latch := latch, gate := gate, starter := .taking }
  | .leave .worker _ => return { th with latch := latch, worker := .naming }
  | _ => return { th with latch := latch }

/-- A step at `mutex_` and `cond_`. -/
def atGate (th : EventLoopThread) (l : Label Party LoopCall (Option ℕ)) :
    Option EventLoopThread := do
  let gate ← LoopCall.methods.next th.gate l
  match l with
  | .call _ _ => none
  | .leave .starter loop => return { th with gate := gate, starter := .returned loop }
  | .leave .worker _ => return { th with gate := gate, worker := .looping }
  | _ => return { th with gate := gate }

/-- One step of the starter or of the worker; `threadId` is `thread_id_`. -/
def next (address threadId : ℕ) (th : EventLoopThread) :
    ThreadStep → Option (EventLoopThread × ℕ)
  | .create => if th.starter = .creating then th.create.map (·, threadId) else none
  | .latch l => (th.atLatch l).map (·, threadId)
  | .gate l => (th.atGate l).map (·, threadId)
  | .readId =>
      if th.worker = .naming then
        some ({ th with worker := .storing threadId, number := some threadId }, threadId)
      else none
  | .storeId =>
      match th.worker with
      | .storing id => some ({ th with worker := .constructing }, id + 1)
      | _ => none
  | .construct =>
      if th.worker = .constructing then
        (LoopCall.methods.next th.gate (.call .worker (.publish address))).map fun gate =>
          ({ th with gate := gate, worker := .publishing }, threadId)
      else none

/-! ## What one step can do -/

theorem next_cases {address id id' : ℕ} {th th' : EventLoopThread} {l : ThreadStep}
    (h : th.next address id l = some (th', id')) :
    match l with
    | .create => th.starter = .creating ∧ id' = id ∧ ∃ la lb,
        Latch.methods.next th.latch (.call .starter .wait) = some la ∧
        Latch.methods.next la (.call .worker .countDown) = some lb ∧
        th' = { th with latch := lb, starter := .waiting, worker := .counting }
    | .latch l => id' = id ∧ ∃ latch, Latch.methods.next th.latch l = some latch ∧
        ((∃ gate, l = .leave .starter () ∧
            LoopCall.methods.next th.gate (.call .starter .take) = some gate ∧
            th' = { th with latch := latch, gate := gate, starter := .taking }) ∨
          (l = .leave .worker () ∧ th' = { th with latch := latch, worker := .naming }) ∨
          ((∀ t m, l ≠ .call t m) ∧ (∀ t r, l ≠ .leave t r) ∧ th' = { th with latch := latch }))
    | .gate l => id' = id ∧ ∃ gate, LoopCall.methods.next th.gate l = some gate ∧
        ((∃ loop, l = .leave .starter loop ∧
            th' = { th with gate := gate, starter := .returned loop }) ∨
          (∃ r, l = .leave .worker r ∧ th' = { th with gate := gate, worker := .looping }) ∨
          ((∀ t m, l ≠ .call t m) ∧ (∀ t r, l ≠ .leave t r) ∧ th' = { th with gate := gate }))
    | .readId => th.worker = .naming ∧ id' = id ∧
        th' = { th with worker := .storing id, number := some id }
    | .storeId => ∃ k, th.worker = .storing k ∧ id' = k + 1 ∧
        th' = { th with worker := .constructing }
    | .construct => th.worker = .constructing ∧ id' = id ∧ ∃ gate,
        LoopCall.methods.next th.gate (.call .worker (.publish address)) = some gate ∧
        th' = { th with gate := gate, worker := .publishing } := by
  cases l with
  | create =>
      simp only [next, create, Option.ite_none_right_eq_some, Option.map_eq_some_iff,
        Option.bind_eq_bind, Option.bind_eq_some_iff, Option.pure_def, Option.some.injEq,
        Prod.mk.injEq] at h
      obtain ⟨hs, t, ⟨la, hla, lb, hlb, rfl⟩, rfl, rfl⟩ := h
      exact ⟨hs, rfl, la, lb, hla, hlb, rfl⟩
  | latch l =>
      simp only [next, atLatch, Option.map_eq_some_iff, Option.bind_eq_bind,
        Option.bind_eq_some_iff, Prod.mk.injEq] at h
      obtain ⟨t, ⟨latch, hlatch, ht⟩, rfl, rfl⟩ := h
      refine ⟨rfl, latch, hlatch, ?_⟩
      cases l with
      | call t m => cases ht
      | leave t r =>
          cases t with
          | starter =>
              obtain ⟨gate, hgate, heq⟩ := Option.bind_eq_some_iff.mp ht
              cases heq
              exact .inl ⟨gate, rfl, hgate, rfl⟩
          | worker =>
              cases ht
              exact .inr (.inl ⟨rfl, rfl⟩)
      | _ =>
          cases ht
          exact .inr (.inr ⟨by rintro _ _ ⟨⟩, by rintro _ _ ⟨⟩, rfl⟩)
  | gate l =>
      simp only [next, atGate, Option.map_eq_some_iff, Option.bind_eq_bind,
        Option.bind_eq_some_iff, Prod.mk.injEq] at h
      obtain ⟨t, ⟨gate, hgate, ht⟩, rfl, rfl⟩ := h
      refine ⟨rfl, gate, hgate, ?_⟩
      cases l with
      | call t m => cases ht
      | leave t r =>
          cases t with
          | starter =>
              cases ht
              exact .inl ⟨r, rfl, rfl⟩
          | worker =>
              cases ht
              exact .inr (.inl ⟨r, rfl, rfl⟩)
      | _ =>
          cases ht
          exact .inr (.inr ⟨by rintro _ _ ⟨⟩, by rintro _ _ ⟨⟩, rfl⟩)
  | readId =>
      obtain ⟨hw, h⟩ := Option.ite_none_right_eq_some.mp h
      cases h
      exact ⟨hw, rfl, rfl⟩
  | storeId =>
      simp only [next] at h
      split at h
      · next k hk =>
          cases h
          exact ⟨k, hk, rfl, rfl⟩
      · cases h
  | construct =>
      obtain ⟨hw, h⟩ := Option.ite_none_right_eq_some.mp h
      obtain ⟨gate, hgate, heq⟩ := Option.map_eq_some_iff.mp h
      cases heq
      exact ⟨hw, rfl, gate, hgate, rfl⟩

/-! ## Where the two threads are -/

end EventLoopThread

/-- Who enters the critical sections around `loop_`. -/
def LoopCall.may (address : ℕ) : Party → LoopCall → Prop
  | .starter, c => c = .take
  | .worker, c => c = .publish address

namespace EventLoopThread

/-- The monitors and the phases of the two threads belong together. -/
structure Linked (address : ℕ) (th : EventLoopThread) : Prop where
  latch : Reachable (Latch.system Party 1) th.latch
  gate : Reachable (LoopCall.methods.system (LoopCall.may address) none) th.gate
  waiting : (th.latch.phase .starter).method =
    if th.starter = .waiting then some .wait else none
  counting : (th.latch.phase .worker).method =
    if th.worker = .counting then some .countDown else none
  taking : (th.gate.phase .starter).method = if th.starter = .taking then some .take else none
  publishing : (th.gate.phase .worker).method =
    if th.worker = .publishing then some (.publish address) else none
  born : th.worker = .unborn ↔ th.starter = .creating
  /-- The latch is open once the worker has counted. -/
  count : th.latch.value ≤ 1 ∧ (0 < th.latch.value →
    th.worker = .unborn ∨ th.worker = .counting ∧ (th.latch.phase .worker).outcome = none)
  /-- The loop is there once the worker has published it. -/
  loop : th.gate.value = some address ∧ (th.worker = .publishing ∨ th.worker = .looping) ∨
    th.gate.value = none ∧ th.worker ≠ .looping ∧ (th.gate.phase .worker).outcome = none
  taken : ∀ m r, (th.gate.phase .starter).outcome = some (m, r) → r = some address ∧
    th.gate.value = some address
  returned : ∀ r, th.starter = .returned r → r = some address ∧ th.gate.value = some address

theorem linked_new (address : ℕ) : new.Linked address where
  latch := .start rfl
  gate := .start rfl
  waiting := rfl
  counting := rfl
  taking := rfl
  publishing := rfl
  born := ⟨fun _ => rfl, fun _ => rfl⟩
  count := ⟨le_refl 1, fun _ => .inl rfl⟩
  loop := .inr ⟨rfl, by decide, rfl⟩
  taken _ _ h := by cases h
  returned _ h := by cases h

section

variable {address : ℕ} {th : EventLoopThread} (h : th.Linked address)

include h

/-- The starter is at the latch for `Wait` only. -/
theorem Linked.at_wait {m : LatchCall} (hm : (th.latch.phase .starter).method = some m) :
    th.starter = .waiting ∧ m = .wait := by
  rw [h.waiting, Option.ite_none_right_eq_some] at hm
  exact ⟨hm.1, (Option.some.inj hm.2).symm⟩

theorem Linked.at_countDown {m : LatchCall} (hm : (th.latch.phase .worker).method = some m) :
    th.worker = .counting ∧ m = .countDown := by
  rw [h.counting, Option.ite_none_right_eq_some] at hm
  exact ⟨hm.1, (Option.some.inj hm.2).symm⟩

theorem Linked.at_take {m : LoopCall} (hm : (th.gate.phase .starter).method = some m) :
    th.starter = .taking ∧ m = .take := by
  rw [h.taking, Option.ite_none_right_eq_some] at hm
  exact ⟨hm.1, (Option.some.inj hm.2).symm⟩

theorem Linked.at_publish {m : LoopCall} (hm : (th.gate.phase .worker).method = some m) :
    th.worker = .publishing ∧ m = .publish address := by
  rw [h.publishing, Option.ite_none_right_eq_some] at hm
  exact ⟨hm.1, (Option.some.inj hm.2).symm⟩

end

/-- A step at the latch that is no call: only a worker that has not counted keeps it
closed. -/
theorem latch_count {address : ℕ} {th : EventLoopThread} (h : th.Linked address)
    {l : Label Party LatchCall Unit} {latch : State Party LatchCall ℤ Unit}
    (hstep : Latch.methods.next th.latch l = some latch) (hcall : ∀ t m, l ≠ .call t m) :
    latch.value ≤ 1 ∧ (0 < latch.value → (∀ r, l ≠ .leave .worker r) ∧
      (th.worker = .unborn ∨ th.worker = .counting ∧
        (latch.phase .worker).outcome = none)) := by
  obtain ⟨hle, hpos⟩ := h.count
  have hacts := Latch.methods.next_acts hstep
  cases hacts with
  | call => exact absurd rfl (hcall _ _)
  | @run t m _ hview _ hview' hvalue =>
      have hmethod := (State.view_eq.mp hview).1
      cases t with
      | starter =>
          -- only `Wait`, which leaves the count alone
          obtain ⟨-, rfl⟩ := h.at_wait hmethod
          have hworker : (latch.phase .worker).outcome = (th.latch.phase .worker).outcome := by
            have hw := congrFun hview' .worker
            rw [Function.update_of_ne (by decide)] at hw
            exact congrArg Prod.snd hw
          rw [hvalue, hworker]
          exact ⟨hle, fun h0 => ⟨by rintro r ⟨⟩, hpos h0⟩⟩
      | worker =>
          obtain ⟨-, rfl⟩ := h.at_countDown hmethod
          have hdown : latch.value = th.latch.value - 1 := hvalue
          rw [hdown]
          exact ⟨by omega, fun h => by omega⟩
  | @leave t m r _ hview hview' hvalue =>
      rw [hvalue]
      refine ⟨hle, fun h0 => ?_⟩
      cases t with
      | starter =>
          have hsame := congrFun hview' .worker
          rw [Function.update_of_ne (by decide)] at hsame
          refine ⟨by rintro r ⟨⟩, (hpos h0).imp id fun hw => ⟨hw.1, ?_⟩⟩
          exact (congrArg Prod.snd hsame).trans hw.2
      | worker =>
          obtain ⟨hin, hout⟩ := State.view_eq.mp hview
          rcases hpos h0 with hw | ⟨-, hnone⟩
          · rw [h.counting, hw] at hin
            cases hin
          · rw [hnone] at hout
            cases hout
  | silent _ hleave hview hvalue =>
      have hw := congrArg Prod.snd (congrFun hview .worker)
      rw [hvalue]
      exact ⟨hle, fun h0 => ⟨hleave .worker, (hpos h0).imp id fun h => ⟨h.1, hw.trans h.2⟩⟩⟩

/-- A step at `mutex_` that is no call: what was published stays, and only what was
published is taken. -/
theorem gate_loop {address : ℕ} {th : EventLoopThread} (h : th.Linked address)
    {l : Label Party LoopCall (Option ℕ)} {gate : State Party LoopCall (Option ℕ) (Option ℕ)}
    (hstep : LoopCall.methods.next th.gate l = some gate) (hcall : ∀ t m, l ≠ .call t m) :
    (gate.value = some address ∧ (th.worker = .publishing ∨ th.worker = .looping) ∨
        gate.value = none ∧ th.gate.value = none ∧ th.worker ≠ .looping ∧
          (gate.phase .worker).outcome = none ∧ ∀ r, l ≠ .leave .worker r) ∧
      (th.gate.value = some address → gate.value = some address) ∧
      (∀ m r, (gate.phase .starter).outcome = some (m, r) → r = some address ∧
        gate.value = some address) ∧
      (∀ r, l = .leave .starter r → r = some address ∧ gate.value = some address) := by
  have hacts := LoopCall.methods.next_acts hstep
  cases hacts with
  | call => exact absurd rfl (hcall _ _)
  | @run t m _ hview hguard hview' hvalue =>
      have hmethod := (State.view_eq.mp hview).1
      cases t with
      | starter =>
          obtain ⟨-, rfl⟩ := h.at_take hmethod
          have hsame : gate.value = th.gate.value := hvalue
          -- the guard of `take` is that the loop is there
          have hloop : th.gate.value = some address := by
            rcases h.loop with ⟨hv, -⟩ | ⟨hv, -⟩
            · exact hv
            · rw [hv] at hguard
              cases hguard
          have hout := congrFun hview' .starter
          rw [Function.update_self, State.view_eq] at hout
          refine ⟨.inl ⟨hsame.trans hloop, ?_⟩, fun _ => hsame.trans hloop, ?_, by rintro r ⟨⟩⟩
          · rcases h.loop with ⟨-, hw⟩ | ⟨hv, -⟩
            · exact hw
            · rw [hv] at hloop
              cases hloop
          · intro k r hk
            rw [hout.2] at hk
            cases hk
            exact ⟨hloop, hsame.trans hloop⟩
      | worker =>
          obtain ⟨hp, rfl⟩ := h.at_publish hmethod
          have hnow : gate.value = some address := hvalue
          refine ⟨.inl ⟨hnow, .inl hp⟩, fun _ => hnow, ?_, by rintro r ⟨⟩⟩
          intro k r hk
          have hout := congrFun hview' .starter
          rw [Function.update_of_ne (by decide)] at hout
          exact ⟨(h.taken k r ((congrArg Prod.snd hout).symm.trans hk)).1, hnow⟩
  | @leave t m r _ hview hview' hvalue =>
      have hout := (State.view_eq.mp hview).2
      cases t with
      | starter =>
          have hworker := congrFun hview' .worker
          rw [Function.update_of_ne (by decide)] at hworker
          have hstarter := congrFun hview' .starter
          rw [Function.update_self, State.view_eq] at hstarter
          obtain ⟨rfl, hloop⟩ := h.taken m r hout
          have hnow := hvalue.trans hloop
          refine ⟨.inl ⟨hnow, ?_⟩, fun _ => hnow, ?_, ?_⟩
          · rcases h.loop with ⟨-, hw⟩ | ⟨hv, -⟩
            · exact hw
            · rw [hv] at hloop
              cases hloop
          · intro k r hk
            rw [hstarter.2] at hk
            cases hk
          · rintro r ⟨⟩
            exact ⟨rfl, hnow⟩
      | worker =>
          have hstarter := congrFun hview' .starter
          rw [Function.update_of_ne (by decide)] at hstarter
          rcases h.loop with ⟨hv, hw⟩ | ⟨-, -, hnone⟩
          · refine ⟨.inl ⟨hvalue.trans hv, hw⟩, fun _ => hvalue.trans hv, ?_, by rintro r ⟨⟩⟩
            intro k r hk
            exact ⟨(h.taken k r ((congrArg Prod.snd hstarter).symm.trans hk)).1, hvalue.trans hv⟩
          · rw [hnone] at hout
            cases hout
  | silent _ hleave hview hvalue =>
      have hout := fun u => congrArg Prod.snd (congrFun hview u)
      refine ⟨?_, fun hv => hvalue.trans hv, ?_, fun r hr => absurd hr (hleave _ r)⟩
      · rcases h.loop with ⟨hv, hw⟩ | ⟨hv, hw, hnone⟩
        · exact .inl ⟨hvalue.trans hv, hw⟩
        · exact .inr ⟨hvalue.trans hv, hv, hw, (hout .worker).trans hnone, hleave .worker⟩
      · intro k r hk
        obtain ⟨hr, hv⟩ := h.taken k r ((hout .starter).symm.trans hk)
        exact ⟨hr, hvalue.trans hv⟩

theorem view_of_call {μ σ ρ : Type} [DecidableEq ρ] {M : Methods μ σ ρ}
    {s s' : State Party μ σ ρ} {t : Party} {m : μ} (h : M.next s (.call t m) = some s') :
    s'.view = Function.update s.view t (some m, none) ∧ s'.value = s.value := by
  obtain ⟨hp, rfl⟩ := M.next_cases h
  exact ⟨s.view_goes t _, rfl⟩

theorem view_of_leave {μ σ ρ : Type} [DecidableEq ρ] {M : Methods μ σ ρ}
    {s s' : State Party μ σ ρ} {t : Party} {r : ρ} (h : M.next s (.leave t r) = some s') :
    s'.view = Function.update s.view t (none, none) ∧ s'.value = s.value ∧
      ∃ m, s.view t = (some m, some (m, r)) := by
  obtain ⟨m, hp, rfl⟩ := M.next_cases h
  exact ⟨s.view_goes t _, rfl, m, by rw [State.view, hp]; rfl⟩

section

variable {address : ℕ} {th : EventLoopThread} (h : th.Linked address)

include h

theorem Linked.create (hs : th.starter = .creating) {la lb : State Party LatchCall ℤ Unit}
    (hla : Latch.methods.next th.latch (.call .starter .wait) = some la)
    (hlb : Latch.methods.next la (.call .worker .countDown) = some lb) :
    { th with latch := lb, starter := .waiting, worker := .counting }.Linked address := by
  have hw := h.born.mpr hs
  obtain ⟨hva, hvalue⟩ := view_of_call hla
  obtain ⟨hvb, hvalue'⟩ := view_of_call hlb
  have hstarter := congrFun hvb .starter
  have hworker := congrFun hvb .worker
  rw [Function.update_of_ne (by decide), hva, Function.update_self] at hstarter
  rw [Function.update_self] at hworker
  have htaking := h.taking
  have hpublishing := h.publishing
  simp only [hs, hw, reduceCtorEq, if_false] at htaking hpublishing
  exact {
    latch := (h.latch.next ⟨fun _ _ _ => trivial, hla⟩).next ⟨fun _ _ _ => trivial, hlb⟩
    gate := h.gate
    waiting := congrArg Prod.fst hstarter
    counting := congrArg Prod.fst hworker
    taking := htaking
    publishing := hpublishing
    born := by simp
    count := ⟨by rw [hvalue', hvalue]; exact h.count.1,
      fun _ => .inr ⟨rfl, congrArg Prod.snd hworker⟩⟩
    loop := by
      rcases h.loop with ⟨-, hp | hp⟩ | ⟨hv, -, hnone⟩
      · rw [hw] at hp
        cases hp
      · rw [hw] at hp
        cases hp
      · exact .inr ⟨hv, by rintro ⟨⟩, hnone⟩
    taken := h.taken
    returned := by rintro r ⟨⟩ }

/-- The starter goes from the latch to `mutex_`. -/
theorem Linked.leaveLatch {latch : State Party LatchCall ℤ Unit}
    {gate : State Party LoopCall (Option ℕ) (Option ℕ)}
    (hlatch : Latch.methods.next th.latch (.leave .starter ()) = some latch)
    (hgate : LoopCall.methods.next th.gate (.call .starter .take) = some gate) :
    { th with latch := latch, gate := gate, starter := .taking }.Linked address := by
  obtain ⟨hvl, -, m, hm⟩ := view_of_leave hlatch
  obtain ⟨hvg, hgvalue⟩ := view_of_call hgate
  have hs := (h.at_wait (State.view_eq.mp hm).1).1
  have hls := congrFun hvl .starter
  have hlw := congrFun hvl .worker
  have hgs := congrFun hvg .starter
  have hgw := congrFun hvg .worker
  rw [Function.update_self] at hls hgs
  rw [Function.update_of_ne (by decide)] at hlw hgw
  have hcount := latch_count h hlatch (by rintro t m ⟨⟩)
  exact {
    latch := h.latch.next ⟨fun _ _ _ => trivial, hlatch⟩
    gate := h.gate.next ⟨by rintro t m ⟨⟩; rfl, hgate⟩
    waiting := congrArg Prod.fst hls
    counting := (congrArg Prod.fst hlw).trans h.counting
    taking := congrArg Prod.fst hgs
    publishing := (congrArg Prod.fst hgw).trans h.publishing
    born := by
      have hborn := h.born
      rw [hs] at hborn
      simpa using hborn
    count := ⟨hcount.1, fun h0 => (hcount.2 h0).2⟩
    loop := by
      rw [hgvalue]
      refine h.loop.imp id fun ⟨h₁, h₂, h₃⟩ => ⟨h₁, h₂, ?_⟩
      exact (congrArg Prod.snd hgw).trans h₃
    taken := by
      intro k r hk
      rw [(State.view_eq.mp hgs).2] at hk
      cases hk
    returned := by rintro r ⟨⟩ }

/-- The worker leaves the latch for good. -/
theorem Linked.leaveCount {latch : State Party LatchCall ℤ Unit}
    (hlatch : Latch.methods.next th.latch (.leave .worker ()) = some latch) :
    { th with latch := latch, worker := .naming }.Linked address := by
  obtain ⟨hvl, -, m, hm⟩ := view_of_leave hlatch
  have hw := (h.at_countDown (State.view_eq.mp hm).1).1
  have hls := congrFun hvl .starter
  have hlw := congrFun hvl .worker
  rw [Function.update_of_ne (by decide)] at hls
  rw [Function.update_self] at hlw
  have hcount := latch_count h hlatch (by rintro t m ⟨⟩)
  have hpublishing := h.publishing
  have hborn := h.born
  simp only [hw, reduceCtorEq, if_false, false_iff] at hpublishing hborn
  exact {
    latch := h.latch.next ⟨fun _ _ _ => trivial, hlatch⟩
    gate := h.gate
    waiting := (congrArg Prod.fst hls).trans h.waiting
    counting := congrArg Prod.fst hlw
    taking := h.taking
    publishing := hpublishing
    born := by simpa using hborn
    count := ⟨hcount.1, fun h0 => absurd rfl ((hcount.2 h0).1 ())⟩
    loop := by
      rcases h.loop with ⟨-, hp | hp⟩ | ⟨hv, -, hnone⟩
      · rw [hw] at hp
        cases hp
      · rw [hw] at hp
        cases hp
      · exact .inr ⟨hv, by rintro ⟨⟩, hnone⟩
    taken := h.taken
    returned := h.returned }

theorem Linked.atLatch {l : Label Party LatchCall Unit} {latch : State Party LatchCall ℤ Unit}
    (hlatch : Latch.methods.next th.latch l = some latch) (hcall : ∀ t m, l ≠ .call t m)
    (hleave : ∀ t r, l ≠ .leave t r) : { th with latch := latch }.Linked address := by
  have hmethod := (Latch.methods.next_acts hlatch).method_eq hcall hleave
  have hcount := latch_count h hlatch hcall
  exact { h with
    latch := h.latch.next ⟨fun _ _ _ => trivial, hlatch⟩
    waiting := (hmethod .starter).trans h.waiting
    counting := (hmethod .worker).trans h.counting
    count := ⟨hcount.1, fun h0 => (hcount.2 h0).2⟩ }

theorem Linked.leaveTake {loop : Option ℕ} {gate : State Party LoopCall (Option ℕ) (Option ℕ)}
    (hgate : LoopCall.methods.next th.gate (.leave .starter loop) = some gate) :
    { th with gate := gate, starter := .returned loop }.Linked address := by
  obtain ⟨hv, hvalue, m, hm⟩ := view_of_leave hgate
  obtain ⟨-, -, htaken, hloop⟩ := gate_loop h hgate (by rintro t m ⟨⟩)
  obtain ⟨rfl, hnow⟩ := hloop loop rfl
  have hs := (h.at_take (State.view_eq.mp hm).1).1
  have hgs := congrFun hv .starter
  have hgw := congrFun hv .worker
  rw [Function.update_self] at hgs
  rw [Function.update_of_ne (by decide)] at hgw
  have hwaiting := h.waiting
  have hborn := h.born
  simp only [hs, reduceCtorEq, if_false, iff_false] at hwaiting hborn
  exact {
    latch := h.latch
    gate := h.gate.next ⟨by rintro t m ⟨⟩, hgate⟩
    waiting := hwaiting
    counting := h.counting
    taking := congrArg Prod.fst hgs
    publishing := (congrArg Prod.fst hgw).trans h.publishing
    born := by simpa using hborn
    count := h.count
    loop := by
      rw [hvalue]
      refine h.loop.imp id fun ⟨h₁, h₂, h₃⟩ => ⟨h₁, h₂, ?_⟩
      exact (congrArg Prod.snd hgw).trans h₃
    taken := htaken
    returned := by
      rintro r ⟨⟩
      exact ⟨rfl, hnow⟩ }

theorem Linked.leavePublish {r : Option ℕ} {gate : State Party LoopCall (Option ℕ) (Option ℕ)}
    (hgate : LoopCall.methods.next th.gate (.leave .worker r) = some gate) :
    { th with gate := gate, worker := .looping }.Linked address := by
  obtain ⟨hv, hvalue, m, hm⟩ := view_of_leave hgate
  obtain ⟨hloop, hstays, htaken, -⟩ := gate_loop h hgate (by rintro t m ⟨⟩)
  have hw := (h.at_publish (State.view_eq.mp hm).1).1
  have hgs := congrFun hv .starter
  have hgw := congrFun hv .worker
  rw [Function.update_of_ne (by decide)] at hgs
  rw [Function.update_self] at hgw
  have hcounting := h.counting
  have hborn := h.born
  have hcount := h.count
  simp only [hw, reduceCtorEq, if_false, false_iff, false_and, or_self,
    imp_false] at hcounting hborn hcount
  exact {
    latch := h.latch
    gate := h.gate.next ⟨by rintro t m ⟨⟩, hgate⟩
    waiting := h.waiting
    counting := hcounting
    taking := (congrArg Prod.fst hgs).trans h.taking
    publishing := congrArg Prod.fst hgw
    born := by simpa using hborn
    count := ⟨hcount.1, fun h0 => absurd h0 hcount.2⟩
    loop := by
      rcases hloop with ⟨hnow, -⟩ | ⟨-, -, -, -, hne⟩
      · exact .inl ⟨hnow, .inr rfl⟩
      · exact absurd rfl (hne r)
    taken := htaken
    returned := fun r hr => ⟨(h.returned r hr).1, hstays (h.returned r hr).2⟩ }

theorem Linked.atGate {l : Label Party LoopCall (Option ℕ)}
    {gate : State Party LoopCall (Option ℕ) (Option ℕ)}
    (hgate : LoopCall.methods.next th.gate l = some gate) (hcall : ∀ t m, l ≠ .call t m)
    (hleave : ∀ t r, l ≠ .leave t r) : { th with gate := gate }.Linked address := by
  have hmethod := (LoopCall.methods.next_acts hgate).method_eq hcall hleave
  obtain ⟨hloop, hstays, htaken, -⟩ := gate_loop h hgate hcall
  exact { h with
    gate := h.gate.next ⟨fun t m hl => absurd hl (hcall t m), hgate⟩
    taking := (hmethod .starter).trans h.taking
    publishing := (hmethod .worker).trans h.publishing
    loop := hloop.imp id fun ⟨h₁, _, h₂, h₃, _⟩ => ⟨h₁, h₂, h₃⟩
    taken := htaken
    returned := fun r hr => ⟨(h.returned r hr).1, hstays (h.returned r hr).2⟩ }

/-- What the worker does between the two monitors concerns nobody. -/
theorem Linked.between {worker : WorkerPhase} {number : Option ℕ}
    (hw : th.worker = .naming ∨ ∃ k, th.worker = .storing k)
    (hw' : worker = .constructing ∨ ∃ k, worker = .storing k) :
    { th with worker := worker, number := number }.Linked address := by
  have hold : th.worker ≠ .unborn ∧ th.worker ≠ .counting ∧ th.worker ≠ .publishing ∧
      th.worker ≠ .looping := by
    rcases hw with hw | ⟨k, hw⟩ <;> simp [hw]
  have hnew : worker ≠ .unborn ∧ worker ≠ .counting ∧ worker ≠ .publishing ∧
      worker ≠ .looping := by
    rcases hw' with rfl | ⟨k, rfl⟩ <;> simp
  have hcounting := h.counting
  have hpublishing := h.publishing
  have hborn := h.born
  have hcount := h.count
  have hloop := h.loop
  simp only [hold, if_false, false_iff, false_and, or_self, imp_false, and_false,
    false_or] at hcounting hpublishing hborn hcount hloop
  exact { h with
    counting := by simpa only [hnew, if_false] using hcounting
    publishing := by simpa only [hnew, if_false] using hpublishing
    born := by simpa only [hnew, false_iff] using hborn
    count := ⟨hcount.1, fun h0 => absurd h0 hcount.2⟩
    loop := .inr ⟨hloop.1, hnew.2.2.2, hloop.2.2⟩ }

theorem Linked.construct {gate : State Party LoopCall (Option ℕ) (Option ℕ)}
    (hw : th.worker = .constructing)
    (hgate : LoopCall.methods.next th.gate (.call .worker (.publish address)) = some gate) :
    { th with gate := gate, worker := .publishing }.Linked address := by
  obtain ⟨hv, hvalue⟩ := view_of_call hgate
  have hgs := congrFun hv .starter
  have hgw := congrFun hv .worker
  rw [Function.update_of_ne (by decide)] at hgs
  rw [Function.update_self] at hgw
  have hcounting := h.counting
  have hborn := h.born
  have hcount := h.count
  have hloop := h.loop
  simp only [hw, reduceCtorEq, if_false, false_iff, false_and, or_self, imp_false, and_false,
    false_or] at hcounting hborn hcount hloop
  exact {
    latch := h.latch
    gate := h.gate.next ⟨by rintro t m ⟨⟩; rfl, hgate⟩
    waiting := h.waiting
    counting := hcounting
    taking := (congrArg Prod.fst hgs).trans h.taking
    publishing := congrArg Prod.fst hgw
    born := by simpa using hborn
    count := ⟨hcount.1, fun h0 => absurd h0 hcount.2⟩
    loop := .inr ⟨hvalue.trans hloop.1, by rintro ⟨⟩, congrArg Prod.snd hgw⟩
    taken := by
      intro m r hr
      rw [hvalue]
      exact h.taken m r ((congrArg Prod.snd hgs).symm.trans hr)
    returned := by
      rw [hvalue]
      exact h.returned }

end

/-- **A step of either thread keeps them linked.** -/
theorem Linked.next {address id id' : ℕ} {th th' : EventLoopThread} (h : th.Linked address)
    {l : ThreadStep} (hstep : th.next address id l = some (th', id')) : th'.Linked address := by
  have hcases := next_cases hstep
  cases l with
  | create =>
      obtain ⟨hs, -, la, lb, hla, hlb, rfl⟩ := hcases
      exact h.create hs hla hlb
  | latch l =>
      obtain ⟨-, latch, hlatch, ⟨gate, rfl, hgate, rfl⟩ | ⟨rfl, rfl⟩ | ⟨hcall, hleave, rfl⟩⟩ :=
        hcases
      · exact h.leaveLatch hlatch hgate
      · exact h.leaveCount hlatch
      · exact h.atLatch hlatch hcall hleave
  | gate l =>
      obtain ⟨-, gate, hgate, ⟨loop, rfl, rfl⟩ | ⟨r, rfl, rfl⟩ | ⟨hcall, hleave, rfl⟩⟩ := hcases
      · exact h.leaveTake hgate
      · exact h.leavePublish hgate
      · exact h.atGate hgate hcall hleave
  | readId =>
      obtain ⟨hw, -, rfl⟩ := hcases
      exact h.between (.inl hw) (.inr ⟨id, rfl⟩)
  | storeId =>
      obtain ⟨k, hw, -, rfl⟩ := hcases
      exact h.between (.inr ⟨k, hw⟩) (.inl rfl)
  | construct =>
      obtain ⟨hw, -, gate, hgate, rfl⟩ := hcases
      exact h.construct hw hgate

end EventLoopThread

end TinyMuduo
