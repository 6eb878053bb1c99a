import TinyMuduo.Util.EventLoopThread

/-!
# `EventLoopThread::StartLoop` returns

As long as `StartLoop` has not returned one of the two threads can move
(`start_moves`), and what they do before it returns is bounded, up to the wake-ups
that come for no reason (`next_work`).
-/

namespace TinyMuduo

open Transition Monitor Methods

namespace EventLoopThread

/-! ## Nobody waits in vain -/

theorem signals (address : ℕ) : LoopCall.methods.Signals (LoopCall.may address) := by
  intro m w v _ hw hw'
  cases w with
  | publish a => cases hw
  | take =>
      cases m with
      | take => exact absurd (hw'.symm.trans hw) (by decide)
      | publish a =>
          refine .inr ⟨rfl, ?_⟩
          -- only `take` sleeps, and only the starter calls it
          rintro t u m k ht hu ⟨v, hm⟩ ⟨v', hk⟩
          cases t <;> cases u <;> obtain rfl := ht <;> obtain rfl := hu
          · rfl
          · cases hk
          · cases hm
          · rfl

theorem latch_moves {address : ℕ} {th : EventLoopThread} (h : th.Linked address) (id : ℕ)
    {t : Party} {m : LatchCall} (ht : (th.latch.phase t).method = some m)
    (hawake : th.latch.phase t ≠ .asleep m ∨ th.latch.holder ≠ none) :
    ∃ l, ThreadStep.isSpurious l = false ∧ ∃ p, th.next address id l = some p := by
  obtain ⟨ms, hrun⟩ := h.latch
  obtain ⟨l, hl, latch, hlatch⟩ := exists_inner (run_sound hrun) ht hawake
  cases l with
  | call t m => cases hl
  | spurious t => cases hl
  | leave u r =>
      refine ⟨.latch (.leave u r), rfl, ?_⟩
      cases u with
      | worker => exact ⟨_, by simp only [next, atLatch, hlatch]; rfl⟩
      | starter =>
          obtain ⟨-, -, k, hk⟩ := view_of_leave hlatch
          have hs := (h.at_wait (State.view_eq.mp hk).1).1
          have hout : (th.gate.phase .starter).method = none := by
            rw [h.taking, if_neg (by rw [hs]; rintro ⟨⟩)]
          obtain ⟨gate, hgate⟩ := exists_call (M := LoopCall.methods) hout .take
          exact ⟨_, by simp only [next, atLatch, hlatch, hgate]; rfl⟩
  | lock u => exact ⟨.latch (.lock u), rfl, _, by simp only [next, atLatch, hlatch]; rfl⟩
  | test u => exact ⟨.latch (.test u), rfl, _, by simp only [next, atLatch, hlatch]; rfl⟩
  | signal u woken =>
      exact ⟨.latch (.signal u woken), rfl, _, by simp only [next, atLatch, hlatch]; rfl⟩

theorem gate_moves {address : ℕ} {th : EventLoopThread} (h : th.Linked address) (id : ℕ)
    {t : Party} {m : LoopCall} (ht : (th.gate.phase t).method = some m)
    (hawake : th.gate.phase t ≠ .asleep m ∨ th.gate.holder ≠ none) :
    ∃ l, ThreadStep.isSpurious l = false ∧ ∃ p, th.next address id l = some p := by
  obtain ⟨ms, hrun⟩ := h.gate
  obtain ⟨l, hl, gate, hgate⟩ := exists_inner (run_sound hrun) ht hawake
  cases l with
  | call t m => cases hl
  | spurious t => cases hl
  | leave u r =>
      cases u with
      | worker =>
          exact ⟨.gate (.leave .worker r), rfl, _, by simp only [next, atGate, hgate]; rfl⟩
      | starter =>
          exact ⟨.gate (.leave .starter r), rfl, _, by simp only [next, atGate, hgate]; rfl⟩
  | lock u => exact ⟨.gate (.lock u), rfl, _, by simp only [next, atGate, hgate]; rfl⟩
  | test u => exact ⟨.gate (.test u), rfl, _, by simp only [next, atGate, hgate]; rfl⟩
  | signal u woken =>
      exact ⟨.gate (.signal u woken), rfl, _, by simp only [next, atGate, hgate]; rfl⟩

/-- A worker that has not published its loop can move, whatever the starter does. -/
theorem worker_moves {address : ℕ} {th : EventLoopThread} (h : th.Linked address) (id : ℕ)
    (hborn : th.worker ≠ .unborn) (hloop : th.worker ≠ .looping) :
    ∃ l, ThreadStep.isSpurious l = false ∧ ∃ p, th.next address id l = some p := by
  cases hw : th.worker with
  | unborn => exact absurd hw hborn
  | counting =>
      have hmethod := h.counting
      rw [if_pos hw] at hmethod
      refine latch_moves h id hmethod (.inl fun hasleep => ?_)
      obtain ⟨ms, hrun⟩ := h.latch
      obtain ⟨v, hv⟩ := (run_sound hrun).slept _ _ hasleep
      cases hv
  | naming => exact ⟨.readId, rfl, _, if_pos hw⟩
  | storing k => exact ⟨.storeId, rfl, _, by simp only [next, hw]; rfl⟩
  | constructing =>
      have hout : (th.gate.phase .worker).method = none := by
        rw [h.publishing, if_neg (by rw [hw]; rintro ⟨⟩)]
      obtain ⟨gate, hgate⟩ := exists_call (M := LoopCall.methods) hout (.publish address)
      exact ⟨.construct, rfl, _, by simp only [next, if_pos hw, hgate]; rfl⟩
  | publishing =>
      have hmethod := h.publishing
      rw [if_pos hw] at hmethod
      refine gate_moves h id hmethod (.inl fun hasleep => ?_)
      obtain ⟨ms, hrun⟩ := h.gate
      obtain ⟨v, hv⟩ := (run_sound hrun).slept _ _ hasleep
      cases hv
  | looping => exact absurd hw hloop

/-- **`StartLoop` is never stuck**: as long as it has not returned, one of the two
threads can move, and not because it is woken for nothing. -/
theorem start_moves {address : ℕ} {th : EventLoopThread} (h : th.Linked address) (id : ℕ)
    (hs : ∀ loop, th.starter ≠ .returned loop) :
    ∃ l, ThreadStep.isSpurious l = false ∧ ∃ p, th.next address id l = some p := by
  have hborn : th.starter ≠ .creating → th.worker ≠ .unborn := fun hs hw => hs (h.born.mp hw)
  cases hp : th.starter with
  | returned loop => exact absurd hp (hs loop)
  | creating =>
      have hw := h.born.mpr hp
      have hstarter : (th.latch.phase .starter).method = none := by
        rw [h.waiting, if_neg (by rw [hp]; rintro ⟨⟩)]
      have hworker : (th.latch.phase .worker).method = none := by
        rw [h.counting, if_neg (by rw [hw]; rintro ⟨⟩)]
      obtain ⟨la, hla⟩ := exists_call (M := Latch.methods) hstarter .wait
      obtain ⟨hva, -⟩ := view_of_call hla
      have hworker' : (la.phase .worker).method = none := by
        have hu := congrFun hva .worker
        rw [Function.update_of_ne (by decide)] at hu
        exact (congrArg Prod.fst hu).trans hworker
      obtain ⟨lb, hlb⟩ := exists_call (M := Latch.methods) hworker' .countDown
      refine ⟨.create, rfl, ?_⟩
      simp only [next, if_pos hp, create, hla, Option.bind_eq_bind, Option.bind_some, hlb]
      exact ⟨_, rfl⟩
  | waiting =>
      have hmethod := h.waiting
      rw [if_pos hp] at hmethod
      by_cases hawake : th.latch.phase .starter ≠ .asleep .wait ∨ th.latch.holder ≠ none
      · exact latch_moves h id hmethod hawake
      · -- asleep at a free latch, so the worker has still to count
        obtain ⟨hasleep, hfree⟩ := not_or.mp hawake
        obtain ⟨ms, hrun⟩ := h.latch
        have hguard := guard_false_of_asleep (Latch.signals _) hrun (not_not.mp hfree)
          (not_not.mp hasleep)
        have hpos : 0 < th.latch.value := by simpa [Latch.methods] using hguard
        refine worker_moves h id (hborn (by rw [hp]; rintro ⟨⟩)) fun hw => ?_
        rcases h.count.2 hpos with hw' | ⟨hw', -⟩
        · rw [hw] at hw'
          cases hw'
        · rw [hw] at hw'
          cases hw'
  | taking =>
      have hmethod := h.taking
      rw [if_pos hp] at hmethod
      by_cases hawake : th.gate.phase .starter ≠ .asleep .take ∨ th.gate.holder ≠ none
      · exact gate_moves h id hmethod hawake
      · -- asleep at a free lock, so the worker has still to publish
        obtain ⟨hasleep, hfree⟩ := not_or.mp hawake
        obtain ⟨ms, hrun⟩ := h.gate
        have hguard := guard_false_of_asleep (signals address) hrun (not_not.mp hfree)
          (not_not.mp hasleep)
        refine worker_moves h id (hborn (by rw [hp]; rintro ⟨⟩)) fun hw => ?_
        rcases h.loop with ⟨hv, -⟩ | ⟨-, hne, -⟩
        · rw [hv] at hguard
          cases hguard
        · exact hne hw

/-! ## What is still to be done -/

end EventLoopThread

/-- Steps outside the monitors, and the work of the calls still to be made. -/
def StarterPhase.ahead : StarterPhase → ℕ
  | .creating => 36
  | .waiting => 8
  | .taking => 0
  | .returned _ => 0

def WorkerPhase.ahead : WorkerPhase → ℕ
  | .unborn => 0
  | .counting => 11
  | .naming => 11
  | .storing _ => 10
  | .constructing => 9
  | .publishing => 0
  | .looping => 0

namespace EventLoopThread

def work (th : EventLoopThread) : ℕ :=
  th.starter.ahead + th.worker.ahead + th.latch.work + th.gate.work

theorem work_new : new.work = 36 := rfl

/-- A step of a monitor that is no call, by its label. -/
theorem monitor_work {μ σ ρ : Type} [DecidableEq ρ] {M : Methods μ σ ρ}
    {s s' : State Party μ σ ρ} {l : Label Party μ ρ} (h : M.next s l = some s')
    (hcall : ∀ t m, l ≠ .call t m) :
    s'.work < s.work ∨ s'.work = s.work + 2 ∧ ∃ t, l = .spurious t := by
  cases l with
  | call t m => exact absurd rfl (hcall t m)
  | spurious t => exact .inr ⟨spurious_work h, t, rfl⟩
  | _ => exact .inl (inner_work rfl h)

/-- **Each step is work done**, except a wake-up for no reason. -/
theorem next_work {address id id' : ℕ} {th th' : EventLoopThread} {l : ThreadStep}
    (h : th.Linked address) (hstep : th.next address id l = some (th', id')) :
    (l.isSpurious = false → th'.work < th.work) ∧
      (l.isSpurious = true → th'.work ≤ th.work + 2) := by
  have hcases := next_cases hstep
  cases l with
  | create =>
      obtain ⟨hs, -, la, lb, hla, hlb, rfl⟩ := hcases
      have h₁ := call_work hla
      have h₂ := call_work hlb
      have hcard : Fintype.card Party = 2 := rfl
      refine ⟨fun _ => ?_, by rintro ⟨⟩⟩
      simp only [work, hs, StarterPhase.ahead, WorkerPhase.ahead]
      omega
  | latch l =>
      obtain ⟨-, latch, hlatch, ⟨gate, rfl, hgate, rfl⟩ | ⟨rfl, rfl⟩ | ⟨hcall, -, rfl⟩⟩ := hcases
      · obtain ⟨-, -, m, hm⟩ := view_of_leave hlatch
        have hs := (h.at_wait (State.view_eq.mp hm).1).1
        have h₁ := inner_work rfl hlatch
        have h₂ := call_work hgate
        have hcard : Fintype.card Party = 2 := rfl
        refine ⟨fun _ => ?_, by rintro ⟨⟩⟩
        simp only [work, hs, StarterPhase.ahead]
        omega
      · obtain ⟨-, -, m, hm⟩ := view_of_leave hlatch
        have hw := (h.at_countDown (State.view_eq.mp hm).1).1
        have h₁ := inner_work rfl hlatch
        refine ⟨fun _ => ?_, by rintro ⟨⟩⟩
        simp only [work, hw, WorkerPhase.ahead]
        omega
      · simp only [work]
        rcases monitor_work hlatch hcall with hlt | ⟨heq, t, rfl⟩
        · exact ⟨fun _ => by omega, fun _ => by omega⟩
        · exact ⟨by rintro ⟨⟩, fun _ => by omega⟩
  | gate l =>
      obtain ⟨-, gate, hgate, ⟨loop, rfl, rfl⟩ | ⟨r, rfl, rfl⟩ | ⟨hcall, -, rfl⟩⟩ := hcases
      · obtain ⟨-, -, m, hm⟩ := view_of_leave hgate
        have hs := (h.at_take (State.view_eq.mp hm).1).1
        have h₁ := inner_work rfl hgate
        refine ⟨fun _ => ?_, by rintro ⟨⟩⟩
        simp only [work, hs, StarterPhase.ahead]
        omega
      · obtain ⟨-, -, m, hm⟩ := view_of_leave hgate
        have hw := (h.at_publish (State.view_eq.mp hm).1).1
        have h₁ := inner_work rfl hgate
        refine ⟨fun _ => ?_, by rintro ⟨⟩⟩
        simp only [work, hw, WorkerPhase.ahead]
        omega
      · simp only [work]
        rcases monitor_work hgate hcall with hlt | ⟨heq, t, rfl⟩
        · exact ⟨fun _ => by omega, fun _ => by omega⟩
        · exact ⟨by rintro ⟨⟩, fun _ => by omega⟩
  | readId =>
      obtain ⟨hw, -, rfl⟩ := hcases
      refine ⟨fun _ => ?_, by rintro ⟨⟩⟩
      simp only [work, hw, WorkerPhase.ahead]
      omega
  | storeId =>
      obtain ⟨k, hw, -, rfl⟩ := hcases
      refine ⟨fun _ => ?_, by rintro ⟨⟩⟩
      simp only [work, hw, WorkerPhase.ahead]
      omega
  | construct =>
      obtain ⟨hw, -, gate, hgate, rfl⟩ := hcases
      have h₁ := call_work hgate
      have hcard : Fintype.card Party = 2 := rfl
      refine ⟨fun _ => ?_, by rintro ⟨⟩⟩
      simp only [work, hw, WorkerPhase.ahead]
      omega

end EventLoopThread

end TinyMuduo
