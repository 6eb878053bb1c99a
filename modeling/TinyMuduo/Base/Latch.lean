import TinyMuduo.Lib.MonitorWakeups

/-!
# `Latch`

Translation of `Base/latch.h`, `Base/mutex.h` and `Condition::Wait`, `Notify` and
`NotifyAll` of `Base/condition.h` as a monitor over `count_`. `CountDown` wakes
everybody when the count reaches 0 and only then; that is enough (`signals`),
for a count below 0 has passed 0 before.
-/

namespace TinyMuduo

open Transition Monitor Methods

inductive LatchCall where
  | countDown
  | wait
deriving DecidableEq

namespace Latch

def methods : Methods LatchCall ℤ Unit where
  guard
    | .countDown, _ => true
    | .wait, count => ¬ 0 < count
  body
    | .countDown, count => ((), count - 1)
    | .wait, count => ((), count)
  signal
    | .countDown, count => if count = 0 then .everyone else .nobody
    | .wait, _ => .nobody

/-- Runs of `Latch(count)` shared by the threads `ι`, each calling what it likes. -/
def system (ι : Type) [Fintype ι] [DecidableEq ι] (count : ℤ) :
    LTS (State ι LatchCall ℤ Unit) (Label ι LatchCall Unit) :=
  methods.system (fun _ _ => True) count

theorem guard_wait (count : ℤ) : methods.guard .wait count = true ↔ count ≤ 0 := by
  simp [methods]

/-- A count that lets the waiters through is 0 at first. -/
theorem signals {ι : Type} (may : ι → LatchCall → Prop) : methods.Signals may := by
  intro m w v _ hw hw'
  cases w with
  | countDown => cases hw
  | wait =>
      have hpos : 0 < v := by simpa [methods] using hw
      cases m with
      | wait => exact absurd (hw'.symm.trans hw) (by decide)
      | countDown =>
          have hle := (guard_wait _).mp hw'
          have hzero : v - 1 = 0 := by
            change v - 1 ≤ 0 at hle
            omega
          left
          show (if v - 1 = 0 then Signal.everyone else Signal.nobody) = _
          rw [if_pos hzero]

def countDowns {ι : Type} (cs : List (ι × LatchCall × Unit)) : ℕ :=
  cs.countP fun c => c.2.1 = .countDown

theorem countDowns_append {ι : Type} (cs ds : List (ι × LatchCall × Unit)) :
    countDowns (cs ++ ds) = countDowns cs + countDowns ds := List.countP_append ..

theorem legal_value {ι : Type} {count v : ℤ} {cs : List (ι × LatchCall × Unit)}
    (h : methods.Legal count cs v) : v = count - countDowns cs := by
  induction h with
  | start => simp [countDowns]
  | @call cs v t m _ _ ih =>
      rw [countDowns_append]
      cases m with
      | countDown =>
          show v - 1 = _
          rw [ih]
          simp [countDowns]
          omega
      | wait =>
          show v = _
          rw [ih]
          simp [countDowns]

/-- A `Wait` in a sequential history comes behind enough `CountDown` calls. -/
theorem le_of_legal_wait {ι : Type} {count v : ℤ} {cs : List (ι × LatchCall × Unit)} {t : ι}
    (h : methods.Legal count (cs ++ [(t, .wait, ())]) v) : count ≤ countDowns cs := by
  generalize hcs : cs ++ [(t, .wait, ())] = cs' at h
  cases h with
  | start => simp at hcs
  | @call cs' v' u m hlegal hguard =>
      obtain ⟨rfl, hlast⟩ := List.append_inj' hcs rfl
      cases hlast
      have hle := (guard_wait v').mp hguard
      rw [legal_value hlegal] at hle
      omega

/-- **The latch**, under every interleaving of any number of threads and any
number of calls. A `Wait` returns only when `count` calls of `CountDown` have
returned; once they have, nobody is left asleep; and if the threads in the latch
are stuck, they are in `Wait` and some `CountDown` is still to come. -/
theorem latch_opens {ι : Type} [Fintype ι] [DecidableEq ι] {count : ℤ}
    {ms : List (Move (State ι LatchCall ℤ Unit) (Label ι LatchCall Unit))}
    {s : State ι LatchCall ℤ Unit} (h : Run (system ι count) ms s) :
    (∀ before x after t, ms = before ++ x :: after → returned x = some (t, .wait, ()) →
        count ≤ countDowns (returns before)) ∧
      (s.holder = none → count ≤ countDowns (returns ms) → ∀ t m, s.phase t ≠ .asleep m) ∧
      ((∀ l, l.isInner = true → methods.next s l = none) → ∀ t m, (s.phase t).method = some m →
        m = .wait ∧ s.phase t = .asleep .wait ∧ countDowns (returns ms) < count) := by
  have hasleep : s.holder = none → ∀ t m, s.phase t = .asleep m →
      m = .wait ∧ countDowns (returns ms) < count := by
    intro hfree t m ht
    have hguard := guard_false_of_asleep (signals _) h hfree ht
    cases m with
    | countDown => cases hguard
    | wait =>
        have hpos : 0 < s.value := by simpa [methods] using hguard
        rw [legal_value (commits_legal h), ← returns_eq_commits h hfree] at hpos
        exact ⟨rfl, by omega⟩
  refine ⟨?_, ?_, ?_⟩
  · intro before x after t hms hx
    exact le_of_legal_wait (legal_of_returned h hms hx)
  · intro hfree hle t m ht
    have hlt := (hasleep hfree t m ht).2
    omega
  · intro hstuck t m hm
    obtain ⟨hfree, hall⟩ := asleep_of_stuck (run_sound h) hstuck
    obtain ⟨rfl, hlt⟩ := hasleep hfree t m (hall t m hm)
    exact ⟨rfl, hall t _ hm, hlt⟩

/-- A `Wait` that sleeps, wakes for nothing, sleeps again, and returns behind the
second of two `CountDown` calls. -/
theorem latch_opens_late :
    ∃ (ms : List (Move (State Bool LatchCall ℤ Unit) (Label Bool LatchCall Unit)))
      (s : State Bool LatchCall ℤ Unit),
      Run (system Bool 2) ms s ∧ returns ms =
        [(false, .countDown, ()), (false, .countDown, ()), (true, .wait, ())] ∧
      ∀ t m, s.phase t ≠ .asleep m := by
  have hrun : Run (system Bool 2) _ _ := run_of_labels methods (fun _ _ _ => trivial)
    (rfl : moves methods.next (State.new 2)
      [.call true .wait, .lock true, .test true, .call false .countDown, .lock false, .test false,
        .signal false ∅, .leave false (), .spurious true, .lock true, .test true,
        .call false .countDown, .lock false, .test false, .signal false {true}, .leave false (),
        .lock true, .test true, .signal true ∅, .leave true ()] = some _)
  obtain ⟨-, hopen, -⟩ := latch_opens hrun
  exact ⟨_, _, hrun, rfl, hopen rfl (by decide)⟩

end Latch

end TinyMuduo
