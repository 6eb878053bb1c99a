import Mathlib.Algebra.BigOperators.Group.Finset.Basic
import Mathlib.Algebra.Order.BigOperators.Group.Finset
import Mathlib.Data.Fintype.Card
import TinyMuduo.Lib.Monitor

/-!
# Monitors: wake-ups and progress

If every body that makes a guard true signals it (`Methods.Signals`), the guard
of a sleeper is false while the lock is free (`guard_false_of_asleep`). A monitor
blocks nobody but sleepers (`asleep_of_stuck`), and a call is a bounded number of
steps up to the wake-ups that come for no reason (`inner_work`, `spurious_work`).
-/

open Transition

namespace Monitor

namespace Methods

variable {ι μ σ ρ : Type*} [Fintype ι] [DecidableEq ι] [DecidableEq ρ] {M : Methods μ σ ρ}
  {may : ι → μ → Prop}

/-! ## No wake-up is lost -/

/-- Some value makes a caller of the method sleep. -/
def Sleepy (M : Methods μ σ ρ) (m : μ) : Prop := ∃ v, M.guard m v = false

/-- At most one thread calls methods that may sleep. -/
def Alone (M : Methods μ σ ρ) (may : ι → μ → Prop) : Prop :=
  ∀ t u m k, may t m → may u k → M.Sleepy m → M.Sleepy k → t = u

/-- The signal of `m` is enough for whoever sleeps. -/
def Enough (M : Methods μ σ ρ) (may : ι → μ → Prop) (m : μ) (v : σ) : Prop :=
  M.signal m v = .everyone ∨ M.signal m v = .one ∧ M.Alone may

/-- A body that makes a guard true signals it. -/
def Signals (M : Methods μ σ ρ) (may : ι → μ → Prop) : Prop :=
  ∀ m w v, M.guard m v = true → M.guard w v = false → M.guard w (M.body m v).2 = true →
    M.Enough may m (M.body m v).2

/-- A sleeper whose guard holds is owed a signal. -/
def Owed (M : Methods μ σ ρ) (may : ι → μ → Prop) (s : State ι μ σ ρ) : Prop :=
  ∀ t w, s.phase t = .asleep w → M.guard w s.value = true →
    ∃ u m result, s.phase u = .signalling m result ∧ M.Enough may m s.value

omit [Fintype ι] [DecidableEq ρ] [DecidableEq ι] in
theorem Owed.of_holds {s : State ι μ σ ρ} (ho : M.Owed may s) (hs : M.Sound may s) {t : ι}
    (ht : (s.phase t).holds = true) (hn : ∀ m result, s.phase t ≠ .signalling m result) {u : ι}
    {w : μ} (hu : s.phase u = .asleep w) : M.guard w s.value = false := by
  by_contra hg
  obtain ⟨x, m, result, hx, -⟩ := ho u w hu (Bool.not_eq_false _ ▸ hg)
  obtain rfl := hs.unique ht (by rw [hx]; rfl)
  exact hn m result hx

omit [Fintype ι] [DecidableEq ρ] in
theorem Owed.goes {s : State ι μ σ ρ} (ho : M.Owed may s) {t : ι} {phase : Phase μ ρ}
    (hphase : ∀ w, phase ≠ .asleep w) (ht : ∀ m result, s.phase t ≠ .signalling m result)
    (holder : Option ι) : M.Owed may { s.goes t phase with holder := holder } := by
  intro u w hu hg
  have hut : u ≠ t := by
    rintro rfl
    exact hphase w ((s.goes_self u phase).symm.trans hu)
  obtain ⟨x, m, result, hx, henough⟩ := ho u w ((s.goes_of_ne hut phase).symm.trans hu) hg
  have hxt : x ≠ t := by
    rintro rfl
    exact ht m result hx
  exact ⟨x, m, result, (s.goes_of_ne hxt phase).trans hx, henough⟩

/-- **One step keeps it.** -/
theorem Owed.next (hsig : M.Signals may) {s s' : State ι μ σ ρ} {l : Label ι μ ρ}
    (hs : M.Sound may s) (ho : M.Owed may s) (hstep : M.next s l = some s') : M.Owed may s' := by
  have hcases := M.next_cases hstep
  cases l with
  | call t m =>
      obtain ⟨hp, rfl⟩ := hcases
      exact ho.goes (by rintro w ⟨⟩) (by simp [hp]) s.holder
  | lock t =>
      obtain ⟨-, m, hp, rfl⟩ := hcases
      exact ho.goes (by rintro w ⟨⟩) (by simp [hp]) (some t)
  | test t =>
      obtain ⟨m, hp, hcases⟩ := hcases
      have hquiet : ∀ {u w}, s.phase u = .asleep w → M.guard w s.value = false :=
        ho.of_holds hs (t := t) (by rw [hp]; rfl) (by simp [hp])
      rcases hcases with ⟨hg, rfl⟩ | ⟨hg, rfl⟩
      · -- whoever sleeps did so in vain until now
        intro u w hu hgu
        have hut : u ≠ t := by
          rintro rfl
          cases (s.goes_self u _).symm.trans hu
        have hold := hquiet ((s.goes_of_ne hut _).symm.trans hu)
        exact ⟨t, m, _, s.goes_self t _, hsig m w s.value hg hold hgu⟩
      · intro u w hu hgu
        by_cases hut : u = t
        · subst hut
          cases (s.goes_self u _).symm.trans hu
          exact absurd hgu (Bool.eq_false_iff.mp hg)
        · exact absurd hgu (Bool.eq_false_iff.mp (hquiet ((s.goes_of_ne hut _).symm.trans hu)))
  | signal t woken =>
      obtain ⟨m, result, hp, hwakes, rfl⟩ := hcases
      intro u w hu hgu
      have hut : u ≠ t := by
        rintro rfl
        cases ((s.wake woken).goes_self u _).symm.trans hu
      -- `u` was asleep and was not woken, so the signal was too weak for it
      have hu' := ((s.wake woken).goes_of_ne hut _).symm.trans hu
      obtain ⟨hasleep, hwoken⟩ : s.phase u = .asleep w ∧ u ∉ woken := by
        rcases s.wake_phase woken u with ⟨heq, hw⟩ | ⟨heq, -⟩
        · exact ⟨heq.symm.trans hu', hw⟩
        · exact absurd (heq.symm.trans hu') ((s.phase u).awoken_ne_asleep w)
      have hmem : u ∈ s.sleepers := State.mem_sleepers.mpr ⟨w, hasleep⟩
      obtain ⟨x, k, r, hx, henough⟩ := ho u w hasleep hgu
      obtain rfl : x = t := hs.unique (by rw [hx]; rfl) (by rw [hp]; rfl)
      cases hp.symm.trans hx
      exfalso
      rcases henough with hall | ⟨hone, halone⟩
      · rw [hall] at hwakes
        obtain rfl : woken = s.sleepers := hwakes
        exact hwoken hmem
      · rw [hone] at hwakes
        obtain ⟨y, hy⟩ := hwakes.2 ⟨u, hmem⟩
        obtain ⟨n, hn⟩ := State.mem_sleepers.mp (hwakes.1 hy)
        have hyu : y = u := halone y u n w (hs.called y n (by rw [hn]; rfl))
          (hs.called u w (by rw [hasleep]; rfl)) (hs.slept y n hn) (hs.slept u w hasleep)
        exact hwoken (hyu ▸ hy)
  | leave t result =>
      obtain ⟨m, hp, rfl⟩ := hcases
      exact ho.goes (by rintro w ⟨⟩) (by simp [hp]) none
  | spurious t =>
      obtain ⟨m, hp, rfl⟩ := hcases
      exact ho.goes (by rintro w ⟨⟩) (by simp [hp]) s.holder

/-- **No wake-up is lost**: while the lock is free, the guard of every sleeper is
false. -/
theorem guard_false_of_asleep (hsig : M.Signals may) {v : σ}
    {ms : List (Move (State ι μ σ ρ) (Label ι μ ρ))} {s : State ι μ σ ρ}
    (h : Run (M.system may v) ms s) (hfree : s.holder = none) {t : ι} {w : μ}
    (ht : s.phase t = .asleep w) : M.guard w s.value = false := by
  have howed : M.Owed may s := by
    refine Run.history (I := fun _ s => M.Owed may s) ?_ ?_ h
    · rintro s rfl t w ht
      cases ht
    · rintro ms s l s' hr ho ⟨-, hstep⟩
      exact ho.next hsig (run_sound hr) hstep
  by_contra hg
  obtain ⟨u, m, result, hu, -⟩ := howed t w ht (Bool.not_eq_false _ ▸ hg)
  have hheld := ((run_sound h).held u).mp (by rw [hu]; rfl)
  rw [hfree] at hheld
  cases hheld

/-! ## Who can always move -/

/-- **The holder of the lock can move.** -/
theorem exists_step_of_holds (s : State ι μ σ ρ) {t : ι} (ht : (s.phase t).holds = true) :
    ∃ l : Label ι μ ρ, l.thread = t ∧ l.isInner = true ∧ ∃ s', M.next s l = some s' := by
  cases hp : s.phase t with
  | testing m =>
      refine ⟨.test t, rfl, rfl, ?_⟩
      simp only [Methods.next, hp]
      split <;> exact ⟨_, rfl⟩
  | signalling m result =>
      obtain ⟨woken, hw⟩ := (M.signal m s.value).exists_wakes s.sleepers
      exact ⟨.signal t woken, rfl, rfl, by simp only [Methods.next, hp, if_pos hw]; exact ⟨_, rfl⟩⟩
  | leaving m result =>
      exact ⟨.leave t result, rfl, rfl, by simp only [Methods.next, hp, if_pos]; exact ⟨_, rfl⟩⟩
  | idle => rw [hp] at ht; cases ht
  | entering m => rw [hp] at ht; cases ht
  | asleep m => rw [hp] at ht; cases ht

/-- **A monitor blocks nobody but sleepers**: when no thread inside can move by
itself, all of them are asleep and the lock is free. -/
theorem asleep_of_stuck {s : State ι μ σ ρ} (hs : M.Sound may s)
    (hstuck : ∀ l : Label ι μ ρ, l.isInner = true → M.next s l = none) :
    s.holder = none ∧ ∀ t m, (s.phase t).method = some m → s.phase t = .asleep m := by
  have hholds : ∀ t, (s.phase t).holds = false := by
    intro t
    by_contra ht
    obtain ⟨l, -, hl, s', hs'⟩ := exists_step_of_holds s (Bool.not_eq_false _ ▸ ht)
    rw [hstuck l hl] at hs'
    cases hs'
  have hfree : s.holder = none := by
    cases hh : s.holder with
    | none => rfl
    | some t => exact absurd ((hs.held t).mpr hh) (Bool.eq_false_iff.mp (hholds t))
  refine ⟨hfree, fun t m hm => ?_⟩
  have hnot := hholds t
  cases hp : s.phase t with
  | idle => rw [hp] at hm; cases hm
  | entering k =>
      have hlock := hstuck (.lock t) rfl
      simp only [Methods.next, hp, hfree] at hlock
      cases hlock
  | asleep k =>
      rw [hp] at hm
      cases hm
      rfl
  | testing k => rw [hp] at hnot; cases hnot
  | signalling k result => rw [hp] at hnot; cases hnot
  | leaving k result => rw [hp] at hnot; cases hnot

/-- A thread inside that is awake, or somebody who has the lock, can move. -/
theorem exists_inner {s : State ι μ σ ρ} (hs : M.Sound may s) {t : ι} {m : μ}
    (ht : (s.phase t).method = some m) (hawake : s.phase t ≠ .asleep m ∨ s.holder ≠ none) :
    ∃ l : Label ι μ ρ, l.isInner = true ∧ ∃ s', M.next s l = some s' := by
  by_contra hno
  have hstuck : ∀ l : Label ι μ ρ, l.isInner = true → M.next s l = none := by
    intro l hl
    cases hn : M.next s l with
    | none => rfl
    | some s' => exact absurd ⟨l, hl, s', hn⟩ hno
  obtain ⟨hfree, hall⟩ := asleep_of_stuck hs hstuck
  exact hawake.elim (fun h => h (hall t m ht)) (fun h => h hfree)

end Methods

/-! ## How much work a call is -/

namespace Phase

variable {μ ρ : Type*}

/-- A bound for the steps a thread in this phase has before it, when there are `n`
threads. What a wake-up adds to the work of a sleeper is set aside by the thread
that signals. -/
def work (n : ℕ) : Phase μ ρ → ℕ
  | .idle => 0
  | .entering _ => 2 * n + 4
  | .testing _ => 2 * n + 3
  | .asleep _ => 2 * n + 2
  | .signalling _ _ => 2 * n + 2
  | .leaving _ _ => 1

theorem work_awoken (n : ℕ) (phase : Phase μ ρ) : phase.awoken.work n ≤ phase.work n + 2 := by
  cases phase <;> simp [awoken, work]

end Phase

namespace State

variable {ι μ σ ρ : Type*} [DecidableEq ι] [Fintype ι]

/-- The work before all threads inside. -/
def work (s : State ι μ σ ρ) : ℕ := ∑ t, (s.phase t).work (Fintype.card ι)

omit [DecidableEq ι] in
@[simp] theorem work_new (v : σ) : (new v : State ι μ σ ρ).work = 0 := by
  simp [work, new, Phase.work]

theorem work_goes (s : State ι μ σ ρ) (t : ι) (phase : Phase μ ρ) :
    (s.goes t phase).work + (s.phase t).work (Fintype.card ι) =
      s.work + phase.work (Fintype.card ι) := by
  have hrest : ∀ u ∈ Finset.univ.erase t, ((s.goes t phase).phase u).work (Fintype.card ι) =
      (s.phase u).work (Fintype.card ι) := by
    intro u hu
    rw [s.goes_of_ne (Finset.ne_of_mem_erase hu)]
  rw [work, work, ← Finset.add_sum_erase _ _ (Finset.mem_univ t),
    ← Finset.add_sum_erase Finset.univ (fun u => (s.phase u).work _) (Finset.mem_univ t),
    Finset.sum_congr rfl hrest, goes_self]
  omega

theorem work_wake (s : State ι μ σ ρ) (woken : Finset ι) :
    (s.wake woken).work ≤ s.work + 2 * Fintype.card ι := by
  have heach : ∀ u ∈ Finset.univ, ((s.wake woken).phase u).work (Fintype.card ι) ≤
      (s.phase u).work (Fintype.card ι) + 2 := by
    intro u _
    rcases s.wake_phase woken u with ⟨h, -⟩ | ⟨h, -⟩
    · rw [h]
      exact Nat.le_add_right _ _
    · rw [h]
      exact Phase.work_awoken _ _
  calc
    (s.wake woken).work
    _ ≤ ∑ u, ((s.phase u).work (Fintype.card ι) + 2) := Finset.sum_le_sum heach
    _ = s.work + 2 * Fintype.card ι := by
        rw [Finset.sum_add_distrib, Finset.sum_const, Finset.card_univ, Nat.nsmul_eq_mul,
          Nat.mul_comm _ 2]
        rfl

end State

namespace Methods

variable {ι μ σ ρ : Type*} [Fintype ι] [DecidableEq ι] [DecidableEq ρ] {M : Methods μ σ ρ}

theorem call_work {s s' : State ι μ σ ρ} {t : ι} {m : μ}
    (h : M.next s (.call t m) = some s') : s'.work = s.work + (2 * Fintype.card ι + 4) := by
  obtain ⟨hp, rfl⟩ := M.next_cases h
  have hwork := s.work_goes t (.entering m)
  rw [hp] at hwork
  exact hwork

theorem spurious_work {s s' : State ι μ σ ρ} {t : ι}
    (h : M.next s (.spurious t) = some s') : s'.work = s.work + 2 := by
  obtain ⟨m, hp, rfl⟩ := M.next_cases h
  have hwork := s.work_goes t (.entering m)
  rw [hp] at hwork
  simp only [Phase.work] at hwork
  omega

/-- **A step inside is work done.** -/
theorem inner_work {s s' : State ι μ σ ρ} {l : Label ι μ ρ} (hl : l.isInner = true)
    (h : M.next s l = some s') : s'.work < s.work := by
  have hcases := M.next_cases h
  cases l with
  | call t m => cases hl
  | spurious t => cases hl
  | lock t =>
      obtain ⟨-, m, hp, rfl⟩ := hcases
      have hwork := s.work_goes t (.testing m)
      rw [hp] at hwork
      simp only [Phase.work] at hwork
      exact show (s.goes t _).work < s.work by omega
  | test t =>
      obtain ⟨m, hp, hcases⟩ := hcases
      rcases hcases with ⟨-, rfl⟩ | ⟨-, rfl⟩
      · have hwork := s.work_goes t (.signalling m (M.body m s.value).1)
        rw [hp] at hwork
        simp only [Phase.work] at hwork
        exact show (s.goes t _).work < s.work by omega
      · have hwork := s.work_goes t (.asleep m)
        rw [hp] at hwork
        simp only [Phase.work] at hwork
        exact show (s.goes t _).work < s.work by omega
  | signal t woken =>
      obtain ⟨m, result, hp, -, rfl⟩ := hcases
      have hwork := (s.wake woken).work_goes t (.leaving m result)
      have hwake := s.work_wake woken
      have hphase : (s.wake woken).phase t = .signalling m result := by
        rcases s.wake_phase woken t with ⟨heq, -⟩ | ⟨heq, -⟩
        · exact heq.trans hp
        · exact heq.trans (Phase.awoken_signalling hp)
      rw [hphase] at hwork
      simp only [Phase.work] at hwork
      omega
  | leave t result =>
      obtain ⟨m, hp, rfl⟩ := hcases
      have hwork := s.work_goes t .idle
      rw [hp] at hwork
      simp only [Phase.work] at hwork
      exact show (s.goes t _).work < s.work by omega

theorem exists_call {s : State ι μ σ ρ} {t : ι} (h : (s.phase t).method = none)
    (m : μ) : ∃ s', M.next s (.call t m) = some s' := by
  simp only [Methods.next, Phase.eq_idle_of_method h]
  exact ⟨_, rfl⟩

end Methods

end Monitor
