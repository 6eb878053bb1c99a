import Mathlib.Data.Fintype.Basic
import Mathlib.Logic.Function.Basic
import TinyMuduo.Lib.Transition

/-!
# Monitors: a lock with a condition variable

Threads call methods on a value. A method takes the lock, sleeps on the
condition variable as long as its guard fails, runs its body, signals, and gives
the lock back. A sleeper gives the lock back, too; once woken it has to take it
again and test the guard again, and it may wake for no reason at all.

Whatever the interleaving, the bodies form a sequential history
(`commits_legal`), and calls return in the order of their bodies
(`commits_eq_returns`).
-/

open Transition

namespace Monitor

/-- How many sleepers a method wakes. -/
inductive Signal where
  | nobody
  | one
  | everyone
deriving DecidableEq

structure Methods (μ σ ρ : Type*) where
  guard : μ → σ → Bool
  body : μ → σ → ρ × σ
  /-- Looked at behind the body. -/
  signal : μ → σ → Signal

inductive Phase (μ ρ : Type*) where
  | idle
  /-- Called, or woken: about to take the lock. -/
  | entering (m : μ)
  /-- Has the lock and is about to test the guard. -/
  | testing (m : μ)
  | asleep (m : μ)
  /-- Has run the body and is about to signal. -/
  | signalling (m : μ) (result : ρ)
  | leaving (m : μ) (result : ρ)
deriving DecidableEq

structure State (ι μ σ ρ : Type*) where
  value : σ
  holder : Option ι
  phase : ι → Phase μ ρ

inductive Label (ι μ ρ : Type*) where
  | call (t : ι) (m : μ)
  | lock (t : ι)
  /-- The test, and then the body or the way into sleep. -/
  | test (t : ι)
  | signal (t : ι) (woken : Finset ι)
  | leave (t : ι) (result : ρ)
  /-- A wake-up nobody asked for. -/
  | spurious (t : ι)
deriving DecidableEq

def Label.thread {ι μ ρ : Type*} : Label ι μ ρ → ι
  | .call t _ | .lock t | .test t | .signal t _ | .leave t _ | .spurious t => t

/-- A step a thread takes by itself once it has called. -/
def Label.isInner {ι μ ρ : Type*} : Label ι μ ρ → Bool
  | .call _ _ | .spurious _ => false
  | _ => true

namespace Phase

variable {μ ρ : Type*}

def holds : Phase μ ρ → Bool
  | .testing _ | .signalling _ _ | .leaving _ _ => true
  | _ => false

def isAsleep : Phase μ ρ → Bool
  | .asleep _ => true
  | _ => false

def method : Phase μ ρ → Option μ
  | .idle => none
  | .entering m | .testing m | .asleep m | .signalling m _ | .leaving m _ => some m

/-- The method whose body was run, and its result. -/
def outcome : Phase μ ρ → Option (μ × ρ)
  | .signalling m result | .leaving m result => some (m, result)
  | _ => none

/-- A sleeper that was woken. -/
def awoken : Phase μ ρ → Phase μ ρ
  | .asleep m => .entering m
  | phase => phase

@[simp] theorem holds_awoken (phase : Phase μ ρ) : phase.awoken.holds = phase.holds := by
  cases phase <;> rfl

@[simp] theorem method_awoken (phase : Phase μ ρ) : phase.awoken.method = phase.method := by
  cases phase <;> rfl

@[simp] theorem outcome_awoken (phase : Phase μ ρ) : phase.awoken.outcome = phase.outcome := by
  cases phase <;> rfl

theorem holds_of_outcome {phase : Phase μ ρ} {p : μ × ρ} (h : phase.outcome = some p) :
    phase.holds = true := by
  cases phase with
  | signalling m result => rfl
  | leaving m result => rfl
  | _ => cases h

theorem eq_idle_of_method {phase : Phase μ ρ} (h : phase.method = none) : phase = .idle := by
  cases phase with
  | idle => rfl
  | _ => cases h

theorem awoken_ne_asleep (phase : Phase μ ρ) (m : μ) : phase.awoken ≠ .asleep m := by
  cases phase <;> rintro ⟨⟩

theorem awoken_signalling {phase : Phase μ ρ} {m : μ} {result : ρ}
    (h : phase = .signalling m result) : phase.awoken = .signalling m result := by
  rw [h]
  rfl

end Phase

/-- Who may be woken by a signal when `sleepers` are asleep. -/
def Signal.Wakes {ι : Type*} (sleepers : Finset ι) : Signal → Finset ι → Prop
  | .nobody, woken => woken = ∅
  | .one, woken => woken ⊆ sleepers ∧ (sleepers.Nonempty → woken.Nonempty)
  | .everyone, woken => woken = sleepers

instance {ι : Type*} [DecidableEq ι] (sleepers woken : Finset ι) :
    ∀ signal : Signal, Decidable (signal.Wakes sleepers woken)
  | .nobody => inferInstanceAs (Decidable (woken = ∅))
  | .one => inferInstanceAs (Decidable (woken ⊆ sleepers ∧ (sleepers.Nonempty → woken.Nonempty)))
  | .everyone => inferInstanceAs (Decidable (woken = sleepers))

theorem Signal.exists_wakes {ι : Type*} (sleepers : Finset ι) (signal : Signal) :
    ∃ woken, signal.Wakes sleepers woken := by
  cases signal with
  | nobody => exact ⟨∅, rfl⟩
  | one => exact ⟨sleepers, Finset.Subset.refl _, id⟩
  | everyone => exact ⟨sleepers, rfl⟩

namespace State

variable {ι μ σ ρ : Type*}

def new (value : σ) : State ι μ σ ρ := ⟨value, none, fun _ => .idle⟩

def sleepers [Fintype ι] (s : State ι μ σ ρ) : Finset ι := {t | (s.phase t).isAsleep}

theorem mem_sleepers [Fintype ι] {s : State ι μ σ ρ} {t : ι} :
    t ∈ s.sleepers ↔ ∃ m, s.phase t = .asleep m := by
  simp only [sleepers, Finset.mem_filter, Finset.mem_univ, true_and]
  cases s.phase t <;> simp [Phase.isAsleep]

variable [DecidableEq ι]

def goes (s : State ι μ σ ρ) (t : ι) (phase : Phase μ ρ) : State ι μ σ ρ :=
  { s with phase := Function.update s.phase t phase }

def wake (s : State ι μ σ ρ) (woken : Finset ι) : State ι μ σ ρ :=
  { s with phase := fun u => if u ∈ woken then (s.phase u).awoken else s.phase u }

@[simp] theorem goes_self (s : State ι μ σ ρ) (t : ι) (phase : Phase μ ρ) :
    (s.goes t phase).phase t = phase := Function.update_self ..

theorem goes_of_ne (s : State ι μ σ ρ) {t u : ι} (h : u ≠ t) (phase : Phase μ ρ) :
    (s.goes t phase).phase u = s.phase u := Function.update_of_ne h _ _

@[simp] theorem goes_value (s : State ι μ σ ρ) (t : ι) (phase : Phase μ ρ) :
    (s.goes t phase).value = s.value := rfl

@[simp] theorem goes_holder (s : State ι μ σ ρ) (t : ι) (phase : Phase μ ρ) :
    (s.goes t phase).holder = s.holder := rfl

@[simp] theorem wake_value (s : State ι μ σ ρ) (woken : Finset ι) :
    (s.wake woken).value = s.value := rfl

@[simp] theorem wake_holder (s : State ι μ σ ρ) (woken : Finset ι) :
    (s.wake woken).holder = s.holder := rfl

theorem wake_phase (s : State ι μ σ ρ) (woken : Finset ι) (u : ι) :
    (s.wake woken).phase u = s.phase u ∧ u ∉ woken ∨
      (s.wake woken).phase u = (s.phase u).awoken ∧ u ∈ woken := by
  by_cases h : u ∈ woken
  · exact .inr ⟨if_pos h, h⟩
  · exact .inl ⟨if_neg h, h⟩

/-- What a wake-up cannot change of a phase. -/
theorem wake_kept {κ : Type*} {f : Phase μ ρ → κ} (hf : ∀ phase, f phase.awoken = f phase)
    (s : State ι μ σ ρ) (woken : Finset ι) (u : ι) :
    f ((s.wake woken).phase u) = f (s.phase u) := by
  rcases s.wake_phase woken u with ⟨h, -⟩ | ⟨h, -⟩
  · rw [h]
  · rw [h, hf]

/-- The method a thread is in, and what its body returned if it has run. -/
def view (s : State ι μ σ ρ) (t : ι) : Option μ × Option (μ × ρ) :=
  ((s.phase t).method, (s.phase t).outcome)

omit [DecidableEq ι] in
theorem view_eq {s : State ι μ σ ρ} {t : ι} {m : Option μ} {p : Option (μ × ρ)} :
    s.view t = (m, p) ↔ (s.phase t).method = m ∧ (s.phase t).outcome = p := Prod.mk_inj

theorem view_goes (s : State ι μ σ ρ) (t : ι) (phase : Phase μ ρ) :
    (s.goes t phase).view = Function.update s.view t (phase.method, phase.outcome) := by
  funext u
  by_cases hu : u = t
  · subst hu
    rw [Function.update_self, view, goes_self]
  · rw [Function.update_of_ne hu, view, view, s.goes_of_ne hu]

theorem view_goes_same (s : State ι μ σ ρ) {t : ι} {phase : Phase μ ρ}
    (hmethod : phase.method = (s.phase t).method)
    (houtcome : phase.outcome = (s.phase t).outcome) : (s.goes t phase).view = s.view := by
  rw [view_goes, hmethod, houtcome]
  exact Function.update_eq_self t s.view

theorem view_wake (s : State ι μ σ ρ) (woken : Finset ι) : (s.wake woken).view = s.view := by
  funext u
  rw [view, wake_kept Phase.method_awoken, wake_kept Phase.outcome_awoken]
  rfl

end State

namespace Methods

variable {ι μ σ ρ : Type*} [Fintype ι] [DecidableEq ι] [DecidableEq ρ] (M : Methods μ σ ρ)

def next (s : State ι μ σ ρ) : Label ι μ ρ → Option (State ι μ σ ρ)
  | .call t m =>
      match s.phase t with
      | .idle => some (s.goes t (.entering m))
      | _ => none
  | .lock t =>
      match s.phase t, s.holder with
      | .entering m, none => some { s.goes t (.testing m) with holder := some t }
      | _, _ => none
  | .test t =>
      match s.phase t with
      | .testing m =>
          if M.guard m s.value then
            some { s.goes t (.signalling m (M.body m s.value).1) with
              value := (M.body m s.value).2 }
          else some { s.goes t (.asleep m) with holder := none }
      | _ => none
  | .signal t woken =>
      match s.phase t with
      | .signalling m result =>
          if (M.signal m s.value).Wakes s.sleepers woken then
            some ((s.wake woken).goes t (.leaving m result))
          else none
      | _ => none
  | .leave t result =>
      match s.phase t with
      | .leaving _ r =>
          if r = result then some { s.goes t .idle with holder := none } else none
      | _ => none
  | .spurious t =>
      match s.phase t with
      | .asleep m => some (s.goes t (.entering m))
      | _ => none

/-! ## What one step can do -/

theorem next_cases {s s' : State ι μ σ ρ} {l : Label ι μ ρ} (h : M.next s l = some s') :
    match l with
    | .call t m => s.phase t = .idle ∧ s' = s.goes t (.entering m)
    | .lock t => s.holder = none ∧ ∃ m, s.phase t = .entering m ∧
        s' = { s.goes t (.testing m) with holder := some t }
    | .test t => ∃ m, s.phase t = .testing m ∧
        (M.guard m s.value = true ∧
            s' = { s.goes t (.signalling m (M.body m s.value).1) with
              value := (M.body m s.value).2 } ∨
          M.guard m s.value = false ∧ s' = { s.goes t (.asleep m) with holder := none })
    | .signal t woken => ∃ m result, s.phase t = .signalling m result ∧
        (M.signal m s.value).Wakes s.sleepers woken ∧
        s' = (s.wake woken).goes t (.leaving m result)
    | .leave t result => ∃ m, s.phase t = .leaving m result ∧
        s' = { s.goes t .idle with holder := none }
    | .spurious t => ∃ m, s.phase t = .asleep m ∧ s' = s.goes t (.entering m) := by
  cases l with
  | call t m =>
      simp only [next] at h
      split at h
      · next hp => exact ⟨hp, (Option.some.inj h).symm⟩
      · cases h
  | lock t =>
      simp only [next] at h
      split at h
      · next m hp hh => exact ⟨hh, m, hp, (Option.some.inj h).symm⟩
      · cases h
  | test t =>
      simp only [next] at h
      split at h
      · next m hp =>
          split at h
          · next hg => exact ⟨m, hp, .inl ⟨hg, (Option.some.inj h).symm⟩⟩
          · next hg => exact ⟨m, hp, .inr ⟨Bool.eq_false_iff.mpr hg, (Option.some.inj h).symm⟩⟩
      · cases h
  | signal t woken =>
      simp only [next] at h
      split at h
      · next m result hp =>
          split at h
          · next hw => exact ⟨m, result, hp, hw, (Option.some.inj h).symm⟩
          · cases h
      · cases h
  | leave t result =>
      simp only [next] at h
      split at h
      · next m r hp =>
          split at h
          · next hr => exact ⟨m, hr ▸ hp, (Option.some.inj h).symm⟩
          · cases h
      · cases h
  | spurious t =>
      simp only [next] at h
      split at h
      · next m hp => exact ⟨m, hp, (Option.some.inj h).symm⟩
      · cases h

/-- The others keep what a wake-up cannot change. -/
theorem next_other {κ : Type*} {f : Phase μ ρ → κ} (hf : ∀ phase, f phase.awoken = f phase)
    {s s' : State ι μ σ ρ} {l : Label ι μ ρ} (h : M.next s l = some s') {u : ι}
    (hu : u ≠ l.thread) : f (s'.phase u) = f (s.phase u) := by
  have hcases := M.next_cases h
  cases l with
  | call t m =>
      obtain ⟨-, rfl⟩ := hcases
      exact congrArg f (State.goes_of_ne _ hu _)
  | lock t =>
      obtain ⟨-, m, -, rfl⟩ := hcases
      exact congrArg f (State.goes_of_ne _ hu _)
  | test t =>
      obtain ⟨m, -, ⟨-, rfl⟩ | ⟨-, rfl⟩⟩ := hcases
      · exact congrArg f (State.goes_of_ne _ hu _)
      · exact congrArg f (State.goes_of_ne _ hu _)
  | signal t woken =>
      obtain ⟨m, result, -, -, rfl⟩ := hcases
      exact (congrArg f (State.goes_of_ne _ hu _)).trans (State.wake_kept hf s woken u)
  | leave t result =>
      obtain ⟨m, -, rfl⟩ := hcases
      exact congrArg f (State.goes_of_ne _ hu _)
  | spurious t =>
      obtain ⟨m, -, rfl⟩ := hcases
      exact congrArg f (State.goes_of_ne _ hu _)

/-- What an observer of the calls sees of a step: a thread calls, its body runs, or
it returns; all else is silent. -/
inductive Acts (M : Methods μ σ ρ) (s : State ι μ σ ρ) : Label ι μ ρ → State ι μ σ ρ → Prop where
  | call {t : ι} {m : μ} {s' : State ι μ σ ρ} :
      s.view t = (none, none) → s'.view = Function.update s.view t (some m, none) →
      s'.value = s.value → Acts M s (.call t m) s'
  | run {t : ι} {m : μ} {s' : State ι μ σ ρ} :
      s.view t = (some m, none) → M.guard m s.value = true →
      s'.view = Function.update s.view t (some m, some (m, (M.body m s.value).1)) →
      s'.value = (M.body m s.value).2 → Acts M s (.test t) s'
  | leave {t : ι} {m : μ} {result : ρ} {s' : State ι μ σ ρ} :
      s.view t = (some m, some (m, result)) →
      s'.view = Function.update s.view t (none, none) → s'.value = s.value →
      Acts M s (.leave t result) s'
  | silent {l : Label ι μ ρ} {s' : State ι μ σ ρ} :
      (∀ t m, l ≠ .call t m) → (∀ t result, l ≠ .leave t result) →
      s'.view = s.view → s'.value = s.value → Acts M s l s'

theorem next_acts {s s' : State ι μ σ ρ} {l : Label ι μ ρ} (h : M.next s l = some s') :
    M.Acts s l s' := by
  have hcases := M.next_cases h
  cases l with
  | call t m =>
      obtain ⟨hp, rfl⟩ := hcases
      exact .call (by rw [State.view, hp]; rfl) (s.view_goes t _) rfl
  | lock t =>
      obtain ⟨-, m, hp, rfl⟩ := hcases
      refine .silent (by rintro _ _ ⟨⟩) (by rintro _ _ ⟨⟩) ?_ rfl
      exact s.view_goes_same (by rw [hp]; rfl) (by rw [hp]; rfl)
  | test t =>
      obtain ⟨m, hp, ⟨hg, rfl⟩ | ⟨-, rfl⟩⟩ := hcases
      · exact .run (by rw [State.view, hp]; rfl) hg (s.view_goes t _) rfl
      · refine .silent (by rintro _ _ ⟨⟩) (by rintro _ _ ⟨⟩) ?_ rfl
        exact s.view_goes_same (by rw [hp]; rfl) (by rw [hp]; rfl)
  | signal t woken =>
      obtain ⟨m, result, hp, -, rfl⟩ := hcases
      refine .silent (by rintro _ _ ⟨⟩) (by rintro _ _ ⟨⟩) ?_ rfl
      rw [← s.view_wake woken]
      refine (s.wake woken).view_goes_same ?_ ?_
      · rw [State.wake_kept Phase.method_awoken, hp]
        rfl
      · rw [State.wake_kept Phase.outcome_awoken, hp]
        rfl
  | leave t result =>
      obtain ⟨m, hp, rfl⟩ := hcases
      exact .leave (by rw [State.view, hp]; rfl) (s.view_goes t _) rfl
  | spurious t =>
      obtain ⟨m, hp, rfl⟩ := hcases
      refine .silent (by rintro _ _ ⟨⟩) (by rintro _ _ ⟨⟩) ?_ rfl
      exact s.view_goes_same (by rw [hp]; rfl) (by rw [hp]; rfl)

namespace Acts

variable {M : Methods μ σ ρ} {s s' : State ι μ σ ρ} {l : Label ι μ ρ}

omit [Fintype ι] [DecidableEq ρ] in
theorem method_eq (h : M.Acts s l s') (hcall : ∀ t m, l ≠ .call t m)
    (hleave : ∀ t r, l ≠ .leave t r) (u : ι) : (s'.phase u).method = (s.phase u).method := by
  cases h with
  | @call t m => exact absurd rfl (hcall t m)
  | @leave t _ r => exact absurd rfl (hleave t r)
  | silent _ _ hview _ => exact congrArg Prod.fst (congrFun hview u)
  | @run t m _ hview _ hview' _ =>
      have hu := congrFun hview' u
      by_cases hut : u = t
      · subst hut
        rw [Function.update_self, State.view_eq] at hu
        exact hu.1.trans (State.view_eq.mp hview).1.symm
      · rw [Function.update_of_ne hut] at hu
        exact congrArg Prod.fst hu

end Acts

theorem next_asleep {s s' : State ι μ σ ρ} {l : Label ι μ ρ} (h : M.next s l = some s') {u : ι}
    {m : μ} (hu : u ≠ l.thread) (hs : s'.phase u = .asleep m) : s.phase u = .asleep m := by
  have hcases := M.next_cases h
  cases l with
  | call t k =>
      obtain ⟨-, rfl⟩ := hcases
      exact (State.goes_of_ne _ hu _).symm.trans hs
  | lock t =>
      obtain ⟨-, k, -, rfl⟩ := hcases
      exact (State.goes_of_ne _ hu _).symm.trans hs
  | test t =>
      obtain ⟨k, -, ⟨-, rfl⟩ | ⟨-, rfl⟩⟩ := hcases
      · exact (State.goes_of_ne _ hu _).symm.trans hs
      · exact (State.goes_of_ne _ hu _).symm.trans hs
  | signal t woken =>
      obtain ⟨k, result, -, -, rfl⟩ := hcases
      have hw := (State.goes_of_ne _ hu _).symm.trans hs
      rcases s.wake_phase woken u with ⟨heq, -⟩ | ⟨heq, -⟩
      · exact heq ▸ hw
      · exact absurd (heq.symm.trans hw) ((s.phase u).awoken_ne_asleep m)
  | leave t result =>
      obtain ⟨k, -, rfl⟩ := hcases
      exact (State.goes_of_ne _ hu _).symm.trans hs
  | spurious t =>
      obtain ⟨k, -, rfl⟩ := hcases
      exact (State.goes_of_ne _ hu _).symm.trans hs

/-- Who falls asleep has found its guard false. -/
theorem guard_of_next_asleep {s s' : State ι μ σ ρ} {l : Label ι μ ρ} (h : M.next s l = some s')
    {m : μ} (hs : s'.phase l.thread = .asleep m) : M.guard m s.value = false := by
  have hcases := M.next_cases h
  cases l with
  | call t k =>
      obtain ⟨-, rfl⟩ := hcases
      cases (s.goes_self t _).symm.trans hs
  | lock t =>
      obtain ⟨-, k, -, rfl⟩ := hcases
      cases (s.goes_self t _).symm.trans hs
  | test t =>
      obtain ⟨k, -, ⟨-, rfl⟩ | ⟨hg, rfl⟩⟩ := hcases
      · cases (s.goes_self t _).symm.trans hs
      · cases (s.goes_self t _).symm.trans hs
        exact hg
  | signal t woken =>
      obtain ⟨k, result, -, -, rfl⟩ := hcases
      cases ((s.wake woken).goes_self t _).symm.trans hs
  | leave t result =>
      obtain ⟨k, -, rfl⟩ := hcases
      cases (s.goes_self t _).symm.trans hs
  | spurious t =>
      obtain ⟨k, -, rfl⟩ := hcases
      cases (s.goes_self t _).symm.trans hs

/-- A step takes the lock, gives it back, or leaves it where it is. -/
theorem next_holder {s s' : State ι μ σ ρ} {l : Label ι μ ρ} (h : M.next s l = some s') :
    (s.holder = none ∧ s'.holder = some l.thread ∧ (s'.phase l.thread).holds = true) ∨
      ((s.phase l.thread).holds = true ∧ s'.holder = none ∧
        (s'.phase l.thread).holds = false) ∨
      (s'.holder = s.holder ∧ (s'.phase l.thread).holds = (s.phase l.thread).holds) := by
  have hcases := M.next_cases h
  cases l with
  | call t m =>
      obtain ⟨hp, rfl⟩ := hcases
      simp [Label.thread, Phase.holds, hp]
  | lock t =>
      obtain ⟨hh, m, hp, rfl⟩ := hcases
      simp [Label.thread, State.goes, Phase.holds, hh]
  | test t =>
      obtain ⟨m, hp, ⟨hg, rfl⟩ | ⟨hg, rfl⟩⟩ := hcases
      · simp [Label.thread, State.goes, Phase.holds, hp]
      · simp [Label.thread, State.goes, Phase.holds, hp]
  | signal t woken =>
      obtain ⟨m, result, hp, -, rfl⟩ := hcases
      simp [Label.thread, Phase.holds, hp]
  | leave t result =>
      obtain ⟨m, hp, rfl⟩ := hcases
      simp [Label.thread, State.goes, Phase.holds, hp]
  | spurious t =>
      obtain ⟨m, hp, rfl⟩ := hcases
      simp [Label.thread, Phase.holds, hp]

/-- Runs of the monitor from a value. `may` says who calls what. -/
def system (may : ι → μ → Prop) (v : σ) : LTS (State ι μ σ ρ) (Label ι μ ρ) where
  init s := s = State.new v
  step s l s' := (∀ t m, l = .call t m → may t m) ∧ M.next s l = some s'

/-- Labels make a run when the calls among them are allowed. -/
theorem run_of_labels {may : ι → μ → Prop} {v : σ} {ls : List (Label ι μ ρ)}
    {p : List (Move (State ι μ σ ρ) (Label ι μ ρ)) × State ι μ σ ρ}
    (hmay : ∀ t m, .call t m ∈ ls → may t m) (h : moves M.next (State.new v) ls = some p) :
    Run (M.system may v) p.1 p.2 := by
  have hrun := (Run.start (T := LTS.ofNext (· = State.new v) M.next) rfl).moves ls h
  refine Run.admitted hrun (fun _ hs => hs) fun x hx hstep => ⟨?_, hstep⟩
  intro t m hl
  refine hmay t m ?_
  rw [← labels_of_moves h, ← hl]
  exact List.mem_map_of_mem hx

/-! ## Mutual exclusion, and what the threads inside are about -/

/-- What holds of the lock and of the threads between any two steps. -/
structure Sound (may : ι → μ → Prop) (s : State ι μ σ ρ) : Prop where
  held : ∀ t, (s.phase t).holds = true ↔ s.holder = some t
  called : ∀ t m, (s.phase t).method = some m → may t m
  slept : ∀ t m, s.phase t = .asleep m → ∃ v, M.guard m v = false

variable {M} {may : ι → μ → Prop}

omit [Fintype ι] [DecidableEq ι] [DecidableEq ρ] in
theorem Sound.unique {s : State ι μ σ ρ} (h : M.Sound may s) {t u : ι}
    (ht : (s.phase t).holds = true) (hu : (s.phase u).holds = true) : t = u := by
  have htu := ((h.held t).mp ht).symm.trans ((h.held u).mp hu)
  exact Option.some.inj htu

omit [DecidableEq ι] [Fintype ι] [DecidableEq ρ] in
theorem sound_new (v : σ) : M.Sound may (State.new v : State ι μ σ ρ) where
  held _ := by simp [State.new, Phase.holds]
  called _ _ h := by cases h
  slept _ _ h := by cases h

/-- **One step keeps it.** -/
theorem Sound.next {s s' : State ι μ σ ρ} {l : Label ι μ ρ} (h : M.Sound may s)
    (hmay : ∀ t m, l = .call t m → may t m) (hstep : M.next s l = some s') :
    M.Sound may s' := by
  have hacts := M.next_acts hstep
  refine ⟨?_, ?_, ?_⟩
  · intro u
    have hother : u ≠ l.thread → (s'.phase u).holds = (s.phase u).holds :=
      M.next_other Phase.holds_awoken hstep
    rcases M.next_holder hstep with ⟨hfree, hh, hp⟩ | ⟨hp, hh, hp'⟩ | ⟨hh, hp⟩
    · -- the lock was free, so nobody else had it
      have hnone : ¬ (s.phase u).holds = true := fun hu => by
        have hheld := (h.held u).mp hu
        rw [hfree] at hheld
        cases hheld
      rw [hh]
      grind
    · have hheld := (h.held l.thread).mp hp
      have hu := h.held u
      rw [hh]
      grind
    · have hu := h.held u
      rw [hh]
      grind
  · intro u m hm
    cases hacts with
    | @call t k _ hview hview' _ =>
        have hu := congrFun hview' u
        by_cases hut : u = t
        · subst hut
          rw [Function.update_self, State.view_eq, hm] at hu
          exact hmay u m (by rw [Option.some.inj hu.1])
        · rw [Function.update_of_ne hut] at hu
          exact h.called u m ((congrArg Prod.fst hu).symm.trans hm)
    | @run t k _ hview _ hview' _ =>
        have hu := congrFun hview' u
        by_cases hut : u = t
        · subst hut
          rw [Function.update_self, State.view_eq, hm] at hu
          exact h.called u m ((State.view_eq.mp hview).1.trans hu.1.symm)
        · rw [Function.update_of_ne hut] at hu
          exact h.called u m ((congrArg Prod.fst hu).symm.trans hm)
    | @leave t k r _ hview hview' _ =>
        have hu := congrFun hview' u
        by_cases hut : u = t
        · subst hut
          rw [Function.update_self, State.view_eq, hm] at hu
          cases hu.1
        · rw [Function.update_of_ne hut] at hu
          exact h.called u m ((congrArg Prod.fst hu).symm.trans hm)
    | silent _ _ hview _ =>
        exact h.called u m ((congrArg Prod.fst (congrFun hview u)).symm.trans hm)
  · intro u m hm
    by_cases hu : u = l.thread
    · subst hu
      exact ⟨_, M.guard_of_next_asleep hstep hm⟩
    · exact h.slept u m (M.next_asleep hstep hu hm)

/-- **Everything a run does is sound.** -/
theorem run_sound {v : σ} {ms : List (Move (State ι μ σ ρ) (Label ι μ ρ))} {s : State ι μ σ ρ}
    (h : Run (M.system may v) ms s) : M.Sound may s := by
  refine Run.invariant (I := M.Sound may) ?_ ?_ h
  · rintro s rfl
    exact sound_new v
  · rintro s l s' hs ⟨hmay, hstep⟩
    exact hs.next hmay hstep

/-! ## The bodies form a sequential history -/

/-- The calls of `cs`, made one after the other on `v`, each when its guard holds,
return what `cs` says and lead to `v'`. -/
inductive Legal (M : Methods μ σ ρ) (v : σ) : List (ι × μ × ρ) → σ → Prop where
  | start : Legal M v [] v
  | call {cs : List (ι × μ × ρ)} {v' : σ} (t : ι) (m : μ) :
      Legal M v cs v' → M.guard m v' = true →
      Legal M v (cs ++ [(t, m, (M.body m v').1)]) (M.body m v').2

/-- The body a move ran. -/
def commit (x : Move (State ι μ σ ρ) (Label ι μ ρ)) : Option (ι × μ × ρ) :=
  match x.label with
  | .test t => (x.post.phase t).outcome.map fun p => (t, p.1, p.2)
  | _ => none

/-- The bodies in the order they ran. -/
def commits (ms : List (Move (State ι μ σ ρ) (Label ι μ ρ))) : List (ι × μ × ρ) :=
  visible commit ms

theorem commit_step {s s' : State ι μ σ ρ} {l : Label ι μ ρ} (h : M.next s l = some s') :
    (commit ⟨s, l, s'⟩ = none ∧ s'.value = s.value) ∨
      ∃ t m, l = .test t ∧ M.guard m s.value = true ∧ s.phase t = .testing m ∧
        commit ⟨s, l, s'⟩ = some (t, m, (M.body m s.value).1) ∧
        s'.value = (M.body m s.value).2 := by
  have hcases := M.next_cases h
  cases l with
  | call t m =>
      obtain ⟨-, rfl⟩ := hcases
      exact .inl ⟨rfl, rfl⟩
  | lock t =>
      obtain ⟨-, m, -, rfl⟩ := hcases
      exact .inl ⟨rfl, rfl⟩
  | test t =>
      obtain ⟨m, hp, ⟨hg, rfl⟩ | ⟨hg, rfl⟩⟩ := hcases
      · exact .inr ⟨t, m, rfl, hg, hp, by simp [commit, State.goes, Phase.outcome], rfl⟩
      · exact .inl ⟨by simp [commit, State.goes, Phase.outcome], rfl⟩
  | signal t woken =>
      obtain ⟨m, result, -, -, rfl⟩ := hcases
      exact .inl ⟨rfl, rfl⟩
  | leave t result =>
      obtain ⟨m, -, rfl⟩ := hcases
      exact .inl ⟨rfl, rfl⟩
  | spurious t =>
      obtain ⟨m, -, rfl⟩ := hcases
      exact .inl ⟨rfl, rfl⟩

/-- **Every run is a sequential history of calls**, in the order of the bodies. -/
theorem commits_legal {v : σ} {ms : List (Move (State ι μ σ ρ) (Label ι μ ρ))}
    {s : State ι μ σ ρ} (h : Run (M.system may v) ms s) : M.Legal v (commits ms) s.value := by
  refine Run.history (I := fun ms s => M.Legal v (commits ms) s.value) ?_ ?_ h
  · rintro s rfl
    exact .start
  · rintro ms s l s' - ih ⟨-, hstep⟩
    rw [commits, visible_snoc]
    rcases commit_step hstep with ⟨hc, hv⟩ | ⟨t, m, -, hg, -, hc, hv⟩
    · rw [hc, hv]
      simpa [commits] using ih
    · rw [hc, hv]
      exact ih.call t m hg

/-- The call a move returned from. -/
def returned (x : Move (State ι μ σ ρ) (Label ι μ ρ)) : Option (ι × μ × ρ) :=
  match x.label with
  | .leave t _ => (x.pre.phase t).outcome.map fun p => (t, p.1, p.2)
  | _ => none

def returns (ms : List (Move (State ι μ σ ρ) (Label ι μ ρ))) : List (ι × μ × ρ) :=
  visible returned ms

/-- The call whose body has run and which has not returned. -/
def pending (s : State ι μ σ ρ) : Option (ι × μ × ρ) :=
  s.holder.bind fun t => (s.phase t).outcome.map fun p => (t, p.1, p.2)

omit [Fintype ι] [DecidableEq ι] [DecidableEq ρ] in
theorem Sound.pending_eq {s : State ι μ σ ρ} (h : M.Sound may s) {t : ι}
    (ht : (s.phase t).holds = true) :
    pending s = (s.phase t).outcome.map fun p => (t, p.1, p.2) := by
  rw [pending, (h.held t).mp ht]
  rfl

omit [Fintype ι] [DecidableEq ι] [DecidableEq ρ] in
theorem Sound.pending_of_returned {x : Move (State ι μ σ ρ) (Label ι μ ρ)}
    (h : M.Sound may x.pre) {c : ι × μ × ρ} (hx : returned x = some c) :
    pending x.pre = some c := by
  unfold returned at hx
  split at hx
  · next t _ _ =>
      obtain ⟨p, hp, rfl⟩ := Option.map_eq_some_iff.mp hx
      rw [h.pending_eq (Phase.holds_of_outcome hp), hp]
      rfl
  · cases hx

omit [Fintype ι] [DecidableEq ρ] in
/-- A thread without the lock may go anywhere. -/
theorem Sound.pending_goes {s : State ι μ σ ρ} (h : M.Sound may s) {t : ι}
    (ht : (s.phase t).holds = false) (phase : Phase μ ρ) :
    pending (s.goes t phase) = pending s := by
  cases hh : s.holder with
  | none => simp [pending, hh]
  | some u =>
      have hu : u ≠ t := by
        rintro rfl
        rw [(h.held u).mpr hh] at ht
        cases ht
      simp [pending, hh, s.goes_of_ne hu]

theorem pending_step {s s' : State ι μ σ ρ} {l : Label ι μ ρ} (hs : M.Sound may s)
    (h : M.next s l = some s') :
    (pending s).toList ++ (commit ⟨s, l, s'⟩).toList =
      (returned ⟨s, l, s'⟩).toList ++ (pending s').toList := by
  have hcases := M.next_cases h
  cases l with
  | call t m =>
      obtain ⟨hp, rfl⟩ := hcases
      rw [hs.pending_goes (by rw [hp]; rfl)]
      simp [commit, returned]
  | lock t =>
      obtain ⟨hh, m, hp, rfl⟩ := hcases
      simp [commit, returned, pending, hh, State.goes, Phase.outcome]
  | test t =>
      obtain ⟨m, hp, hcases⟩ := hcases
      rw [hs.pending_eq (t := t) (by rw [hp]; rfl), hp]
      rcases hcases with ⟨-, rfl⟩ | ⟨-, rfl⟩
      · have hh := (hs.held t).mp (by rw [hp]; rfl)
        simp [commit, returned, pending, State.goes, Phase.outcome, hh]
      · simp [commit, returned, pending, State.goes, Phase.outcome]
  | signal t woken =>
      obtain ⟨m, result, hp, -, rfl⟩ := hcases
      have hh := (hs.held t).mp (by rw [hp]; rfl)
      simp [commit, returned, pending, hh, hp, State.goes, Phase.outcome]
  | leave t result =>
      obtain ⟨m, hp, rfl⟩ := hcases
      rw [hs.pending_eq (t := t) (by rw [hp]; rfl), hp]
      simp [commit, returned, pending, hp, Phase.outcome]
  | spurious t =>
      obtain ⟨m, hp, rfl⟩ := hcases
      rw [hs.pending_goes (by rw [hp]; rfl)]
      simp [commit, returned]

/-- **Every call that returned ran its body once**, and calls return in the order
of their bodies. -/
theorem commits_eq_returns {v : σ} {ms : List (Move (State ι μ σ ρ) (Label ι μ ρ))}
    {s : State ι μ σ ρ} (h : Run (M.system may v) ms s) :
    commits ms = returns ms ++ (pending s).toList := by
  refine Run.history (I := fun ms s => commits ms = returns ms ++ (pending s).toList) ?_ ?_ h
  · rintro s rfl
    rfl
  · rintro ms s l s' hr ih ⟨-, hstep⟩
    have hstep' := pending_step (run_sound hr) hstep
    rw [commits, returns, visible_snoc, visible_snoc]
    calc
      visible commit ms ++ (commit ⟨s, l, s'⟩).toList
      _ = returns ms ++ ((pending s).toList ++ (commit ⟨s, l, s'⟩).toList) := by
          rw [← List.append_assoc, ← ih]
          rfl
      _ = visible returned ms ++ (returned ⟨s, l, s'⟩).toList ++ (pending s').toList := by
          rw [hstep', ← List.append_assoc]
          rfl

/-- At a return the calls that have returned are a sequential history. -/
theorem legal_of_returned {v : σ} {ms before after : List (Move (State ι μ σ ρ) (Label ι μ ρ))}
    {s : State ι μ σ ρ} {x : Move (State ι μ σ ρ) (Label ι μ ρ)} {c : ι × μ × ρ}
    (h : Run (M.system may v) ms s) (hms : ms = before ++ x :: after)
    (hx : returned x = some c) : M.Legal v (returns before ++ [c]) x.pre.value := by
  have hpre := (h.split hms).1
  have hlegal := commits_legal hpre
  rw [commits_eq_returns hpre, (run_sound hpre).pending_of_returned hx] at hlegal
  exact hlegal

/-- Between critical sections every body has been returned from. -/
theorem returns_eq_commits {v : σ} {ms : List (Move (State ι μ σ ρ) (Label ι μ ρ))}
    {s : State ι μ σ ρ} (h : Run (M.system may v) ms s) (hfree : s.holder = none) :
    returns ms = commits ms := by
  have heq := commits_eq_returns h
  rw [pending, hfree] at heq
  exact (heq.trans (List.append_nil _)).symm

end Methods

end Monitor
