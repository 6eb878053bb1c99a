import Mathlib.Algebra.BigOperators.Intervals

/-!
# Loops that need not end

A `while` loop is run for a number of rounds, and it exits when some number is
enough. A loop may count towards a goal by what its environment grants it in each
round; it exits exactly when the environment does not stall (`exits_iff`).
-/

namespace While

/-! ## Rounds -/

section Rounds

variable {σ : Type*} (done : σ → Prop) [DecidablePred done] (body : σ → σ)

/-- `while (!done) body`, for `n` rounds at most. -/
def rounds : ℕ → σ → σ
  | 0, s => s
  | n + 1, s => if done s then s else rounds n (body s)

theorem rounds_of_done {s : σ} (h : done s) (n : ℕ) : rounds done body n s = s := by
  cases n with
  | zero => rfl
  | succ n => exact if_pos h

theorem rounds_succ (n : ℕ) : ∀ s : σ, rounds done body (n + 1) s =
    if done (rounds done body n s) then rounds done body n s
    else body (rounds done body n s) := by
  induction n with
  | zero =>
      intro s
      rfl
  | succ n ih =>
      intro s
      by_cases hs : done s
      · rw [rounds_of_done done body hs, rounds_of_done done body hs, if_pos hs]
      · have hfirst : rounds done body (n + 1) s = rounds done body n (body s) := if_neg hs
        rw [hfirst, ← ih (body s)]
        exact if_neg hs

/-- **Invariant rule.** -/
theorem rounds_invariant {I : σ → Prop} (hbody : ∀ s, ¬ done s → I s → I (body s)) {s : σ}
    (hs : I s) (n : ℕ) : I (rounds done body n s) := by
  induction n with
  | zero => exact hs
  | succ n ih =>
      rw [rounds_succ]
      split
      · exact ih
      next hdone => exact hbody _ hdone ih

end Rounds

/-! ## Counting towards a goal -/

variable {grant : ℕ → ℕ} {goal : ℕ}

/-- What the first `n` rounds are granted. -/
def total (grant : ℕ → ℕ) (n : ℕ) : ℕ := ∑ i ∈ Finset.range n, grant i

@[simp] theorem total_zero (grant : ℕ → ℕ) : total grant 0 = 0 := rfl

theorem total_succ (grant : ℕ → ℕ) (n : ℕ) : total grant (n + 1) = total grant n + grant n :=
  Finset.sum_range_succ grant n

theorem total_mono (grant : ℕ → ℕ) : Monotone (total grant) := by
  apply monotone_nat_of_le_succ
  intro n
  rw [total_succ]
  exact Nat.le_add_right _ _

theorem total_le (h : ∀ i, grant i ≤ goal - total grant i) (n : ℕ) : total grant n ≤ goal := by
  induction n with
  | zero => exact Nat.zero_le _
  | succ n ih =>
      have hn := h n
      rw [total_succ]
      omega

/-- The environment grants nothing from some round on, and too little before it. -/
def Stalls (grant : ℕ → ℕ) (goal : ℕ) : Prop :=
  ∃ i, total grant i < goal ∧ ∀ j, i ≤ j → grant j = 0

theorem total_stalled {i : ℕ} (h : ∀ j, i ≤ j → grant j = 0) {n : ℕ} (hn : i ≤ n) :
    total grant n = total grant i := by
  induction n, hn using Nat.le_induction with
  | base => rfl
  | succ n hn ih => rw [total_succ, h n hn, ih, Nat.add_zero]

/-- **The goal is reached exactly when nothing stalls.** -/
theorem reaches_iff : (∃ n, goal ≤ total grant n) ↔ ¬ Stalls grant goal := by
  constructor
  · rintro ⟨n, hn⟩ ⟨i, hi, hzero⟩
    have hmax := total_mono grant (Nat.le_max_left n i)
    rw [total_stalled hzero (Nat.le_max_right n i)] at hmax
    omega
  · intro hstalls
    -- each part of the goal is reached, the next one by a later grant
    have hreach : ∀ k, k ≤ goal → ∃ n, k ≤ total grant n := by
      intro k
      induction k with
      | zero => exact fun _ => ⟨0, Nat.zero_le _⟩
      | succ k ih =>
          intro hk
          obtain ⟨n, hn⟩ := ih (by omega)
          by_cases hlt : total grant n < goal
          · obtain ⟨j, hj, hgrant⟩ : ∃ j, n ≤ j ∧ grant j ≠ 0 := by
              by_contra hnone
              refine hstalls ⟨n, hlt, fun j hj => ?_⟩
              by_contra hne
              exact hnone ⟨j, hj, hne⟩
            refine ⟨j + 1, ?_⟩
            have hle := total_mono grant hj
            rw [total_succ]
            omega
          · exact ⟨n, by omega⟩
    exact hreach goal (Nat.le_refl _)

/-- **A loop that counts what it is granted exits exactly when nothing stalls.** -/
theorem exits_iff {σ : Type*} {done : σ → Prop} [DecidablePred done] {body : σ → σ}
    (pos : σ → ℕ) {s : σ} (hdone : ∀ s, done s ↔ pos s = goal)
    (hpos : ∀ n, pos (rounds done body n s) = total grant n)
    (hgrant : ∀ i, grant i ≤ goal - total grant i) :
    (∃ n, done (rounds done body n s)) ↔ ¬ Stalls grant goal := by
  rw [← reaches_iff]
  refine exists_congr fun n => ?_
  rw [hdone, hpos]
  constructor
  · exact Nat.le_of_eq ∘ Eq.symm
  · exact Nat.le_antisymm (total_le hgrant n)

end While
