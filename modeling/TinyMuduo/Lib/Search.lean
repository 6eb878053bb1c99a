import Mathlib.Data.List.Infix

/-!
# First occurrences in a list

The two searches a line-oriented reader is built from: the index of the first
occurrence of a pattern (`search`, the length of the list when there is none)
and the split at that occurrence (`cut`). The results are the ones a
*resumable* reader needs: a split that was found is kept when the list grows
on the right (`cut_append`), and it is determined by the absence of the
pattern from everything before its last letter (`cut_of_free`).
-/

namespace Search

variable {α : Type*} [DecidableEq α]

/-- Index of the first occurrence of `pat`, or the length of the list. -/
def search (pat : List α) : List α → ℕ
  | [] => 0
  | x :: xs => if pat <+: x :: xs then 0 else search pat xs + 1

/-- The list before and after the first occurrence of `pat`. -/
def cut (pat : List α) : List α → Option (List α × List α)
  | [] => none
  | x :: xs =>
      if pat <+: x :: xs then some ([], (x :: xs).drop pat.length)
      else (cut pat xs).map fun p => (x :: p.1, p.2)

/-! ## The split and the index describe the same occurrence -/

theorem cut_eq_append {pat : List α} : ∀ {xs a b : List α},
    cut pat xs = some (a, b) → xs = a ++ pat ++ b := by
  intro xs
  induction xs with
  | nil =>
      intro a b h
      simp [cut] at h
  | cons x xs ih =>
      intro a b h
      rw [cut] at h
      by_cases hp : pat <+: x :: xs
      · rw [if_pos hp] at h
        obtain ⟨rfl, rfl⟩ := Prod.mk.inj (Option.some.inj h)
        obtain ⟨t, ht⟩ := hp
        rw [← ht]
        simp
      · rw [if_neg hp] at h
        obtain ⟨p, hp', he⟩ := Option.map_eq_some_iff.mp h
        obtain ⟨rfl, rfl⟩ := Prod.mk.inj he
        rw [ih hp']
        simp

theorem search_of_cut {pat : List α} : ∀ {xs a b : List α},
    cut pat xs = some (a, b) → search pat xs = a.length := by
  intro xs
  induction xs with
  | nil =>
      intro a b h
      simp [cut] at h
  | cons x xs ih =>
      intro a b h
      rw [cut] at h
      by_cases hp : pat <+: x :: xs
      · rw [if_pos hp] at h
        obtain ⟨rfl, rfl⟩ := Prod.mk.inj (Option.some.inj h)
        simp [search, hp]
      · rw [if_neg hp] at h
        obtain ⟨p, hp', he⟩ := Option.map_eq_some_iff.mp h
        obtain ⟨rfl, rfl⟩ := Prod.mk.inj he
        simp [search, hp, ih hp']

theorem search_of_cut_none {pat : List α} : ∀ {xs : List α},
    cut pat xs = none → search pat xs = xs.length := by
  intro xs h
  induction xs with
  | nil => rfl
  | cons x xs ih =>
      rw [cut] at h
      by_cases hp : pat <+: x :: xs
      · simp [hp] at h
      · rw [if_neg hp, Option.map_eq_none_iff] at h
        simp [search, hp, ih h]

theorem length_of_cut {pat xs a b : List α} (h : cut pat xs = some (a, b)) :
    xs.length = a.length + pat.length + b.length := by
  rw [cut_eq_append h, List.length_append, List.length_append]

/-! ## Growing the list on the right -/

/-- **A split that was found stays**: later letters go to its second part. -/
theorem cut_append {pat : List α} : ∀ {xs a b : List α} (ys : List α),
    cut pat xs = some (a, b) → cut pat (xs ++ ys) = some (a, b ++ ys) := by
  intro xs
  induction xs with
  | nil =>
      intro a b ys h
      simp [cut] at h
  | cons x xs ih =>
      intro a b ys h
      rw [cut] at h
      rw [List.cons_append, cut]
      by_cases hp : pat <+: x :: xs
      · rw [if_pos hp] at h
        obtain ⟨rfl, rfl⟩ := Prod.mk.inj (Option.some.inj h)
        have hp' : pat <+: x :: (xs ++ ys) := hp.trans (List.prefix_append (x :: xs) ys)
        rw [if_pos hp', ← List.cons_append, List.drop_append_of_le_length hp.length_le]
      · rw [if_neg hp] at h
        obtain ⟨p, hp', he⟩ := Option.map_eq_some_iff.mp h
        obtain ⟨rfl, rfl⟩ := Prod.mk.inj he
        have hlen : pat.length ≤ (x :: xs).length := by
          have := length_of_cut hp'
          simp only [List.length_cons]
          omega
        have hn : ¬ pat <+: x :: (xs ++ ys) := fun hq =>
          hp (List.prefix_of_prefix_length_le hq (List.prefix_append (x :: xs) ys) hlen)
        rw [if_neg hn, ih ys hp']
        rfl

/-! ## Absence of the pattern -/

/-- `pat` occurs nowhere before the last letter of an occurrence placed right
after `a`. -/
def FreeBefore (pat a : List α) : Prop := ¬ pat <:+: a ++ pat.dropLast

instance (pat a : List α) : Decidable (FreeBefore pat a) := by
  unfold FreeBefore
  infer_instance

theorem cut_none_iff {pat : List α} (hpat : pat ≠ []) : ∀ {xs : List α},
    cut pat xs = none ↔ ¬ pat <:+: xs := by
  intro xs
  induction xs with
  | nil => simp [cut, hpat]
  | cons x xs ih =>
      rw [cut, List.infix_cons_iff]
      by_cases hp : pat <+: x :: xs
      · simp [hp]
      · rw [if_neg hp, Option.map_eq_none_iff, ih]
        simp [hp]

theorem freeBefore_of_cut {pat xs a b : List α} (hpat : pat ≠ [])
    (h : cut pat xs = some (a, b)) : FreeBefore pat a := by
  intro hin
  -- an occurrence inside `a ++ pat.dropLast` would be found there already
  cases hc : cut pat (a ++ pat.dropLast) with
  | none => exact (cut_none_iff hpat).mp hc hin
  | some p =>
      have hsplit : xs = (a ++ pat.dropLast) ++ (pat.getLast hpat :: b) := by
        rw [cut_eq_append h]
        conv_lhs => rw [← List.dropLast_append_getLast hpat]
        simp
      have hc' := cut_append (pat.getLast hpat :: b) hc
      rw [← hsplit, h] at hc'
      have ha : a = p.1 := (Prod.mk.inj (Option.some.inj hc')).1
      have hl := length_of_cut hc
      have h1 : 0 < pat.length := List.length_pos_iff.mpr hpat
      rw [List.length_append, List.length_dropLast, ha] at hl
      omega

/-- **The split of a list at a pattern that starts no earlier.** -/
theorem cut_of_free {pat : List α} : ∀ {a : List α} (b : List α),
    pat ≠ [] → FreeBefore pat a → cut pat (a ++ pat ++ b) = some (a, b) := by
  intro a b hpat hf
  induction a with
  | nil =>
      cases pat with
      | nil => exact absurd rfl hpat
      | cons x xs =>
          have hp : x :: xs <+: x :: (xs ++ b) := List.prefix_append (x :: xs) b
          simp only [List.nil_append, List.cons_append, cut, if_pos hp]
          simp
  | cons x a ih =>
      have hf' : FreeBefore pat a := fun hin => hf (List.infix_cons hin)
      have hn : ¬ pat <+: x :: (a ++ pat ++ b) := by
        intro hp
        have hlen : pat.length ≤ (x :: a ++ pat.dropLast).length := by
          have h1 : 0 < pat.length := List.length_pos_iff.mpr hpat
          simp only [List.length_append, List.length_cons, List.length_dropLast]
          omega
        have hle : x :: a ++ pat.dropLast <+: x :: (a ++ pat ++ b) := by
          refine ⟨pat.getLast hpat :: b, ?_⟩
          conv_rhs => rw [← List.dropLast_append_getLast hpat]
          simp
        exact hf (List.prefix_of_prefix_length_le hp hle hlen).isInfix
      simp only [List.cons_append, cut, if_neg hn, ih hf']
      rfl

/-! ## Single letters -/

omit [DecidableEq α] in
theorem freeBefore_singleton {c : α} {a : List α} : FreeBefore [c] a ↔ c ∉ a := by
  simp [FreeBefore, List.singleton_infix_iff]

theorem cut_singleton_of_not_mem {c : α} {a : List α} (b : List α) (h : c ∉ a) :
    cut [c] (a ++ c :: b) = some (a, b) := by
  have := cut_of_free b (List.cons_ne_nil c []) (freeBefore_singleton.mpr h)
  simpa using this

theorem cut_singleton_none {c : α} {xs : List α} : cut [c] xs = none ↔ c ∉ xs := by
  rw [cut_none_iff (List.cons_ne_nil c []), List.singleton_infix_iff]

theorem cut_singleton_some {c : α} {xs a b : List α} :
    cut [c] xs = some (a, b) ↔ xs = a ++ c :: b ∧ c ∉ a := by
  constructor
  · intro h
    refine ⟨by simpa using cut_eq_append h, ?_⟩
    exact freeBefore_singleton.mp (freeBefore_of_cut (List.cons_ne_nil c []) h)
  · rintro ⟨rfl, h⟩
    exact cut_singleton_of_not_mem b h

end Search
