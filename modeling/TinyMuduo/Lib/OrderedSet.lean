import Mathlib.Data.List.Basic
import Mathlib.Order.Lattice

/-!
# Ordered sets

A set kept in the order of a key, as a search tree keeps it: no two elements
have the same key. The structure carries the order, so the elements below a
bound are a first part of the list, and taking them away leaves an ordered set.
-/

namespace Ordered

variable {α κ : Type*} [LinearOrder κ] {key : α → κ}

/-- The place of `a` in a list in key order; nothing changes when its key is
taken. -/
def insertAt (key : α → κ) (a : α) : List α → List α
  | [] => [a]
  | b :: l =>
      if key a < key b then a :: b :: l
      else if key b < key a then b :: insertAt key a l
      else b :: l

theorem mem_insertAt {a x : α} : ∀ {l : List α}, x ∈ insertAt key a l → x = a ∨ x ∈ l := by
  intro l
  induction l with
  | nil =>
      intro h
      exact Or.inl (List.mem_singleton.mp h)
  | cons b l ih =>
      intro h
      rw [insertAt] at h
      split_ifs at h
      · exact List.mem_cons.mp h
      · rcases List.mem_cons.mp h with rfl | h
        · exact Or.inr List.mem_cons_self
        · exact (ih h).imp_right (List.mem_cons_of_mem b)
      · exact Or.inr h

theorem insertAt_sorted {a : α} : ∀ {l : List α}, l.Pairwise (fun x y => key x < key y) →
    (insertAt key a l).Pairwise fun x y => key x < key y := by
  intro l
  induction l with
  | nil =>
      intro _
      exact List.pairwise_singleton _ a
  | cons b l ih =>
      intro hs
      obtain ⟨hb, hl⟩ := List.pairwise_cons.mp hs
      rw [insertAt]
      split_ifs with hab hba
      · refine List.pairwise_cons.mpr ⟨?_, hs⟩
        intro x hx
        rcases List.mem_cons.mp hx with rfl | hx
        · exact hab
        · exact lt_trans hab (hb x hx)
      · refine List.pairwise_cons.mpr ⟨?_, ih hl⟩
        intro x hx
        rcases mem_insertAt hx with rfl | hx
        · exact hba
        · exact hb x hx
      · exact hs

theorem insertAt_perm {a : α} : ∀ {l : List α}, (∀ x ∈ l, key x ≠ key a) →
    (insertAt key a l).Perm (a :: l) := by
  intro l
  induction l with
  | nil =>
      intro _
      exact List.Perm.refl _
  | cons b l ih =>
      intro hne
      rw [List.forall_mem_cons] at hne
      rw [insertAt]
      split_ifs with hab hba
      · exact List.Perm.refl _
      · exact ((ih hne.2).cons b).trans (List.Perm.swap a b l)
      · exact absurd (le_antisymm (not_lt.mp hab) (not_lt.mp hba)) hne.1

/-- The elements with a key below a bound come first. -/
theorem mem_takeWhile_iff {k : κ} {x : α} : ∀ {l : List α},
    l.Pairwise (fun x y => key x < key y) →
    (x ∈ l.takeWhile (fun a => key a < k) ↔ x ∈ l ∧ key x < k) := by
  intro l
  induction l with
  | nil => simp
  | cons b l ih =>
      intro hs
      obtain ⟨hb, hl⟩ := List.pairwise_cons.mp hs
      by_cases hk : key b < k
      · rw [List.takeWhile_cons_of_pos (by simpa using hk), List.mem_cons, ih hl, List.mem_cons]
        constructor
        · rintro (rfl | ⟨hx, hxk⟩)
          · exact ⟨Or.inl rfl, hk⟩
          · exact ⟨Or.inr hx, hxk⟩
        · rintro ⟨rfl | hx, hxk⟩
          · exact Or.inl rfl
          · exact Or.inr ⟨hx, hxk⟩
      · rw [List.takeWhile_cons_of_neg (by simpa using hk)]
        refine iff_of_false List.not_mem_nil ?_
        rintro ⟨hx, hxk⟩
        rcases List.mem_cons.mp hx with rfl | hx
        · exact hk hxk
        · exact hk (lt_trans (hb x hx) hxk)

/-- The elements in the order of their keys. -/
structure OrderedSet (key : α → κ) where
  entries : List α
  sorted : entries.Pairwise fun a b => key a < key b

namespace OrderedSet

def empty : OrderedSet key := ⟨[], List.Pairwise.nil⟩

def first (s : OrderedSet key) : Option α := s.entries.head?

/-- Add an element unless its key is taken. -/
def emplace (s : OrderedSet key) (a : α) : OrderedSet key :=
  ⟨insertAt key a s.entries, insertAt_sorted s.sorted⟩

/-- The elements before the lower bound of `k`. -/
def below (s : OrderedSet key) (k : κ) : List α := s.entries.takeWhile fun a => key a < k

/-- What is left when they are taken away. -/
def eraseBelow (s : OrderedSet key) (k : κ) : OrderedSet key :=
  ⟨s.entries.dropWhile fun a => key a < k, s.sorted.sublist (List.dropWhile_sublist _)⟩

/-- A key that is not taken finds its place. -/
theorem emplace_perm {s : OrderedSet key} {a : α} (h : ∀ x ∈ s.entries, key x ≠ key a) :
    (s.emplace a).entries.Perm (a :: s.entries) :=
  insertAt_perm h

theorem mem_emplace {s : OrderedSet key} {a x : α} (h : x ∈ (s.emplace a).entries) :
    x = a ∨ x ∈ s.entries :=
  mem_insertAt h

theorem mem_below {s : OrderedSet key} {k : κ} {x : α} :
    x ∈ s.below k ↔ x ∈ s.entries ∧ key x < k :=
  mem_takeWhile_iff s.sorted

theorem below_append (s : OrderedSet key) (k : κ) :
    s.below k ++ (s.eraseBelow k).entries = s.entries :=
  List.takeWhile_append_dropWhile

theorem below_sorted (s : OrderedSet key) (k : κ) :
    (s.below k).Pairwise fun a b => key a < key b :=
  s.sorted.sublist (List.takeWhile_sublist _)

theorem first_mem {s : OrderedSet key} {a : α} (h : s.first = some a) : a ∈ s.entries :=
  List.mem_of_mem_head? h

/-- **Nothing comes before the first element.** -/
theorem first_le {s : OrderedSet key} {a : α} (h : s.first = some a) :
    ∀ x ∈ s.entries, key a ≤ key x := by
  obtain ⟨entries, sorted⟩ := s
  cases entries with
  | nil => cases h
  | cons b l =>
      obtain rfl := Option.some.inj h
      obtain ⟨hb, -⟩ := List.pairwise_cons.mp sorted
      intro x hx
      rcases List.mem_cons.mp hx with rfl | hx
      · exact le_refl _
      · exact le_of_lt (hb x hx)

theorem first_eq_none {s : OrderedSet key} : s.first = none ↔ s.entries = [] :=
  List.head?_eq_none_iff

end OrderedSet

end Ordered
