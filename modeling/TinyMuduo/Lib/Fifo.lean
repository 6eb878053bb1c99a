import Mathlib.Data.List.Basic

/-!
# A first-in first-out queue with its history

The queue remembers everything that was ever put in and how much of it has
been taken out; its contents are what is left. Order, absence of loss and
absence of duplication are then one equation (`removed_append_contents`), and
an implementation that refines this queue inherits it.
-/

/-- Everything put in so far, and the length of the prefix already taken. -/
structure Fifo (α : Type*) where
  input : List α
  taken : ℕ
  taken_le : taken ≤ input.length

namespace Fifo

variable {α : Type*}

def empty : Fifo α := ⟨[], 0, Nat.le_refl 0⟩

def contents (q : Fifo α) : List α := q.input.drop q.taken

def removed (q : Fifo α) : List α := q.input.take q.taken

def put (q : Fifo α) (xs : List α) : Fifo α where
  input := q.input ++ xs
  taken := q.taken
  taken_le := by
    have := q.taken_le
    rw [List.length_append]
    omega

/-- Take `n` elements out (all of them when fewer are left). -/
def pop (q : Fifo α) (n : ℕ) : Fifo α where
  input := q.input
  taken := min (q.taken + n) q.input.length
  taken_le := Nat.min_le_right _ _

theorem removed_append_contents (q : Fifo α) : q.removed ++ q.contents = q.input :=
  List.take_append_drop q.taken q.input

@[simp] theorem contents_put (q : Fifo α) (xs : List α) :
    (q.put xs).contents = q.contents ++ xs :=
  List.drop_append_of_le_length q.taken_le

@[simp] theorem contents_pop (q : Fifo α) (n : ℕ) :
    (q.pop n).contents = q.contents.drop n := by
  show q.input.drop (min (q.taken + n) q.input.length) = (q.input.drop q.taken).drop n
  rw [List.drop_drop]
  rcases Nat.le_total (q.taken + n) q.input.length with h | h
  · rw [Nat.min_eq_left h]
  · rw [Nat.min_eq_right h, List.drop_length, List.drop_eq_nil_of_le h]

theorem removed_pop_one {q : Fifo α} {x : α} (h : q.contents.head? = some x) :
    (q.pop 1).removed = q.removed ++ [x] := by
  have hget : q.input[q.taken]? = some x := by
    rw [← h, contents, List.head?_drop]
  obtain ⟨hlt, -⟩ := List.getElem?_eq_some_iff.mp hget
  show q.input.take (min (q.taken + 1) q.input.length) = _
  rw [Nat.min_eq_left hlt, List.take_add_one, hget]
  rfl

end Fifo
