import Mathlib.Data.List.Basic

/-!
# A list as a block of storage

Four ways a C program changes a block in place: overwrite a slice, turn a slice
round, resize the block, and copy one slice of it over another by a forward loop.
The copy reads the block it is writing, so it is the slice it reads only when the
destination does not start inside the source (`copyForward_slice`).
-/

namespace Storage

variable {α : Type*}

/-- The slice `[first, first + n)`. -/
def slice (xs : List α) (first n : ℕ) : List α := (xs.drop first).take n

/-- Write `ys` at position `i`. -/
def overwrite (i : ℕ) (ys xs : List α) : List α :=
  xs.take i ++ ys ++ xs.drop (i + ys.length)

/-- Turn the slice `[first, first + n)` round. -/
def reverseSlice (first n : ℕ) (xs : List α) : List α :=
  overwrite first (slice xs first n).reverse xs

/-- Cut or fill up the block to length `n`. -/
def resize (n : ℕ) (fill : α) (xs : List α) : List α :=
  xs.take n ++ List.replicate (n - xs.length) fill

/-- One element after the other, from the left: `xs[dst + k] := xs[first + k]`. -/
def copyForward : ℕ → ℕ → ℕ → List α → List α
  | _, _, 0, xs => xs
  | first, dst, n + 1, xs =>
      copyForward (first + 1) (dst + 1) n
        (match xs[first]? with
          | some a => xs.set dst a
          | none => xs)

/-! ## Slices -/

@[simp] theorem slice_zero (xs : List α) (first : ℕ) : slice xs first 0 = [] := by
  simp [slice]

theorem length_slice {xs : List α} {first n : ℕ} (h : first + n ≤ xs.length) :
    (slice xs first n).length = n := by
  simp only [slice, List.length_take, List.length_drop]
  omega

theorem getElem?_slice (xs : List α) (first n i : ℕ) :
    (slice xs first n)[i]? = if i < n then xs[first + i]? else none := by
  rw [slice, List.getElem?_take, List.getElem?_drop]

theorem drop_slice (xs : List α) (first n k : ℕ) :
    (slice xs first n).drop k = slice xs (first + k) (n - k) := by
  rw [slice, List.drop_take, List.drop_drop, slice]

theorem take_slice {xs : List α} {first n k : ℕ} (h : k ≤ n) :
    (slice xs first n).take k = slice xs first k := by
  rw [slice, List.take_take, Nat.min_eq_left h, slice]

/-- Writing `ys` right behind a slice extends the slice by `ys`. -/
theorem slice_overwrite {xs ys : List α} {first n : ℕ} (h : first + n ≤ xs.length) :
    slice (overwrite (first + n) ys xs) first (n + ys.length) = slice xs first n ++ ys := by
  have hlen : (xs.take (first + n)).length = first + n := by
    rw [List.length_take, Nat.min_eq_left h]
  have hdrop : (xs.take (first + n)).drop first = slice xs first n := by
    rw [slice, List.drop_take]
    congr 1
    omega
  rw [slice, overwrite, List.append_assoc,
    List.drop_append_of_le_length (by omega), hdrop, ← List.append_assoc]
  apply List.take_left'
  rw [List.length_append, length_slice h]

theorem length_overwrite {xs ys : List α} {i : ℕ} (h : i + ys.length ≤ xs.length) :
    (overwrite i ys xs).length = xs.length := by
  simp only [overwrite, List.length_append, List.length_take, List.length_drop]
  omega

theorem set_eq_overwrite {xs : List α} {i : ℕ} {a : α} (h : i < xs.length) :
    xs.set i a = overwrite i [a] xs := by
  rw [overwrite, List.set_eq_take_append_cons_drop, if_pos h, List.append_assoc]
  rfl

theorem overwrite_overwrite {s xs ys : List α} {i : ℕ} (h : i + xs.length ≤ s.length) :
    overwrite (i + xs.length) ys (overwrite i xs s) = overwrite i (xs ++ ys) s := by
  have hlen : (s.take i ++ xs).length = i + xs.length := by
    rw [List.length_append, List.length_take]
    omega
  have htake : (overwrite i xs s).take (i + xs.length) = s.take i ++ xs :=
    List.take_left' hlen
  have hdrop : (overwrite i xs s).drop (i + xs.length + ys.length) =
      s.drop (i + (xs ++ ys).length) := by
    rw [overwrite, ← List.drop_drop, List.drop_left' hlen, List.drop_drop, List.length_append,
      Nat.add_assoc]
  rw [overwrite, htake, hdrop, overwrite, List.append_assoc (s.take i)]

/-- The first part of what has been written may be written again. -/
theorem overwrite_head {s xs ys zs : List α} {i : ℕ} (hlen : zs.length = xs.length)
    (h : i ≤ s.length) : overwrite i zs (overwrite i (xs ++ ys) s) = overwrite i (zs ++ ys) s := by
  have hi : (s.take i).length = i := by
    rw [List.length_take]
    omega
  have htake : (overwrite i (xs ++ ys) s).take i = s.take i := by
    rw [overwrite, List.append_assoc, List.take_left' hi]
  have hdrop : (overwrite i (xs ++ ys) s).drop (i + zs.length) =
      ys ++ s.drop (i + (zs ++ ys).length) := by
    have hpre : (s.take i ++ xs).length = i + zs.length := by
      rw [List.length_append, hi, hlen]
    rw [overwrite, ← List.append_assoc, List.append_assoc (s.take i ++ xs), List.drop_left' hpre,
      List.length_append, List.length_append, hlen]
  rw [overwrite, htake, hdrop, overwrite]
  simp only [List.append_assoc]

/-- **Turning round what has just been written.** -/
theorem reverseSlice_overwrite {s xs ys : List α} {i : ℕ} (h : i ≤ s.length) :
    reverseSlice i xs.length (overwrite i (xs ++ ys) s) = overwrite i (xs.reverse ++ ys) s := by
  have hslice : slice (overwrite i (xs ++ ys) s) i xs.length = xs := by
    have hi : (s.take i).length = i := by
      rw [List.length_take]
      omega
    rw [slice, overwrite, List.append_assoc, List.drop_left' hi, List.append_assoc, List.take_left]
  rw [reverseSlice, hslice]
  exact overwrite_head List.length_reverse h

/-- **What lies outside the slice stays.** -/
theorem getElem?_overwrite {s ys : List α} {i k : ℕ} (h : i + ys.length ≤ s.length)
    (hk : k < i ∨ i + ys.length ≤ k) : (overwrite i ys s)[k]? = s[k]? := by
  have hi : (s.take i).length = i := by
    rw [List.length_take]
    omega
  rw [overwrite, List.append_assoc]
  rcases hk with hk | hk
  · rw [List.getElem?_append_left (by omega), List.getElem?_take, if_pos hk]
  · rw [List.getElem?_append_right (by omega), List.getElem?_append_right (by omega),
      List.getElem?_drop]
    congr 1
    omega

theorem length_resize (n : ℕ) (fill : α) (xs : List α) : (resize n fill xs).length = n := by
  simp only [resize, List.length_append, List.length_take, List.length_replicate]
  omega

theorem slice_resize {xs : List α} {first n m : ℕ} (fill : α) (hm : xs.length ≤ m)
    (h : first + n ≤ xs.length) : slice (resize m fill xs) first n = slice xs first n := by
  rw [resize, List.take_of_length_le hm, slice, slice,
    List.drop_append_of_le_length (by omega), List.take_append_of_le_length]
  rw [List.length_drop]
  omega

/-! ## The forward copy -/

@[simp] theorem length_copyForward : ∀ (n first dst : ℕ) (xs : List α),
    (copyForward first dst n xs).length = xs.length := by
  intro n
  induction n with
  | zero =>
      intro first dst xs
      rfl
  | succ n ih =>
      intro first dst xs
      rw [copyForward, ih]
      cases xs[first]? <;> simp

/-- The copy, element by element, when the destination is not inside the
source. -/
theorem getElem?_copyForward : ∀ (n first dst : ℕ) (xs : List α) (i : ℕ),
    dst ≤ first → first + n ≤ xs.length →
    (copyForward first dst n xs)[i]? =
      if dst ≤ i ∧ i < dst + n then xs[first + (i - dst)]? else xs[i]? := by
  intro n
  induction n with
  | zero =>
      intro first dst xs i _ _
      rw [if_neg (by omega)]
      rfl
  | succ n ih =>
      intro first dst xs i hle hlen
      have hf : first < xs.length := by omega
      have hstep : copyForward first dst (n + 1) xs =
          copyForward (first + 1) (dst + 1) n (xs.set dst xs[first]) := by
        rw [copyForward, List.getElem?_eq_getElem hf]
      rw [hstep, ih (first + 1) (dst + 1) (xs.set dst xs[first]) i
        (by omega) (by rw [List.length_set]; omega)]
      rw [List.getElem?_set, List.getElem?_set]
      by_cases hi : dst = i
      · -- the element written by this round, not touched by later ones
        subst hi
        rw [if_neg (by omega), if_pos rfl, if_pos (by omega), if_pos (by omega),
          Nat.sub_self, Nat.add_zero, List.getElem?_eq_getElem hf]
      · by_cases hin : dst + 1 ≤ i ∧ i < dst + 1 + n
        · rw [if_pos hin, if_neg (by omega), if_pos (by omega)]
          congr 1
          omega
        · rw [if_neg hin, if_neg hi, if_neg (by omega)]

/-- **The copied slice is the slice that was read.** -/
theorem copyForward_slice {xs : List α} {first dst n : ℕ} (hle : dst ≤ first)
    (h : first + n ≤ xs.length) :
    slice (copyForward first dst n xs) dst n = slice xs first n := by
  apply List.ext_getElem?
  intro i
  rw [getElem?_slice, getElem?_slice]
  by_cases hi : i < n
  · rw [if_pos hi, if_pos hi, getElem?_copyForward n first dst xs _ hle h,
      if_pos (by omega)]
    congr 1
    omega
  · rw [if_neg hi, if_neg hi]

end Storage
