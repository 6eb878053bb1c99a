import Mathlib.Data.Nat.Digits.Lemmas

/-!
# Decimal numerals

A number written in ASCII digits, with a minus in front when it is negative.
A program that divides by ten obtains the digits from the last one on
(`lowFirst_eq`); turned round they are the numeral. It is canonical, it is read
back, and its length is bounded by the size of the number.
-/

namespace Numeral

def digit (d : ℕ) : UInt8 := UInt8.ofNat (48 + d)

def minus : UInt8 := 45

/-- The digits of `n`, the last one first. -/
def lowFirst (n : ℕ) : List UInt8 :=
  if n = 0 then [digit 0] else (Nat.digits 10 n).map digit

def ofNat (n : ℕ) : List UInt8 := (lowFirst n).reverse

def ofInt (n : ℤ) : List UInt8 :=
  if n < 0 then minus :: ofNat n.natAbs else ofNat n.natAbs

/-- The number a string of digits stands for. -/
def value (s : List UInt8) : ℕ := Nat.ofDigits 10 (s.reverse.map fun b => b.toNat - 48)

def read : List UInt8 → ℤ
  | [] => 0
  | b :: s => if b = minus then -(value s) else value (b :: s)

/-- One or more digits, and no leading zero. -/
structure CanonicalNat (s : List UInt8) : Prop where
  nonempty : s ≠ []
  digits : ∀ b ∈ s, 48 ≤ b ∧ b ≤ 57
  leading : s.head? = some (digit 0) → s = [digit 0]

/-- A minus stands before a number that is not zero, and nowhere else. -/
inductive Canonical : List UInt8 → Prop where
  | natural {s : List UInt8} (h : CanonicalNat s) : Canonical s
  | negative {s : List UInt8} (h : CanonicalNat s) (hzero : s ≠ [digit 0]) :
      Canonical (minus :: s)

/-- A numeral is what was obtained from the last digit on, turned round. -/
theorem ofInt_eq_reverse (n : ℤ) :
    ofInt n = (lowFirst n.natAbs ++ if n < 0 then [minus] else []).reverse := by
  unfold ofInt ofNat
  by_cases hneg : n < 0
  · rw [if_pos hneg, if_pos hneg, List.reverse_append]
    rfl
  · rw [if_neg hneg, if_neg hneg, List.append_nil]

theorem ofInt_natCast (n : ℕ) : ofInt (n : ℤ) = ofNat n := by
  rw [ofInt, if_neg (by omega), Int.natAbs_natCast]

/-! ## Digits -/

theorem toNat_digit {d : ℕ} (hd : d < 10) : (digit d).toNat = 48 + d :=
  UInt8.toNat_ofNat_of_lt' (by show 48 + d < 256; omega)

theorem digit_bounds {d : ℕ} (hd : d < 10) : 48 ≤ digit d ∧ digit d ≤ 57 := by
  rw [UInt8.le_iff_toNat_le, UInt8.le_iff_toNat_le, toNat_digit hd]
  constructor
  · show 48 ≤ 48 + d
    omega
  · show 48 + d ≤ 57
    omega

theorem lowFirst_of_pos {n : ℕ} (hn : n ≠ 0) : lowFirst n = (Nat.digits 10 n).map digit :=
  if_neg hn

/-- **Dividing by ten yields the digits from the last one on.** -/
theorem lowFirst_eq (n : ℕ) :
    lowFirst n = digit (n % 10) :: if n / 10 = 0 then [] else lowFirst (n / 10) := by
  by_cases hn : n = 0
  · subst hn
    rfl
  rw [lowFirst_of_pos hn, Nat.digits_eq_cons_digits_div (by decide) hn, List.map_cons]
  by_cases hrest : n / 10 = 0
  · rw [if_pos hrest, hrest, Nat.digits_zero, List.map_nil]
  · rw [if_neg hrest, lowFirst_of_pos hrest]

theorem lowFirst_ne_nil (n : ℕ) : lowFirst n ≠ [] := by
  rw [lowFirst_eq]
  exact List.cons_ne_nil _ _

theorem length_lowFirst_le {n k : ℕ} (hk : 0 < k) (hn : n < 10 ^ k) :
    (lowFirst n).length ≤ k := by
  by_cases hzero : n = 0
  · subst hzero
    exact hk
  · rw [lowFirst_of_pos hzero, List.length_map]
    exact (Nat.digits_length_le_iff (by decide) n).mpr hn

theorem lt_length_ofNat {n k : ℕ} (hn : 10 ^ k ≤ n) : k < (ofNat n).length := by
  have hpos : 0 < 10 ^ k := Nat.pow_pos (by decide)
  rw [ofNat, List.length_reverse, lowFirst_of_pos (by omega), List.length_map]
  exact (Nat.lt_digits_length_iff (by decide) n).mpr hn

/-! ## Canonical -/

theorem canonical_zero : CanonicalNat (ofNat 0) where
  nonempty := by rintro ⟨⟩
  digits := by
    intro b hb
    obtain rfl : b = digit 0 := List.mem_singleton.mp hb
    exact digit_bounds (by decide)
  leading _ := rfl

theorem canonical_ofNat (n : ℕ) : CanonicalNat (ofNat n) := by
  by_cases hn : n = 0
  · rw [hn]
    exact canonical_zero
  have hdigits : Nat.digits 10 n ≠ [] := Nat.digits_ne_nil_iff_ne_zero.mpr hn
  constructor
  · rw [ofNat, Ne, List.reverse_eq_nil_iff]
    exact lowFirst_ne_nil n
  · intro b hb
    rw [ofNat, List.mem_reverse, lowFirst_of_pos hn] at hb
    obtain ⟨d, hd, rfl⟩ := List.mem_map.mp hb
    exact digit_bounds (Nat.digits_lt_base (by decide) hd)
  · -- the first digit written is the last one obtained
    intro hlead
    rw [ofNat, List.head?_reverse, lowFirst_of_pos hn, List.getLast?_map,
      List.getLast?_eq_getLast_of_ne_nil hdigits, Option.map_some, Option.some.injEq] at hlead
    have hlast := Nat.getLast_digit_ne_zero 10 hn
    have hlt := Nat.digits_lt_base (by decide) (List.getLast_mem hdigits)
    have hval := congrArg UInt8.toNat hlead
    rw [toNat_digit hlt, toNat_digit (by decide)] at hval
    omega

theorem value_ofNat (n : ℕ) : value (ofNat n) = n := by
  rw [value, ofNat, List.reverse_reverse]
  by_cases hn : n = 0
  · subst hn
    rfl
  rw [lowFirst_of_pos hn, List.map_map]
  have hdigits : (Nat.digits 10 n).map ((fun b : UInt8 => b.toNat - 48) ∘ digit) =
      Nat.digits 10 n := by
    refine (List.map_congr_left fun d hd => ?_).trans (List.map_id _)
    show (digit d).toNat - 48 = d
    rw [toNat_digit (Nat.digits_lt_base (by decide) hd)]
    omega
  rw [hdigits, Nat.ofDigits_digits]

theorem ofNat_ne_zero {n : ℕ} (hn : n ≠ 0) : ofNat n ≠ [digit 0] := by
  intro h
  have hval := congrArg value h
  rw [value_ofNat] at hval
  exact hn hval

theorem canonical_ofInt (n : ℤ) : Canonical (ofInt n) := by
  unfold ofInt
  split
  · next hneg =>
      apply Canonical.negative (canonical_ofNat _)
      exact ofNat_ne_zero (by omega)
  · exact .natural (canonical_ofNat _)

/-! ## Read back -/

theorem head_ofNat (n : ℕ) : (ofNat n).head? ≠ some minus := by
  intro h
  have hle := ((canonical_ofNat n).digits minus (List.mem_of_mem_head? h)).1
  exact absurd hle (by decide)

theorem head_ofInt (n : ℤ) : (ofInt n).head? = some minus ↔ n < 0 := by
  unfold ofInt
  split
  · next hneg => simp [hneg]
  · next hneg => simp [hneg, head_ofNat]

/-- **A numeral is read back.** -/
theorem read_ofInt (n : ℤ) : read (ofInt n) = n := by
  unfold ofInt
  split
  · next hneg =>
      rw [read, if_pos rfl, value_ofNat]
      omega
  · next hneg =>
      have hhead := head_ofNat n.natAbs
      cases hs : ofNat n.natAbs with
      | nil => exact absurd hs (canonical_ofNat n.natAbs).nonempty
      | cons b s =>
          rw [hs, List.head?_cons, Ne, Option.some.injEq] at hhead
          rw [read, if_neg hhead, ← hs, value_ofNat]
          omega

theorem length_ofInt_le {n : ℤ} {k : ℕ} (hk : 0 < k) (hn : n.natAbs < 10 ^ k) :
    (ofInt n).length ≤ k + 1 := by
  have hle := length_lowFirst_le hk hn
  unfold ofInt ofNat
  split
  · rw [List.length_cons, List.length_reverse]
    omega
  · rw [List.length_reverse]
    omega

theorem length_ofInt_natCast_le {n k : ℕ} (hk : 0 < k) (hn : n < 10 ^ k) :
    (ofInt (n : ℤ)).length ≤ k := by
  rw [ofInt_natCast, ofNat, List.length_reverse]
  exact length_lowFirst_le hk hn

end Numeral
