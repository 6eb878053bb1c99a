import TinyMuduo.Base.Bytes

/-!
# Pointers into the readable part of a buffer

The parser walks `const char*` pointers over the bytes between `Peek()` and
`beginwrite()`. A pointer is its distance from `Peek()`, the memory is the list
of readable bytes, and every access may fail: reading outside the readable part
and building a string from an out-of-order pair of pointers are faults, not
values. The second one is `std::length_error`, which nothing catches.
-/

namespace TinyMuduo

inductive Fault where
  | outOfRange
  | lengthError
  | diverges
deriving DecidableEq

/-- A computation that may end the process. -/
abbrev Checked := Except Fault

/-- `*p`. -/
def load (m : Bytes) (p : ℕ) : Checked Byte :=
  match m[p]? with
  | some b => .ok b
  | none => .error .outOfRange

/-- The walk of `std::find` over the memory from `p` on. -/
def scan (c : Byte) (stop : ℕ) : Bytes → ℕ → Checked ℕ
  | [], p => if p = stop then .ok stop else .error .outOfRange
  | b :: rest, p =>
      if p = stop then .ok stop
      else if b = c then .ok p
      else scan c stop rest (p + 1)

/-- `std::find(start, stop, c)`. -/
def find (m : Bytes) (start stop : ℕ) (c : Byte) : Checked ℕ :=
  scan c stop (m.drop start) start

/-- The bytes `[start, stop)` of memory. -/
def span (m : Bytes) (start stop : ℕ) : Checked Bytes :=
  if start < stop ∧ m.length < stop then .error .outOfRange
  else .ok ((m.drop start).take (stop - start))

def string (m : Bytes) (start stop : ℕ) : Checked Bytes :=
  if stop < start then .error .lengthError else span m start stop

/-- `std::equal(start, stop, pattern)` on a range no longer than the pattern. -/
def equal (m : Bytes) (start stop : ℕ) (pattern : Bytes) : Checked Bool := do
  let bytes ← span m start stop
  return bytes = pattern

/-- The walk of `while (*p == c) ++p`. -/
def skipScan (c : Byte) : Bytes → ℕ → Checked ℕ
  | [], _ => .error .outOfRange
  | b :: rest, p => if b = c then skipScan c rest (p + 1) else .ok p

/-- `while (*p == c) ++p`. -/
def skip (m : Bytes) (p : ℕ) (c : Byte) : Checked ℕ := skipScan c (m.drop p) p

/-! ## A line between what precedes and what follows it -/

theorem scan_append {c : Byte} {stop : ℕ} : ∀ {a : Bytes} (rest : Bytes) {p : ℕ},
    c ∉ a → p + a.length ≤ stop →
    scan c stop (a ++ rest) p = scan c stop rest (p + a.length) := by
  intro a rest
  induction a with
  | nil =>
      intro p _ _
      rfl
  | cons x a ih =>
      intro p hc hle
      rw [List.mem_cons, not_or] at hc
      rw [List.length_cons] at hle
      rw [List.cons_append, scan, if_neg (by omega)]
      simp only [if_neg (Ne.symm hc.1)]
      rw [ih hc.2 (by omega), List.length_cons]
      congr 1
      omega

theorem scan_stop (c : Byte) (stop : ℕ) (rest : Bytes) : scan c stop rest stop = .ok stop := by
  cases rest <;> rw [scan, if_pos rfl]

theorem find_found (pre : Bytes) {a : Bytes} (post : Bytes) {c : Byte} {stop : ℕ} (hc : c ∉ a)
    (hlt : pre.length + a.length < stop) :
    find (pre ++ (a ++ c :: post)) pre.length stop c = .ok (pre.length + a.length) := by
  rw [find, List.drop_left, scan_append _ hc (Nat.le_of_lt hlt), scan, if_neg (by omega)]
  exact if_pos rfl

theorem find_missing (pre : Bytes) {a : Bytes} (post : Bytes) {c : Byte} (hc : c ∉ a) :
    find (pre ++ (a ++ post)) pre.length (pre.length + a.length) c =
      .ok (pre.length + a.length) := by
  rw [find, List.drop_left, scan_append _ hc (Nat.le_refl _), scan_stop]

theorem span_middle (pre a post : Bytes) :
    span (pre ++ (a ++ post)) pre.length (pre.length + a.length) = .ok a := by
  rw [span, if_neg]
  · rw [List.drop_left, Nat.add_sub_cancel_left, List.take_left]
  · simp only [List.length_append]
    omega

theorem string_middle (pre a post : Bytes) :
    string (pre ++ (a ++ post)) pre.length (pre.length + a.length) = .ok a := by
  rw [string, if_neg (by omega), span_middle]

theorem string_inverted {m : Bytes} {start stop : ℕ} (h : stop < start) :
    string m start stop = .error .lengthError :=
  if_pos h

theorem load_middle (pre : Bytes) (b : Byte) (post : Bytes) :
    load (pre ++ b :: post) pre.length = .ok b := by
  rw [load, List.getElem?_append_right (Nat.le_refl _), Nat.sub_self]
  rfl

theorem skipScan_append {c b : Byte} (hb : b ≠ c) : ∀ (a : Bytes) (rest : Bytes) (p : ℕ),
    skipScan c (a ++ b :: rest) p = .ok (p + (a.takeWhile (· = c)).length) := by
  intro a rest
  induction a with
  | nil =>
      intro p
      exact if_neg hb
  | cons x a ih =>
      intro p
      by_cases hx : x = c
      · rw [List.cons_append, skipScan, if_pos hx, ih,
          List.takeWhile_cons_of_pos (by simpa using hx), List.length_cons]
        congr 1
        omega
      · rw [List.cons_append, skipScan, if_neg hx,
          List.takeWhile_cons_of_neg (by simpa using hx)]
        rfl

/-- Skipping stops at the latest at the first other byte, here the one that
follows the line. -/
theorem skip_middle (pre a post : Bytes) {c b : Byte} (hb : b ≠ c) :
    skip (pre ++ (a ++ b :: post)) pre.length c =
      .ok (pre.length + (a.takeWhile (· = c)).length) := by
  rw [skip, List.drop_left, skipScan_append hb]

end TinyMuduo
