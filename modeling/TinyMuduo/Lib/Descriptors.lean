import Mathlib.Data.List.Range
import Mathlib.Logic.Function.Basic

/-!
# A descriptor table of limited size

Numbers below a limit, some of which stand for an open file. A new file gets the
lowest free number, and there is none when the table is full. Closing a number of
a full table makes it the only free one, so the next file gets it back
(`lowestFree_close`).
-/

namespace Descriptors

structure Table (F : Type*) where
  limit : ℕ
  files : ℕ → Option F
  bounded : ∀ fd, limit ≤ fd → files fd = none

namespace Table

variable {F : Type*}

/-- The number a new file would get. -/
def lowestFree (t : Table F) : Option ℕ :=
  (List.range t.limit).find? fun fd => (t.files fd).isNone

def Full (t : Table F) : Prop := ∀ fd, fd < t.limit → t.files fd ≠ none

def close (t : Table F) (fd : ℕ) : Table F where
  limit := t.limit
  files := Function.update t.files fd none
  bounded k hk := by
    by_cases h : k = fd
    · rw [h, Function.update_self]
    · rw [Function.update_of_ne h, t.bounded k hk]

/-- A file under a number below the limit. -/
def place (t : Table F) (fd : ℕ) (hfd : fd < t.limit) (f : F) : Table F where
  limit := t.limit
  files := Function.update t.files fd (some f)
  bounded k hk := by
    have hne : k ≠ fd := by omega
    rw [Function.update_of_ne hne, t.bounded k hk]

theorem lowestFree_some {t : Table F} {fd : ℕ} (h : t.lowestFree = some fd) :
    fd < t.limit ∧ t.files fd = none := by
  have hfree := List.find?_some h
  have hmem := List.mem_of_find?_eq_some h
  exact ⟨List.mem_range.mp hmem, Option.isNone_iff_eq_none.mp hfree⟩

theorem lowestFree_eq_none {t : Table F} : t.lowestFree = none ↔ t.Full := by
  rw [lowestFree, List.find?_eq_none]
  simp only [List.mem_range, Option.isNone_iff_eq_none]
  exact Iff.rfl

/-- Open a file: its number and the table, or nothing when the table is full. -/
def openFile (t : Table F) (f : F) : Option (ℕ × Table F) :=
  match h : t.lowestFree with
  | some fd => some (fd, t.place fd (lowestFree_some h).1 f)
  | none => none

theorem lt_limit {t : Table F} {fd : ℕ} {f : F} (h : t.files fd = some f) : fd < t.limit := by
  by_contra hle
  rw [t.bounded fd (Nat.le_of_not_lt hle)] at h
  cases h

theorem lt_limit_close {t : Table F} {fd : ℕ} {f : F} (h : t.files fd = some f) :
    fd < (t.close fd).limit := by
  have hlt : fd < t.limit := lt_limit h
  exact hlt

@[ext] theorem ext_files {t u : Table F} (hlimit : t.limit = u.limit)
    (hfiles : ∀ fd, t.files fd = u.files fd) : t = u := by
  obtain ⟨limit, files, bounded⟩ := t
  obtain ⟨limit', files', bounded'⟩ := u
  obtain rfl : limit = limit' := hlimit
  obtain rfl : files = files' := funext hfiles
  rfl

/-- **The only free number of the table is the one just closed.** -/
theorem lowestFree_close {t : Table F} (hfull : t.Full) {fd : ℕ} {f : F}
    (h : t.files fd = some f) : (t.close fd).lowestFree = some fd := by
  cases hfree : (t.close fd).lowestFree with
  | none =>
      have hused := lowestFree_eq_none.mp hfree fd (lt_limit_close h)
      exact absurd (Function.update_self ..) hused
  | some k =>
      obtain ⟨hlt, hnone⟩ := lowestFree_some hfree
      by_cases hk : k = fd
      · rw [hk]
      · have hsame : (t.close fd).files k = t.files k := Function.update_of_ne hk ..
        rw [hsame] at hnone
        exact absurd hnone (hfull k hlt)

theorem close_place {t : Table F} {fd : ℕ} (hfd : fd < t.limit) (f : F)
    (h : t.files fd = none) : (t.place fd hfd f).close fd = t := by
  apply ext_files
  · rfl
  · intro k
    have hfiles : ((t.place fd hfd f).close fd).files
        = Function.update (Function.update t.files fd (some f)) fd none := rfl
    rw [hfiles, Function.update_idem, ← h, Function.update_eq_self]

theorem place_close {t : Table F} {fd : ℕ} {f : F} (h : t.files fd = some f) :
    (t.close fd).place fd (lt_limit_close h) f = t := by
  apply ext_files
  · rfl
  · intro k
    have hfiles : ((t.close fd).place fd (lt_limit_close h) f).files
        = Function.update (Function.update t.files fd none) fd (some f) := rfl
    rw [hfiles, Function.update_idem, ← h, Function.update_eq_self]

theorem openFile_of_lowestFree {t : Table F} {fd : ℕ} (h : t.lowestFree = some fd) (f : F) :
    t.openFile f = some (fd, t.place fd (lowestFree_some h).1 f) := by
  unfold openFile
  split
  next k hk =>
    obtain rfl : k = fd := Option.some.inj (hk.symm.trans h)
    rfl
  next hnone => exact absurd (hnone.symm.trans h) (by rintro ⟨⟩)

theorem openFile_of_full {t : Table F} (h : t.Full) (f : F) : t.openFile f = none := by
  have hnone := lowestFree_eq_none.mpr h
  unfold openFile
  split
  next k hk => exact absurd (hk.symm.trans hnone) (by rintro ⟨⟩)
  next => rfl

/-- **A slot of a full table**: whatever is opened after its file is closed gets
the same number. -/
theorem openFile_close {t : Table F} (hfull : t.Full) {fd : ℕ} {f : F}
    (h : t.files fd = some f) (g : F) :
    (t.close fd).openFile g = some (fd, (t.close fd).place fd (lt_limit_close h) g) :=
  openFile_of_lowestFree (lowestFree_close hfull h) g

end Table

end Descriptors
