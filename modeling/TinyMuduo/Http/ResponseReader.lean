import Mathlib.Data.List.DropRight
import Mathlib.Data.List.TakeWhile
import TinyMuduo.Http.Grammar
import TinyMuduo.Lib.Numeral

/-!
# Reading an HTTP/1.1 response

What a client makes of a stream of bytes that starts with the response to a
request other than HEAD and CONNECT: a status line, header fields up to an empty
line, and a body. There is no body behind a 1xx, 204 or 304 status line; else its
length is the announced `Content-Length`, and if none is announced it goes on to
the end of the stream. Names are compared without regard to case, and the blanks
around a value are not part of it. Transfer codings are not decoded.
-/

namespace TinyMuduo

namespace ResponseReader

/-! ## The reader -/

/-- `SP` and `HTAB`. -/
def isBlank (b : Byte) : Bool := b = 32 || b = 9

def trim (s : Bytes) : Bytes := (s.dropWhile isBlank).rdropWhile isBlank

def toLower (b : Byte) : Byte := if 65 ≤ b ∧ b ≤ 90 then b + 32 else b

def isDigit (b : Byte) : Bool := 48 ≤ b && b ≤ 57

/-- A non-empty string of digits. -/
def number (s : Bytes) : Option ℕ :=
  if s ≠ [] ∧ s.all isDigit then some (Numeral.value s) else none

/-- `HTTP/1.1 SP 3DIGIT SP reason`. -/
def statusLine (line : Bytes) : Option (ℕ × Bytes) := do
  let (version, line) ← Search.cut [space] line
  let (code, reason) ← Search.cut [space] line
  if version = ascii "HTTP/1.1" ∧ code.length = 3 then
    return (← number code, reason)
  else none

/-- The fields up to the empty line, and what follows it. -/
def fieldLines (s : Bytes) : Option (List (Bytes × Bytes) × Bytes) :=
  match _h : Search.cut kCRLF s with
  | none => none
  | some (line, rest) =>
      if line = [] then some ([], rest)
      else
        match Search.cut [colon] line with
        | none => none
        | some (name, value) =>
            if name = [] ∨ name.any isBlank then none
            else (fieldLines rest).map fun p => ((name, trim value) :: p.1, p.2)
termination_by s.length
decreasing_by
  have := Search.length_of_cut _h
  have hk : kCRLF.length = 2 := rfl
  omega

/-- The values of a field, by its name in lower case. -/
def values (name : Bytes) (fields : List (Bytes × Bytes)) : List Bytes :=
  fields.filterMap fun field => if field.1.map toLower = name then some field.2 else none

/-- No response with this status has a body. -/
def Bodyless (status : ℕ) : Prop := status / 100 = 1 ∨ status = 204 ∨ status = 304

instance (status : ℕ) : Decidable (Bodyless status) := by
  unfold Bodyless
  infer_instance

inductive Framing where
  | absent
  | length (n : ℕ)
  | untilEnd

/-- How the end of the body is found. -/
def framing (status : ℕ) (fields : List (Bytes × Bytes)) : Option Framing :=
  if Bodyless status then some .absent
  else if values (ascii "transfer-encoding") fields ≠ [] then none
  else
    match values (ascii "content-length") fields with
    | [] => some .untilEnd
    | [announced] => (number announced).map .length
    | _ => none

/-- The body, and what is left of the stream. -/
def Framing.cut : Framing → Bytes → Option (Bytes × Bytes)
  | .absent, s => some ([], s)
  | .length n, s => if n ≤ s.length then some (s.take n, s.drop n) else none
  | .untilEnd, s => some (s, [])

end ResponseReader

structure ResponseMessage where
  status : ℕ
  reason : Bytes
  fields : List (Bytes × Bytes)
  body : Bytes
deriving DecidableEq

open ResponseReader in
/-- One response off the front of a stream, and the rest of the stream. -/
def readResponse (s : Bytes) : Option (ResponseMessage × Bytes) := do
  let (line, s) ← Search.cut kCRLF s
  let (status, reason) ← statusLine line
  let (fields, s) ← fieldLines s
  let (body, rest) ← (← framing status fields).cut s
  return (⟨status, reason, fields, body⟩, rest)

namespace ResponseReader

/-! ## What was written is read -/

theorem crlf_free_of_cr {line : Bytes} (h : cr ∉ line) : ¬ kCRLF <:+: line := by
  intro hp
  exact h (hp.subset List.mem_cons_self)

/-- Neither end is a blank. -/
structure Trimmed (s : Bytes) : Prop where
  first : ∀ b ∈ s.head?, isBlank b = false
  last : ∀ b ∈ s.getLast?, isBlank b = false

theorem trimmed_iff {s : Bytes} :
    (s.head?.all fun b => !isBlank b) = true ∧ (s.getLast?.all fun b => !isBlank b) = true ↔
      Trimmed s := by
  simp only [Option.all_eq_true, Bool.not_eq_true']
  exact ⟨fun h => ⟨h.1, h.2⟩, fun h => ⟨h.first, h.last⟩⟩

instance (s : Bytes) : Decidable (Trimmed s) := decidable_of_iff _ trimmed_iff

theorem Trimmed.trim_eq {s : Bytes} (h : Trimmed s) : trim s = s := by
  have hfirst : s.dropWhile isBlank = s := by
    cases s with
    | nil => rfl
    | cons b s => exact List.dropWhile_cons_of_neg (by simp [h.first b rfl])
  rw [trim, hfirst, List.rdropWhile_eq_self_iff]
  intro hne
  rw [h.last _ (List.getLast?_eq_some_getLast hne)]
  exact Bool.false_ne_true

theorem trim_space (s : Bytes) : trim (space :: s) = trim s := by
  rw [trim, trim, List.dropWhile_cons_of_pos (by decide)]

/-- A header field that survives being written and read. -/
structure Field where
  name : Bytes
  value : Bytes
  name_ne : name ≠ []
  name_blank : name.any isBlank = false
  name_colon : colon ∉ name
  name_line : cr ∉ name
  value_line : cr ∉ value
  value_trimmed : Trimmed value

namespace Field

def line (f : Field) : Bytes := f.name ++ colon :: space :: f.value

def pair (f : Field) : Bytes × Bytes := (f.name, f.value)

theorem line_crlf (f : Field) : ¬ kCRLF <:+: f.line := by
  apply crlf_free_of_cr
  simp only [line, List.mem_append, List.mem_cons, not_or]
  exact ⟨f.name_line, by decide, by decide, f.value_line⟩

theorem fieldLines_cons (f : Field) (s : Bytes) :
    fieldLines (f.line ++ kCRLF ++ s) =
      (fieldLines s).map fun p => (f.pair :: p.1, p.2) := by
  have hcut : Search.cut [colon] f.line = some (f.name, space :: f.value) :=
    Search.cut_singleton_of_not_mem _ f.name_colon
  have hne : f.line ≠ [] := List.append_ne_nil_of_left_ne_nil f.name_ne _
  have hname : ¬ (f.name = [] ∨ f.name.any isBlank = true) := by
    rintro (h | h)
    · exact f.name_ne h
    · rw [f.name_blank] at h
      cases h
  rw [fieldLines]
  split
  · next heq =>
      rw [cut_line s f.line_crlf] at heq
      cases heq
  · next heq =>
      rw [cut_line s f.line_crlf] at heq
      cases heq
      simp only [if_neg hne, hcut, if_neg hname, trim_space, f.value_trimmed.trim_eq]
      rfl

end Field

/-- **A block of fields is read back**, and the bytes behind it are left. -/
theorem fieldLines_block (rest : Bytes) : ∀ fields : List Field,
    fieldLines (block (fields.map Field.line) ++ (kCRLF ++ rest)) =
      some (fields.map Field.pair, rest) := by
  intro fields
  induction fields with
  | nil =>
      have hempty : ¬ kCRLF <:+: ([] : Bytes) := by decide
      have hcut := cut_line rest hempty
      rw [List.nil_append] at hcut
      rw [fieldLines]
      split
      · next heq =>
          rw [show block (List.map Field.line []) ++ (kCRLF ++ rest) = kCRLF ++ rest from rfl,
            hcut] at heq
          cases heq
      · next heq =>
          rw [show block (List.map Field.line []) ++ (kCRLF ++ rest) = kCRLF ++ rest from rfl,
            hcut] at heq
          cases heq
          exact if_pos rfl
  | cons f fields ih =>
      rw [List.map_cons, block_cons, f.fieldLines_cons, ih]
      rfl

/-- A status line and a block of fields are read back, and the framing they
announce decides what becomes of the bytes behind them. -/
theorem readResponse_head {line reason : Bytes} {status : ℕ} (fields : List Field) (rest : Bytes)
    (hline : cr ∉ line) (hstatus : statusLine line = some (status, reason)) :
    readResponse (line ++ kCRLF ++ (block (fields.map Field.line) ++ (kCRLF ++ rest))) =
      (framing status (fields.map Field.pair)).bind fun framing =>
        (framing.cut rest).map fun p =>
          (⟨status, reason, fields.map Field.pair, p.1⟩, p.2) := by
  simp only [readResponse, cut_line _ (crlf_free_of_cr hline), hstatus, fieldLines_block,
    Option.bind_eq_bind, Option.bind_some, Option.pure_def]
  congr 1
  funext framing
  exact Option.map_eq_bind.symm

end ResponseReader

end TinyMuduo
