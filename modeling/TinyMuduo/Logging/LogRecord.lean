import TinyMuduo.Logging.LogStream

/-!
# What a log record holds

Everything that is put into a `LogStream` of 4096 bytes: the operands of `<<` and
what `Finish` of `Logger::Implement` adds. An integer is written exactly
(`formatInteger_exact`), but only where 48 bytes are free; else it is left out,
while a later string may still be put in. So a record is the rendering of the
pieces that were not left out, cut off behind 4096 bytes (`record_cut`).
-/

namespace TinyMuduo

open Storage

/-! ## Integers -/

def IntegerType.int : IntegerType := ⟨true, 32, by decide, by decide⟩

theorem IntegerType.Holds.natAbs_lt {type : IntegerType} {num : ℤ} (h : type.Holds num) :
    num.natAbs < 10 ^ 20 := by
  have hbits := type.bits_le
  have hpow : (2 : ℤ) ^ type.bits ≤ 2 ^ 64 := by gcongr; decide
  have hpow' : (2 : ℤ) ^ (type.bits - 1) ≤ 2 ^ 64 := by gcongr <;> omega
  unfold Holds at h
  split at h
  · omega
  · omega

/-- A numeral and its NUL take less than 48 bytes, whatever the type. -/
theorem IntegerType.Holds.length_lt {type : IntegerType} {num : ℤ} (h : type.Holds num) :
    (Numeral.ofInt num).length < kNum2MaxStringLength := by
  have hle := Numeral.length_ofInt_le (k := 20) (by decide) h.natAbs_lt
  rw [kNum2MaxStringLength]
  omega

theorem FixedBuffer.contents_of_overwrite {size : ℕ} {b b' : FixedBuffer size}
    {text rest : Bytes} (hbuf : b'.buf = overwrite b.cur (text ++ rest) b.buf)
    (hcur : b'.cur = b.cur + text.length) : b'.contents = b.contents ++ text := by
  have hfit : 0 + b.cur ≤ b.buf.length := by
    rw [Nat.zero_add, b.length_buf]
    exact b.cur_le
  have hslice : slice (overwrite (0 + b.cur) (text ++ rest) b.buf) 0
      (b.cur + (text ++ rest).length) = slice b.buf 0 b.cur ++ (text ++ rest) :=
    slice_overwrite hfit
  rw [Nat.zero_add] at hslice
  have hlen : (slice b.buf 0 b.cur ++ text).length = b.cur + text.length := by
    rw [List.length_append, length_slice hfit]
  calc b'.contents
      = (slice b'.buf 0 (b.cur + (text ++ rest).length)).take (b.cur + text.length) := by
        rw [take_slice (by rw [List.length_append]; omega), contents, hcur]
    _ = (slice b.buf 0 b.cur ++ (text ++ rest)).take (b.cur + text.length) := by
        rw [hbuf, hslice]
    _ = b.contents ++ text := by
        rw [← List.append_assoc, List.take_left' hlen]
        rfl

/-- **`FormatInteger` is exact for every integer type.** With 48 bytes free it adds
the canonical numeral of the number, which is read back as the number, and
changes no byte of the array but these 48. -/
theorem formatInteger_exact (type : IntegerType) {num : ℤ} (hnum : type.Holds num)
    {b : FixedBuffer kSmallSize} (hroom : kNum2MaxStringLength ≤ b.writableBytes) :
    ∃ b', b.formatInteger num = .ok b' ∧
      b'.contents = b.contents ++ Numeral.ofInt num ∧
      (∀ i, i < b.cur ∨ b.cur + kNum2MaxStringLength ≤ i → b'.buf[i]? = b.buf[i]?) ∧
      Numeral.Canonical (Numeral.ofInt num) ∧
      ((Numeral.ofInt num).head? = some Numeral.minus ↔ num < 0) ∧
      Numeral.read (Numeral.ofInt num) = num := by
  obtain ⟨b', hformat, hbuf, hcur⟩ := FixedBuffer.formatInteger_spec hroom hnum.length_lt
  refine ⟨b', hformat, FixedBuffer.contents_of_overwrite hbuf hcur, ?_,
    Numeral.canonical_ofInt num, Numeral.head_ofInt num, Numeral.read_ofInt num⟩
  intro i hi
  have hlen := hnum.length_lt
  have hsize := b.length_buf
  have hroom' : kNum2MaxStringLength ≤ kSmallSize - b.cur := hroom
  rw [hbuf]
  apply getElem?_overwrite
  · rw [List.length_append, List.length_singleton]
    omega
  · rw [List.length_append, List.length_singleton]
    omega

/-- The least 64-bit number, which has no positive counterpart. -/
theorem formatInteger_exact_least :
    ∃ b', (FixedBuffer.new : FixedBuffer kSmallSize).formatInteger (-2 ^ 63) = .ok b' ∧
      b'.contents = ascii "-9223372036854775808" := by
  have hnum : IntegerType.Holds ⟨true, 64, by decide, by decide⟩ (-2 ^ 63) := by
    unfold IntegerType.Holds
    decide
  obtain ⟨b', hformat, hcontents, -⟩ :=
    formatInteger_exact _ hnum (b := FixedBuffer.new) (by decide)
  refine ⟨b', hformat, hcontents.trans ?_⟩
  rw [FixedBuffer.contents_new, List.nil_append]
  decide

/-! ## Records -/

/-- `Logger::Implement`, as far as `Finish` reads it. -/
structure Implement where
  fileinfo : Bytes
  line : ℤ
  line_int : IntegerType.int.Holds line

/-- What `Finish` puts into the stream. -/
def Implement.finish (impl : Implement) : List Piece :=
  [.cstring (ascii " - "), .generalTemplate impl.fileinfo, .character colon,
    .integer IntegerType.int impl.line impl.line_int, .character lf]

def LogStream.putAll (s : LogStream) (pieces : List Piece) : Checked LogStream :=
  pieces.foldlM LogStream.put s

/-- The stream of a logger that was given `pieces`, after `Finish`. -/
def Implement.record (impl : Implement) (pieces : List Piece) : Checked LogStream := do
  let stream ← LogStream.new.putAll pieces
  stream.putAll impl.finish

def renderings (pieces : List Piece) : Bytes := pieces.flatMap Piece.rendering

def Piece.isInteger : Piece → Bool
  | .integer _ _ _ => true
  | _ => false

/-- The pieces that are put into a buffer that holds `used` bytes: an integer for
which fewer than 48 bytes are free is left out. -/
def kept (used : ℕ) : List Piece → List Piece
  | [] => []
  | p :: ps =>
      if p.isInteger ∧ kSmallSize < used + kNum2MaxStringLength then kept used ps
      else p :: kept (min kSmallSize (used + p.rendering.length)) ps

theorem take_take_append {α : Type*} (n : ℕ) (xs ys : List α) :
    (xs.take n ++ ys).take n = (xs ++ ys).take n := by
  rw [List.take_append, List.take_append, List.take_take, Nat.min_self, List.length_take]
  congr 2
  omega

namespace LogStream

abbrev contents (s : LogStream) : Bytes := s.buffer.contents

theorem length_contents (s : LogStream) : s.contents.length = s.buffer.len :=
  s.buffer.length_contents

/-- `FixedBuffer::Append` in terms of the whole contents. -/
theorem contents_append (b : FixedBuffer kSmallSize) (text : Bytes) :
    (b.append text).contents = (b.contents ++ text).take kSmallSize := by
  have hle : b.contents.length ≤ kSmallSize := b.length_contents.symm ▸ b.cur_le
  rw [b.contents_append, List.take_append, List.take_of_length_le hle, b.length_contents]
  rfl

/-- **One `<<`**: an integer without room is skipped, everything else is added and
cut off behind the last byte. -/
theorem put_spec (s : LogStream) (p : Piece) :
    ∃ s', s.put p = .ok s' ∧
      s'.contents =
        if p.isInteger ∧ kSmallSize < s.buffer.len + kNum2MaxStringLength then s.contents
        else (s.contents ++ p.rendering).take kSmallSize := by
  have hle := s.buffer.cur_le
  have happend : ∀ text, ∃ s', (Except.ok ⟨s.buffer.append text⟩ : Checked LogStream) = .ok s' ∧
      s'.contents = (s.contents ++ text).take kSmallSize :=
    fun text => ⟨_, rfl, contents_append s.buffer text⟩
  cases p with
  | integer type num holds =>
      by_cases hroom : kNum2MaxStringLength ≤ s.buffer.writableBytes
      · obtain ⟨b', hformat, hbuf, hcur⟩ :=
          FixedBuffer.formatInteger_spec hroom holds.length_lt
        have hcontents := FixedBuffer.contents_of_overwrite hbuf hcur
        have hroom' : kNum2MaxStringLength ≤ kSmallSize - s.buffer.cur := hroom
        have hnot : ¬ kSmallSize < s.buffer.len + kNum2MaxStringLength := by
          unfold FixedBuffer.len kNum2MaxStringLength at *
          omega
        refine ⟨⟨b'⟩, ?_, ?_⟩
        · rw [put, hformat]
          rfl
        · rw [if_neg fun h => hnot h.2]
          show b'.contents = (s.contents ++ Numeral.ofInt num).take kSmallSize
          rw [List.take_of_length_le, hcontents]
          rw [← hcontents, b'.length_contents]
          exact b'.cur_le
      · refine ⟨s, ?_, ?_⟩
        · rw [put, FixedBuffer.formatInteger, if_neg hroom]
          rfl
        · rw [if_pos]
          refine ⟨rfl, ?_⟩
          have hroom' : ¬ kNum2MaxStringLength ≤ kSmallSize - s.buffer.cur := hroom
          unfold FixedBuffer.len
          omega
  | character chr =>
      rw [if_neg (by rintro ⟨⟨⟩, -⟩)]
      exact happend [chr]
  | cstring data =>
      rw [if_neg (by rintro ⟨⟨⟩, -⟩)]
      exact happend (cString data)
  | generalTemplate data =>
      rw [if_neg (by rintro ⟨⟨⟩, -⟩)]
      exact happend data
  | str text =>
      rw [if_neg (by rintro ⟨⟨⟩, -⟩)]
      exact happend text

/-- **A sequence of `<<`** adds the renderings of the pieces that are kept. -/
theorem putAll_spec : ∀ (ps : List Piece) (s : LogStream), ∃ s', s.putAll ps = .ok s' ∧
    s'.contents = (s.contents ++ renderings (kept s.buffer.len ps)).take kSmallSize := by
  intro ps
  induction ps with
  | nil =>
      intro s
      refine ⟨s, rfl, ?_⟩
      have hle : s.contents.length ≤ kSmallSize := s.length_contents.symm ▸ s.buffer.cur_le
      rw [kept, renderings, List.flatMap_nil, List.append_nil, List.take_of_length_le hle]
  | cons p ps ih =>
      intro s
      obtain ⟨t, hput, hcontents⟩ := s.put_spec p
      obtain ⟨u, hputs, hrest⟩ := ih t
      refine ⟨u, ?_, ?_⟩
      · rw [putAll, List.foldlM_cons, hput]
        exact hputs
      · rw [hrest, ← t.length_contents, hcontents, kept]
        split
        · rw [s.length_contents]
        · rw [List.length_take, List.length_append, s.length_contents, take_take_append,
            renderings, renderings, List.flatMap_cons, List.append_assoc]

end LogStream

/-! ## What is left out -/

theorem kept_sublist : ∀ (ps : List Piece) (used : ℕ), (kept used ps).Sublist ps := by
  intro ps
  induction ps with
  | nil =>
      intro used
      exact List.Sublist.refl _
  | cons p ps ih =>
      intro used
      rw [kept]
      split
      · exact (ih used).cons p
      · exact (ih _).cons_cons p

theorem kept_others : ∀ (ps : List Piece) (used : ℕ),
    (kept used ps).filter (!·.isInteger) = ps.filter (!·.isInteger) := by
  intro ps
  induction ps with
  | nil =>
      intro used
      rfl
  | cons p ps ih =>
      intro used
      rw [kept]
      split
      · next hskip =>
          rw [ih, List.filter_cons_of_neg]
          rw [hskip.1]
          decide
      · rw [List.filter_cons, List.filter_cons, ih]

/-- Nothing is left out when at most 4048 bytes come before each integer. -/
theorem kept_all : ∀ (ps : List Piece) (used : ℕ),
    (∀ before p after, ps = before ++ p :: after → p.isInteger →
      used + (renderings before).length + kNum2MaxStringLength ≤ kSmallSize) →
    kept used ps = ps := by
  intro ps
  induction ps with
  | nil =>
      intro used _
      rfl
  | cons p ps ih =>
      intro used hroom
      have hhead : ¬ (p.isInteger ∧ kSmallSize < used + kNum2MaxStringLength) := by
        rintro ⟨hint, hlt⟩
        have := hroom [] p ps rfl hint
        rw [renderings, List.flatMap_nil, List.length_nil] at this
        omega
      rw [kept, if_neg hhead, ih]
      intro before q after hps hint
      have := hroom (p :: before) q after (by rw [hps]; rfl) hint
      rw [renderings, List.flatMap_cons, List.length_append] at this
      rw [renderings]
      omega

/-- **Overlong records are cut at the tail, but integers that come near the end
are left out whole.** What a record holds is a prefix of the renderings of the
pieces that are kept, all of them if they fit; every string, character and
`GeneralTemplate` is kept; and all pieces are when at most 4048 bytes come before
each integer. -/
theorem record_cut (impl : Implement) (pieces : List Piece) :
    ∃ s, impl.record pieces = .ok s ∧
      s.contents <+: renderings (kept 0 (pieces ++ impl.finish)) ∧
      ((renderings (kept 0 (pieces ++ impl.finish))).length ≤ kSmallSize →
        s.contents = renderings (kept 0 (pieces ++ impl.finish))) ∧
      (kept 0 (pieces ++ impl.finish)).Sublist (pieces ++ impl.finish) ∧
      (kept 0 (pieces ++ impl.finish)).filter (!·.isInteger) =
        (pieces ++ impl.finish).filter (!·.isInteger) ∧
      ((∀ before p after, pieces ++ impl.finish = before ++ p :: after → p.isInteger →
          (renderings before).length + kNum2MaxStringLength ≤ kSmallSize) →
        kept 0 (pieces ++ impl.finish) = pieces ++ impl.finish) := by
  obtain ⟨s, hputs, hcontents⟩ := LogStream.new.putAll_spec (pieces ++ impl.finish)
  have hempty : LogStream.new.contents = [] := FixedBuffer.contents_new
  rw [hempty, List.nil_append] at hcontents
  have hzero : LogStream.new.buffer.len = 0 := rfl
  rw [hzero] at hcontents
  refine ⟨s, ?_, ?_, ?_, kept_sublist _ _, kept_others _ _, ?_⟩
  · rw [LogStream.putAll, List.foldlM_append] at hputs
    exact hputs
  · rw [hcontents]
    exact List.take_prefix _ _
  · intro hfits
    rw [hcontents, List.take_of_length_le hfits]
  · intro hroom
    apply kept_all
    intro before p after hps hint
    have := hroom before p after hps hint
    omega

def sampleLine : Implement := ⟨ascii "f", 7, by unfold IntegerType.Holds; decide⟩

/-- A message of 4050 bytes: the line number is left out although the record would
fit, and the newline behind it is kept. -/
theorem line_number_dropped : ∃ (pieces : List Piece) (s : LogStream),
    sampleLine.record pieces = .ok s ∧
      (renderings (pieces ++ sampleLine.finish)).length ≤ kSmallSize ∧
      ¬ s.contents <+: renderings (pieces ++ sampleLine.finish) := by
  obtain ⟨text, hlen⟩ : ∃ text : Bytes, text.length = 4050 := ⟨_, List.length_replicate (a := 97)⟩
  obtain ⟨s, hputs, hcontents⟩ := LogStream.new.putAll_spec ([.str text] ++ sampleLine.finish)
  have hempty : LogStream.new.contents = [] := FixedBuffer.contents_new
  have hzero : LogStream.new.buffer.len = 0 := rfl
  have hkept : kept 0 ([.str text] ++ sampleLine.finish) =
      [.str text, .cstring (ascii " - "), .generalTemplate (ascii "f"), .character colon,
        .character lf] := by
    have hdash : (cString (ascii " - ")).length = 3 := by decide
    have hfile : (ascii "f").length = 1 := by decide
    simp [kept, Implement.finish, sampleLine, Piece.isInteger, Piece.rendering, hlen, hdash, hfile,
      kSmallSize, kNum2MaxStringLength]
  have hall : renderings ([.str text] ++ sampleLine.finish) = text ++ ascii " - f:7\n" := rfl
  have hcut : renderings (kept 0 ([.str text] ++ sampleLine.finish)) = text ++ ascii " - f:\n" := by
    rw [hkept]
    rfl
  rw [hempty, List.nil_append, hzero, hcut, List.take_of_length_le] at hcontents
  · refine ⟨[.str text], s, ?_, ?_, ?_⟩
    · rw [LogStream.putAll, List.foldlM_append] at hputs
      exact hputs
    · rw [hall, List.length_append, hlen]
      decide
    · rw [hcontents, hall, List.prefix_append_right_inj]
      decide
  · rw [List.length_append, hlen]
    decide

end TinyMuduo
