import TinyMuduo.Base.Timestamp
import TinyMuduo.Http.HttpResponse
import TinyMuduo.Logging.LogRecord
import TinyMuduo.Timer.Timer

/-!
# `Logger`

Translation of `Logging/logging.h`, `Logging/logging.cc` and `CacheTid` of
`Util/thread.cc`, on one thread: the macros with their level, the time of a record
with the cache of its second, the thread id with its cache, and the name of the
source file. `localtime_r` and `gettid` are the host's. The cached code does what
code without caches does, except that the first record of a thread may lack the
thread id (`logger_plain`).
-/

namespace TinyMuduo

open Storage

/-! ## The host -/

/-- `struct tm`, as far as it is printed. -/
structure Tm where
  tmYear : ℤ
  tmMon : ℕ
  tmMday : ℕ
  tmHour : ℕ
  tmMin : ℕ
  tmSec : ℕ

/-- A time of our age, as `localtime_r` returns it. -/
structure Tm.Ordinary (tm : Tm) : Prop where
  year : -1900 ≤ tm.tmYear ∧ tm.tmYear < 8100
  mon : tm.tmMon < 12
  mday : tm.tmMday < 32
  hour : tm.tmHour < 24
  min : tm.tmMin < 60
  sec : tm.tmSec ≤ 60

/-- `localtime_r`, and the answer of `gettid` on this thread. -/
structure Host where
  localtime : ℤ → Tm
  gettid : ℕ
  gettid_pos : 0 < gettid
  gettid_lt : gettid < 2 ^ 31

/-! ## Formats -/

/-- `%5d` and, with `fill` a zero, `%02d`. -/
def padded (fill : Byte) (width : ℕ) (n : ℤ) : Bytes := (Numeral.ofInt n).leftpad width fill

def zero : Byte := 48

/-- `"%4d%02d%02d %02d:%02d:%02d."` -/
def formatTm (tm : Tm) : Bytes :=
  padded space 4 (tm.tmYear + 1900) ++ padded zero 2 (tm.tmMon + 1) ++ padded zero 2 tm.tmMday ++
    [space] ++ padded zero 2 tm.tmHour ++ [colon] ++ padded zero 2 tm.tmMin ++ [colon] ++
    padded zero 2 tm.tmSec ++ ascii "."

/-- `"%06d "` -/
def formatMicroseconds (microseconds : ℤ) : Bytes := padded zero 6 microseconds ++ [space]

/-- `"%5d "` -/
def formatTid (tid : ℕ) : Bytes := padded space 5 tid ++ [space]

/-- `snprintf` into an array. -/
def snprintfArray (text buf : Bytes) : Bytes := overwrite 0 (snprintf buf.length text ++ [0]) buf

/-! ## The thread -/

/-- The `__thread` variables. -/
structure CurrentThread where
  tLastsecond : ℤ
  tTime : Bytes
  tCachedTid : ℕ
  tFormattedTid : Bytes
  tFormattedTidLength : ℕ

namespace CurrentThread

def new : CurrentThread := ⟨0, List.replicate 64 0, 0, List.replicate 32 0, 0⟩

def cacheTid (host : Host) (t : CurrentThread) : CurrentThread :=
  if t.tCachedTid = 0 then
    { t with
      tCachedTid := host.gettid
      tFormattedTid := snprintfArray (formatTid host.gettid) t.tFormattedTid
      tFormattedTidLength := (formatTid host.gettid).length }
  else t

/-- `tid()`, as far as it changes something. -/
def tid (host : Host) (t : CurrentThread) : CurrentThread :=
  if t.tCachedTid = 0 then t.cacheTid host else t

end CurrentThread

/-! ## One record -/

inductive Level where
  | DEBUG
  | INFO
  | WARN
  | ERROR
  | FATAL
deriving DecidableEq

namespace Level

/-- The enumerators are numbered from zero. -/
def number : Level → ℕ
  | DEBUG => 0
  | INFO => 1
  | WARN => 2
  | ERROR => 3
  | FATAL => 4

def getLogLevel : Level → Bytes
  | DEBUG => ascii "DEBUG "
  | INFO => ascii "INFO  "
  | WARN => ascii "WARN  "
  | ERROR => ascii "ERROR "
  | FATAL => ascii "FATAL "

/-- The macros: only `LOG_DEBUG` and `LOG_INFO` look at `g_level`. -/
def passes (g : Level) : Level → Bool
  | DEBUG => g.number ≤ DEBUG.number
  | INFO => g.number ≤ INFO.number
  | _ => true

end Level

def kLogLevelStringLength : ℕ := 6

def tFormattedtimeLength : ℕ := 18

def slash : Byte := 47

def strrchr (data : Bytes) (c : Byte) : Option ℕ :=
  (data.reverse.findIdx? (· = c)).map fun i => data.length - 1 - i

def sourceClass (data : Bytes) : Bytes :=
  match strrchr data slash with
  | some forwardSlash => data.drop (forwardSlash + 1)
  | none => data

/-- `Timestamp::Now`, later than the first second of the epoch. -/
structure Clock where
  now : Timestamp
  late : kMicrosecond2Second ≤ now.microSeconds

namespace Clock

def seconds (clock : Clock) : ℤ := clock.now.microSeconds.tdiv kMicrosecond2Second

def microseconds (clock : Clock) : ℤ := clock.now.microSeconds.tmod kMicrosecond2Second

end Clock

structure LogStatement where
  level : Level
  file : Bytes
  line : ℤ
  line_int : IntegerType.int.Holds line
  pieces : List Piece

namespace LogStatement

def implement (stmt : LogStatement) : Implement :=
  ⟨sourceClass stmt.file, stmt.line, stmt.line_int⟩

end LogStatement

namespace CurrentThread

/-- `if (t_lastsecond != seconds)` of `FormattedTime`. -/
def cacheSecond (host : Host) (seconds : ℤ) (t : CurrentThread) : CurrentThread :=
  if t.tLastsecond ≠ seconds then
    { t with
      tTime := snprintfArray (formatTm (host.localtime seconds)) t.tTime
      tLastsecond := seconds }
  else t

/-- `FormattedTime`: what it puts into the stream. -/
def formattedTime (level : Level) (clock : Clock) (t : CurrentThread) : List Piece :=
  let text := formatMicroseconds clock.microseconds
  [.generalTemplate (t.tTime.take tFormattedtimeLength),
    .generalTemplate ((snprintf 32 text).take text.length),
    .generalTemplate (t.tFormattedTid.take t.tFormattedTidLength),
    .generalTemplate (level.getLogLevel.take kLogLevelStringLength)]

/-- `Logger(file, line, level).stream() << pieces`, to its destructor: what
`g_Output` is given. -/
def log (host : Host) (clock : Clock) (stmt : LogStatement) (t : CurrentThread) :
    Checked (Bytes × CurrentThread) := do
  let t := t.cacheSecond host clock.seconds
  let pieces := t.formattedTime stmt.level clock
  let t := t.tid host
  let stream ← stmt.implement.record (pieces ++ stmt.pieces)
  return (stream.contents, t)

end CurrentThread

/-! ## A thread that logs -/

inductive LogEvent where
  /-- Someone calls `tid()`. -/
  | tid
  /-- A macro is used at this time under this `g_level`. -/
  | log (clock : Clock) (g : Level) (stmt : LogStatement)

/-- What the thread gives to `g_Output`, one call after the other. -/
def logger (host : Host) : CurrentThread → List LogEvent → Checked (List Bytes)
  | _, [] => .ok []
  | t, .tid :: events => logger host (t.tid host) events
  | t, .log clock g stmt :: events =>
      if g.passes stmt.level then do
        let (line, t) ← t.log host clock stmt
        let lines ← logger host t events
        return line :: lines
      else logger host t events

/-! ## The same without caches -/

/-- What a record starts with; the thread id only when it is `known`. -/
def preamble (host : Host) (known : Bool) (clock : Clock) (level : Level) : Bytes :=
  (formatTm (host.localtime clock.seconds)).take tFormattedtimeLength ++
    formatMicroseconds clock.microseconds ++
    (if known then formatTid host.gettid else []) ++ level.getLogLevel

def plainLine (host : Host) (known : Bool) (clock : Clock) (stmt : LogStatement) : Bytes :=
  (preamble host known clock stmt.level ++
    renderings (kept (preamble host known clock stmt.level).length
      (stmt.pieces ++ stmt.implement.finish))).take kSmallSize

/-- The records of a thread; it knows its id from the first use on. -/
def plain (host : Host) : Bool → List LogEvent → List Bytes
  | _, [] => []
  | _, .tid :: events => plain host true events
  | known, .log clock g stmt :: events =>
      if g.passes stmt.level then plainLine host known clock stmt :: plain host true events
      else plain host known events

/-! ## Lengths -/

theorem length_padded (fill : Byte) (width : ℕ) (n : ℤ) :
    (padded fill width n).length = max width (Numeral.ofInt n).length := by
  rw [padded, List.leftpad, List.length_append, List.length_replicate]
  omega

theorem length_padded_of_lt {fill : Byte} {width : ℕ} {n : ℕ} (hwidth : 0 < width)
    (hn : n < 10 ^ width) : (padded fill width n).length = width := by
  rw [length_padded, Nat.max_eq_left]
  exact Numeral.length_ofInt_natCast_le hwidth hn

theorem le_length_formatTm (tm : Tm) : tFormattedtimeLength ≤ (formatTm tm).length := by
  have hdot : (ascii ".").length = 1 := by decide
  simp only [formatTm, List.length_append, length_padded, List.length_singleton, hdot,
    tFormattedtimeLength]
  omega

/-- **A time of our age is printed whole.** -/
theorem length_formatTm {tm : Tm} (h : tm.Ordinary) :
    (formatTm tm).length = tFormattedtimeLength := by
  have hyears := h.year
  have hmons := h.mon
  have hmdays := h.mday
  have hhours := h.hour
  have hmins := h.min
  have hsecs := h.sec
  obtain ⟨year, hy⟩ := Int.eq_ofNat_of_zero_le (a := tm.tmYear + 1900) (by omega)
  have hmon : (tm.tmMon + 1 : ℤ) = ((tm.tmMon + 1 : ℕ) : ℤ) := rfl
  have hdot : (ascii ".").length = 1 := by decide
  have htwo : ∀ n : ℕ, n < 100 → (padded zero 2 n).length = 2 :=
    fun n hn => length_padded_of_lt (by decide) hn
  have hfour : (padded space 4 year).length = 4 := length_padded_of_lt (by decide) (by omega)
  simp only [formatTm, hy, hmon, List.length_append, List.length_singleton, hdot, hfour,
    htwo tm.tmMday (by omega), htwo tm.tmHour (by omega), htwo tm.tmMin (by omega),
    htwo tm.tmSec (by omega), htwo (tm.tmMon + 1) (by omega), tFormattedtimeLength]

namespace Clock

variable (clock : Clock)

theorem microseconds_eq : ∃ n : ℕ, clock.microseconds = n ∧ n < 10 ^ 6 := by
  have hlate := clock.late
  unfold microseconds kMicrosecond2Second at *
  obtain ⟨k, hk⟩ := Int.eq_ofNat_of_zero_le (a := clock.now.microSeconds) (by omega)
  refine ⟨k % (1000 * 1000), ?_, Nat.mod_lt _ (by decide)⟩
  rw [hk]
  rfl

theorem length_formatMicroseconds : (formatMicroseconds clock.microseconds).length = 7 := by
  obtain ⟨n, hn, hlt⟩ := clock.microseconds_eq
  rw [formatMicroseconds, hn, List.length_append, length_padded_of_lt (by decide) hlt]
  rfl

theorem seconds_ne : clock.seconds ≠ 0 := by
  have hlate := clock.late
  unfold seconds kMicrosecond2Second at *
  obtain ⟨k, hk⟩ := Int.eq_ofNat_of_zero_le (a := clock.now.microSeconds) (by omega)
  have hdiv : clock.now.microSeconds.tdiv (1000 * 1000) = ((k / (1000 * 1000) : ℕ) : ℤ) := by
    rw [hk]
    rfl
  rw [hdiv]
  omega

end Clock

theorem length_formatTid (host : Host) : (formatTid host.gettid).length ≤ 11 := by
  have hlt := host.gettid_lt
  have hdigits : (Numeral.ofInt host.gettid).length ≤ 10 :=
    Numeral.length_ofInt_natCast_le (by decide) (by omega)
  rw [formatTid, List.length_append, length_padded, List.length_singleton]
  omega

theorem length_getLogLevel (level : Level) : level.getLogLevel.length = kLogLevelStringLength := by
  cases level <;> rfl

/-! ## Arrays -/

theorem length_snprintfArray (text : Bytes) {buf : Bytes} (h : 0 < buf.length) :
    (snprintfArray text buf).length = buf.length := by
  apply length_overwrite
  rw [List.length_append, List.length_singleton, snprintf, List.length_take]
  omega

theorem take_snprintfArray {text buf : Bytes} {k : ℕ} (htext : k ≤ text.length)
    (hbuf : k < buf.length) : (snprintfArray text buf).take k = text.take k := by
  have hlen : k ≤ (text.take (buf.length - 1)).length := by
    rw [List.length_take]
    omega
  rw [snprintfArray, overwrite, List.take_zero, List.nil_append, snprintf, List.append_assoc,
    List.take_append_of_le_length hlen, List.take_take, Nat.min_eq_left (by omega)]

/-! ## Records and caches -/

theorem Implement.record_spec (impl : Implement) (pieces : List Piece) :
    ∃ s, impl.record pieces = .ok s ∧
      s.contents = (renderings (kept 0 (pieces ++ impl.finish))).take kSmallSize := by
  obtain ⟨s, hputs, hcontents⟩ := LogStream.new.putAll_spec (pieces ++ impl.finish)
  have hempty : LogStream.new.contents = [] := FixedBuffer.contents_new
  rw [hempty, List.nil_append] at hcontents
  refine ⟨s, ?_, hcontents⟩
  rw [LogStream.putAll, List.foldlM_append] at hputs
  exact hputs

theorem renderings_append (ps qs : List Piece) :
    renderings (ps ++ qs) = renderings ps ++ renderings qs := List.flatMap_append

/-- Pieces that are no integers are kept, and those behind them find so much less
room. -/
theorem kept_append {front : List Piece} (hfront : ∀ p ∈ front, p.isInteger = false)
    (ps : List Piece) : ∀ {used : ℕ}, used + (renderings front).length ≤ kSmallSize →
      kept used (front ++ ps) = front ++ kept (used + (renderings front).length) ps := by
  induction front with
  | nil =>
      intro used _
      rfl
  | cons p front ih =>
      intro used hroom
      obtain ⟨hp, hfront⟩ := List.forall_mem_cons.mp hfront
      have hlen : (renderings (p :: front)).length =
          p.rendering.length + (renderings front).length := by
        rw [renderings, List.flatMap_cons, List.length_append]
        rfl
      rw [hlen] at hroom ⊢
      rw [List.cons_append, kept, if_neg (by rw [hp]; simp), Nat.min_eq_right (by omega),
        ih hfront (by omega), Nat.add_assoc]
      rfl

namespace CurrentThread

/-- The caches hold what would be computed; `known` tells whether the thread id is
there. -/
structure Coherent (host : Host) (known : Bool) (t : CurrentThread) : Prop where
  size_time : t.tTime.length = 64
  size_tid : t.tFormattedTid.length = 32
  second : t.tLastsecond ≠ 0 → t.tTime.take tFormattedtimeLength =
    (formatTm (host.localtime t.tLastsecond)).take tFormattedtimeLength
  cached : known = true ↔ t.tCachedTid ≠ 0
  tid : t.tFormattedTid.take t.tFormattedTidLength = if known then formatTid host.gettid else []

variable {host : Host} {known : Bool} {t : CurrentThread}

theorem coherent_new : Coherent host false new where
  size_time := by decide
  size_tid := by decide
  second := by
    intro h
    exact absurd rfl h
  cached := by decide
  tid := rfl

theorem Coherent.cacheSecond (h : t.Coherent host known) (seconds : ℤ) :
    (t.cacheSecond host seconds).Coherent host known ∧
      (t.cacheSecond host seconds).tLastsecond = seconds := by
  unfold CurrentThread.cacheSecond
  by_cases hsame : t.tLastsecond ≠ seconds
  · rw [if_pos hsame]
    constructor
    · constructor
      · exact (length_snprintfArray _ (by rw [h.size_time]; decide)).trans h.size_time
      · exact h.size_tid
      · intro _
        exact take_snprintfArray (le_length_formatTm _) (by rw [h.size_time]; decide)
      · exact h.cached
      · exact h.tid
    · rfl
  · rw [if_neg hsame]
    exact ⟨h, not_not.mp hsame⟩

theorem Coherent.tid_true (h : t.Coherent host known) : (t.tid host).Coherent host true := by
  unfold CurrentThread.tid CurrentThread.cacheTid
  by_cases hzero : t.tCachedTid = 0
  · rw [if_pos hzero, if_pos hzero]
    constructor
    · exact h.size_time
    · exact (length_snprintfArray _ (by rw [h.size_tid]; decide)).trans h.size_tid
    · exact h.second
    · exact iff_of_true rfl host.gettid_pos.ne'
    · have hlen := length_formatTid host
      show (snprintfArray _ _).take _ = _
      rw [take_snprintfArray (Nat.le_refl _) (by rw [h.size_tid]; omega), List.take_length]
      rfl
  · rw [if_neg hzero]
    have hknown : known = true := h.cached.mpr hzero
    exact hknown ▸ h

/-- **`FormattedTime` renders the preamble.** -/
theorem Coherent.formattedTime (h : t.Coherent host known) {clock : Clock}
    (hsecond : t.tLastsecond = clock.seconds) (level : Level) :
    renderings (t.formattedTime level clock) = preamble host known clock level := by
  have hmicro : (snprintf 32 (formatMicroseconds clock.microseconds)).take
      (formatMicroseconds clock.microseconds).length = formatMicroseconds clock.microseconds := by
    rw [snprintf, clock.length_formatMicroseconds, List.take_take,
      ← clock.length_formatMicroseconds,
      Nat.min_eq_left (by rw [clock.length_formatMicroseconds]; decide), List.take_length]
  have hlevel : level.getLogLevel.take kLogLevelStringLength = level.getLogLevel := by
    rw [← length_getLogLevel level, List.take_length]
  have htime := h.second (hsecond ▸ clock.seconds_ne)
  rw [hsecond] at htime
  rw [CurrentThread.formattedTime, preamble]
  simp only [renderings, List.flatMap_cons, List.flatMap_nil, Piece.rendering, hmicro, hlevel,
    htime, h.tid, List.append_nil, List.append_assoc]

theorem length_preamble (host : Host) (known : Bool) (clock : Clock) (level : Level) :
    (preamble host known clock level).length ≤ 42 := by
  have hmicro := clock.length_formatMicroseconds
  have htid := length_formatTid host
  have hlevel := length_getLogLevel level
  rw [kLogLevelStringLength] at hlevel
  rw [preamble, List.length_append, List.length_append, List.length_append, List.length_take,
    hmicro, hlevel, tFormattedtimeLength]
  cases known with
  | false => simp
  | true =>
      rw [if_pos rfl]
      omega

/-- **One record** with the caches is the record without them. -/
theorem Coherent.log (h : t.Coherent host known) (clock : Clock) (stmt : LogStatement) :
    ∃ t', t.log host clock stmt = .ok (plainLine host known clock stmt, t') ∧
      t'.Coherent host true := by
  obtain ⟨hsecond, hlast⟩ := h.cacheSecond clock.seconds
  have hpreamble := hsecond.formattedTime hlast stmt.level
  obtain ⟨s, hrecord, hcontents⟩ := stmt.implement.record_spec
    ((t.cacheSecond host clock.seconds).formattedTime stmt.level clock ++ stmt.pieces)
  refine ⟨(t.cacheSecond host clock.seconds).tid host, ?_, hsecond.tid_true⟩
  have hlen := length_preamble host known clock stmt.level
  have hintegers : ∀ p ∈ (t.cacheSecond host clock.seconds).formattedTime stmt.level clock,
      p.isInteger = false := by
    intro p hp
    simp only [CurrentThread.formattedTime, List.mem_cons, List.not_mem_nil, or_false] at hp
    rcases hp with rfl | rfl | rfl | rfl <;> rfl
  rw [List.append_assoc, kept_append hintegers _ (by rw [hpreamble, kSmallSize]; omega),
    renderings_append, hpreamble, Nat.zero_add] at hcontents
  simp only [CurrentThread.log, hrecord, bind, Except.bind, pure, Except.pure, hcontents]
  rfl

end CurrentThread

theorem logger_of_coherent {host : Host} : ∀ (events : List LogEvent) {known : Bool}
    {t : CurrentThread}, t.Coherent host known →
    logger host t events = .ok (plain host known events) := by
  intro events
  induction events with
  | nil =>
      intro known t _
      rfl
  | cons event events ih =>
      intro known t h
      cases event with
      | tid => exact ih h.tid_true
      | log clock g stmt =>
          rw [logger, plain]
          by_cases hpass : g.passes stmt.level = true
          · obtain ⟨t', hlog, h'⟩ := h.log clock stmt
            rw [if_pos hpass, if_pos hpass, hlog]
            simp only [bind, Except.bind, ih h', pure, Except.pure]
          · rw [if_neg hpass, if_neg hpass]
            exact ih h

/-! ## The format -/

theorem sourceClass_append {dir name : Bytes} (hname : slash ∉ name) :
    sourceClass (dir ++ slash :: name) = name := by
  have hfind : (dir ++ slash :: name).reverse.findIdx? (· = slash) = some name.length := by
    have hnone : name.reverse.findIdx? (· = slash) = none := by
      apply List.findIdx?_eq_none_iff.mpr
      intro c hc
      simpa using fun h : c = slash => hname (h ▸ List.mem_reverse.mp hc)
    have hhead : (slash :: dir.reverse).findIdx? (· = slash) = some 0 := by
      rw [List.findIdx?_cons, if_pos (decide_eq_true rfl)]
    rw [List.reverse_append, List.reverse_cons, List.append_assoc, List.findIdx?_append, hnone]
    simp [hhead]
  have hlast : (dir ++ slash :: name).length - 1 - name.length + 1 = dir.length + 1 := by
    rw [List.length_append, List.length_cons]
    omega
  rw [sourceClass, strrchr, hfind]
  show (dir ++ slash :: name).drop _ = name
  rw [hlast, ← List.drop_drop, List.drop_left]
  rfl

theorem sourceClass_self {name : Bytes} (hname : slash ∉ name) : sourceClass name = name := by
  have hfind : name.reverse.findIdx? (· = slash) = none := by
    apply List.findIdx?_eq_none_iff.mpr
    intro c hc
    simpa using fun h : c = slash => hname (h ▸ List.mem_reverse.mp hc)
  rw [sourceClass, strrchr, hfind]
  rfl

/-- A record of which nothing is missing. -/
def wholeLine (host : Host) (known : Bool) (clock : Clock) (stmt : LogStatement) : Bytes :=
  preamble host known clock stmt.level ++ renderings stmt.pieces ++ ascii " - " ++
    sourceClass stmt.file ++ [colon] ++ Numeral.ofInt stmt.line ++ [lf]

/-- A record that leaves 48 bytes free is whole. -/
theorem plainLine_eq_wholeLine {host : Host} {known : Bool} {clock : Clock} {stmt : LogStatement}
    (hroom : (wholeLine host known clock stmt).length + kNum2MaxStringLength ≤ kSmallSize) :
    plainLine host known clock stmt = wholeLine host known clock stmt := by
  have hwhole : wholeLine host known clock stmt =
      preamble host known clock stmt.level ++
        renderings (stmt.pieces ++ stmt.implement.finish) := by
    have hdash : cString (ascii " - ") = ascii " - " := by decide
    rw [renderings_append]
    simp only [wholeLine, renderings, Implement.finish, LogStatement.implement, List.flatMap_cons,
      List.flatMap_nil, Piece.rendering, hdash, List.append_assoc, List.append_nil]
  have hkept : kept (preamble host known clock stmt.level).length
      (stmt.pieces ++ stmt.implement.finish) = stmt.pieces ++ stmt.implement.finish := by
    apply kept_all
    intro before p after hps _
    rw [hwhole, hps, renderings_append, List.length_append, List.length_append] at hroom
    omega
  rw [plainLine, hkept, ← hwhole, List.take_of_length_le]
  omega

/-! ## The records of a thread -/

/-- **The caches of the second and of the thread id change no record**, except that
what a thread logs before its id was asked for lacks the id, so its first record
does. A record that leaves 48 bytes free has the time, the id, the level, the pieces,
the file and the line, in this order; the time is whole, and the file has no
directory. -/
theorem logger_plain (host : Host) (events : List LogEvent) :
    logger host CurrentThread.new events = .ok (plain host false events) ∧
      (∀ (known : Bool) (clock : Clock) (stmt : LogStatement),
        (wholeLine host known clock stmt).length + kNum2MaxStringLength ≤ kSmallSize →
          plainLine host known clock stmt = wholeLine host known clock stmt) ∧
      (∀ tm : Tm, tm.Ordinary → (formatTm tm).take tFormattedtimeLength = formatTm tm) ∧
      ∀ dir name : Bytes, slash ∉ name →
        sourceClass name = name ∧ sourceClass (dir ++ slash :: name) = name := by
  refine ⟨logger_of_coherent events CurrentThread.coherent_new, ?_, ?_, ?_⟩
  · intro known clock stmt
    exact plainLine_eq_wholeLine
  · intro tm htm
    apply List.take_of_length_le
    rw [length_formatTm htm]
  · intro dir name hname
    exact ⟨sourceClass_self hname, sourceClass_append hname⟩

/-- A quarter past midnight on the 9th of March 2024, in the loop of thread 77. -/
def sampleHost : Host where
  localtime _ := ⟨124, 2, 9, 0, 15, 0⟩
  gettid := 77
  gettid_pos := by decide
  gettid_lt := by decide

def sampleClock : Clock := ⟨⟨1709943300 * 1000000 + 42⟩, by decide⟩

/-- Line 12 of `main.cc`. -/
def sampleStatement (level : Level) : LogStatement where
  level := level
  file := ascii "src/main.cc"
  line := 12
  line_int := by unfold IntegerType.Holds; decide
  pieces := [.cstring (ascii "up")]

/-- The first record has no id, the second one has, and the third does not pass. -/
theorem logger_plain_two :
    logger sampleHost CurrentThread.new [.log sampleClock .INFO (sampleStatement .WARN),
        .log sampleClock .INFO (sampleStatement .INFO),
        .log sampleClock .INFO (sampleStatement .DEBUG)] =
      .ok [ascii "20240309 00:15:00.000042 WARN  up - main.cc:12\n",
        ascii "20240309 00:15:00.000042    77 INFO  up - main.cc:12\n"] := by
  obtain ⟨hplain, hwhole, -⟩ := logger_plain sampleHost
    [.log sampleClock .INFO (sampleStatement .WARN), .log sampleClock .INFO (sampleStatement .INFO),
      .log sampleClock .INFO (sampleStatement .DEBUG)]
  have hfirst := hwhole false sampleClock (sampleStatement .WARN) (by decide)
  have hsecond := hwhole true sampleClock (sampleStatement .INFO) (by decide)
  rw [hplain]
  simp only [plain]
  rw [if_pos (by decide), if_pos (by decide), if_neg (by decide), hfirst, hsecond]
  decide

end TinyMuduo
