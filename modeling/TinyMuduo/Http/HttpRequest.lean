import TinyMuduo.Base.Memory
import TinyMuduo.Lib.Search
import Mathlib.Data.Finmap

/-!
# `HttpRequest`: one request line and one header line

Translation of `Http/httprequest.h` and `Http/httprequest.cc`, pointer by
pointer. The members the constructor leaves uninitialised start as `none`.
-/

namespace TinyMuduo

inductive Method where
  | kGet
  | kPost
  | kPut
  | kDelete
  | kTrace
  | kOptions
  | kConnect
  | kPatch
deriving DecidableEq

inductive Version where
  | kUnknown
  | kHttp10
  | kHttp11
deriving DecidableEq

/-- `std::map<string, string>`. -/
abbrev HeaderMap := Finmap fun _ : Bytes => Bytes

structure HttpRequest where
  method : Option Method
  version : Option Version
  path : Bytes
  query : Bytes
  headers : HeaderMap
deriving DecidableEq

/-- `static const char http[]`. -/
def http : Bytes := ascii "HTTP/1."

/-- The comparison chain of `ParseRequestMethod`. -/
def methodOf (requestMethod : Bytes) : Option Method :=
  if requestMethod = ascii "GET" then some .kGet
  else if requestMethod = ascii "POST" then some .kPost
  else if requestMethod = ascii "PUT" then some .kPut
  else if requestMethod = ascii "DELETE" then some .kDelete
  else if requestMethod = ascii "TRACE" then some .kTrace
  else if requestMethod = ascii "OPTIONS" then some .kOptions
  else if requestMethod = ascii "CONNECT" then some .kConnect
  else if requestMethod = ascii "PATCH" then some .kPatch
  else none

namespace HttpRequest

def new : HttpRequest := ⟨none, none, [], [], ∅⟩

def parseRequestMethod (m : Bytes) (req : HttpRequest) (start stop : ℕ) :
    Checked (Bool × HttpRequest) := do
  let requestMethod ← string m start stop
  match methodOf requestMethod with
  | some method => return (true, { req with method := some method })
  | none => return (false, req)

/-- The end of `ParseRequestLine`: what follows the second blank. -/
def parseVersion (m : Bytes) (req : HttpRequest) (start stop : ℕ) :
    Checked (Bool × HttpRequest) := do
  let parsehttp ← if start + 8 = stop then equal m start (stop - 1) http else pure false
  if !parsehttp then
    return (false, { req with version := some .kUnknown })
  else
    let last ← load m (stop - 1)
    if last ≠ 48 ∧ last ≠ 49 then
      return (false, { req with version := some .kUnknown })
    else if last = 48 then
      return (true, { req with version := some .kHttp10 })
    else
      return (true, { req with version := some .kHttp11 })

/-- The middle of `ParseRequestLine`: what follows the first blank. The search
for `'?'` runs to the end of the line, past the second blank. -/
def parseTarget (m : Bytes) (req : HttpRequest) (start stop : ℕ) :
    Checked (Bool × HttpRequest) := do
  let blank ← find m start stop space
  if blank = stop then
    return (false, req)
  else
    let queryPtr ← find m start stop question
    if queryPtr ≠ stop then
      let path ← string m start queryPtr
      let query ← string m (queryPtr + 1) blank
      parseVersion m { req with path := path, query := query } (blank + 1) stop
    else
      let path ← string m start blank
      parseVersion m { req with path := path } (blank + 1) stop

def parseRequestLine (m : Bytes) (req : HttpRequest) (start stop : ℕ) :
    Checked (Bool × HttpRequest) := do
  let blank ← find m start stop space
  if blank = stop then
    return (false, req)
  else
    let (hasMethod, req) ← parseRequestMethod m req start blank
    if !hasMethod then
      return (false, req)
    else
      parseTarget m req (blank + 1) stop

/-- `ParseHeaders`: the blanks are skipped without looking at `stop`. -/
def parseHeaders (m : Bytes) (req : HttpRequest) (start colon stop : ℕ) :
    Checked (Bool × HttpRequest) := do
  let validStart ← skip m (colon + 1) space
  let name ← string m start colon
  let value ← string m validStart stop
  return (true, { req with headers := req.headers.insert name value })

/-- `Swap` with a fresh request, as `ResetContentState` uses it: `method_` and
`version_` are copied from the uninitialised members of the other side. -/
def swap (req other : HttpRequest) : HttpRequest × HttpRequest :=
  ({ method := other.method, version := other.version, path := other.path,
     query := other.query, headers := other.headers },
   { other with path := req.path, query := req.query, headers := req.headers })

def getHeader (req : HttpRequest) (header : Bytes) : Bytes :=
  (req.headers.lookup header).getD []

end HttpRequest

/-! ## The same functions on a line

What the pointer walks compute when `start` and `stop` delimit a line of the
readable part. -/

/-- `parseVersion` on the third part of the line. -/
def versionLine (tail : Bytes) (req : HttpRequest) : Bool × HttpRequest :=
  if tail = http ++ [48] then (true, { req with version := some .kHttp10 })
  else if tail = http ++ [49] then (true, { req with version := some .kHttp11 })
  else (false, { req with version := some .kUnknown })

/-- `parseTarget` on the rest of the line. A `'?'` found only behind the second
blank makes the pair of pointers of `query_.assign` out of order. -/
def targetLine (rest : Bytes) (req : HttpRequest) : Checked (Bool × HttpRequest) :=
  match Search.cut [space] rest with
  | none => .ok (false, req)
  | some (target, tail) =>
      match Search.cut [question] target with
      | some (path, query) => .ok (versionLine tail { req with path := path, query := query })
      | none =>
          if question ∈ tail then .error .lengthError
          else .ok (versionLine tail { req with path := target })

/-- `ParseRequestLine` on a line. -/
def requestLine (line : Bytes) (req : HttpRequest) : Checked (Bool × HttpRequest) :=
  match Search.cut [space] line with
  | none => .ok (false, req)
  | some (name, rest) =>
      match methodOf name with
      | none => .ok (false, req)
      | some method => targetLine rest { req with method := some method }

/-- `ParseHeaders` on a line split at its first colon. -/
def headerLine (name value : Bytes) (req : HttpRequest) : HttpRequest :=
  { req with headers := req.headers.insert name (value.dropWhile (· = space)) }

/-! ## The pointer walks compute the functions on lines -/

/-- A pointer walk stops where the line is cut. -/
theorem find_cut {b : Byte} {line first rest : Bytes} (pre post : Bytes)
    (h : Search.cut [b] line = some (first, rest)) :
    find (pre ++ (line ++ post)) pre.length (pre.length + line.length) b =
      .ok (pre.length + first.length) := by
  obtain ⟨rfl, hfirst⟩ := Search.cut_singleton_some.mp h
  rw [List.append_assoc, List.cons_append]
  apply find_found pre _ hfirst
  simp

theorem cut_lt {b : Byte} {line first rest : Bytes} (pre : Bytes)
    (h : Search.cut [b] line = some (first, rest)) :
    pre.length + first.length < pre.length + line.length := by
  rw [Search.length_of_cut h, List.length_singleton]
  omega

theorem string_cut {b : Byte} {line first rest : Bytes} (pre post : Bytes)
    (h : Search.cut [b] line = some (first, rest)) :
    string (pre ++ (line ++ post)) pre.length (pre.length + first.length) = .ok first := by
  obtain ⟨rfl, -⟩ := Search.cut_singleton_some.mp h
  rw [List.append_assoc]
  exact string_middle pre first _

theorem string_rest (pre first rest post : Bytes) (b : Byte) :
    string (pre ++ (first ++ b :: rest ++ post)) (pre.length + first.length + 1)
      (pre.length + (first ++ b :: rest).length) = .ok rest := by
  have h := string_middle (pre ++ first ++ [b]) rest post
  simp only [List.length_append, List.length_singleton, List.append_assoc,
    List.singleton_append] at h
  simp only [List.length_append, List.length_cons, List.append_assoc, List.cons_append]
  rw [← h]
  congr 1
  omega

theorem cut_behind {target tail : Bytes} (htarget : question ∉ target) (htail : question ∈ tail) :
    ∃ before after, Search.cut [question] (target ++ space :: tail) =
      some (target ++ space :: before, after) := by
  cases hc : Search.cut [question] tail with
  | none => exact absurd htail (Search.cut_singleton_none.mp hc)
  | some p =>
      obtain ⟨before, after⟩ := p
      obtain ⟨rfl, hbefore⟩ := Search.cut_singleton_some.mp hc
      have hna : question ∉ target ++ space :: before := by
        simp only [List.mem_append, List.mem_cons, not_or]
        exact ⟨htarget, by decide, hbefore⟩
      refine ⟨before, after, ?_⟩
      have hcut := Search.cut_singleton_of_not_mem after hna
      rw [List.append_assoc, List.cons_append] at hcut
      exact hcut

namespace HttpRequest

theorem snoc_eq_http_snoc {body : Bytes} {d e : Byte} :
    body ++ [d] = http ++ [e] ↔ body = http ∧ d = e := by
  constructor
  · intro h
    obtain ⟨hb, hd⟩ := List.append_inj' h rfl
    exact ⟨hb, List.singleton_inj.mp hd⟩
  · rintro ⟨rfl, rfl⟩
    rfl

theorem parseVersion_eq (pre tail post : Bytes) (req : HttpRequest) :
    parseVersion (pre ++ (tail ++ post)) req pre.length (pre.length + tail.length) =
      .ok (versionLine tail req) := by
  unfold parseVersion
  by_cases hlen : tail.length = 8
  · -- the first seven bytes are compared, the eighth is the version digit
    obtain ⟨body, d, rfl⟩ : ∃ body d, tail = body ++ [d] :=
      ⟨tail.dropLast, tail.getLast (by rintro rfl; cases hlen),
        (List.dropLast_append_getLast _).symm⟩
    have hbody : body.length = 7 := by simpa using hlen
    have hstop : pre.length + (body ++ [d]).length - 1 = pre.length + body.length := by
      simp
    have hequal : equal (pre ++ (body ++ [d] ++ post)) pre.length
        (pre.length + body.length) http = .ok (decide (body = http)) := by
      rw [equal, List.append_assoc, span_middle]
      rfl
    have hload : load (pre ++ (body ++ [d] ++ post)) (pre.length + body.length) = .ok d := by
      rw [← List.length_append, List.append_assoc, ← List.append_assoc]
      exact load_middle (pre ++ body) d post
    rw [if_pos (by omega), hstop, hequal]
    simp only [versionLine, snoc_eq_http_snoc, bind, Except.bind, hload]
    by_cases hb : body = http
    · by_cases h0 : d = 48
      · simp [hb, h0, pure, Except.pure]
      · by_cases h1 : d = 49
        · simp [hb, h1, pure, Except.pure]
        · simp [hb, h0, h1, pure, Except.pure]
    · simp [hb, pure, Except.pure]
  · rw [if_neg (by omega)]
    have h0 : tail ≠ http ++ [48] := by rintro rfl; exact hlen rfl
    have h1 : tail ≠ http ++ [49] := by rintro rfl; exact hlen rfl
    simp [versionLine, h0, h1, pure, Except.pure, bind, Except.bind]

theorem parseVersion_rest (pre target tail post : Bytes) (req : HttpRequest) :
    parseVersion (pre ++ (target ++ space :: tail ++ post)) req
      (pre.length + target.length + 1) (pre.length + (target ++ space :: tail).length) =
      .ok (versionLine tail req) := by
  have h := parseVersion_eq (pre ++ target ++ [space]) tail post req
  simp only [List.length_append, List.length_singleton, List.append_assoc,
    List.singleton_append] at h
  simp only [List.length_append, List.length_cons, List.append_assoc, List.cons_append]
  rw [← h]
  congr 1
  omega

theorem parseTarget_eq (pre rest post : Bytes) (req : HttpRequest) :
    parseTarget (pre ++ (rest ++ post)) req pre.length (pre.length + rest.length) =
      targetLine rest req := by
  unfold parseTarget targetLine
  cases hs : Search.cut [space] rest with
  | none =>
      rw [find_missing pre post (Search.cut_singleton_none.mp hs)]
      simp only [bind, Except.bind, if_true]
      rfl
  | some p =>
      obtain ⟨target, tail⟩ := p
      obtain ⟨rfl, -⟩ := Search.cut_singleton_some.mp hs
      have hversion := parseVersion_rest pre target tail post
      rw [find_cut pre post hs]
      simp only [bind, Except.bind, if_neg (cut_lt pre hs).ne]
      cases hq : Search.cut [question] target with
      | some p =>
          obtain ⟨path, query⟩ := p
          have hquestion := Search.cut_append (space :: tail) hq
          obtain ⟨rfl, -⟩ := Search.cut_singleton_some.mp hq
          have hpath := string_cut pre post hquestion
          have hquery := string_rest pre path query (space :: tail ++ post) question
          rw [← List.append_assoc (path ++ _)] at hquery
          rw [find_cut pre post hquestion]
          simp only [ne_eq, (cut_lt pre hquestion).ne, not_false_eq_true, if_true, hpath, hquery,
            hversion]
      | none =>
          have hnq := Search.cut_singleton_none.mp hq
          have hpath := string_cut pre post hs
          by_cases htail : question ∈ tail
          · -- the `'?'` lies behind the second blank
            obtain ⟨before, after, hquestion⟩ := cut_behind hnq htail
            have hlong := string_cut pre post hquestion
            have hinverted : pre.length + target.length <
                pre.length + (target ++ space :: before).length + 1 := by
              simp only [List.length_append, List.length_cons]
              omega
            rw [find_cut pre post hquestion]
            simp only [ne_eq, (cut_lt pre hquestion).ne, not_false_eq_true, if_true, hlong,
              string_inverted hinverted, if_pos htail]
          · have hnone : question ∉ target ++ space :: tail := by
              simp only [List.mem_append, List.mem_cons, not_or]
              exact ⟨hnq, by decide, htail⟩
            rw [find_missing pre post hnone]
            simp only [ne_eq, not_true_eq_false, if_false, if_neg htail, hpath, hversion]

theorem parseRequestLine_eq (line post : Bytes) (req : HttpRequest) :
    parseRequestLine (line ++ post) req 0 line.length = requestLine line req := by
  unfold parseRequestLine requestLine
  cases hs : Search.cut [space] line with
  | none =>
      have h := find_missing [] post (Search.cut_singleton_none.mp hs)
      simp only [List.nil_append, List.length_nil, Nat.zero_add] at h
      simp only [bind, Except.bind, h, if_true]
      rfl
  | some p =>
      obtain ⟨name, rest⟩ := p
      have hblank := find_cut [] post hs
      have hname := string_cut [] post hs
      have hne := (cut_lt [] hs).ne
      simp only [List.nil_append, List.length_nil, Nat.zero_add] at hblank hname hne
      obtain ⟨rfl, -⟩ := Search.cut_singleton_some.mp hs
      simp only [bind, Except.bind, hblank, if_neg hne, parseRequestMethod, hname]
      cases methodOf name with
      | none => rfl
      | some method =>
          have h := parseTarget_eq (name ++ [space]) rest post { req with method := some method }
          simp only [List.length_append, List.length_singleton, List.append_assoc,
            List.singleton_append] at h
          simp only [List.length_append, List.length_cons, List.append_assoc, List.cons_append,
            pure, Except.pure, Bool.not_true, Bool.false_eq_true, if_false]
          rw [← h]
          congr 1
          omega

/-- A header line is split at its first colon; the byte behind the line, the
CR that `FindCRLF` found, stops the skipping of blanks. -/
theorem parseHeaders_eq {name value post : Bytes} {b : Byte} (hb : b ≠ space)
    (req : HttpRequest) :
    parseHeaders (name ++ colon :: value ++ b :: post) req 0 name.length
      (name ++ colon :: value).length = .ok (true, headerLine name value req) := by
  have hskip : skip (name ++ colon :: value ++ b :: post) (name.length + 1) space =
      .ok (name.length + 1 + (value.takeWhile (· = space)).length) := by
    have h := skip_middle (name ++ [colon]) value post hb
    simpa only [List.length_append, List.length_singleton, List.append_assoc,
      List.nil_append, List.cons_append] using h
  have hname : string (name ++ colon :: value ++ b :: post) 0 name.length = .ok name := by
    have h := string_middle [] name (colon :: value ++ b :: post)
    simpa using h
  have hvalue : string (name ++ colon :: value ++ b :: post)
      (name.length + 1 + (value.takeWhile (· = space)).length)
      (name ++ colon :: value).length = .ok (value.dropWhile (· = space)) := by
    have h := string_middle (name ++ [colon] ++ value.takeWhile (· = space))
      (value.dropWhile (· = space)) (b :: post)
    have hsplit := congrArg List.length (List.takeWhile_append_dropWhile (p := (· = space)) (l := value))
    rw [List.length_append] at hsplit
    rw [← List.append_assoc, List.append_assoc (name ++ [colon]),
      List.takeWhile_append_dropWhile] at h
    simp only [List.length_append, List.length_cons, List.append_assoc, List.nil_append,
      List.cons_append] at h ⊢
    rw [← h]
    congr 1 <;> omega
  simp only [parseHeaders, bind, Except.bind, hskip, hname, hvalue]
  rfl

end HttpRequest

end TinyMuduo
