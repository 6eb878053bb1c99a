import TinyMuduo.Http.HttpServer
import TinyMuduo.Http.ResponseReader
import TinyMuduo.Http.RoundTrip

/-!
# The close flag and the spelling of `Connection`

A header name and the two tokens of `Connection` have no case, and the blanks
around a value are not part of it. `DealWithRequest` looks for the name
`Connection`, `ParseHeaders` takes off leading spaces only, and the value is
compared with `Close` and `Keep-Alive`, letter for letter, while `AppendToBuffer`
writes `close`. The flag follows the header exactly for the requests whose flag
does not depend on it (`close_flag_honoured`).
-/

namespace TinyMuduo

open ResponseReader

/-- The close flag for the request at the front of these bytes, when they are what a
new connection has received. -/
def closeFlag (received : Bytes) : Checked (Option Bool) := do
  let (_, content, _) ← HttpContent.new.parseContent (Buffer.new.append received)
  if content.getCompleteRequest then return some (HttpServer.wantsClose content.request)
  else return none

/-! ## What the header means -/

/-- Names and tokens without their case. -/
def fold (s : Bytes) : Bytes := s.map toLower

def closeToken : Bytes := ascii "close"

def keepAliveToken : Bytes := ascii "keep-alive"

namespace HeaderField

def isConnection (h : HeaderField) : Prop := fold h.name = ascii "connection"

instance (h : HeaderField) : Decidable h.isConnection := by
  unfold isConnection
  infer_instance

/-- The value without the blanks around it and without case. -/
def token (h : HeaderField) : Bytes := fold (trim h.value)

/-- Two spellings of one header, when it is a `Connection` header. -/
def Respells (h h' : HeaderField) : Prop :=
  h' = h ∨ (h.isConnection ∧ h'.isConnection ∧ h'.token = h.token)

end HeaderField

namespace WellFormedRequest

def connectionTokens (r : WellFormedRequest) : List Bytes :=
  (r.headers.filter (·.isConnection)).map HeaderField.token

/-- The same request with its `Connection` headers spelled in another way. -/
structure Respells (r r' : WellFormedRequest) : Prop where
  method : r'.method = r.method
  path : r'.path = r.path
  query : r'.query = r.query
  version : r'.version = r.version
  headers : List.Forall₂ HeaderField.Respells r.headers r'.headers

/-- The decision follows the header. -/
structure Honoured (r : WellFormedRequest) : Prop where
  respelled : ∀ r', r.Respells r' → closeFlag r'.encode = closeFlag r.encode
  http11 : r.version = .kHttp11 →
    (closeFlag r.encode = .ok (some true) ↔ r.connectionTokens.getLast? = some closeToken)
  http10 : r.version = .kHttp10 →
    (closeFlag r.encode = .ok (some true) ↔ r.connectionTokens.getLast? ≠ some keepAliveToken)

/-! ## What the code computes -/

theorem closeFlag_encode (r : WellFormedRequest) :
    closeFlag r.encode = .ok (some (HttpServer.wantsClose r.request)) := by
  have hparse := r.parseBytes_encode []
  obtain ⟨hinv, hread⟩ := Buffer.append_spec Buffer.new_inv r.encode
  rw [Buffer.readable_new, List.nil_append] at hread
  rw [List.append_nil, ← hread] at hparse
  obtain ⟨b, hb, -, -⟩ := HttpContent.parseContent_of_parseBytes hinv hparse
  unfold closeFlag
  rw [hb]
  rfl

/-- The value that `GetHeader` returns. -/
def connectionValue (r : WellFormedRequest) : Bytes :=
  r.request.getHeader (ascii "Connection")

theorem wantsClose_http11 {r : WellFormedRequest} (h : r.version = .kHttp11) :
    HttpServer.wantsClose r.request = true ↔ r.connectionValue = ascii "Close" := by
  have hversion : r.request.version = some .kHttp11 := congrArg some h
  unfold HttpServer.wantsClose connectionValue
  simp [hversion]

theorem wantsClose_http10 {r : WellFormedRequest} (h : r.version = .kHttp10) :
    HttpServer.wantsClose r.request = true ↔ r.connectionValue ≠ ascii "Keep-Alive" := by
  have hversion : r.request.version = some .kHttp10 := congrArg some h
  unfold HttpServer.wantsClose connectionValue
  simp only [hversion, decide_true, Bool.true_and, Bool.or_eq_true, decide_eq_true_eq]
  constructor
  · rintro (hclose | hne)
    · rw [hclose]
      decide
    · exact hne
  · exact Or.inr

theorem connectionValue_mem (r : WellFormedRequest) (h : r.connectionValue ≠ []) :
    fold (trim r.connectionValue) ∈ r.connectionTokens := by
  have hlookup := r.lookup_headerMap (ascii "Connection")
  have hvalue : r.connectionValue = (r.headerMap.lookup (ascii "Connection")).getD [] := rfl
  rw [hlookup] at hvalue
  cases hfind : r.headers.reverse.find? (·.name = ascii "Connection") with
  | none =>
      rw [hfind] at hvalue
      exact absurd hvalue h
  | some field =>
      rw [hfind] at hvalue
      have hname := List.find?_some hfind
      have hmem := List.mem_reverse.mp (List.mem_of_find?_eq_some hfind)
      have hconn : field.isConnection := by
        unfold HeaderField.isConnection
        rw [of_decide_eq_true hname]
        decide
      rw [hvalue]
      exact List.mem_map.mpr ⟨field, List.mem_filter.mpr ⟨hmem, decide_eq_true hconn⟩, rfl⟩

end WellFormedRequest

/-! ## Spellings -/

theorem HeaderField.tokens_respells {headers headers' : List HeaderField}
    (h : List.Forall₂ HeaderField.Respells headers headers') :
    (headers'.filter (·.isConnection)).map HeaderField.token =
      (headers.filter (·.isConnection)).map HeaderField.token := by
  induction h with
  | nil => rfl
  | cons hfield hrest ih =>
      obtain rfl | ⟨hconn, hconn', htoken⟩ := hfield
      · rw [List.filter_cons, List.filter_cons]
        split
        · rw [List.map_cons, List.map_cons, ih]
        · exact ih
      · rw [List.filter_cons, List.filter_cons, if_pos (decide_eq_true hconn),
          if_pos (decide_eq_true hconn'), List.map_cons, List.map_cons, ih, htoken]

theorem WellFormedRequest.Respells.connectionTokens {r r' : WellFormedRequest}
    (h : r.Respells r') : r'.connectionTokens = r.connectionTokens :=
  HeaderField.tokens_respells h.headers

theorem fold_Connection : fold (ascii "Connection") = ascii "connection" := by decide

theorem fold_connection : fold (ascii "connection") = ascii "connection" := by decide

theorem colon_not_mem_Connection : colon ∉ ascii "Connection" := by decide

/-- A `Connection` header under another name. -/
def HeaderField.hidden (h : HeaderField) : HeaderField :=
  if h.isConnection then
    { h with
      name := ascii "connection"
      name_colon := by decide
      name_line := by decide }
  else h

/-- One with a certain token, in the spelling the code looks for. -/
def HeaderField.shown (spelling : Bytes) (hblank : spelling.head? ≠ some space)
    (hline : ¬ kCRLF <:+: spelling) (h : HeaderField) : HeaderField :=
  if h.isConnection ∧ h.token = fold (trim spelling) then
    ⟨ascii "Connection", spelling, 0, colon_not_mem_Connection, by decide, hblank, hline⟩
  else h.hidden

theorem HeaderField.respells_hidden (h : HeaderField) : h.Respells h.hidden := by
  unfold hidden
  split
  next hconn => exact .inr ⟨hconn, fold_connection, rfl⟩
  next => exact .inl rfl

theorem HeaderField.respells_shown (spelling : Bytes) (hblank : spelling.head? ≠ some space)
    (hline : ¬ kCRLF <:+: spelling) (h : HeaderField) :
    h.Respells (h.shown spelling hblank hline) := by
  unfold shown
  split
  next hconn => exact .inr ⟨hconn.1, fold_Connection, hconn.2.symm⟩
  next => exact h.respells_hidden

theorem HeaderField.name_hidden (h : HeaderField) : h.hidden.name ≠ ascii "Connection" := by
  intro hname
  unfold hidden at hname
  split at hname
  next =>
    have heq : ascii "connection" = ascii "Connection" := hname
    exact absurd heq (by decide)
  next hconn =>
    apply hconn
    unfold isConnection
    rw [hname, fold_Connection]

namespace WellFormedRequest

def spell (r : WellFormedRequest) (f : HeaderField → HeaderField) : WellFormedRequest :=
  { r with headers := r.headers.map f }

theorem respells_spell (r : WellFormedRequest) {f : HeaderField → HeaderField}
    (hf : ∀ h : HeaderField, h.Respells (f h)) : r.Respells (r.spell f) where
  method := rfl
  path := rfl
  query := rfl
  version := rfl
  headers := by
    show List.Forall₂ HeaderField.Respells r.headers (r.headers.map f)
    rw [List.forall₂_map_right_iff]
    exact List.forall₂_same.mpr fun h _ => hf h

theorem connectionValue_hidden (r : WellFormedRequest) :
    (r.spell HeaderField.hidden).connectionValue = [] := by
  have hvalue : (r.spell HeaderField.hidden).connectionValue =
      ((r.spell HeaderField.hidden).headerMap.lookup (ascii "Connection")).getD [] := rfl
  rw [hvalue, lookup_headerMap]
  have hnone : (r.spell HeaderField.hidden).headers.reverse.find?
      (·.name = ascii "Connection") = none := by
    rw [List.find?_eq_none]
    intro h hmem
    obtain ⟨h', -, rfl⟩ := List.mem_map.mp (List.mem_reverse.mp hmem)
    simpa using h'.name_hidden
  rw [hnone]
  rfl

/-- A token of the request, in the spelling the code looks for, is what it finds. -/
theorem connectionValue_shown {r : WellFormedRequest} {spelling : Bytes}
    (hblank : spelling.head? ≠ some space) (hline : ¬ kCRLF <:+: spelling)
    (h : fold (trim spelling) ∈ r.connectionTokens) :
    (r.spell (HeaderField.shown spelling hblank hline)).connectionValue = spelling := by
  have hvalue : (r.spell (HeaderField.shown spelling hblank hline)).connectionValue =
      ((r.spell (HeaderField.shown spelling hblank hline)).headerMap.lookup
        (ascii "Connection")).getD [] := rfl
  rw [hvalue, lookup_headerMap]
  cases hfind : (r.spell (HeaderField.shown spelling hblank hline)).headers.reverse.find?
      (·.name = ascii "Connection") with
  | none =>
      obtain ⟨field, hfield, htoken⟩ := List.mem_map.mp h
      obtain ⟨hmem, hconn⟩ := List.mem_filter.mp hfield
      have hshown : (field.shown spelling hblank hline).name = ascii "Connection" := by
        unfold HeaderField.shown
        rw [if_pos ⟨of_decide_eq_true hconn, htoken⟩]
      have hnot := List.find?_eq_none.mp hfind (field.shown spelling hblank hline)
        (List.mem_reverse.mpr (List.mem_map_of_mem hmem))
      exact absurd (decide_eq_true hshown) hnot
  | some found =>
      have hname : found.name = ascii "Connection" := by simpa using List.find?_some hfind
      have hmem := List.mem_reverse.mp (List.mem_of_find?_eq_some hfind)
      obtain ⟨field, -, rfl⟩ := List.mem_map.mp hmem
      unfold HeaderField.shown at hname ⊢
      split at hname
      next hif => simp [if_pos hif]
      next hif => exact absurd hname field.name_hidden

/-! ## When it is honoured -/

theorem wantsClose_of_eq {r r' : WellFormedRequest} (h : closeFlag r'.encode = closeFlag r.encode) :
    HttpServer.wantsClose r'.request = HttpServer.wantsClose r.request := by
  rw [closeFlag_encode, closeFlag_encode] at h
  exact Option.some.inj (Except.ok.inj h)

theorem closeFlag_true_iff (r : WellFormedRequest) :
    closeFlag r.encode = .ok (some true) ↔ HttpServer.wantsClose r.request = true := by
  rw [closeFlag_encode]
  simp

theorem connectionValue_ne {r : WellFormedRequest} {value : Bytes} (hvalue : value ≠ [])
    (h : fold (trim value) ∉ r.connectionTokens) : r.connectionValue ≠ value := by
  intro hfound
  apply h
  rw [← hfound] at hvalue ⊢
  exact r.connectionValue_mem hvalue

theorem wantsClose_no_close {r : WellFormedRequest} (hversion : r.version = .kHttp11)
    (h : closeToken ∉ r.connectionTokens) : HttpServer.wantsClose r.request = false := by
  rw [← Bool.not_eq_true, wantsClose_http11 hversion]
  apply connectionValue_ne (by decide)
  exact h

theorem wantsClose_no_keepAlive {r : WellFormedRequest} (hversion : r.version = .kHttp10)
    (h : keepAliveToken ∉ r.connectionTokens) : HttpServer.wantsClose r.request = true := by
  rw [wantsClose_http10 hversion]
  apply connectionValue_ne (by decide)
  exact h

theorem honoured_no_close {r : WellFormedRequest} (hversion : r.version = .kHttp11)
    (h : closeToken ∉ r.connectionTokens) : r.Honoured where
  respelled := by
    intro r' hr
    have h' : closeToken ∉ r'.connectionTokens := hr.connectionTokens ▸ h
    rw [closeFlag_encode, closeFlag_encode, wantsClose_no_close hversion h,
      wantsClose_no_close (hr.version.trans hversion) h']
  http11 := by
    intro _
    rw [closeFlag_true_iff, wantsClose_no_close hversion h]
    constructor
    · rintro ⟨⟩
    · intro hlast
      exact absurd (List.mem_of_getLast? hlast) h
  http10 := by
    intro hold
    rw [hversion] at hold
    cases hold

theorem honoured_no_keepAlive {r : WellFormedRequest} (hversion : r.version = .kHttp10)
    (h : keepAliveToken ∉ r.connectionTokens) : r.Honoured where
  respelled := by
    intro r' hr
    have h' : keepAliveToken ∉ r'.connectionTokens := hr.connectionTokens ▸ h
    rw [closeFlag_encode, closeFlag_encode, wantsClose_no_keepAlive hversion h,
      wantsClose_no_keepAlive (hr.version.trans hversion) h']
  http11 := by
    intro hnew
    rw [hversion] at hnew
    cases hnew
  http10 := by
    intro _
    rw [closeFlag_true_iff, wantsClose_no_keepAlive hversion h]
    refine iff_of_true rfl ?_
    intro hlast
    exact h (List.mem_of_getLast? hlast)

/-- Where the header decides, hiding it changes as little as showing it. -/
theorem Honoured.wantsClose_spell {r : WellFormedRequest} (h : r.Honoured) {spelling : Bytes}
    (hblank : spelling.head? ≠ some space) (hline : ¬ kCRLF <:+: spelling) :
    HttpServer.wantsClose (r.spell .hidden).request =
      HttpServer.wantsClose (r.spell (.shown spelling hblank hline)).request := by
  apply wantsClose_of_eq
  have hhidden := h.respelled _ (r.respells_spell HeaderField.respells_hidden)
  have hshown := h.respelled _ (r.respells_spell (HeaderField.respells_shown _ hblank hline))
  exact hhidden.trans hshown.symm

theorem not_honoured_close {r : WellFormedRequest} (hversion : r.version = .kHttp11)
    (h : closeToken ∈ r.connectionTokens) : ¬ r.Honoured := by
  intro hr
  have hblank : (ascii "Close").head? ≠ some space := by decide
  have hline : ¬ kCRLF <:+: ascii "Close" := by decide
  have hspell : ∀ f, (r.spell f).version = .kHttp11 := fun _ => hversion
  have hset : HttpServer.wantsClose (r.spell (.shown _ hblank hline)).request = true :=
    (wantsClose_http11 (hspell _)).mpr (connectionValue_shown hblank hline h)
  have hclear : HttpServer.wantsClose (r.spell .hidden).request ≠ true := by
    rw [Ne, wantsClose_http11 (hspell _), connectionValue_hidden]
    decide
  exact hclear ((hr.wantsClose_spell hblank hline).trans hset)

theorem not_honoured_keepAlive {r : WellFormedRequest} (hversion : r.version = .kHttp10)
    (h : keepAliveToken ∈ r.connectionTokens) : ¬ r.Honoured := by
  intro hr
  have hblank : (ascii "Keep-Alive").head? ≠ some space := by decide
  have hline : ¬ kCRLF <:+: ascii "Keep-Alive" := by decide
  have hspell : ∀ f, (r.spell f).version = .kHttp10 := fun _ => hversion
  have hset : HttpServer.wantsClose (r.spell .hidden).request = true := by
    rw [wantsClose_http10 (hspell _), connectionValue_hidden]
    decide
  have hclear : HttpServer.wantsClose (r.spell (.shown _ hblank hline)).request ≠ true := by
    rw [Ne, wantsClose_http10 (hspell _), not_ne_iff]
    exact connectionValue_shown hblank hline h
  exact hclear ((hr.wantsClose_spell hblank hline).symm.trans hset)

end WellFormedRequest

/-- **The close flag follows the `Connection` header** exactly when no spelling of the
header could change it: for an HTTP/1.1 request none of whose `Connection` headers says
`close`, and an HTTP/1.0 request none of whose `Connection` headers says
`keep-alive`. -/
theorem close_flag_honoured (r : WellFormedRequest) :
    r.Honoured ↔
      (r.version = .kHttp11 ∧ closeToken ∉ r.connectionTokens) ∨
      (r.version = .kHttp10 ∧ keepAliveToken ∉ r.connectionTokens) := by
  cases hversion : r.version with
  | kUnknown => exact absurd hversion r.version_known
  | kHttp11 =>
      by_cases hclose : closeToken ∈ r.connectionTokens
      · exact iff_of_false (WellFormedRequest.not_honoured_close hversion hclose) (by simp [hclose])
      · exact iff_of_true (WellFormedRequest.honoured_no_close hversion hclose) (by simp [hclose])
  | kHttp10 =>
      by_cases hkeep : keepAliveToken ∈ r.connectionTokens
      · exact iff_of_false (WellFormedRequest.not_honoured_keepAlive hversion hkeep)
          (by simp [hkeep])
      · exact iff_of_true (WellFormedRequest.honoured_no_keepAlive hversion hkeep) (by simp [hkeep])

/-- An HTTP/1.1 request with the line that `AppendToBuffer` writes when it closes. -/
def closingRequest : WellFormedRequest where
  method := .kGet
  path := ascii "/"
  query := none
  version := .kHttp11
  headers := [⟨ascii "Connection", ascii "close", 1, colon_not_mem_Connection, by decide,
    by decide, by decide⟩]
  path_blank := by decide
  path_question := by decide
  path_line := by decide
  query_blank := WellFormedRequest.no_query_blank
  query_line := WellFormedRequest.no_query_line
  version_known := Version.kHttp11_known

/-- What the server says when it closes it does not understand when it is told. -/
theorem emitted_close_ignored :
    ((HttpResponse.new 200 true).appendConnection Buffer.new).readable =
      block (closingRequest.headers.map HeaderField.line) ∧
    closingRequest.connectionTokens = [closeToken] ∧
    closeFlag closingRequest.encode = .ok (some false) ∧
    ¬ closingRequest.Honoured := by
  have hclear : HttpServer.wantsClose closingRequest.request = false := by decide
  refine ⟨?_, by decide, ?_, ?_⟩
  · have hread := (Buffer.append_spec Buffer.new_inv
      (cString (ascii "Connection: close\r\n"))).2
    rw [Buffer.readable_new, List.nil_append] at hread
    exact hread.trans (by decide)
  · rw [closingRequest.closeFlag_encode, hclear]
  · intro h
    have hset := (h.http11 rfl).mpr (by decide)
    rw [closingRequest.closeFlag_encode, hclear] at hset
    cases hset

end TinyMuduo
