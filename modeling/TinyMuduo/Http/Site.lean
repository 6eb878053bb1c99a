import TinyMuduo.Http.ClientView

/-!
# The site

`HttpResponseCallback` and the server of `main.cc`. The texts of the two pages
that `Http/httpresponsefile.h` holds are left open, but not their sizes.
-/

namespace TinyMuduo

open Transition

/-- `love6_website` and `favicon`. -/
structure Pages where
  love6Website : Bytes
  favicon : Bytes
  size_love6Website : love6Website.length = 1895
  size_favicon : favicon.length = 555

def httpResponseCallback (pages : Pages) (request : HttpRequest) (response : HttpResponse) :
    HttpResponse :=
  if request.method ≠ some .kGet then
    { response with
      statusCode := 400
      statusMessage := ascii "Bad Request"
      closeConnection := true }
  else if request.path = ascii "/" then
    { response with statusCode := 200, type := ascii "text/html", body := pages.love6Website }
  else if request.path = ascii "/hello" then
    { response with statusCode := 200, type := ascii "text/html", body := ascii "Hello, world!\n" }
  else if request.path = ascii "/favicon.ico" ∨ request.path = ascii "/favicon" then
    { response with statusCode := 200, type := ascii "image/png", body := pages.favicon }
  else
    { response with
      statusCode := 404
      statusMessage := ascii "Not Found"
      closeConnection := true }

/-- The server of `main`; idle connections are not closed. -/
def site (pages : Pages) (indeterminate : ℤ) : HttpServer :=
  ⟨false, httpResponseCallback pages, indeterminate⟩

/-! ## What is where -/

/-- What the site has to say to a request. -/
inductive Page where
  | index
  | hello
  | icon
  | notFound
  | badRequest
deriving DecidableEq

namespace Page

/-- Only `GET` is served, and the query does not matter. -/
def of (r : WellFormedRequest) : Page :=
  if r.method = .kGet then
    if r.path = ascii "/" then index
    else if r.path = ascii "/hello" then hello
    else if r.path ∈ [ascii "/favicon.ico", ascii "/favicon"] then icon
    else notFound
  else badRequest

def status : Page → ℕ × Bytes
  | index | hello | icon => (200, [])
  | notFound => (404, ascii "Not Found")
  | badRequest => (400, ascii "Bad Request")

def type : Page → Bytes
  | index | hello => ascii "text/html"
  | icon => ascii "image/png"
  | notFound | badRequest => ascii "text/plain"

def body (pages : Pages) : Page → Bytes
  | index => pages.love6Website
  | hello => ascii "Hello, world!\n"
  | icon => pages.favicon
  | notFound | badRequest => []

def isError : Page → Bool
  | index | hello | icon => false
  | notFound | badRequest => true

theorem lines (page : Page) : (100 ≤ page.status.1 ∧ page.status.1 ≤ 999) ∧
    (cr ∉ page.status.2 ∧ lf ∉ page.status.2) ∧ ResponseReader.Trimmed page.status.2 ∧
    (cr ∉ page.type ∧ lf ∉ page.type) ∧ ResponseReader.Trimmed page.type ∧
    ¬ ResponseReader.Bodyless page.status.1 := by
  cases page <;> decide

theorem sizes (pages : Pages) (page : Page) : (page.body pages).length ≤ 1895 ∧
    page.status.2.length ≤ 11 ∧ page.type.length ≤ 10 := by
  refine ⟨?_, by cases page <;> decide, by cases page <;> decide⟩
  cases page with
  | index => exact pages.size_love6Website.le
  | icon => exact pages.size_favicon.le.trans (by decide)
  | hello => exact (by decide : 14 ≤ 1895)
  | notFound => exact Nat.zero_le _
  | badRequest => exact Nat.zero_le _

end Page

def closesBehind (r : WellFormedRequest) : Bool :=
  (Page.of r).isError || HttpServer.wantsClose r.request

/-- What the client is to read. -/
def pageMessage (pages : Pages) (r : WellFormedRequest) : ResponseMessage where
  status := (Page.of r).status.1
  reason := (Page.of r).status.2
  fields :=
    (if closesBehind r then [(ascii "Connection", ascii "close")]
      else [(ascii "Content-Length", decimal ((Page.of r).body pages).length),
        (ascii "Connection", ascii "Keep-Alive")]) ++
      [(ascii "Content-Type", (Page.of r).type), (ascii "Server", ascii "Tiny_muduo")]
  body := (Page.of r).body pages

variable (pages : Pages) (indeterminate : ℤ)

theorem respond_site (r : WellFormedRequest) : (site pages indeterminate).respond r.request =
    ⟨(Page.of r).status.1, (Page.of r).status.2, (Page.of r).body pages, (Page.of r).type,
      closesBehind r⟩ := by
  have hmethod : r.request.method = some r.method := rfl
  have hpath : r.request.path = r.path := rfl
  show httpResponseCallback pages r.request _ = _
  unfold httpResponseCallback closesBehind Page.of
  rw [hmethod, hpath]
  by_cases hget : r.method = .kGet
  · rw [hget, if_neg (by simp), if_pos rfl]
    by_cases hindex : r.path = ascii "/"
    · rw [if_pos hindex, if_pos hindex]
      rfl
    rw [if_neg hindex, if_neg hindex]
    by_cases hhello : r.path = ascii "/hello"
    · rw [if_pos hhello, if_pos hhello]
      rfl
    rw [if_neg hhello, if_neg hhello]
    by_cases hicon : r.path = ascii "/favicon.ico" ∨ r.path = ascii "/favicon"
    · rw [if_pos hicon, if_pos (by simpa using hicon)]
      rfl
    · rw [if_neg hicon, if_neg (by simpa using hicon)]
      rfl
  · rw [if_pos (by simpa using hget), if_neg hget]
    rfl

theorem message_site (r : WellFormedRequest) :
    ((site pages indeterminate).respond r.request).message = pageMessage pages r := by
  rw [respond_site, HttpResponse.message, pageMessage, HttpResponse.connectionFields]
  cases closesBehind r <;> rfl

theorem closes_site (r : WellFormedRequest) :
    (site pages indeterminate).Closes r.request ↔ closesBehind r = true := by
  rw [HttpServer.Closes, respond_site]

/-- **Every page reaches the client.** -/
theorem deliverable_site (r : WellFormedRequest) :
    ((site pages indeterminate).respond r.request).Deliverable := by
  rw [respond_site]
  obtain ⟨hstatus, hreason, hreason', htype, htype', hbody⟩ := (Page.of r).lines
  obtain ⟨hsize, hsize', hsize''⟩ := (Page.of r).sizes pages
  constructor
  · have hcast : (100 : ℤ) ≤ ((Page.of r).status.1 : ℤ) ∧ ((Page.of r).status.1 : ℤ) ≤ 999 := by
      exact_mod_cast hstatus
    exact ⟨hcast, hreason, hreason', htype, htype'⟩
  · have hindex : Buffer.new.writeIndex = 8 := rfl
    show Buffer.new.writeIndex + (Page.of r).status.2.length + (Page.of r).type.length +
      ((Page.of r).body pages).length < 2 ^ 31
    omega
  · exact hbody

/-- **The site serves its client**, as long as no page meets a refusing kernel on the
direct path, where `Send` drops it. Of the requests that a client sends, pipelined or
not, in whatever pieces, the first so many are answered, each with its page, in
order; behind an answer that closes there is none. If the client waits its turn and
the connection is open, every request that has come in whole is answered. -/
theorem site_serves {fd : ℕ} {answers : ℕ → WriteAnswer}
    {ms : List (Move ServedConnection ConnectionLabel)} {s : ServedConnection}
    (h : Run (servedConnection (site pages indeterminate) fd answers) ms s)
    {rs : List WellFormedRequest}
    (hsent : receivedBytes ms <+: rs.flatMap WellFormedRequest.encode)
    (hsends : ∀ m ∈ ms, m.label.sends = false)
    (hwrites : ∀ m ∈ ms, (site pages indeterminate).answer m ≠ [] → ¬ m.pre.session.Drops) :
    ∃ done waiting, rs = done ++ waiting ∧
      (site pages indeterminate).dispatches ms = done.map WellFormedRequest.request ∧
      (∀ r ∈ done.dropLast, closesBehind r = false) ∧
      ReadAs s.stream (done.map (pageMessage pages)) ∧
      (InTurn (site pages indeterminate) rs ms → s.Open → ∀ front back, rs = front ++ back →
        front.flatMap WellFormedRequest.encode <+: receivedBytes ms → front <+: done) := by
  obtain ⟨done, waiting, hrs, hdone, hopen, hread⟩ :=
    client_reads (deliverable_site pages indeterminate) h hsent hsends hwrites
  refine ⟨done, waiting, hrs, hdone, ?_, ?_, ?_⟩
  · intro r hr
    exact Bool.eq_false_iff.mpr fun hclose => hopen r hr ((closes_site _ _ r).mpr hclose)
  · simpa only [message_site] using hread
  · intro hturn hup front back hfront hreceived
    have hanswered := client_answered h hturn hup hfront hreceived
    rw [hdone] at hanswered
    have hlen := hanswered.length_le
    rw [List.length_map, List.length_map] at hlen
    have hfront' : front <+: rs := hfront ▸ List.prefix_append front back
    have hdone' : done <+: rs := hrs ▸ List.prefix_append done waiting
    exact List.prefix_of_prefix_length_le hfront' hdone' hlen

/-- `GET path HTTP/1.1` without headers. -/
def visit (path : Bytes) (path_blank : space ∉ path) (path_question : question ∉ path)
    (path_line : ¬ kCRLF <:+: path) : WellFormedRequest where
  method := .kGet
  path := path
  query := none
  version := .kHttp11
  headers := []
  path_blank := path_blank
  path_question := path_question
  path_line := path_line
  query_blank := WellFormedRequest.no_query_blank
  query_line := WellFormedRequest.no_query_line
  version_known := Version.kHttp11_known

/-- Two pages that are there and one that is not. -/
def siteVisit : List WellFormedRequest :=
  [visit (ascii "/favicon") (by decide) (by decide) (by decide),
    visit (ascii "/hello") (by decide) (by decide) (by decide),
    visit (ascii "/nowhere") (by decide) (by decide) (by decide)]

def samplePages : Pages :=
  ⟨List.replicate 1895 120, List.replicate 555 0, List.length_replicate, List.length_replicate⟩

/-- The kernel takes a hundred bytes at a time. -/
theorem site_serves_visit : ∃ ms s,
    Run (servedConnection (site samplePages 0) 5 fun _ => .atMost 100) ms s ∧
      ReadAs s.stream (siteVisit.map (pageMessage samplePages)) := by
  have hrun : ((moves (ServedConnection.step (site samplePages 0)) (.new 5 fun _ => .atMost 100)
      [.connectionEstablished, .handleMessage ⟨1⟩ (.data (ascii "GET /favicon HTTP/1.1\r\n\r\n")),
        .handleWrite, .handleMessage ⟨2⟩ (.data (ascii "GET /hello HT")),
        .handleMessage ⟨3⟩ (.data (ascii "TP/1.1\r\n\r\n")),
        .handleMessage ⟨4⟩ (.data (ascii "GET /nowhere HTTP/1.1\r\n\r\n"))]).any fun p =>
      receivedBytes p.1 = siteVisit.flatMap WellFormedRequest.encode ∧
        ((site samplePages 0).dispatches p.1).length = 3 ∧
        (p.1.all fun m => !m.label.sends) = true ∧
        (p.1.all fun m => (site samplePages 0).answer m = [] ∨ ¬ m.pre.session.Drops) = true) =
      true := by
    decide +kernel
  obtain ⟨p, hp, hseen⟩ := (Option.any_eq_true _ _).mp hrun
  obtain ⟨hreceived, hdispatches, hsends, hwrites⟩ := of_decide_eq_true hseen
  have h := (Run.start (T := servedConnection (site samplePages 0) 5 fun _ => .atMost 100) rfl).moves
    _ hp
  rw [List.nil_append] at h
  have hsent : receivedBytes p.1 <+: siteVisit.flatMap WellFormedRequest.encode := by
    rw [hreceived]
  have hopen : ∀ m ∈ p.1, (site samplePages 0).answer m ≠ [] → ¬ m.pre.session.Drops := by
    intro m hm hne
    exact (of_decide_eq_true (List.all_eq_true.mp hwrites m hm)).resolve_left hne
  obtain ⟨done, waiting, hrs, hdone, -, hread, -⟩ :=
    site_serves samplePages 0 h hsent (by simpa using hsends) hopen
  rw [hdone, List.length_map] at hdispatches
  obtain rfl : waiting = [] := by
    have hlen := congrArg List.length hrs
    rw [List.length_append, hdispatches, show siteVisit.length = 3 from rfl] at hlen
    exact List.eq_nil_of_length_eq_zero (by omega)
  rw [List.append_nil] at hrs
  exact ⟨p.1, p.2, h, hrs ▸ hread⟩

end TinyMuduo
