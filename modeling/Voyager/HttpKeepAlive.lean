import Voyager.HttpRejection
import Voyager.Lib.Framing

/-!
Keep-alive connections of the HTTP server: requests that a client sends one
after the other, cut into reads at any place. `OnMessage` handles at most one
request of what it finds in the buffer, and a body has to be there as a whole,
with nothing behind it, when the head is complete. Exactly those sequences of
reads are served in full that suit these two rules.
-/
namespace Voyager.HttpServer

open Lib.CString Lib.Framing HttpParser

/-- A request as a client of HTTP/1.1 writes it. A header is its field name
with the text behind the colon. -/
structure Request where
  method : Method
  target : List Byte
  headers : List (List Byte × List Byte)
  body : List Byte
deriving DecidableEq, Repr

namespace Request

def line (r : Request) : List Byte :=
  HttpRequest.methodToString r.method ++ 32 :: (r.target ++ 32 :: ascii "HTTP/1.1")

def headerLine (h : List Byte × List Byte) : List Byte := h.1 ++ 58 :: h.2

/-- The text up to the blank line. -/
def head (r : Request) : List Byte :=
  r.line ++ 13 :: 10 :: (r.headers.flatMap (fun h => headerLine h ++ [13, 10]) ++ [13, 10])

def bytes (r : Request) : List Byte := r.head ++ r.body

/-- The headers as a message holds them, the last value of a field counting. -/
def message (r : Request) : HttpMessage :=
  r.headers.foldl (fun m h => m.addHeaderText h.1 h.2)
    { HttpMessage.create with version := .kHttp11 }

/-- Method, headers and body of the request. -/
def own (r : Request) : Option Method × List (List Byte × List Byte) × List Byte :=
  (some r.method, r.message.headerMap, r.body)

/-- The request can be read, it does not ask to be the last one, and a `POST`
says how long its body is. -/
structure WellFormed (r : Request) : Prop where
  target : ∀ b ∈ r.target, isSpace b = false
  fields : ∀ h ∈ r.headers, h.1 ≠ [] ∧ 58 ∉ h.1 ∧ 13 ∉ h.1 ∧ 13 ∉ h.2
  keepAlive : strcasecmp (r.message.value HttpMessage.kConnection) (ascii "close") ≠ 0
  contentLength : r.method = .kPost → ∃ pre digits post,
    r.message.value HttpMessage.kContentLength = pre ++ (digits ++ post) ∧
      (∀ c ∈ pre, isSpace c = true) ∧ digits ≠ [] ∧ (∀ c ∈ digits, isDigit c = true) ∧
      (∀ c ∈ post, isSpace c = true) ∧ decimal digits = r.body.length

end Request

/-- What `atoi` reads for the size of the body. -/
def Request.sizeRead (r : Request) : Int := toInt (min r.body.length (2 ^ 63 - 1))

/-- The size of the body, as an `int`, is what `atoi` reads for it. So it is as long as `long`
holds the size. -/
def Request.SizeReads (r : Request) : Prop := toInt r.body.length = r.sizeRead

instance (r : Request) : Decidable r.SizeReads := inferInstanceAs (Decidable (_ = _))

/-- What `http_cb_` can see of the same three parts. -/
def ownParts (q : HttpRequest) : Option Method × List (List Byte × List Byte) × List Byte :=
  (q.method, q.headerMap, q.body)

/-- `avail` bytes are in the buffer when the reads begin. Each read that finds
the head of the oldest request serves it: if it is a `POST`, the size of its body
must read right and the bytes must end with the body, and any other request must
have no body. -/
def Served : ℕ → List Request → List (List Byte) → Prop
  | _, rs, [] => rs = []
  | _, [], _ :: _ => False
  | avail, r :: rs, data :: rest =>
    if avail + data.length < r.head.length then Served (avail + data.length) (r :: rs) rest
    else if r.method = .kPost then
      r.SizeReads ∧ avail + data.length = r.bytes.length ∧ Served 0 rs rest
    else r.body = [] ∧ Served (avail + data.length - r.bytes.length) rs rest

instance decidableServed : (avail : ℕ) → (rs : List Request) → (chunks : List (List Byte)) →
    Decidable (Served avail rs chunks)
  | _, rs, [] => inferInstanceAs (Decidable (rs = []))
  | _, [], _ :: _ => .isFalse id
  | avail, r :: rs, data :: rest =>
    have := decidableServed (avail + data.length) (r :: rs) rest
    have := decidableServed 0 rs rest
    have := decidableServed (avail + data.length - r.bytes.length) rs rest
    inferInstanceAs (Decidable (if avail + data.length < r.head.length then _
      else if r.method = .kPost then _ else _))

/-- The request that the parser builds up to the blank line. -/
def Request.parsed (r : Request) : HttpRequest :=
  r.headers.foldl (fun q h => q.addHeaderText h.1 h.2)
    (HttpRequestParser.parseRequestLine .create r.line).2

namespace Request

variable {r : Request}

theorem parseRequestLine_line (hwf : r.WellFormed) :
    (HttpRequestParser.parseRequestLine .create r.line).1 = true ∧
      (HttpRequestParser.parseRequestLine .create r.line).2.method = some r.method ∧
      (HttpRequestParser.parseRequestLine .create r.line).2.toHttpMessage =
        { HttpMessage.create with version := .kHttp11 } := by
  unfold HttpRequestParser.parseRequestLine line
  rw [HttpRequestParser.word_append (HttpRequest.isSpace_methodToString r.method) (by decide)]
  simp only [HttpRequest.setMethod_methodToString]
  rw [HttpRequestParser.word_append hwf.target (by decide)]
  simp only [HttpRequest.setVersion_http11]
  unfold HttpRequestParser.setTarget
  split <;> exact ⟨trivial, rfl, rfl⟩

theorem not_mem_line (hwf : r.WellFormed) : (13 : Byte) ∉ r.line := by
  have hspace : ∀ text : List Byte, (∀ c ∈ text, isSpace c = false) → (13 : Byte) ∉ text := by
    intro text htext hmem
    exact absurd (htext 13 hmem) (by decide)
  have hversion : (13 : Byte) ∉ ascii "HTTP/1.1" := by decide
  simp only [line, List.mem_append, List.mem_cons, not_or]
  exact ⟨hspace _ (HttpRequest.isSpace_methodToString r.method), by decide,
    hspace _ hwf.target, by decide, hversion⟩

theorem toHttpMessage_parsed (hwf : r.WellFormed) :
    r.parsed.toHttpMessage = r.message ∧ r.parsed.method = some r.method := by
  obtain ⟨_, hmethod, hmessage⟩ := parseRequestLine_line hwf
  unfold parsed message
  rw [← hmessage]
  generalize (HttpRequestParser.parseRequestLine .create r.line).2 = q at hmethod ⊢
  induction r.headers generalizing q with
  | nil => exact ⟨rfl, hmethod⟩
  | cons h rest ih => exact ih (q.addHeaderText h.1 h.2) hmethod

/-- The loop goes through the whole head. -/
theorem advances_head (hwf : r.WellFormed) (rest : List Byte) :
    View.Advances HttpRequestParser.grammar ⟨.kLine, .create, r.head ++ rest⟩
      ⟨.kBody, r.parsed, rest⟩ := by
  obtain ⟨hok, _, _⟩ := parseRequestLine_line hwf
  have hline : HttpRequestParser.grammar.parseLine .create r.line =
      (true, (HttpRequestParser.parseRequestLine .create r.line).2) := Prod.ext hok rfl
  have hbytes : r.head ++ rest = r.line ++ 13 :: 10 ::
      (r.headers.flatMap (fun h => headerLine h ++ [13, 10]) ++ 13 :: 10 :: rest) := by
    simp [head]
  refine .step ?_ (View.advances_headers hwf.fields _ rest)
  rw [hbytes]
  exact View.turn_line (not_mem_line hwf) hline _

theorem value_parsed (hwf : r.WellFormed) (field : List Byte) :
    r.parsed.value field = r.message.value field := by
  rw [(toHttpMessage_parsed hwf).1]

theorem bodyLength_parsed_of_ne (hwf : r.WellFormed) (hpost : r.method ≠ .kPost) :
    HttpRequestParser.grammar.contentLength r.parsed = none := by
  simp [HttpRequestParser.grammar, HttpRequestParser.bodyLength, (toHttpMessage_parsed hwf).2,
    hpost]

theorem bodyLength_parsed_of_post (hwf : r.WellFormed) (hpost : r.method = .kPost) :
    ∃ s, HttpRequestParser.grammar.contentLength r.parsed = some s ∧
      atoi s = r.sizeRead := by
  obtain ⟨pre, digits, post, hvalue, hpre, hne, hdigits, hpost', hlen⟩ := hwf.contentLength hpost
  refine ⟨pre ++ (digits ++ post), ?_, ?_⟩
  · simp [HttpRequestParser.grammar, HttpRequestParser.bodyLength, (toHttpMessage_parsed hwf).2,
      hpost, value_parsed hwf, hvalue, hne]
  · rw [atoi_digits hpre hne hdigits hpost', hlen]
    rfl

/-- Headers change neither the version nor the body. -/
theorem version_body_message (r : Request) :
    r.message.version = .kHttp11 ∧ r.message.body = [] := by
  have hkeep : ∀ (headers : List (List Byte × List Byte)) (m : HttpMessage),
      (headers.foldl (fun m h => m.addHeaderText h.1 h.2) m).version = m.version ∧
        (headers.foldl (fun m h => m.addHeaderText h.1 h.2) m).body = m.body := by
    intro headers
    induction headers with
    | nil => exact fun m => ⟨rfl, rfl⟩
    | cons h rest ih =>
      intro m
      rw [List.foldl_cons, (ih _).1, (ih _).2]
      unfold HttpMessage.addHeaderText HttpMessage.addHeader
      split <;> exact ⟨rfl, rfl⟩
  exact hkeep _ _

theorem closes_parsed (hwf : r.WellFormed) : closes r.parsed = false := by
  have hversion : r.parsed.version = .kHttp11 := by
    rw [(toHttpMessage_parsed hwf).1]
    exact (version_body_message r).1
  simp [closes, value_parsed hwf, hwf.keepAlive, hversion]

theorem ownParts_parsed (hwf : r.WellFormed) :
    ownParts r.parsed = (some r.method, r.message.headerMap, []) := by
  obtain ⟨hmessage, hmethod⟩ := toHttpMessage_parsed hwf
  simp [ownParts, hmessage, hmethod, (version_body_message r).2]

theorem ownParts_setBody_parsed (hwf : r.WellFormed) (body : List Byte) :
    ownParts (r.parsed.setBody body) = (some r.method, r.message.headerMap, body) := by
  obtain ⟨hmessage, hmethod⟩ := toHttpMessage_parsed hwf
  simp [ownParts, HttpRequest.setBody, HttpMessage.setBody, hmessage, hmethod]

end Request

namespace Session

variable {httpCb : Option (List Act → HttpCallback)} {s t : Session} {data p : List Byte}
  {w : View HttpRequest} {r : Request}

/-- The parser is on its way through the bytes `p`, which follow the last
request served. -/
structure Partway (s : Session) (p : List Byte) : Prop where
  wf : s.readbuf.Wf
  advances : View.Advances HttpRequestParser.grammar ⟨.kLine, .create, p⟩ s.view

theorem Partway.state_ne (h : Partway s p) : s.parser.state ≠ .kEnd :=
  (h.advances.state_cases (by simp)).1

theorem Ends.badRequest_mem (h : Ends httpCb s data w t) :
    Act.sendMessage badRequest ∈ t.acts ↔
      Act.sendMessage badRequest ∈ s.acts ∨ (View.turn HttpRequestParser.grammar w).1 ≠ .stop := by
  rw [h.acts, List.mem_append, badRequest_mem_afterParse, decide_eq_false_iff_not]

/-- A read that does not complete the head of the request. -/
theorem Partway.read_wait (httpCb : Option (List Act → HttpCallback)) (h : Partway s p)
    (hr : r.WellFormed) {q : List Byte}
    (hhead : p ++ data ++ q = r.head) (hq : q ≠ []) :
    ∃ fuel t, s.read httpCb fuel data = some t ∧ Partway t (p ++ data) ∧ t.served = s.served ∧
      (Act.sendMessage badRequest ∈ t.acts ↔ Act.sendMessage badRequest ∈ s.acts) := by
  obtain ⟨fuel, t, hread⟩ := exists_read httpCb h.wf h.state_ne data
  obtain ⟨w, hends⟩ := read_ends h.wf hread
  have hadv : View.Advances HttpRequestParser.grammar ⟨.kLine, .create, p ++ data⟩ w :=
    (h.advances.feed data).trans hends.advances
  have hrest : View.Advances HttpRequestParser.grammar (w.feed q) ⟨.kBody, r.parsed, []⟩ := by
    have hall := Request.advances_head hr []
    rw [List.append_nil, ← hhead] at hall
    exact hall.to_last (hadv.feed q) (View.turn_kBody_ne_more rfl)
  have hbody : w.state ≠ .kBody := by
    intro hw
    have heq := hrest.last_unique (View.turn_kBody_ne_more (v := w.feed q) hw)
    have hbytes := congrArg View.bytes heq
    simp only [View.feed, List.append_eq_nil_iff] at hbytes
    exact hq hbytes.2
  have hstop : (View.turn HttpRequestParser.grammar w).1 = .stop := by
    rcases hturn : View.turn HttpRequestParser.grammar w with ⟨verdict, u⟩
    cases verdict with
    | more => exact absurd (by rw [hturn]) hends.last
    | stop => rfl
    | fail =>
      have heq := hrest.last_unique (by rw [View.turn_fail_feed hturn hbody]; simp)
      exact absurd (congrArg View.state heq) hbody
  have hturn := View.turn_stop hstop hbody
  have hend := (hadv.state_cases (by simp)).1
  obtain ⟨hview, _, hserved⟩ := hends.unfinished (by rwa [hturn])
  refine ⟨fuel, t, hread, ⟨hends.wf, ?_⟩, hserved, ?_⟩
  · rw [hview, hturn]
    exact hadv
  · simp [hends.badRequest_mem, hstop]

/-- A read with which the head of the request is complete. -/
theorem Partway.read_head (httpCb : Option (List Act → HttpCallback)) (h : Partway s p)
    (hr : r.WellFormed) {rest : List Byte}
    (hhead : p ++ data = r.head ++ rest) :
    ∃ fuel t, s.read httpCb fuel data = some t ∧ Ends httpCb s data ⟨.kBody, r.parsed, rest⟩ t := by
  obtain ⟨fuel, t, hread⟩ := exists_read httpCb h.wf h.state_ne data
  obtain ⟨w, hends⟩ := read_ends h.wf hread
  have hall := Request.advances_head hr rest
  rw [← hhead] at hall
  have hlast : (View.turn HttpRequestParser.grammar ⟨.kBody, r.parsed, rest⟩).1 ≠ .more :=
    View.turn_kBody_ne_more rfl
  have hw := (hall.to_last ((h.advances.feed data).trans hends.advances) hlast).last_unique
    hends.last
  exact ⟨fuel, t, hread, hw ▸ hends⟩

/-- The parser has completed a request and starts afresh on what is left. -/
theorem Ends.finish (h : Ends httpCb s data w t) {q : HttpRequest} {rest : List Byte}
    (hturn : View.turn HttpRequestParser.grammar w = (.stop, ⟨.kEnd, q, rest⟩))
    (hclose : closes q = false) (hset : httpCb.isSome = true) :
    Partway t rest ∧ t.served = s.served ++ [q] ∧
      (Act.sendMessage badRequest ∈ t.acts ↔ Act.sendMessage badRequest ∈ s.acts) := by
  have hparser := h.parser
  have hbytes := h.bytes
  rw [hturn] at hparser hbytes
  rw [afterParse_fst_of_kEnd _ _ rfl] at hparser
  simp only [hclose, Bool.false_eq_true, if_false] at hparser
  refine ⟨⟨h.wf, ?_⟩, ?_, ?_⟩
  · have hview : t.view = ⟨.kLine, .create, rest⟩ := by
      simp only [Session.view, HttpParser.view, hparser, hbytes]
      rfl
    rw [hview]
    exact .refl _
  · simp [h.served, hturn, hset]
  · simp [h.badRequest_mem, hturn]

theorem Reads.acts_prefix {chunks : List (List Byte)} (h : Reads httpCb s chunks t) :
    ∃ later, t.acts = s.acts ++ later := by
  apply h.invariant (P := fun t => ∃ later, t.acts = s.acts ++ later) ⟨[], by simp⟩
  rintro s' fuel data t ⟨later, hlater⟩ hread
  rw [read, Option.map_eq_some_iff] at hread
  obtain ⟨result, _, rfl⟩ := hread
  exact ⟨later ++ result.2.2, by simp [hlater]⟩

theorem reads_cons_of_read {fuel : ℕ} {u : Session} {chunks : List (List Byte)}
    (hread : s.read httpCb fuel data = some t) (hdata : data ≠ []) :
    Reads httpCb s (data :: chunks) u ↔ Reads httpCb t chunks u := by
  constructor
  · intro h
    obtain ⟨_, fuel', t', hread', hrest⟩ := reads_cons_iff.mp h
    have h₁ := read_mono hread (Nat.le_max_left fuel fuel')
    have h₂ := read_mono hread' (Nat.le_max_right fuel fuel')
    rw [h₁, Option.some.injEq] at h₂
    exact h₂ ▸ hrest
  · intro h
    exact reads_cons_iff.mpr ⟨hdata, fuel, t, hread, h⟩

/-- The reads call `http_cb_` once for each of the requests, in order and with
their own parts, and send no 400 response. -/
def AllServed (httpCb : Option (List Act → HttpCallback)) (s : Session) (rs : List Request)
    (chunks : List (List Byte)) : Prop :=
  ∃ t, Reads httpCb s chunks t ∧
    t.served.map ownParts = s.served.map ownParts ++ rs.map Request.own ∧
    Act.sendMessage badRequest ∉ t.acts

section Step

variable {fuel : ℕ} {rs todo : List Request} {done : List HttpRequest} {chunks : List (List Byte)}
  {q : HttpRequest} (hread : s.read httpCb fuel data = some t) (hdata : data ≠ [])
include hread hdata

/-- A read that calls `http_cb_` as it should leaves the rest to the others. -/
theorem allServed_cons_iff (hdone : t.served = s.served ++ done)
    (hown : rs.map Request.own = done.map ownParts ++ todo.map Request.own) :
    AllServed httpCb s rs (data :: chunks) ↔ AllServed httpCb t todo chunks := by
  unfold AllServed
  simp only [reads_cons_of_read hread hdata, hdone, hown, List.map_append, List.append_assoc]

theorem not_allServed_of_ne (hdone : t.served = s.served ++ [q]) (hne : ownParts q ≠ r.own) :
    ¬ AllServed httpCb s (r :: rs) (data :: chunks) := by
  rintro ⟨u, hreads, hserved, _⟩
  rw [reads_cons_of_read hread hdata] at hreads
  obtain ⟨later, hlater⟩ := hreads.acts_prefix
  have happend : u.served = t.served ++ later.filterMap Act.called := by
    rw [Session.served, hlater, List.filterMap_append]
    rfl
  rw [happend, hdone] at hserved
  simp only [List.map_append, List.map_cons, List.append_assoc,
    List.append_cancel_left_eq, List.cons_append, List.nil_append, List.cons.injEq] at hserved
  exact hne hserved.1

theorem not_allServed_of_badRequest (hbad : Act.sendMessage badRequest ∈ t.acts) :
    ¬ AllServed httpCb s rs (data :: chunks) := by
  rintro ⟨u, hreads, _, hclean⟩
  rw [reads_cons_of_read hread hdata] at hreads
  obtain ⟨later, hlater⟩ := hreads.acts_prefix
  exact hclean (by simp [hlater, hbad])

end Step

/-- A `POST` is served by the read that completes its head if the bytes end
with its body, and not served properly otherwise. -/
theorem Partway.allServed_post (h : Partway s p) (hset : httpCb.isSome = true)
    (hclean : Act.sendMessage badRequest ∉ s.acts) (hr : r.WellFormed) (hpost : r.method = .kPost)
    (hdata : data ≠ []) {rest : List Byte} (hhead : p ++ data = r.head ++ rest)
    (rs : List Request) (chunks : List (List Byte)) :
    (¬ (r.SizeReads ∧ rest = r.body) ∧ ¬ AllServed httpCb s (r :: rs) (data :: chunks)) ∨
      r.SizeReads ∧ rest = r.body ∧ ∃ t, Partway t [] ∧ Act.sendMessage badRequest ∉ t.acts ∧
        (AllServed httpCb s (r :: rs) (data :: chunks) ↔ AllServed httpCb t rs chunks) := by
  obtain ⟨fuel, t, hread, hends⟩ := h.read_head httpCb hr hhead
  obtain ⟨text, htext, hatoi⟩ := Request.bodyLength_parsed_of_post hr hpost
  by_cases hsize : toInt rest.length = r.sizeRead
  · have hturn : View.turn HttpRequestParser.grammar ⟨.kBody, r.parsed, rest⟩ =
        (.stop, ⟨.kEnd, r.parsed.setBody rest, []⟩) := by
      simp only [View.turn, htext, hatoi, hsize, if_true]
      rfl
    obtain ⟨hpart, hserved, hbad⟩ := hends.finish hturn (Request.closes_parsed hr) hset
    by_cases hbody : rest = r.body
    · have hreads : r.SizeReads := by
        rw [hbody] at hsize
        exact hsize
      refine .inr ⟨hreads, hbody, t, hpart, by rwa [hbad], ?_⟩
      apply allServed_cons_iff hread hdata hserved
      simp [Request.ownParts_setBody_parsed hr, Request.own, hbody]
    · refine .inl ⟨fun h => hbody h.2, not_allServed_of_ne hread hdata hserved ?_⟩
      simp [Request.ownParts_setBody_parsed hr, Request.own, hbody]
  · have hturn : View.turn HttpRequestParser.grammar ⟨.kBody, r.parsed, rest⟩ =
        (.fail, ⟨.kBody, r.parsed, rest⟩) := by
      simp only [View.turn, htext, hatoi, hsize, if_false]
    refine .inl ⟨?_, not_allServed_of_badRequest hread hdata ?_⟩
    · rintro ⟨hreads, rfl⟩
      exact hsize hreads
    · simp [hends.badRequest_mem, hturn]

/-- Any other request is served without a body. -/
theorem Partway.allServed_of_ne_post (h : Partway s p) (hset : httpCb.isSome = true)
    (hclean : Act.sendMessage badRequest ∉ s.acts) (hr : r.WellFormed) (hpost : r.method ≠ .kPost)
    (hdata : data ≠ []) {rest : List Byte} (hhead : p ++ data = r.head ++ rest)
    (rs : List Request) (chunks : List (List Byte)) :
    (r.body ≠ [] ∧ ¬ AllServed httpCb s (r :: rs) (data :: chunks)) ∨
      r.body = [] ∧ ∃ t, Partway t rest ∧ Act.sendMessage badRequest ∉ t.acts ∧
        (AllServed httpCb s (r :: rs) (data :: chunks) ↔ AllServed httpCb t rs chunks) := by
  obtain ⟨fuel, t, hread, hends⟩ := h.read_head httpCb hr hhead
  have hturn : View.turn HttpRequestParser.grammar ⟨.kBody, r.parsed, rest⟩ =
      (.stop, ⟨.kEnd, r.parsed, rest⟩) := by
    simp only [View.turn, Request.bodyLength_parsed_of_ne hr hpost]
  obtain ⟨hpart, hserved, hbad⟩ := hends.finish hturn (Request.closes_parsed hr) hset
  have hown := Request.ownParts_parsed hr
  by_cases hbody : r.body = []
  · refine .inr ⟨hbody, t, hpart, by rwa [hbad], ?_⟩
    apply allServed_cons_iff hread hdata hserved
    simp [hown, Request.own, hbody]
  · refine .inl ⟨hbody, not_allServed_of_ne hread hdata hserved ?_⟩
    intro heq
    rw [hown, Request.own, Prod.mk.injEq, Prod.mk.injEq] at heq
    exact hbody heq.2.2.symm

/-- While the head is not complete, nothing is served. -/
theorem Partway.allServed_wait (h : Partway s p)
    (hclean : Act.sendMessage badRequest ∉ s.acts) (hr : r.WellFormed) (hdata : data ≠ [])
    {q : List Byte} (hq : p ++ data ++ q = r.head) (hqne : q ≠ []) (rs : List Request)
    (chunks : List (List Byte)) :
    ∃ t, Partway t (p ++ data) ∧ Act.sendMessage badRequest ∉ t.acts ∧
      (AllServed httpCb s rs (data :: chunks) ↔ AllServed httpCb t rs chunks) := by
  obtain ⟨fuel, t, hread, hpart, hserved, hbad⟩ := h.read_wait httpCb hr hq hqne
  have hsame : t.served = s.served ++ [] := by rw [hserved, List.append_nil]
  exact ⟨t, hpart, by rwa [hbad], allServed_cons_iff hread hdata hsame (List.nil_append _).symm⟩

/-- From any point between two reads. -/
theorem Partway.allServed_iff {rs : List Request} {chunks : List (List Byte)} (h : Partway s p)
    (hset : httpCb.isSome = true) (hclean : Act.sendMessage badRequest ∉ s.acts)
    (hrs : ∀ r ∈ rs, r.WellFormed) (hne : ∀ data ∈ chunks, data ≠ [])
    (hbytes : p ++ chunks.flatten = stream Request.bytes rs) :
    AllServed httpCb s rs chunks ↔ Served p.length rs chunks := by
  induction chunks generalizing s p rs with
  | nil =>
    constructor
    · rintro ⟨t, ⟨_, _, ht⟩, hserved, _⟩
      simp only [readAll, Option.some.injEq] at ht
      subst ht
      simpa [Served] using hserved
    · intro hnil
      have hrs : rs = [] := by cases rs <;> simp_all [Served]
      exact ⟨s, .nil s, by simp [hrs], hclean⟩
  | cons data chunks ih =>
    have hdata : data ≠ [] := hne data (by simp)
    have hne' : ∀ data ∈ chunks, data ≠ [] := fun d hd => hne d (by simp [hd])
    cases rs with
    | nil =>
      simp only [stream, List.flatMap_nil, List.append_eq_nil_iff, List.flatten_cons] at hbytes
      exact absurd hbytes.2.1 hdata
    | cons r rs =>
      have hr : r.WellFormed := hrs r (by simp)
      have hrs' : ∀ r ∈ rs, r.WellFormed := fun r hr => hrs r (by simp [hr])
      have hsplit : (p ++ data) ++ chunks.flatten =
          r.head ++ (r.body ++ stream Request.bytes rs) := by
        simpa [stream, Request.bytes] using hbytes
      by_cases hlt : p.length + data.length < r.head.length
      · -- the head is not complete yet
        obtain ⟨q, hq⟩ := List.prefix_of_prefix_length_le ⟨_, hsplit⟩ ⟨_, rfl⟩
          (by simp only [List.length_append]; omega)
        have hqne : q ≠ [] := by
          rintro rfl
          simp only [List.append_nil] at hq
          rw [← hq, List.length_append] at hlt
          omega
        obtain ⟨t, hpart, hclean', hiff⟩ :=
          h.allServed_wait hclean hr hdata hq hqne (r :: rs) chunks
        rw [hiff, ih hpart hclean' hrs hne' (by simpa using hbytes), Served, if_pos hlt,
          List.length_append]
      · obtain ⟨rest, hrest⟩ := List.prefix_of_prefix_length_le ⟨_, rfl⟩ ⟨_, hsplit⟩
          (by simp only [List.length_append]; omega)
        have hlen := congrArg List.length hrest
        simp only [List.length_append] at hlen
        rw [← hrest, List.append_assoc, List.append_cancel_left_eq] at hsplit
        have hbody := congrArg List.length (show r.bytes = r.head ++ r.body from rfl)
        simp only [List.length_append] at hbody
        rw [Served, if_neg hlt]
        by_cases hpost : r.method = .kPost
        · rw [if_pos hpost]
          rcases h.allServed_post hset hclean hr hpost hdata hrest.symm rs chunks with
            ⟨hwrong, hnot⟩ | ⟨hreads, hright, t, hpart, hclean', hiff⟩
          · refine iff_of_false hnot ?_
            rintro ⟨hreads, hsize, _⟩
            exact hwrong ⟨hreads, List.append_inj_left hsplit (by omega)⟩
          · subst hright
            rw [hiff, ih hpart hclean' hrs' hne' (by simpa using hsplit), and_iff_right hreads]
            simp only [List.length_nil]
            exact (and_iff_right (by omega)).symm
        · rw [if_neg hpost]
          rcases h.allServed_of_ne_post hset hclean hr hpost hdata hrest.symm rs chunks with
            ⟨hwrong, hnot⟩ | ⟨hright, t, hpart, hclean', hiff⟩
          · exact iff_of_false hnot fun hserved => hwrong hserved.1
          · rw [hiff, ih hpart hclean' hrs' hne' (by simpa [hright] using hsplit)]
            have hsize : p.length + data.length - r.bytes.length = rest.length := by
              rw [hright, List.length_nil] at hbody
              omega
            rw [hsize]
            exact (and_iff_right hright).symm

end Session

/-- Every well-formed request of a keep-alive connection is served, once and in
order and as it was sent, if and only if the reads are of the `Served` kind. -/
theorem keepAlive_served_iff (httpCb : List Act → HttpCallback) (initSize : ℕ) (rs : List Request)
    (hrs : ∀ r ∈ rs, r.WellFormed) (chunks : List (List Byte)) (hne : ∀ data ∈ chunks, data ≠ [])
    (hbytes : chunks.flatten = stream Request.bytes rs) :
    (∃ t, Session.Reads (some httpCb) (Session.start initSize) chunks t ∧
      t.served.map ownParts = rs.map Request.own ∧ Act.sendMessage badRequest ∉ t.acts) ↔
        Served 0 rs chunks := by
  have hstart : Session.Partway (Session.start initSize) [] := by
    refine ⟨Buffer.wf_ofSize initSize, ?_⟩
    have hview : (Session.start initSize).view = ⟨.kLine, .create, []⟩ := by
      simp only [Session.view, HttpParser.view, Session.start, Buffer.readable_ofSize]
      rfl
    rw [hview]
    exact .refl _
  exact hstart.allServed_iff rfl (by simp [Session.start]) hrs hne hbytes

/-- A request without a body, and a `POST` with one. -/
def getRequest : Request := ⟨.kGet, ascii "/a?b", [(ascii "Host", ascii " h")], []⟩

def postRequest : Request := ⟨.kPost, ascii "/", [(ascii "content-length", ascii " 2")], ascii "ab"⟩

theorem getRequest_wellFormed : getRequest.WellFormed where
  target := by decide +kernel
  fields := by decide +kernel
  keepAlive := by decide +kernel
  contentLength := fun h => by cases h

theorem postRequest_wellFormed : postRequest.WellFormed where
  target := by decide +kernel
  fields := by decide +kernel
  keepAlive := by decide +kernel
  contentLength := fun _ => ⟨[], ascii "2", [], by decide +kernel, by decide +kernel,
    by decide +kernel, by decide +kernel, by decide +kernel, by decide +kernel⟩

/-- The first request in two parts, the second part with the beginning of a
`POST` that the last read completes. -/
theorem keepAlive_served_get_post :
    ∃ t, Session.Reads (some fun _ _ response => response) (Session.start 0)
        [getRequest.bytes.take 9, getRequest.bytes.drop 9 ++ postRequest.bytes.take 5,
          postRequest.bytes.drop 5] t ∧
      t.served.map ownParts = [getRequest, postRequest].map Request.own ∧
      Act.sendMessage badRequest ∉ t.acts :=
  (keepAlive_served_iff (fun _ _ response => response) 0 [getRequest, postRequest]
    (by simp [getRequest_wellFormed, postRequest_wellFormed]) _ (by decide +kernel)
    (by decide +kernel)).mpr (by decide +kernel)

/-- Two requests in one read: the second one waits for bytes that never come. -/
theorem keepAlive_two_in_one_read :
    getRequest.WellFormed ∧
      [getRequest.bytes ++ getRequest.bytes].flatten =
        stream Request.bytes [getRequest, getRequest] ∧
      ¬ ∃ t, Session.Reads (some fun _ _ response => response) (Session.start 0)
          [getRequest.bytes ++ getRequest.bytes] t ∧
        t.served.map ownParts = [getRequest, getRequest].map Request.own ∧
        Act.sendMessage badRequest ∉ t.acts := by
  refine ⟨getRequest_wellFormed, by decide +kernel, ?_⟩
  rintro ⟨t, hreads, hserved, _⟩
  obtain ⟨u, hu, hone⟩ := Session.exists_reads_of_readAll (some fun _ _ response => response)
    (Session.start 0) 10 [getRequest.bytes ++ getRequest.bytes] (fun u => u.served.length = 1)
    (by decide +kernel) (by decide +kernel)
  rw [hreads.unique hu] at hserved
  have htwo := congrArg List.length hserved
  simp [hone] at htwo

end Voyager.HttpServer
