import Voyager.HttpPrinter

/-!
What the two parsers make of a printed message that is in one buffer. A response
comes back as it was. A request does so only without a query: the printer writes the
question mark in front of the query, and the parser takes it for a part of it.
-/
namespace Voyager

open Lib.CString

/-- The text of a `Content-Length` that says the size of a body. -/
structure IsSizeOf (s body : List Byte) : Prop where
  size_lt : body.length < 2 ^ 31
  ne_nil : s ≠ []
  digits : ∀ c ∈ s, isDigit c = true
  value : decimal s = body.length

theorem IsSizeOf.atoi_eq {s body : List Byte} (h : IsSizeOf s body) :
    HttpParser.toInt body.length = atoi s := by
  have hatoi : atoi ([] ++ (s ++ [])) = ((min (decimal s) (2 ^ 63 - 1) : ℕ) : Int).bmod (2 ^ 32) :=
    atoi_digits (by simp) h.ne_nil h.digits (by simp)
  have hlt := h.size_lt
  rw [List.nil_append, List.append_nil, h.value, Nat.min_eq_left (by omega)] at hatoi
  rw [hatoi]
  rfl

namespace HttpParser

variable {μ : Type*} {g : Grammar μ}

/-- The last turn takes all that is left: nothing, or a body of the size that is said. -/
theorem turn_kBody_done {m m' : μ} {body : List Byte}
    (h : (g.contentLength m = none ∧ body = [] ∧ m' = m) ∨
      ∃ s, g.contentLength m = some s ∧ IsSizeOf s body ∧ m' = g.setBody m body) :
    View.turn g ⟨.kBody, m, body⟩ = (.stop, ⟨.kEnd, m', []⟩) := by
  rcases h with ⟨hnone, rfl, rfl⟩ | ⟨s, hsome, hsize, rfl⟩
  · simp only [View.turn, hnone]
  · simp only [View.turn, hsome, hsize.atoi_eq, if_true]

/-- A text that is a first line, headers and a body is read by one call. -/
theorem parseBuffer_done {m m' : μ} {body : List Byte} {buf : Buffer} (hwf : buf.Wf)
    (hadv : View.Advances g ⟨.kLine, g.create, buf.readable⟩ ⟨.kBody, m, body⟩)
    (hbody : (g.contentLength m = none ∧ body = [] ∧ m' = m) ∨
      ∃ s, g.contentLength m = some s ∧ IsSizeOf s body ∧ m' = g.setBody m body) :
    ∃ fuel buf', (∀ n, fuel ≤ n → parseBuffer g n (create g) buf =
      some (true, ⟨.kEnd, m'⟩, buf')) ∧ buf'.readable = [] := by
  have hturn := turn_kBody_done hbody
  have hend : (create g).state ≠ .kEnd := by simp [create]
  obtain ⟨fuel, ⟨state, message⟩, buf', hparse, -, hview⟩ :=
    exists_parseBuffer (p := create g) hwf hadv (by simp [hturn]) hend
  rw [hturn] at hview hparse
  simp only [view, View.mk.injEq] at hview
  obtain ⟨rfl, rfl, hrest⟩ := hview
  refine ⟨fuel, buf', ?_, hrest⟩
  intro n hn
  exact parseBuffer_mono g hparse hn

end HttpParser

namespace HttpMessage

/-- The lines of an orderly map, as the parsers see them. -/
theorem headerLines_eq (blanks : List Byte) (headers : List (List Byte × List Byte)) :
    headerLines (58 :: blanks) headers =
      (headers.map fun h => (h.1, blanks ++ h.2)).flatMap
        fun h => h.1 ++ 58 :: h.2 ++ [13, 10] := by
  induction headers with
  | nil => rfl
  | cons h rest ih =>
    rw [headerLines, List.flatMap_cons, List.map_cons, List.flatMap_cons, ← ih, headerLines]
    simp

theorem Orderly.isHeader {headers : List (List Byte × List Byte)} (h : Orderly headers)
    {blanks : List Byte} (hblanks : ∀ b ∈ blanks, b = 32) :
    ∀ e ∈ headers.map (fun h => (h.1, blanks ++ h.2)), HttpParser.View.IsHeader e := by
  intro e he
  obtain ⟨e, hmem, rfl⟩ := List.mem_map.mp he
  have hlegible := h.legible e hmem
  refine ⟨hlegible.field_ne, hlegible.field.1, hlegible.field.2.1, ?_⟩
  intro hcr
  rcases List.mem_append.mp hcr with hcr | hcr
  · exact absurd (hblanks 13 hcr) (by decide)
  · exact hlegible.value.1 hcr

end HttpMessage

namespace HttpParser

variable {μ : Type*} {g : Grammar μ}

/-- The loop goes through the first line and the headers of a printed message. -/
theorem advances_printed {line : List Byte} {m : μ} (hcr : (13 : Byte) ∉ line)
    (hline : g.parseLine g.create line = (true, m)) {headers : List (List Byte × List Byte)}
    (h : HttpMessage.Orderly headers) {blanks : List Byte} (hblanks : ∀ b ∈ blanks, b = 32)
    (body : List Byte) :
    View.Advances g
      ⟨.kLine, g.create, line ++ 13 :: 10 ::
        (HttpMessage.headerLines (58 :: blanks) headers ++ 13 :: 10 :: body)⟩
      ⟨.kBody, (headers.map fun h => (h.1, blanks ++ h.2)).foldl
        (fun m h => g.addHeader m h.1 h.2) m, body⟩ := by
  have hheaders := View.advances_headers (g := g) (h.isHeader hblanks) m body
  rw [← HttpMessage.headerLines_eq] at hheaders
  exact .step (View.turn_line hcr hline _) hheaders

end HttpParser

/-- A text without white space has no line end. -/
theorem not_mem_of_isSpace {s : List Byte} (h : ∀ c ∈ s, isSpace c = false) : (13 : Byte) ∉ s := by
  intro hmem
  exact absurd (h 13 hmem) (by decide)

/-! Requests. -/

namespace HttpRequest

/-- A request as a client can build it and mean it to be sent. -/
structure Printable (r : HttpRequest) : Prop where
  method : r.method.isSome = true
  path : ∀ c ∈ r.path, isSpace c = false ∧ c ≠ 63
  query : ∀ c ∈ r.query, isSpace c = false ∧ c ≠ 63
  headers : ∃ headers, (∀ h ∈ headers, HttpMessage.Legible h) ∧
    r.headerMap = (HttpMessage.create.addHeaders headers).headerMap
  body : if r.method = some .kPost ∧ r.value HttpMessage.kContentLength ≠ [] then
    IsSizeOf (r.value HttpMessage.kContentLength) r.body else r.body = []

/-- What is read back: the query has got the question mark. -/
def readBack (r : HttpRequest) : HttpRequest :=
  { r with query := if r.query = [] then [] else 63 :: r.query }

/-- The bytes of `RequestMessage()`, in one buffer, are parsed by one call, to the same request. -/
def RoundTrips (r : HttpRequest) : Prop :=
  ∀ initSize buf, buf.Wf → buf.readable = (r.requestMessage (.ofSize initSize)).readable →
    ∃ fuel p buf',
      (∀ n, fuel ≤ n → HttpRequestParser.parseBuffer n HttpRequestParser.create buf =
        some (true, p, buf')) ∧
      p.finishParse = true ∧ p.message = r

variable {r : HttpRequest}

theorem Printable.orderly (h : r.Printable) : HttpMessage.Orderly r.headerMap := by
  obtain ⟨headers, hlegible, heq⟩ := h.headers
  rw [heq]
  exact HttpMessage.orderly_nil.addHeaders hlegible

/-- The query begins at the question mark, which is the only one. -/
theorem setTarget_target (h : r.Printable) (q : HttpRequest) (hq : q.query = []) :
    HttpRequestParser.setTarget q r.target =
      { q with path := r.path, query := r.readBack.query } := by
  unfold target readBack HttpRequestParser.setTarget
  by_cases hquery : r.query = []
  · have hfind : r.path.reverse.findIdx? (· == 63) = none := by
      rw [List.findIdx?_eq_none_iff]
      intro c hc
      simpa using (h.path c (List.mem_reverse.mp hc)).2
    simp only [hquery, ne_eq, not_true_eq_false, if_false, if_true, hfind]
    rw [← hq]
  · have hback : r.query.reverse.findIdx? (· == 63) = none := by
      rw [List.findIdx?_eq_none_iff]
      intro c hc
      simpa using (h.query c (List.mem_reverse.mp hc)).2
    have hfind : (r.path ++ 63 :: r.query).reverse.findIdx? (· == 63) = some r.query.length := by
      rw [List.reverse_append, List.reverse_cons, List.append_assoc, List.findIdx?_append, hback]
      simp [List.findIdx?_cons]
    have hp : (r.path ++ 63 :: r.query).length - 1 - r.query.length = r.path.length := by
      simp only [List.length_append, List.length_cons]
      omega
    simp only [hquery, ne_eq, not_false_eq_true, if_true, if_false, hfind]
    rw [hp, List.take_left, List.drop_left]

theorem isSpace_target (h : r.Printable) : ∀ c ∈ r.target, isSpace c = false := by
  intro c hc
  unfold target at hc
  split at hc
  · rcases List.mem_append.mp hc with hpath | hrest
    · exact (h.path c hpath).1
    · rcases List.mem_cons.mp hrest with rfl | hquery
      · decide
      · exact (h.query c hquery).1
  · exact (h.path c hc).1

theorem isSpace_methodText (h : r.Printable) : ∀ c ∈ r.methodText, isSpace c = false := by
  obtain ⟨m, hm⟩ := Option.isSome_iff_exists.mp h.method
  unfold methodText
  rw [hm]
  exact isSpace_methodToString m

/-- The request with its first line only. -/
def lineOnly (r : HttpRequest) : HttpRequest :=
  { r.readBack with headerMap := [], body := [] }

theorem parseRequestLine_requestLine (h : r.Printable) :
    HttpRequestParser.parseRequestLine .create r.requestLine = (true, r.lineOnly) := by
  obtain ⟨m, hm⟩ := Option.isSome_iff_exists.mp h.method
  have htext : r.methodText = methodToString m := by
    unfold methodText
    rw [hm]
  unfold HttpRequestParser.parseRequestLine requestLine
  rw [HttpRequestParser.word_append (isSpace_methodText h) (by decide), htext]
  simp only [setMethod_methodToString]
  rw [HttpRequestParser.word_append (isSpace_target h) (by decide)]
  have htarget := setTarget_target h { create with method := some m } rfl
  simp only [htarget, setVersion_versionToString]
  rw [← hm]
  rfl

theorem not_mem_requestLine (h : r.Printable) : (13 : Byte) ∉ r.requestLine := by
  simp only [requestLine, List.mem_append, List.mem_cons, not_or]
  exact ⟨not_mem_of_isSpace (isSpace_methodText h), by decide,
    not_mem_of_isSpace (isSpace_target h), by decide,
    not_mem_of_isSpace (HttpMessage.isSpace_versionToString _)⟩

theorem foldl_addHeaderText (headers : List (List Byte × List Byte)) (q : HttpRequest) :
    headers.foldl (fun q h => q.addHeaderText h.1 h.2) q =
      { q with toHttpMessage :=
          headers.foldl (fun m h => m.addHeaderText h.1 h.2) q.toHttpMessage } := by
  induction headers generalizing q with
  | nil => rfl
  | cons h rest ih => exact ih (q.addHeaderText h.1 h.2)

/-- The loop goes through the line and the headers. -/
theorem advances_requestMessage (h : r.Printable) :
    HttpParser.View.Advances HttpRequestParser.grammar
      ⟨.kLine, .create, r.requestLine ++ 13 :: 10 ::
        (HttpMessage.headerLines (ascii ":") r.headerMap ++ 13 :: 10 :: r.body)⟩
      ⟨.kBody, { r.readBack with body := [] }, r.body⟩ := by
  have hblanks : ∀ b ∈ ([] : List Byte), b = 32 := by simp
  have hadv := HttpParser.advances_printed (g := HttpRequestParser.grammar)
    (not_mem_requestLine h) (parseRequestLine_requestLine h) h.orderly hblanks r.body
  have hmap := HttpMessage.foldl_addHeaderText h.orderly hblanks
    (m := r.lineOnly.toHttpMessage) rfl
  simp only [HttpRequestParser.grammar] at hadv ⊢
  rw [foldl_addHeaderText, hmap] at hadv
  exact hadv

theorem contentLength_readBack (h : r.Printable) :
    (HttpRequestParser.grammar.contentLength { r.readBack with body := [] } = none ∧
        r.body = [] ∧ r.readBack = { r.readBack with body := [] }) ∨
      ∃ s, HttpRequestParser.grammar.contentLength { r.readBack with body := [] } = some s ∧
        IsSizeOf s r.body ∧
        r.readBack = HttpRequestParser.grammar.setBody { r.readBack with body := [] } r.body := by
  have hbody := h.body
  have hlength : HttpRequestParser.grammar.contentLength { r.readBack with body := [] } =
      if r.method ≠ some .kPost ∨ r.value HttpMessage.kContentLength = [] then none
      else some (r.value HttpMessage.kContentLength) := rfl
  rw [hlength]
  by_cases hpost : r.method = some .kPost ∧ r.value HttpMessage.kContentLength ≠ []
  · right
    rw [if_pos hpost] at hbody
    refine ⟨_, if_neg ?_, hbody, rfl⟩
    rintro (hmethod | hvalue)
    · exact hmethod hpost.1
    · exact hpost.2 hvalue
  · left
    rw [if_neg hpost] at hbody
    refine ⟨if_pos ?_, hbody, ?_⟩
    · by_contra hnot
      push Not at hnot
      exact hpost hnot
    · obtain ⟨⟨version, headerMap, body⟩, method, path, query⟩ := r
      simp only at hbody
      subst hbody
      rfl

/-- A printed request is parsed by one call, and nothing is left of it. -/
theorem parseBuffer_requestMessage (h : r.Printable) (initSize : ℕ) {buf : Buffer}
    (hwf : buf.Wf) (hbuf : buf.readable = (r.requestMessage (.ofSize initSize)).readable) :
    ∃ fuel buf', (∀ n, fuel ≤ n → HttpRequestParser.parseBuffer n HttpRequestParser.create buf =
      some (true, ⟨.kEnd, r.readBack⟩, buf')) ∧ buf'.readable = [] := by
  have htext := (holds_requestMessage r (Buffer.holds_ofSize initSize)).readable
  rw [List.nil_append] at htext
  have hadv := advances_requestMessage h
  rw [← htext, ← hbuf] at hadv
  exact HttpParser.parseBuffer_done hwf hadv (contentLength_readBack h)

theorem readBack_eq_iff : r.readBack = r ↔ r.query = [] := by
  constructor
  · intro heq
    have hquery : r.readBack.query = r.query := by rw [heq]
    by_contra hne
    simp only [readBack, if_neg hne] at hquery
    exact List.cons_ne_self 63 r.query hquery
  · intro hquery
    obtain ⟨message, method, path, query⟩ := r
    simp only at hquery
    subst hquery
    rfl

theorem RoundTrips.readBack_eq (htrips : r.RoundTrips) (h : r.Printable) : r.readBack = r := by
  have hwf := (holds_requestMessage r (Buffer.holds_ofSize 0)).wf
  obtain ⟨fuel, p, buf, hparse, -, hmessage⟩ := htrips 0 _ hwf rfl
  obtain ⟨fuel', buf', hparse', -⟩ := parseBuffer_requestMessage h 0 hwf rfl
  have hsame := hparse (max fuel fuel') (Nat.le_max_left _ _)
  rw [hparse' _ (Nat.le_max_right _ _)] at hsame
  simp only [Option.some.injEq, Prod.mk.injEq, true_and] at hsame
  have hback : r.readBack = p.message := congrArg HttpParser.message hsame.1
  exact hback.trans hmessage

/-- Printing and parsing give the same request back exactly if it has no query. -/
theorem roundTrips_iff (h : r.Printable) : r.RoundTrips ↔ r.query = [] := by
  rw [← readBack_eq_iff]
  constructor
  · intro htrips
    exact htrips.readBack_eq h
  · intro heq initSize buf hwf hbuf
    obtain ⟨fuel, buf', hparse, -⟩ := parseBuffer_requestMessage h initSize hwf hbuf
    exact ⟨fuel, _, buf', hparse, rfl, heq⟩

/-- A `POST` with a body. -/
def bodyRequest : HttpRequest where
  version := .kHttp11
  headerMap := [(ascii "Content-Length", ascii "2"), (ascii "Host", ascii "a:1 ")]
  body := [0, 255]
  method := some .kPost
  path := ascii "/a"
  query := []

theorem printable_bodyRequest : bodyRequest.Printable where
  method := rfl
  path := by decide +kernel
  query := by decide +kernel
  headers := ⟨[(ascii "host", ascii "b"), (ascii "content-length", ascii "2"),
    (ascii "HOST", ascii "a:1 ")], by
      intro h hh
      simp only [List.mem_cons, List.not_mem_nil, or_false] at hh
      rcases hh with rfl | rfl | rfl
      · exact ⟨by decide, by decide, by decide, by decide⟩
      · exact ⟨by decide, by decide, by decide, by decide⟩
      · exact ⟨by decide, by decide, by decide, by decide⟩, by decide⟩
  body := by
    rw [if_pos (by decide)]
    exact ⟨by decide, by decide, by decide +kernel, by decide⟩

theorem roundTrips_bodyRequest : bodyRequest.RoundTrips ↔ bodyRequest.query = [] :=
  roundTrips_iff printable_bodyRequest

/-- A `GET` with a query. -/
def queryRequest : HttpRequest where
  version := .kHttp11
  headerMap := []
  body := []
  method := some .kGet
  path := ascii "/a"
  query := ascii "b=1"

theorem printable_queryRequest : queryRequest.Printable where
  method := rfl
  path := by decide +kernel
  query := by decide +kernel
  headers := ⟨[], by simp, rfl⟩
  body := by
    rw [if_neg (by decide)]
    rfl

/-- Its query comes back as `?b=1`. -/
theorem not_roundTrips_queryRequest : queryRequest.Printable ∧ ¬queryRequest.RoundTrips := by
  refine ⟨printable_queryRequest, ?_⟩
  intro htrips
  exact absurd (htrips.readBack_eq printable_queryRequest) (by decide)

end HttpRequest

/-! Responses. -/

namespace HttpResponse

/-- A response as a server can build it and mean it to be sent. -/
structure Printable (r : HttpResponse) : Prop where
  statusCode : r.statusCode ≠ [] ∧ ∀ c ∈ r.statusCode, isSpace c = false
  reasonParse : 13 ∉ r.reasonParse ∧ 10 ∉ r.reasonParse ∧
    ∀ c ∈ r.reasonParse.head?, isSpace c = false
  headers : ∃ headers, (∀ h ∈ headers, HttpMessage.Legible h) ∧
    r.headerMap = (HttpMessage.create.addHeaders headers).headerMap
  body : IsSizeOf (r.value HttpMessage.kContentLength) r.body ∨
    (r.value HttpMessage.kContentLength = [] ∧ r.body = [])

variable {r : HttpResponse}

theorem Printable.orderly (h : r.Printable) : HttpMessage.Orderly r.headerMap := by
  obtain ⟨headers, hlegible, heq⟩ := h.headers
  rw [heq]
  exact HttpMessage.orderly_nil.addHeaders hlegible

/-- The response with its first line only. -/
def lineOnly (r : HttpResponse) : HttpResponse :=
  { r with headerMap := [], body := [], close := false }

/-- The blank behind a text ends it, and the text behind the blank begins what follows. -/
theorem split_blank {text rest : List Byte} (htext : ∀ c ∈ text, isSpace c = false)
    (hrest : ∀ c ∈ rest.head?, isSpace c = false) :
    (text ++ 32 :: rest).takeWhile (!isSpace ·) = text ∧
      ((text ++ 32 :: rest).dropWhile (!isSpace ·)).dropWhile isSpace = rest := by
  have htext' : ∀ c ∈ text, (!isSpace c) = true := by simpa using htext
  have hstop : ∀ c ∈ (32 :: rest).head?, (!isSpace c) = false := by simp [isSpace]
  refine ⟨takeWhile_append_stop htext' hstop, ?_⟩
  rw [dropWhile_append_stop htext' hstop]
  have hblank : ∀ c ∈ [(32 : Byte)], isSpace c = true := by simp [isSpace]
  exact dropWhile_append_stop hblank hrest

theorem parseResponseLine_statusLine (h : r.Printable) :
    HttpResponseParser.parseResponseLine .create r.statusLine = (true, r.lineOnly) := by
  obtain ⟨hne, hspace⟩ := h.statusCode
  have hcode : ∀ c ∈ (r.statusCode ++ 32 :: r.reasonParse).head?, isSpace c = false := by
    obtain ⟨c, code, hcons⟩ := List.exists_cons_of_ne_nil hne
    rw [hcons] at hspace ⊢
    simpa using hspace c (by simp)
  obtain ⟨hversion, hrest⟩ :=
    split_blank (HttpMessage.isSpace_versionToString r.toHttpMessage) hcode
  obtain ⟨hstatus, hreason⟩ := split_blank hspace h.reasonParse.2.2
  unfold HttpResponseParser.parseResponseLine statusLine
  simp only [hversion, hrest, hstatus, hreason, setVersion,
    HttpMessage.setVersion_versionToString]
  rfl

theorem not_mem_statusLine (h : r.Printable) : (13 : Byte) ∉ r.statusLine := by
  simp only [statusLine, List.mem_append, List.mem_cons, not_or]
  exact ⟨not_mem_of_isSpace (HttpMessage.isSpace_versionToString _), by decide,
    not_mem_of_isSpace h.statusCode.2, by decide, h.reasonParse.1⟩

theorem foldl_addHeaderText (headers : List (List Byte × List Byte)) (q : HttpResponse) :
    headers.foldl (fun q h => q.addHeaderText h.1 h.2) q =
      { q with toHttpMessage :=
          headers.foldl (fun m h => m.addHeaderText h.1 h.2) q.toHttpMessage } := by
  induction headers generalizing q with
  | nil => rfl
  | cons h rest ih => exact ih (q.addHeaderText h.1 h.2)

theorem advances_responseMessage (h : r.Printable) :
    HttpParser.View.Advances HttpResponseParser.grammar
      ⟨.kLine, .create, r.statusLine ++ 13 :: 10 ::
        (HttpMessage.headerLines (ascii ": ") r.headerMap ++ 13 :: 10 :: r.body)⟩
      ⟨.kBody, { r.setCloseState false with body := [] }, r.body⟩ := by
  have hblanks : ∀ b ∈ [(32 : Byte)], b = 32 := by simp
  have hadv := HttpParser.advances_printed (g := HttpResponseParser.grammar)
    (not_mem_statusLine h) (parseResponseLine_statusLine h) h.orderly hblanks r.body
  have hmap := HttpMessage.foldl_addHeaderText h.orderly hblanks
    (m := r.lineOnly.toHttpMessage) rfl
  simp only [HttpResponseParser.grammar] at hadv ⊢
  rw [foldl_addHeaderText, hmap] at hadv
  exact hadv

theorem contentLength_setCloseState (h : r.Printable) :
    (HttpResponseParser.grammar.contentLength { r.setCloseState false with body := [] } = none ∧
        r.body = [] ∧ r.setCloseState false = { r.setCloseState false with body := [] }) ∨
      ∃ s, HttpResponseParser.grammar.contentLength { r.setCloseState false with body := [] } =
          some s ∧ IsSizeOf s r.body ∧
        r.setCloseState false =
          HttpResponseParser.grammar.setBody { r.setCloseState false with body := [] } r.body := by
  have hlength : HttpResponseParser.grammar.contentLength
      { r.setCloseState false with body := [] } =
      if r.value HttpMessage.kContentLength = [] then none
      else some (r.value HttpMessage.kContentLength) := rfl
  rw [hlength]
  rcases h.body with hsize | ⟨hvalue, hbody⟩
  · exact .inr ⟨_, if_neg hsize.ne_nil, hsize, rfl⟩
  · refine .inl ⟨if_pos hvalue, hbody, ?_⟩
    obtain ⟨⟨version, headerMap, body⟩, close, statusCode, reasonParse⟩ := r
    simp only at hbody
    subst hbody
    rfl

/-- The bytes of `ResponseMessage()` are parsed by one call, which leaves nothing of them, to
the same response; `close_` is not part of its text. -/
theorem parseBuffer_responseMessage (h : r.Printable) (initSize : ℕ) {buf : Buffer}
    (hwf : buf.Wf) (hbuf : buf.readable = (r.responseMessage (.ofSize initSize)).readable) :
    ∃ fuel p buf', (∀ n, fuel ≤ n →
        HttpResponseParser.parseBuffer n HttpResponseParser.create buf = some (true, p, buf')) ∧
      p.finishParse = true ∧ buf'.readable = [] ∧ p.message = r.setCloseState false := by
  have htext := (holds_responseMessage r (Buffer.holds_ofSize initSize)).readable
  rw [List.nil_append] at htext
  have hadv := advances_responseMessage h
  rw [← htext, ← hbuf] at hadv
  obtain ⟨fuel, buf', hparse, hrest⟩ :=
    HttpParser.parseBuffer_done hwf hadv (contentLength_setCloseState h)
  exact ⟨fuel, _, buf', hparse, rfl, hrest, rfl⟩

/-- A status without a phrase, and a body. -/
def bodyResponse : HttpResponse where
  version := .kHttp20
  headerMap := [(ascii "Content-Length", ascii "3"), (ascii "a b", ascii "c ")]
  body := [13, 10, 0]
  close := true
  statusCode := ascii "404"
  reasonParse := []

theorem printable_bodyResponse : bodyResponse.Printable where
  statusCode := ⟨by decide, by decide +kernel⟩
  reasonParse := ⟨by decide, by decide, by simp [bodyResponse]⟩
  headers := ⟨[(ascii "CONTENT-length", ascii "3"), (ascii "a b", ascii "c ")], by
      intro h hh
      simp only [List.mem_cons, List.not_mem_nil, or_false] at hh
      rcases hh with rfl | rfl
      · exact ⟨by decide, by decide, by decide, by decide⟩
      · exact ⟨by decide, by decide, by decide, by decide⟩, by decide⟩
  body := .inl ⟨by decide, by decide, by decide +kernel, by decide⟩

theorem parseBuffer_responseMessage_body :
    ∃ fuel p buf', HttpResponseParser.parseBuffer fuel HttpResponseParser.create
        (bodyResponse.responseMessage (.ofSize 16)) = some (true, p, buf') ∧
      p.finishParse = true ∧ buf'.readable = [] ∧
      p.message = bodyResponse.setCloseState false := by
  have hwf := (holds_responseMessage bodyResponse (Buffer.holds_ofSize 16)).wf
  obtain ⟨fuel, p, buf', hparse, hrest⟩ :=
    parseBuffer_responseMessage printable_bodyResponse 16 hwf rfl
  exact ⟨fuel, p, buf', hparse fuel (Nat.le_refl _), hrest⟩

end HttpResponse

end Voyager
