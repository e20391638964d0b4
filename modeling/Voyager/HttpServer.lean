import Voyager.HttpRequestParser

/-!
`HttpServer::OnMessage` on one connection, read after read. Each call parses
what the buffer holds, answers at most one request and leaves the parser and
the remaining bytes to the next call. What it does is recorded as a list of
acts, in the order of the source.
-/
namespace Voyager.HttpServer

open Lib.CString HttpParser

/-- `HTTP/1.1 400 Bad Request` and an empty line. -/
def badRequest : List Byte := ascii "HTTP/1.1 400 Bad Request" ++ [13, 10, 13, 10]

/-- What `OnMessage` does to its surroundings. `parseBuffer`, `finishParse`,
`getRequest` and `reset` go through the connection's context, and `refresh` does
if the connection is still connected. -/
inductive Act
  | parseBuffer (ok : Bool)
  | sendMessage (text : List Byte)
  | shutDown
  | finishParse (done : Bool)
  | getRequest (request : HttpRequest)
  | reset
  | callback (request : HttpRequest)
  | sendResponse (response : HttpResponse)
  | refresh
deriving DecidableEq, Repr

/-- The request of a call of `http_cb_`. -/
def Act.called : Act → Option HttpRequest
  | .callback request => some request
  | _ => none

/-- The request that was taken from a parser in `kEnd`. -/
def Act.parsed : Act → Option HttpRequest
  | .getRequest request => some request
  | _ => none

abbrev HttpCallback := HttpRequest → HttpResponse → HttpResponse

/-- The request asks for the connection to be closed after the response. -/
def closes (request : HttpRequest) : Bool :=
  let s := request.value HttpMessage.kConnection
  strcasecmp s (ascii "close") = 0 ∨
    strcasecmp s (ascii "keep-alive") ≠ 0 ∧ request.version = .kHttp10

/-- The part of `OnMessage` behind `if (parser.FinishParse())`. -/
def answer (httpCb : Option HttpCallback) (parser : HttpParser HttpRequest) :
    HttpParser HttpRequest × List Act :=
  let request := parser.message
  let response := HttpResponse.create.setCloseState (closes request)
  let kept := if closes request then (parser, []) else (HttpRequestParser.reset, [Act.reset])
  let called := match httpCb with
    | some cb => (cb request response, [Act.callback request])
    | none => (response, [])
  (kept.1, Act.getRequest request :: kept.2 ++ called.2 ++ [.sendResponse called.1] ++
    if called.1.close then [.shutDown] else [])

/-- `OnMessage` once `ParseBuffer` has returned `ok`. -/
def afterParse (httpCb : Option HttpCallback) (ok : Bool) (parser : HttpParser HttpRequest) :
    HttpParser HttpRequest × List Act :=
  let rejected := if ok then [] else [.sendMessage badRequest, .shutDown]
  let answered := if parser.finishParse then answer httpCb parser else (parser, [])
  (answered.1, .parseBuffer ok :: rejected ++ .finishParse parser.finishParse :: answered.2 ++
    [.refresh])

def onMessage (httpCb : Option HttpCallback) (fuel : ℕ) (parser : HttpParser HttpRequest)
    (buf : Buffer) : Option (HttpParser HttpRequest × Buffer × List Act) :=
  (HttpRequestParser.parseBuffer fuel parser buf).map fun r =>
    let rest := afterParse httpCb r.1 r.2.1
    (rest.1, r.2.2, rest.2)

/-- A connection as its `OnMessage` calls see it, and all they have done. -/
structure Session where
  parser : HttpParser HttpRequest
  readbuf : Buffer
  acts : List Act
deriving DecidableEq, Repr

namespace Session

def start (initSize : ℕ) : Session := ⟨HttpRequestParser.create, .ofSize initSize, []⟩

/-- The requests that `http_cb_` was called with, in order. -/
def served (s : Session) : List HttpRequest := s.acts.filterMap Act.called

/-- The requests with which the parser reached `kEnd`, in order. -/
def requests (s : Session) : List HttpRequest := s.acts.filterMap Act.parsed

def view (s : Session) : View HttpRequest := s.parser.view s.readbuf

section Reads

variable (httpCb : Option (List Act → HttpCallback))

/-- `HandleRead` with bytes from the socket: they are appended and `OnMessage`
is called. The callback may depend on all that happened before. -/
def read (fuel : ℕ) (s : Session) (data : List Byte) : Option Session :=
  (onMessage (httpCb.map (· s.acts)) fuel s.parser (s.readbuf.readV (some data))).map fun r =>
    ⟨r.1, r.2.1, s.acts ++ r.2.2⟩

def readAll (fuel : ℕ) : Session → List (List Byte) → Option Session
  | s, [] => some s
  | s, data :: rest => (s.read httpCb fuel data).bind fun t => readAll fuel t rest

/-- The reads of a socket, none of which is empty, lead from `s` to `t`. -/
def Reads (s : Session) (chunks : List (List Byte)) (t : Session) : Prop :=
  (∀ data ∈ chunks, data ≠ []) ∧ ∃ fuel, s.readAll httpCb fuel chunks = some t

end Reads

variable {httpCb : Option (List Act → HttpCallback)} {s t : Session} {data : List Byte}

/-- The result of one read, given the view `w` whose turn ends the loop. -/
structure Ends (httpCb : Option (List Act → HttpCallback)) (s : Session) (data : List Byte)
    (w : View HttpRequest) (t : Session) : Prop where
  advances : View.Advances HttpRequestParser.grammar (s.view.feed data) w
  last : (View.turn HttpRequestParser.grammar w).1 ≠ .more
  wf : t.readbuf.Wf
  bytes : t.readbuf.readable = (View.turn HttpRequestParser.grammar w).2.bytes
  parser : t.parser = (afterParse (httpCb.map (· s.acts))
    (decide ((View.turn HttpRequestParser.grammar w).1 = .stop))
    ⟨(View.turn HttpRequestParser.grammar w).2.state,
      (View.turn HttpRequestParser.grammar w).2.message⟩).1
  acts : t.acts = s.acts ++ (afterParse (httpCb.map (· s.acts))
    (decide ((View.turn HttpRequestParser.grammar w).1 = .stop))
    ⟨(View.turn HttpRequestParser.grammar w).2.state,
      (View.turn HttpRequestParser.grammar w).2.message⟩).2

theorem view_readV (hwf : s.readbuf.Wf) (data : List Byte) :
    (s.readbuf.readV (some data)).Wf ∧
      s.parser.view (s.readbuf.readV (some data)) = s.view.feed data := by
  obtain ⟨hwf', hread⟩ := Buffer.readV_spec hwf data
  exact ⟨hwf', by simp [Session.view, HttpParser.view, View.feed, hread]⟩

theorem read_ends {fuel : ℕ} (hwf : s.readbuf.Wf) (h : s.read httpCb fuel data = some t) :
    ∃ w, Ends httpCb s data w t := by
  obtain ⟨hwf', hview⟩ := view_readV hwf data
  rw [read, Option.map_eq_some_iff] at h
  obtain ⟨r, hr, rfl⟩ := h
  rw [onMessage, Option.map_eq_some_iff] at hr
  obtain ⟨⟨ok, parser, buf⟩, hparse, rfl⟩ := hr
  cases fuel with
  | zero => simp [HttpRequestParser.parseBuffer, HttpParser.parseBuffer, loop] at hparse
  | succ fuel =>
    obtain ⟨hspec, hbuf⟩ := parseBuffer_spec HttpRequestParser.grammar fuel s.parser hwf'
    rw [HttpRequestParser.parseBuffer] at hparse
    rw [hparse, hview] at hspec
    obtain ⟨w, hadv, hlast, hresult⟩ := View.exists_advances_of_parse hspec.symm
    simp only [HttpParser.view, Prod.mk.injEq] at hresult
    obtain ⟨hok, hres⟩ := hresult
    refine ⟨w, hadv, hlast, hbuf _ hparse, ?_, ?_, ?_⟩
    · rw [← hres]
    · rw [← hres, hok]
    · rw [← hres, hok]

theorem exists_read (httpCb : Option (List Act → HttpCallback)) (hwf : s.readbuf.Wf)
    (hend : s.parser.state ≠ .kEnd) (data : List Byte) :
    ∃ fuel t, s.read httpCb fuel data = some t := by
  obtain ⟨hwf', _⟩ := view_readV hwf data
  obtain ⟨fuel, r, hr⟩ :=
    (exists_parseBuffer_iff (g := HttpRequestParser.grammar) s.parser hwf').mpr hend
  exact ⟨fuel, _, by rw [read, onMessage, HttpRequestParser.parseBuffer, hr]; rfl⟩

theorem read_state_ne_kEnd {fuel : ℕ} (hwf : s.readbuf.Wf)
    (h : s.read httpCb fuel data = some t) : s.parser.state ≠ .kEnd := by
  obtain ⟨hwf', _⟩ := view_readV hwf data
  rw [read, Option.map_eq_some_iff] at h
  obtain ⟨r, hr, _⟩ := h
  rw [onMessage, Option.map_eq_some_iff] at hr
  obtain ⟨r', hparse, _⟩ := hr
  apply (exists_parseBuffer_iff (g := HttpRequestParser.grammar) s.parser hwf').mp
  exact ⟨fuel, r', hparse⟩

theorem read_mono {fuel fuel' : ℕ} (h : s.read httpCb fuel data = some t) (hle : fuel ≤ fuel') :
    s.read httpCb fuel' data = some t := by
  rw [read, onMessage, HttpRequestParser.parseBuffer, Option.map_map,
    Option.map_eq_some_iff] at h
  obtain ⟨r, hparse, hr⟩ := h
  rw [read, onMessage, HttpRequestParser.parseBuffer, parseBuffer_mono _ hparse hle,
    Option.map_map, Option.map_some, hr]

theorem readAll_mono {fuel fuel' : ℕ} {chunks : List (List Byte)}
    (h : s.readAll httpCb fuel chunks = some t) (hle : fuel ≤ fuel') :
    s.readAll httpCb fuel' chunks = some t := by
  induction chunks generalizing s with
  | nil => exact h
  | cons data rest ih =>
    rw [readAll, Option.bind_eq_some_iff] at h ⊢
    obtain ⟨u, hu, hrest⟩ := h
    exact ⟨u, read_mono hu hle, ih hrest⟩

/-- The reads have at most one result. -/
theorem Reads.unique {u : Session} {chunks : List (List Byte)} (h : Reads httpCb s chunks t)
    (h' : Reads httpCb s chunks u) : t = u := by
  obtain ⟨_, fuel, ht⟩ := h
  obtain ⟨_, fuel', hu⟩ := h'
  have ht' := readAll_mono ht (Nat.le_max_left fuel fuel')
  have hu' := readAll_mono hu (Nat.le_max_right fuel fuel')
  rw [ht', Option.some.injEq] at hu'
  exact hu'

theorem Reads.nil (s : Session) : Reads httpCb s [] s := ⟨by simp, 0, rfl⟩

theorem reads_cons_iff {chunks : List (List Byte)} :
    Reads httpCb s (data :: chunks) t ↔
      data ≠ [] ∧ ∃ fuel u, s.read httpCb fuel data = some u ∧ Reads httpCb u chunks t := by
  constructor
  · rintro ⟨hne, fuel, h⟩
    rw [readAll, Option.bind_eq_some_iff] at h
    obtain ⟨u, hu, hrest⟩ := h
    refine ⟨hne data (by simp), fuel, u, hu, ?_, fuel, hrest⟩
    exact fun d hd => hne d (by simp [hd])
  · rintro ⟨hne, fuel, u, hu, hrest, fuel', h⟩
    refine ⟨?_, max fuel fuel', ?_⟩
    · simp only [List.mem_cons, forall_eq_or_imp]
      exact ⟨hne, hrest⟩
    · rw [readAll, read_mono hu (Nat.le_max_left _ _)]
      exact readAll_mono h (Nat.le_max_right _ _)

/-- A concrete run of reads whose last state passes the test `p`. -/
theorem exists_reads_of_readAll (httpCb : Option (List Act → HttpCallback)) (s : Session)
    (fuel : ℕ) (chunks : List (List Byte)) (p : Session → Prop)
    [DecidablePred p] (hne : ∀ data ∈ chunks, data ≠ [])
    (h : (s.readAll httpCb fuel chunks).any (fun t => decide (p t)) = true) :
    ∃ t, Reads httpCb s chunks t ∧ p t := by
  cases hrun : s.readAll httpCb fuel chunks with
  | none => simp [hrun] at h
  | some t =>
    rw [hrun, Option.any_some, decide_eq_true_eq] at h
    exact ⟨t, ⟨hne, fuel, hrun⟩, h⟩

/-- What each read preserves holds after all reads. -/
theorem Reads.invariant {P : Session → Prop} {chunks : List (List Byte)}
    (h : Reads httpCb s chunks t) (hs : P s)
    (hstep : ∀ s fuel data t, P s → s.read httpCb fuel data = some t → P t) : P t := by
  induction chunks generalizing s with
  | nil =>
    obtain ⟨_, _, hst⟩ := h
    simp only [readAll, Option.some.injEq] at hst
    exact hst ▸ hs
  | cons data rest ih =>
    obtain ⟨_, fuel, u, hu, hrest⟩ := reads_cons_iff.mp h
    exact ih hrest (hstep _ _ _ _ hs hu)

theorem Reads.wf {chunks : List (List Byte)} (h : Reads httpCb s chunks t)
    (hwf : s.readbuf.Wf) : t.readbuf.Wf := by
  apply h.invariant (P := fun s => s.readbuf.Wf) hwf
  intro s fuel data t hwf hread
  obtain ⟨w, hends⟩ := read_ends hwf hread
  exact hends.wf

end Session

section AfterParse

variable (httpCb : Option HttpCallback) (ok : Bool) {parser : HttpParser HttpRequest}

/-- A parser that is not at its end is left as it is. -/
theorem afterParse_of_ne (h : parser.state ≠ .kEnd) :
    afterParse httpCb ok parser = (parser,
      .parseBuffer ok :: (if ok then [] else [.sendMessage badRequest, .shutDown]) ++
        [.finishParse false, .refresh]) := by
  have hfinish : parser.finishParse = false := by simpa [finishParse] using h
  simp [afterParse, hfinish]

theorem afterParse_fst_of_kEnd (h : parser.state = .kEnd) :
    (afterParse httpCb ok parser).1 =
      if closes parser.message then parser else HttpRequestParser.reset := by
  have hfinish : parser.finishParse = true := by simpa [finishParse] using h
  simp only [afterParse, hfinish, if_true, answer]
  split <;> rfl

/-- Which acts of `answer` a selection picks that is not about its answers. -/
theorem filterMap_answer (parser : HttpParser HttpRequest) {α : Type*} (f : Act → Option α)
    (hreset : f .reset = none) (hshut : f .shutDown = none)
    (hsend : ∀ response, f (.sendResponse response) = none) :
    (answer httpCb parser).2.filterMap f = (f (.getRequest parser.message)).toList ++
      if httpCb.isSome then (f (.callback parser.message)).toList else [] := by
  have hlast : ∀ c : Bool, (if c then [Act.shutDown] else []).filterMap f = [] := by
    intro c
    cases c <;> simp [hshut]
  unfold answer
  cases httpCb <;> cases hclose : closes parser.message <;>
    cases hget : f (.getRequest parser.message) <;>
    cases hcall : f (.callback parser.message) <;>
    simp [hlast, hreset, hsend, hclose, hget, hcall]

theorem parsed_afterParse :
    (afterParse httpCb ok parser).2.filterMap Act.parsed =
      if parser.finishParse then [parser.message] else [] := by
  have hanswer := filterMap_answer httpCb parser Act.parsed rfl rfl (fun _ => rfl)
  unfold afterParse
  cases parser.finishParse <;> cases ok <;>
    simp [List.filterMap_cons, List.filterMap_append, hanswer, Act.parsed]

theorem called_afterParse :
    (afterParse httpCb ok parser).2.filterMap Act.called =
      if parser.finishParse ∧ httpCb.isSome then [parser.message] else [] := by
  have hanswer := filterMap_answer httpCb parser Act.called rfl rfl (fun _ => rfl)
  unfold afterParse
  cases parser.finishParse <;> cases ok <;> cases httpCb <;>
    simp_all [List.filterMap_cons, List.filterMap_append, Act.called]

theorem badRequest_mem_afterParse :
    Act.sendMessage badRequest ∈ (afterParse httpCb ok parser).2 ↔ ok = false := by
  have hanswer : Act.sendMessage badRequest ∉ (answer httpCb parser).2 := by
    unfold answer
    cases httpCb <;> cases hclose : closes parser.message <;> simp [hclose]
  unfold afterParse
  cases parser.finishParse <;> cases ok <;> simp [hanswer]

end AfterParse

namespace Session

variable {httpCb : Option (List Act → HttpCallback)} {s t : Session} {data : List Byte}

theorem Ends.requests {w : View HttpRequest} (h : Ends httpCb s data w t) :
    t.requests = s.requests ++
      if (View.turn HttpRequestParser.grammar w).2.state = .kEnd
      then [(View.turn HttpRequestParser.grammar w).2.message] else [] := by
  unfold Session.requests
  rw [h.acts, List.filterMap_append, parsed_afterParse]
  simp [finishParse]

/-- The parser stays in `kEnd` only with a request that asked to be the last. -/
theorem kEnd_iff_closes {initSize : ℕ} {chunks : List (List Byte)}
    (h : Reads httpCb (start initSize) chunks s) :
    s.parser.state = .kEnd ↔ ∃ request ∈ s.requests, closes request = true := by
  have hinv : s.readbuf.Wf ∧
      (s.parser.state = .kEnd ↔ ∃ request ∈ s.requests, closes request = true) := by
    apply h.invariant (P := fun s => s.readbuf.Wf ∧
      (s.parser.state = .kEnd ↔ ∃ request ∈ s.requests, closes request = true))
    · exact ⟨Buffer.wf_ofSize initSize, by simp [start, Session.requests, HttpRequestParser.create,
        HttpParser.create]⟩
    · rintro s fuel data t ⟨hwf, hiff⟩ hread
      obtain ⟨w, hends⟩ := read_ends hwf hread
      have hbefore := mt hiff.mpr (read_state_ne_kEnd hwf hread)
      refine ⟨hends.wf, ?_⟩
      rw [hends.parser, hends.requests]
      by_cases hend : (View.turn HttpRequestParser.grammar w).2.state = .kEnd
      · rw [afterParse_fst_of_kEnd _ _ hend, if_pos hend]
        cases hclose : closes (View.turn HttpRequestParser.grammar w).2.message with
        | true => simp [hend, hclose]
        | false =>
          simp only [Bool.false_eq_true, if_false, List.mem_append, List.mem_singleton]
          refine ⟨by simp [HttpRequestParser.reset, HttpParser.reset], ?_⟩
          rintro ⟨request, hmem | rfl, hcloses⟩
          · exact absurd ⟨request, hmem, hcloses⟩ hbefore
          · rw [hclose] at hcloses
            cases hcloses
      · rw [afterParse_of_ne _ _ hend, if_neg hend, List.append_nil]
        exact ⟨fun h => absurd h hend, fun h => absurd h hbefore⟩
  exact hinv.2

end Session

/-- `ParseBuffer` returns exactly when the parser is not in `kEnd`; on a
connection of the server this means that no request so far asked to be the
last. -/
theorem parseBuffer_returns_iff (p : HttpParser HttpRequest) (q : HttpParser HttpResponse)
    (buf : Buffer) (hwf : buf.Wf) (httpCb : Option (List Act → HttpCallback)) (initSize : ℕ)
    (chunks : List (List Byte)) (s : Session)
    (hs : Session.Reads httpCb (Session.start initSize) chunks s) (data : List Byte) :
    ((∃ fuel r, HttpRequestParser.parseBuffer fuel p buf = some r) ↔ p.state ≠ .kEnd) ∧
    ((∃ fuel r, HttpResponseParser.parseBuffer fuel q buf = some r) ↔ q.state ≠ .kEnd) ∧
    ((∃ fuel r, HttpRequestParser.parseBuffer fuel s.parser (s.readbuf.readV (some data)) =
        some r) ↔
      ∀ request ∈ s.requests, closes request = false) := by
  refine ⟨exists_parseBuffer_iff p hwf, exists_parseBuffer_iff q hwf, ?_⟩
  obtain ⟨hwf', _⟩ := Session.view_readV (hs.wf (Buffer.wf_ofSize initSize)) data
  have hreturns := exists_parseBuffer_iff (g := HttpRequestParser.grammar) s.parser hwf'
  have hcloses := not_congr (Session.kEnd_iff_closes hs)
  refine hreturns.trans (hcloses.trans ?_)
  simp only [not_exists, not_and, Bool.not_eq_true]

theorem parseBuffer_returns_iff_start :
    (∃ fuel r, HttpRequestParser.parseBuffer fuel HttpRequestParser.create (.ofSize 0) = some r) ∧
    (∃ fuel r, HttpResponseParser.parseBuffer fuel HttpResponseParser.create (.ofSize 0) =
      some r) ∧
    ∃ fuel r, HttpRequestParser.parseBuffer fuel (Session.start 0).parser
      ((Session.start 0).readbuf.readV (some [71])) = some r := by
  obtain ⟨hrequest, hresponse, hserver⟩ := parseBuffer_returns_iff HttpRequestParser.create
    HttpResponseParser.create (.ofSize 0) (Buffer.wf_ofSize 0) none 0 [] _ (.nil _) [71]
  exact ⟨hrequest.mpr (by decide), hresponse.mpr (by decide), hserver.mpr (by decide)⟩

/-- A request of HTTP/1.0, which is the last one of its connection. -/
def lastRequest : List Byte := ascii "GET / HTTP/1.0" ++ [13, 10, 13, 10]

def okResponse : List Byte := ascii "HTTP/1.1 200 OK" ++ [13, 10, 13, 10]

/-- One more byte after it, and the loop turns for ever. -/
theorem parseBuffer_stuck_after_close :
    (∃ s, Session.Reads none (Session.start 0) [lastRequest] s ∧
      ∀ fuel, HttpRequestParser.parseBuffer fuel s.parser (s.readbuf.readV (some [71])) = none) ∧
    ∃ fuel p buf, HttpResponseParser.parseBuffer fuel HttpResponseParser.create
        ((Buffer.ofSize 0).append okResponse) = some (true, p, buf) ∧
      ∀ fuel, HttpResponseParser.parseBuffer fuel p buf = none := by
  constructor
  · obtain ⟨s, hreads, hend⟩ := Session.exists_reads_of_readAll none (.start 0) 10
      [lastRequest] (fun s => s.parser.state = .kEnd) (by decide) (by decide +kernel)
    exact ⟨s, hreads, fun fuel => parseBuffer_kEnd _ hend fuel _⟩
  · have hrun : (HttpResponseParser.parseBuffer 10 HttpResponseParser.create
        ((Buffer.ofSize 0).append okResponse)).any
          (fun r => r.1 && decide (r.2.1.state = .kEnd)) = true := by
      decide +kernel
    obtain ⟨⟨ok, p, buf⟩, hparse, hr⟩ := (Option.any_eq_true _ _).mp hrun
    simp only [Bool.and_eq_true, decide_eq_true_eq] at hr
    obtain ⟨rfl, hend⟩ := hr
    exact ⟨10, p, buf, hparse, fun fuel => parseBuffer_kEnd _ hend fuel _⟩

end Voyager.HttpServer
