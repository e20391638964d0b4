import Voyager.HttpExchange
import Voyager.HttpRejection

/-!
Which response a callback of `HttpClient` gets. However the bytes are cut up, the
server takes the requests off a connection in the order in which they were sent, and
it answers them in this order, with a rejection or with what `http_cb_` makes of the
request. So the replies and the callbacks that wait for them stay in step.
-/
namespace Voyager.HttpExchange

open Lib Lib.Runs Lib.Framing Lib.CString HttpServer HttpParser

/-! What the server does on one connection. -/

/-- The message that a client reads in the text of the 400 response. -/
def rejection : HttpResponse :=
  { HttpMessage.create with
    version := .kHttp11
    close := false
    statusCode := ascii "400"
    reasonParse := ascii "Bad Request" }

theorem serialized_rejection : rejection.serialized = badRequest := by decide

theorem printable_rejection : rejection.Printable where
  statusCode := ⟨by decide, by decide +kernel⟩
  reasonParse := ⟨by decide +kernel, by decide +kernel, by decide +kernel⟩
  headers := ⟨[], by simp, rfl⟩
  body := .inr ⟨rfl, rfl⟩

variable (httpCb : List Act → HttpCallback)

/-- The response that `OnMessage` sends for a request, after the given acts. -/
def answerTo (acts : List Act) (request : HttpRequest) : HttpResponse :=
  httpCb acts request (HttpResponse.create.setCloseState (closes request))

/-- `http_cb_` fills in responses that can be printed and read back. -/
def PrintsResponses : Prop := ∀ acts request, (answerTo httpCb acts request).Printable

/-- What `OnMessage` does when it rejects, and when it answers a request. -/
def rejectActs : List Act :=
  [.parseBuffer false, .sendMessage badRequest, .shutDown, .finishParse false, .refresh]

def answerActs (acts : List Act) (request : HttpRequest) : List Act :=
  [.parseBuffer true, .finishParse true, .getRequest request] ++
    (if closes request then [] else [.reset]) ++ [.callback request] ++
    [.sendResponse (answerTo httpCb acts request)] ++
    (if (answerTo httpCb acts request).close then [.shutDown] else []) ++ [.refresh]

/-- The response is the one to this request. When the server came to it, `http_cb_` had been
called for the requests in front of it on the connection, once each; then it was rejected, or
`http_cb_` was called for it and made the response of it. -/
def Answers (acts : List Act) (front : List HttpRequest) (request : HttpRequest)
    (response : HttpResponse) : Prop :=
  ∃ before, before.filterMap Act.called = front ∧
    (response = rejection ∧ before ++ rejectActs <+: acts ∨
      response = answerTo httpCb before request.readBack ∧
        before ++ answerActs httpCb before request.readBack <+: acts)

/-- The texts of the requests on a connection. -/
def requestStream (sent : List (HttpRequest × ℕ)) : List Byte :=
  stream (fun q => q.1.serialized) sent

/-- The first `i` requests on a connection, as the server reads them. -/
def Link.front (l : Link) (i : ℕ) : List HttpRequest := (l.sent.take i).map fun q => q.1.readBack

/-- The requests that were read so far are the first ones, and each reply is the one to the
request at its place. -/
structure Keeps (l : Link) : Prop where
  printable : ∀ q ∈ l.sent, q.1.Printable
  written : l.toServer.written = requestStream l.sent
  replies : l.toClient.written = stream id l.replies
  wf : l.session.readbuf.Wf
  served : l.session.served <+: l.sent.map fun q => q.1.readBack
  taken : ∃ here, l.toServer.seen = requestStream (l.sent.take l.session.served.length) ++ here ∧
    (l.session.parser.state ≠ .kEnd → Partway HttpRequestParser.grammar here l.session.view)
  answered : ∀ (i : ℕ) text, l.replies[i]? = some text → ∃ q response, l.sent[i]? = some q ∧
    Answers httpCb l.session.acts (l.front i) q.1 response ∧ text = response.serialized

/-- As long as the server can send, every request that it has read has its reply. -/
structure LinkOk (l : Link) : Prop extends Keeps httpCb l where
  inStep : l.state = .kConnected → l.replies.length = l.session.served.length

variable {httpCb} {l : Link}

theorem Answers.printable (hcb : PrintsResponses httpCb) {acts : List Act}
    {front : List HttpRequest} {request : HttpRequest} {response : HttpResponse}
    (h : Answers httpCb acts front request response) : response.Printable := by
  rcases h with ⟨before, -, ⟨rfl, -⟩ | ⟨rfl, -⟩⟩
  · exact printable_rejection
  · exact hcb before request.readBack

theorem Answers.mono {acts acts' : List Act} {front : List HttpRequest} {request : HttpRequest}
    {response : HttpResponse} (h : Answers httpCb acts front request response)
    (hacts : acts <+: acts') : Answers httpCb acts' front request response := by
  rcases h with ⟨before, hcalled, ⟨hresponse, hbefore⟩ | ⟨hresponse, hbefore⟩⟩
  · exact ⟨before, hcalled, .inl ⟨hresponse, hbefore.trans hacts⟩⟩
  · exact ⟨before, hcalled, .inr ⟨hresponse, hbefore.trans hacts⟩⟩

/-- Later requests stand behind. -/
theorem Link.front_of_prefix {l' : Link} (hsent : l.sent <+: l'.sent) {i : ℕ}
    (hi : i ≤ l.sent.length) : l'.front i = l.front i := by
  obtain ⟨more, hmore⟩ := hsent
  rw [Link.front, Link.front, ← hmore, List.take_append_of_le_length hi]

/-- `http_cb_` has been called for the requests in front of the one whose turn it is. -/
theorem Keeps.called (h : Keeps httpCb l) :
    l.session.acts.filterMap Act.called = l.front l.session.served.length := by
  have hserved := List.prefix_iff_eq_take.mp h.served
  rw [← List.map_take] at hserved
  exact hserved

theorem linkOk_create : LinkOk httpCb Link.create where
  printable q hq := by cases hq
  written := rfl
  replies := rfl
  wf := Buffer.wf_ofSize _
  served := List.nil_prefix
  taken := by
    refine ⟨[], rfl, fun _ => ?_⟩
    have hview : Link.create.session.view = ⟨.kLine, .create, []⟩ := by
      simp only [Session.view, Link.create, Session.start, HttpParser.view,
        Buffer.readable_ofSize]
      rfl
    rw [hview]
    exact partway_create
  answered i text h := by cases h
  inStep _ := rfl

/-- A request is put on the connection. -/
theorem LinkOk.takeRequest (h : LinkOk httpCb l) {request : HttpRequest}
    (hprintable : request.Printable) (call : ℕ) :
    LinkOk httpCb (l.takeRequest request call (some request.serialized)) where
  printable q hq := by
    rcases List.mem_append.mp hq with hq | hq
    · exact h.printable q hq
    · rw [List.mem_singleton.mp hq]
      exact hprintable
  written := by
    simp only [Link.takeRequest, Pipe.written_write, requestStream, stream_append]
    rw [h.written, requestStream]
    simp
  replies := h.replies
  wf := h.wf
  served := by
    simp only [Link.takeRequest, List.map_append]
    exact h.served.trans (List.prefix_append _ _)
  taken := by
    obtain ⟨here, hseen, hview⟩ := h.taken
    have hle := h.served.length_le
    rw [List.length_map] at hle
    refine ⟨here, ?_, hview⟩
    simp only [Link.takeRequest, Pipe.seen_write]
    rw [List.take_append_of_le_length hle, hseen]
  answered i text hi := by
    obtain ⟨q, response, hq, hresponse⟩ := h.answered i text hi
    have hlt := (List.getElem?_eq_some_iff.mp hq).1
    refine ⟨q, response, ?_, ?_⟩
    · simp only [Link.takeRequest]
      rwa [List.getElem?_append_left hlt]
    · rw [Link.front_of_prefix (l := l) (List.prefix_append _ _) hlt.le]
      exact hresponse
  inStep := h.inStep

/-- A reply stands at the place of a request. -/
theorem Keeps.length_replies_le (h : Keeps httpCb l) : l.replies.length ≤ l.sent.length := by
  by_cases hnil : l.replies = []
  · simp [hnil]
  · have hpos := List.length_pos_iff.mpr hnil
    have hlt : l.replies.length - 1 < l.replies.length := by omega
    obtain ⟨q, -, hq, -⟩ := h.answered _ _ (List.getElem?_eq_getElem hlt)
    have hbound := (List.getElem?_eq_some_iff.mp hq).1
    omega

/-- What is in flight, and what the client has read, does not matter here. -/
theorem LinkOk.of_same (h : LinkOk httpCb l) {l' : Link} (hsent : l'.sent = l.sent)
    (hwritten : l'.toServer.written = l.toServer.written)
    (hseen : l'.toServer.seen = l.toServer.seen) (hsession : l'.session = l.session)
    (hreplies : l'.replies = l.replies) (hclient : l'.toClient.written = l.toClient.written)
    (hstate : l'.state = .kConnected → l.state = .kConnected) : LinkOk httpCb l' where
  printable := hsent ▸ h.printable
  written := by rw [hwritten, hsent, h.written]
  replies := by rw [hclient, hreplies, h.replies]
  wf := hsession ▸ h.wf
  served := by
    rw [hsession, hsent]
    exact h.served
  taken := by
    rw [hseen, hsession, hsent]
    exact h.taken
  answered := by
    simp only [Link.front, hreplies, hsession, hsent]
    exact h.answered
  inStep hconnected := by
    rw [hreplies, hsession]
    exact h.inStep (hstate hconnected)

/-! A read of the server. -/

@[simp] theorem Link.state_sendMessage (l : Link) (text : List Byte) :
    (l.sendMessage text).state = l.state := by
  unfold Link.sendMessage
  split <;> rfl

/-- What `OnMessage` does to the connection apart from its session: it writes one text, and
it may shut the connection down. -/
def Link.respond (l : Link) (text : List Byte) (close : Bool) : Link :=
  { l.sendMessage text with state := if close then l.state.shutDown else l.state }

theorem foldl_perform_waiting (httpCb : Option HttpCallback) (ok : Bool)
    {parser : HttpParser HttpRequest} (hend : parser.state ≠ .kEnd) (l : Link) :
    (afterParse httpCb ok parser).2.foldl Link.perform l =
      if ok then l else l.respond badRequest true := by
  rw [afterParse_of_ne httpCb ok hend]
  cases ok with
  | true => rfl
  | false => simp [Link.perform, Link.respond]

theorem afterParse_rejected (httpCb : Option HttpCallback) {parser : HttpParser HttpRequest}
    (hend : parser.state ≠ .kEnd) : (afterParse httpCb false parser).2 = rejectActs := by
  rw [afterParse_of_ne httpCb false hend]
  rfl

theorem afterParse_answered (acts : List Act) {parser : HttpParser HttpRequest}
    (hend : parser.state = .kEnd) :
    (afterParse (some (httpCb acts)) true parser).2 = answerActs httpCb acts parser.message := by
  have hfinish : parser.finishParse = true := by simpa [finishParse] using hend
  by_cases hcloses : closes parser.message = true <;>
    simp [afterParse, hfinish, answer, answerActs, answerTo, hcloses]

theorem foldl_perform_answer (acts : List Act) (request : HttpRequest) (l : Link) :
    (answerActs httpCb acts request).foldl Link.perform l =
      l.respond (answerTo httpCb acts request).serialized
        (answerTo httpCb acts request).close := by
  have hprint := HttpResponse.holds_responseMessage (answerTo httpCb acts request)
    (Buffer.holds_ofSize Buffer.kInitBufferSize)
  have htext : ((answerTo httpCb acts request).responseMessage
      (.ofSize Buffer.kInitBufferSize)).readable = (answerTo httpCb acts request).serialized := by
    rw [hprint.readable, List.nil_append]
    rfl
  cases hclose : (answerTo httpCb acts request).close <;>
    cases hcloses : closes request <;>
    simp [answerActs, hclose, hcloses, Link.perform, Link.respond, htext, Link.sendMessage] <;>
    split <;> rfl

/-- One more text is a reply to the request whose turn it is. -/
theorem Keeps.respond (h : Keeps httpCb l) {text : List Byte} (close : Bool)
    (hreply : l.state = .kConnected → ∃ q response, l.sent[l.replies.length]? = some q ∧
      Answers httpCb l.session.acts (l.front l.replies.length) q.1 response ∧
        text = response.serialized) :
    Keeps httpCb (l.respond text close) := by
  by_cases hstate : l.state = .kConnected
  · obtain ⟨q, response, hq, hanswers, htext⟩ := hreply hstate
    have hsend : l.sendMessage text =
        { l with replies := l.replies ++ [text], toClient := l.toClient.write text } :=
      if_pos hstate
    rw [Link.respond, hsend]
    refine ⟨h.printable, h.written, ?_, h.wf, h.served, h.taken, fun i text' hi => ?_⟩
    · rw [Pipe.written_write, h.replies, stream_append]
      simp
    · simp only at hi
      by_cases hlt : i < l.replies.length
      · rw [List.getElem?_append_left hlt] at hi
        exact h.answered i text' hi
      · have hi' : i = l.replies.length := by
          have hbound := (List.getElem?_eq_some_iff.mp hi).1
          rw [List.length_append, List.length_singleton] at hbound
          omega
        subst hi'
        rw [List.getElem?_concat_length, Option.some.injEq] at hi
        exact ⟨q, response, hq, hanswers, hi ▸ htext⟩
  · rw [Link.respond, Link.sendMessage, if_neg hstate]
    exact ⟨h.printable, h.written, h.replies, h.wf, h.served, h.taken, h.answered⟩

/-- The session goes on, with requests that are still those of the client. -/
theorem Keeps.advance (h : Keeps httpCb l) {t : Session} {n : ℕ} (hwf : t.readbuf.Wf)
    (hacts : l.session.acts <+: t.acts) (hserved : t.served <+: l.sent.map fun q => q.1.readBack)
    (htaken : ∃ here, l.toServer.seen ++ l.toServer.inFlight.take n =
        requestStream (l.sent.take t.served.length) ++ here ∧
      (t.parser.state ≠ .kEnd → Partway HttpRequestParser.grammar here t.view)) :
    Keeps httpCb { l with session := t, toServer := l.toServer.read n } where
  printable := h.printable
  written := h.written
  replies := h.replies
  wf := hwf
  served := hserved
  taken := htaken
  answered i text hi := by
    obtain ⟨q, response, hq, hanswers, htext⟩ := h.answered i text hi
    exact ⟨q, response, hq, hanswers.mono hacts, htext⟩

/-- What a read of the server leaves alone. -/
structure Continues (l l' : Link) : Prop where
  sent : l'.sent = l.sent
  seen : l'.toClient.seen = l.toClient.seen
  replies : l.replies <+: l'.replies
  acts : l.session.acts <+: l'.session.acts

theorem continues_respond {l₀ : Link} (h : Continues l₀ l) (text : List Byte) (close : Bool) :
    Continues l₀ (l.respond text close) := by
  by_cases hstate : l.state = .kConnected
  · rw [Link.respond, Link.sendMessage, if_pos hstate]
    exact ⟨h.sent, h.seen, h.replies.trans (List.prefix_append _ _), h.acts⟩
  · rw [Link.respond, Link.sendMessage, if_neg hstate]
    exact ⟨h.sent, h.seen, h.replies, h.acts⟩

/-- The requests served so far, with the one whose turn it is. -/
theorem prefix_concat {α : Type*} {xs ys : List α} {a : α} (h : xs <+: ys)
    (ha : ys[xs.length]? = some a) : xs ++ [a] <+: ys := by
  have htake : ys.take (xs.length + 1) = ys.take xs.length ++ [a] := by
    rw [List.take_add_one, ha]
    rfl
  rw [← List.prefix_iff_eq_take.mp h] at htake
  rw [← htake]
  exact List.take_prefix _ _

/-- A read with which the server has not read a whole request yet, or has rejected it. -/
theorem LinkOk.read_waiting (h : LinkOk httpCb l) {here : List Byte} {n : ℕ} {t : Session}
    {q : HttpRequest × ℕ} {w : View HttpRequest}
    (hseen : l.toServer.seen = requestStream (l.sent.take l.session.served.length) ++ here)
    (hq : l.sent[l.session.served.length]? = some q)
    (hends : Session.Ends (some httpCb) l.session (l.toServer.inFlight.take n) w t)
    (hwait : Partway HttpRequestParser.grammar (here ++ l.toServer.inFlight.take n)
      (View.turn HttpRequestParser.grammar w).2) :
    LinkOk httpCb ((t.acts.drop l.session.acts.length).foldl Link.perform
        { l with session := t, toServer := l.toServer.read n }) ∧
      Continues l ((t.acts.drop l.session.acts.length).foldl Link.perform
        { l with session := t, toServer := l.toServer.read n }) := by
  obtain ⟨hview, -, hserved⟩ := hends.unfinished hwait.state_ne
  have hacts := hends.acts
  have hprefix : l.session.acts <+: t.acts := hacts ▸ List.prefix_append _ _
  have hkeeps : Keeps httpCb { l with session := t, toServer := l.toServer.read n } := by
    refine h.advance hends.wf hprefix (hserved ▸ h.served)
      ⟨here ++ l.toServer.inFlight.take n, ?_, fun _ => ?_⟩
    · rw [hserved, hseen, List.append_assoc]
    · rw [hview]
      exact hwait
  have hcontinues : Continues l { l with session := t, toServer := l.toServer.read n } :=
    ⟨rfl, rfl, List.prefix_rfl, hprefix⟩
  have hrejected (hok : ¬decide ((View.turn HttpRequestParser.grammar w).1 = .stop) = true) :
      l.session.acts ++ rejectActs <+: t.acts := by
    have heq : t.acts = l.session.acts ++ rejectActs := by
      rw [hacts, Bool.eq_false_iff.mpr hok, afterParse_rejected _ (by exact hwait.state_ne)]
    exact heq ▸ List.prefix_rfl
  rw [hacts, List.drop_left, foldl_perform_waiting _ _ (by exact hwait.state_ne)]
  split
  · refine ⟨⟨hkeeps, fun hstate => ?_⟩, hcontinues⟩
    rw [h.inStep hstate, hserved]
  · refine ⟨⟨hkeeps.respond true fun hstate => ?_, fun hstate => ?_⟩,
      continues_respond hcontinues _ _⟩
    · rename_i hok
      refine ⟨q, rejection, ?_, ⟨l.session.acts, ?_, .inl ⟨rfl, hrejected hok⟩⟩,
        serialized_rejection.symm⟩
      · rw [h.inStep hstate]
        exact hq
      · rw [h.inStep hstate]
        exact h.called
    · exact absurd hstate (ConnectState.shutDown_ne _)

/-- A read with which a request is complete. -/
theorem LinkOk.read_answer (h : LinkOk httpCb l) {rest : List Byte} {n : ℕ} {t : Session}
    {q : HttpRequest × ℕ} {w : View HttpRequest}
    (hseen : l.toServer.seen ++ l.toServer.inFlight.take n =
      requestStream (l.sent.take l.session.served.length) ++ (q.1.serialized ++ rest))
    (hq : l.sent[l.session.served.length]? = some q)
    (hends : Session.Ends (some httpCb) l.session (l.toServer.inFlight.take n) w t)
    (hturn : View.turn HttpRequestParser.grammar w = (.stop, ⟨.kEnd, q.1.readBack, rest⟩)) :
    LinkOk httpCb ((t.acts.drop l.session.acts.length).foldl Link.perform
        { l with session := t, toServer := l.toServer.read n }) ∧
      Continues l ((t.acts.drop l.session.acts.length).foldl Link.perform
        { l with session := t, toServer := l.toServer.read n }) := by
  have hacts := hends.acts
  have hparser := hends.parser
  have hbytes := hends.bytes
  have hserved := hends.served
  rw [hturn] at hacts hparser hbytes hserved
  rw [if_pos ⟨rfl, rfl⟩] at hserved
  have hprefix : l.session.acts <+: t.acts := hacts ▸ List.prefix_append _ _
  have hnext : (l.sent.map fun q => q.1.readBack)[l.session.served.length]? =
      some q.1.readBack := by
    rw [List.getElem?_map, hq]
    rfl
  have hkeeps : Keeps httpCb { l with session := t, toServer := l.toServer.read n } := by
    refine h.advance hends.wf hprefix (hserved ▸ prefix_concat h.served hnext) ⟨rest, ?_, ?_⟩
    · rw [hserved, List.length_append, List.length_singleton, requestStream,
        stream_take_succ hq, hseen, requestStream, List.append_assoc]
    · intro hne
      rw [afterParse_fst_of_kEnd _ _ rfl] at hparser
      split at hparser
      · rw [hparser] at hne
        exact absurd rfl hne
      · have hview : t.view = ⟨.kLine, .create, rest⟩ := by
          simp only [Session.view, HttpParser.view, hparser, hbytes]
          rfl
        rw [hview]
        exact .refl _
  have hcontinues : Continues l { l with session := t, toServer := l.toServer.read n } :=
    ⟨rfl, rfl, List.prefix_rfl, hprefix⟩
  simp only [decide_true, Option.map_some, afterParse_answered] at hacts
  rw [hacts, List.drop_left, foldl_perform_answer]
  refine ⟨⟨hkeeps.respond _ fun hstate => ?_, fun hstate => ?_⟩, continues_respond hcontinues _ _⟩
  · refine ⟨q, _, ?_, ⟨l.session.acts, ?_, .inr ⟨rfl, hacts ▸ List.prefix_rfl⟩⟩, rfl⟩
    · rw [h.inStep hstate]
      exact hq
    · rw [h.inStep hstate]
      exact h.called
  · cases hclose : (answerTo httpCb l.session.acts q.1.readBack).close with
    | true =>
      rw [hclose] at hstate
      exact absurd hstate (ConnectState.shutDown_ne _)
    | false =>
      rw [hclose] at hstate
      have hconnected : l.state = .kConnected := hstate
      simp only [Link.respond, Link.sendMessage, hconnected, if_true, List.length_append,
        List.length_singleton]
      rw [h.inStep hconnected, hserved, List.length_append, List.length_singleton]

theorem LinkOk.serverRead (h : LinkOk httpCb l) {n fuel : ℕ} {l' : Link}
    (hread : l.serverRead httpCb n fuel = some l')
    (hsize : (l.toServer.read n).seen.length < 2 ^ 32) : LinkOk httpCb l' ∧ Continues l l' := by
  unfold Link.serverRead at hread
  split at hread
  · cases hread
  · rename_i hdata
    rw [not_or] at hdata
    obtain ⟨t, ht, rfl⟩ := Option.map_eq_some_iff.mp hread
    obtain ⟨w, hends⟩ := Session.read_ends h.wf ht
    obtain ⟨here, hseen, hpart⟩ := h.taken
    have hpartway := hpart (Session.read_state_ne_kEnd h.wf ht)
    have harrives := l.toServer.seen_take_prefix n
    rw [h.written, hseen] at harrives
    obtain ⟨q, hq, hnext⟩ := exists_next harrives hdata.1
    rw [← HttpRequest.bytes_packet] at hnext
    have hsound := HttpRequest.sound_packet (h.printable q (List.mem_of_getElem? hq))
    have hlen : (here ++ l.toServer.inFlight.take n).length < 2 ^ 32 := by
      rw [Pipe.seen_read, hseen] at hsize
      simp only [List.length_append] at hsize ⊢
      omega
    rcases hpartway.call hsound hnext hlen hends.advances hends.last with
      hwait | ⟨rest, hall, hturn⟩
    · exact h.read_waiting hseen hq hends hwait
    · rw [HttpRequest.bytes_packet] at hall
      exact h.read_answer (by rw [hseen, List.append_assoc, hall]) hq hends hturn

end Voyager.HttpExchange
