import Voyager.HttpAnswers
import Mathlib.Data.List.Flatten

/-!
The callbacks of `HttpClient` over whole runs. They are called in the order of their
requests, each at most once, and one that is called with a response gets the reply to
its own request, although nothing in a response says which request it answers. This
holds as long as no request is made while the client is connecting, what is sent can be
printed and read back, and fewer than 2^32 bytes go either way on a connection.
-/
namespace Voyager.HttpExchange

open Lib Lib.Runs Lib.Framing Lib.CString HttpServer HttpParser HttpClient

/-- All requests on the connections, in the order of these, and the one that waits for a
connection. -/
def outgoing (s : State) : List (HttpRequest × ℕ) :=
  ((List.range s.opened).flatMap fun j => (s.link j).sent) ++
    (s.client.client.map fun a => (a.request, a.call)).toList

/-- The client has taken `m` replies off its connection. The first callbacks that wait are
those of the other requests on it; behind them come those that were made when the
connection took nothing more. -/
structure InStep (s : State) (ptr : Connection) : Prop where
  current : ptr.id + 1 = s.opened
  wf : ptr.readbuf.Wf
  taken : ∃ m here unsent, m ≤ (s.link ptr.id).replies.length ∧
    (s.link ptr.id).toClient.seen = stream id ((s.link ptr.id).replies.take m) ++ here ∧
    Partway HttpResponseParser.grammar here (ptr.parser.view ptr.readbuf) ∧
    s.client.queueCb = ((s.link ptr.id).sent.map Prod.snd).drop m ++ unsent ∧
    (ptr.state = .kConnected → unsent = [])

variable (httpCb : List Act → HttpCallback)

/-- The response is the reply to request `k`: this one was put on connection `j` as the
`i`-th request there, the `i`-th text of the server on it is the reply, and the reply is what
the server made of this request, behind those in front of it. -/
def IsReplyTo (s : State) (k : ℕ) (r : HttpResponse) : Prop :=
  ∃ j i request response, j < s.opened ∧ s.client.requests[k]? = some request ∧
    (s.link j).sent[i]? = some (request, k) ∧
    (s.link j).replies[i]? = some response.serialized ∧
    Answers httpCb (s.link j).session.acts ((s.link j).front i) request response ∧
    r = response.setCloseState false

structure Inv (s : State) : Prop where
  links : ∀ j < s.opened, LinkOk httpCb (s.link j)
  numbered : (outgoing s).Sublist s.client.requests.zipIdx
  order : s.client.calls.map Prod.fst ++ s.client.queueCb = List.range s.client.requests.length
  idle : s.client.gaurd = none → s.client.client = none → s.client.queueCb = []
  attempt : ∀ a, s.client.client = some a →
    s.client.gaurd = none ∧ s.client.queueCb = [a.call] ∧ a.request.Printable ∧
      0 < s.client.timers
  inStep : ∀ ptr, s.client.gaurd = some ptr → InStep s ptr
  answers : ∀ k r, (k, Result.ok r) ∈ s.client.calls → IsReplyTo httpCb s k r

variable {httpCb} {s t : State} {ptr : Connection}

@[simp] theorem link_setLink (s : State) (j : ℕ) (l : Link) (i : ℕ) :
    (s.setLink j l).link i = if i = j then l else s.link i := Function.update_apply ..

@[simp] theorem client_setLink (s : State) (j : ℕ) (l : Link) :
    (s.setLink j l).client = s.client := rfl

@[simp] theorem opened_setLink (s : State) (j : ℕ) (l : Link) :
    (s.setLink j l).opened = s.opened := rfl

theorem Inv.client_none (h : Inv httpCb s) (hptr : s.client.gaurd = some ptr) :
    s.client.client = none := by
  cases hclient : s.client.client with
  | none => rfl
  | some a =>
    have hnone := (h.attempt a hclient).1
    rw [hptr] at hnone
    cases hnone

/-- What has happened on a connection, and then possibly more. -/
structure Extends (l l' : Link) : Prop where
  sent : l.sent <+: l'.sent
  replies : l.replies <+: l'.replies
  acts : l.session.acts <+: l'.session.acts

theorem Extends.refl (l : Link) : Extends l l := ⟨List.prefix_rfl, List.prefix_rfl, List.prefix_rfl⟩

theorem Continues.extends {l l' : Link} (h : Continues l l') : Extends l l' :=
  ⟨h.sent ▸ List.prefix_rfl, h.replies, h.acts⟩

theorem getElem?_of_prefix {α : Type*} {xs ys : List α} (h : xs <+: ys) {i : ℕ} {a : α}
    (ha : xs[i]? = some a) : ys[i]? = some a := by
  obtain ⟨hlt, rfl⟩ := List.getElem?_eq_some_iff.mp ha
  exact List.prefix_iff_getElem?.mp h i hlt

/-- A reply stays one when more happens on the connections. -/
theorem IsReplyTo.mono {k : ℕ} {r : HttpResponse} (h : IsReplyTo httpCb s k r)
    (hopened : s.opened ≤ t.opened) (hrequests : s.client.requests <+: t.client.requests)
    (hlinks : ∀ j < s.opened, Extends (s.link j) (t.link j)) : IsReplyTo httpCb t k r := by
  obtain ⟨j, i, request, response, hj, hrequest, hsent, hreply, hanswers, hr⟩ := h
  obtain ⟨hsents, hreplies, hacts⟩ := hlinks j hj
  refine ⟨j, i, request, response, by omega, getElem?_of_prefix hrequests hrequest,
    getElem?_of_prefix hsents hsent, getElem?_of_prefix hreplies hreply, ?_, hr⟩
  rw [Link.front_of_prefix hsents (List.getElem?_eq_some_iff.mp hsent).1.le]
  exact hanswers.mono hacts

theorem inv_create : Inv httpCb State.create where
  links j hj := absurd hj (Nat.not_lt_zero j)
  numbered := List.Sublist.refl _
  order := rfl
  idle _ _ := rfl
  attempt a ha := by cases ha
  inStep ptr hptr := by cases hptr
  answers k r h := by cases h

/-! Steps of a link. -/

theorem InStep.of_continues (h : InStep s ptr) {l : Link} {j : ℕ}
    (hl : Continues (s.link j) l) : InStep (s.setLink j l) ptr := by
  obtain ⟨m, here, unsent, hm, hseen, hpart, hqueue, hunsent⟩ := h.taken
  refine ⟨h.current, h.wf, m, here, unsent, ?_⟩
  by_cases hj : ptr.id = j
  · subst hj
    rw [link_setLink, if_pos rfl]
    refine ⟨hm.trans hl.replies.length_le, ?_, hpart, ?_, hunsent⟩
    · obtain ⟨more, hmore⟩ := hl.replies
      rw [hl.seen, hseen, ← hmore, List.take_append_of_le_length hm]
    · rw [hl.sent]
      exact hqueue
  · rw [link_setLink, if_neg hj]
    exact ⟨hm, hseen, hpart, hqueue, hunsent⟩

/-- The session on a connection goes on, or something is lost on it. -/
theorem Inv.of_continues (h : Inv httpCb s) {l : Link} {j : ℕ}
    (hok : j < s.opened → LinkOk httpCb l) (hl : Continues (s.link j) l) :
    Inv httpCb (s.setLink j l) where
  links i hi := by
    rw [link_setLink]
    split
    · rename_i hij
      exact hok (hij ▸ hi)
    · exact h.links i hi
  numbered := by
    have hsent : ∀ i, ((s.setLink j l).link i).sent = (s.link i).sent := by
      intro i
      rw [link_setLink]
      split
      · rename_i hij
        rw [hij, hl.sent]
      · rfl
    have hsame : outgoing (s.setLink j l) = outgoing s := by
      simp only [outgoing, hsent]
      rfl
    rw [hsame]
    exact h.numbered
  order := h.order
  idle := h.idle
  attempt := h.attempt
  inStep ptr hptr := (h.inStep ptr hptr).of_continues hl
  answers k r hr := by
    refine (h.answers k r hr).mono (Nat.le_refl _) List.prefix_rfl fun i _ => ?_
    rw [link_setLink]
    split
    · rename_i hij
      rw [hij]
      exact hl.extends
    · exact .refl _

theorem Inv.serverClose (h : Inv httpCb s) (j : ℕ) :
    Inv httpCb (s.setLink j { s.link j with state := .kDisconnected }) := by
  refine h.of_continues (fun hj => ?_) ⟨rfl, rfl, List.prefix_rfl, List.prefix_rfl⟩
  exact (h.links j hj).of_same rfl rfl rfl rfl rfl rfl nofun

theorem Inv.cut (h : Inv httpCb s) (j n m : ℕ) :
    Inv httpCb (s.setLink j ((s.link j).cut n m)) := by
  refine h.of_continues (fun hj => ?_) ⟨rfl, rfl, List.prefix_rfl, List.prefix_rfl⟩
  exact (h.links j hj).of_same rfl rfl rfl rfl rfl rfl id

/-! Requests. -/

/-- The requests on the connections when the last one of these has changed. -/
theorem outgoing_last (s : State) {j : ℕ} (hj : j + 1 = s.opened) (hclient : s.client.client = none)
    (l : Link) : outgoing (s.setLink j l) =
      ((List.range j).flatMap fun i => (s.link i).sent) ++ l.sent := by
  have hfront : ((List.range j).flatMap fun i => ((s.setLink j l).link i).sent) =
      (List.range j).flatMap fun i => (s.link i).sent := by
    refine List.flatMap_congr fun i hi => ?_
    have hlt := List.mem_range.mp hi
    rw [link_setLink, if_neg (by omega)]
  rw [outgoing, opened_setLink, ← hj, List.range_succ, List.flatMap_append, hfront]
  simp [hclient]

/-- Nobody else is connected or connecting when a request starts an attempt. -/
theorem Inv.firstRequest (h : Inv httpCb s) {request : HttpRequest}
    (hprintable : request.Printable) (hclient : s.client.client = none)
    (hgaurd : s.client.gaurd = none) : Inv httpCb (s.doHttpRequest request) := by
  have hqueue := h.idle hgaurd hclient
  have hstate : s.doHttpRequest request =
      { s with client :=
          (s.client.pushBack request).firstRequest s.client.requests.length request } := by
    simp only [State.doHttpRequest, HttpClient.doHttpRequest, hgaurd]
  have houtgoing := h.numbered
  rw [outgoing, hclient, Option.map_none, Option.toList_none, List.append_nil]
    at houtgoing
  rw [hstate]
  refine ⟨h.links, ?_, ?_, ?_, ?_, ?_, ?_⟩
  · simp only [outgoing, HttpClient.firstRequest, HttpClient.pushBack, Option.map_some,
      Option.toList_some, List.zipIdx_append, List.zipIdx_singleton, Nat.zero_add]
    exact houtgoing.append (List.Sublist.refl _)
  · simp only [HttpClient.firstRequest, HttpClient.pushBack, List.length_append,
      List.length_singleton]
    rw [List.range_succ, ← h.order, List.append_assoc]
  · exact fun _ hnone => by cases hnone
  · intro a ha
    obtain rfl := Option.some.inj ha
    exact ⟨hgaurd, by simp [HttpClient.firstRequest, HttpClient.pushBack, hqueue], hprintable,
      Nat.succ_pos _⟩
  · intro ptr hptr
    simp only [HttpClient.firstRequest, HttpClient.pushBack, hgaurd] at hptr
    cases hptr
  · intro k r hr
    exact (h.answers k r hr).mono (Nat.le_refl _) (List.prefix_append _ _) fun _ _ => .refl _

/-- Only a connected connection takes the request, and its callback is the last that waits. -/
theorem Inv.nextRequest (h : Inv httpCb s) {request : HttpRequest}
    (hprintable : request.Printable) (hgaurd : s.client.gaurd = some ptr) :
    Inv httpCb (s.doHttpRequest request) := by
  have hclient := h.client_none hgaurd
  obtain ⟨hcurrent, hwf, m, here, unsent, hm, hseen, hpart, hqueue, hunsent⟩ :=
    h.inStep ptr hgaurd
  have hlink := h.links ptr.id (by omega)
  obtain ⟨more, hmore⟩ : ∃ more, more = if ptr.state = .kConnected then
    [(request, s.client.requests.length)] else [] := ⟨_, rfl⟩
  obtain ⟨l, hl⟩ : ∃ l, l = (s.link ptr.id).takeRequest request s.client.requests.length
    (if ptr.state = .kConnected then some request.serialized else none) := ⟨_, rfl⟩
  have hstate : s.doHttpRequest request =
      { s with client := s.client.pushBack request }.setLink ptr.id l := by
    simp only [State.doHttpRequest, HttpClient.doHttpRequest, hgaurd,
      sendMessage_requestMessage, hl]
  have hsent : l.sent = (s.link ptr.id).sent ++ more := by
    rw [hl, hmore]
    split <;> simp [Link.takeRequest]
  have hok : LinkOk httpCb l := by
    rw [hl]
    split
    · exact hlink.takeRequest hprintable _
    · exact hlink
  have hsame : l.toClient = (s.link ptr.id).toClient ∧ l.replies = (s.link ptr.id).replies ∧
      l.session = (s.link ptr.id).session := by
    rw [hl]
    split <;> exact ⟨rfl, rfl, rfl⟩
  have houtgoing := h.numbered
  rw [outgoing, hclient, ← hcurrent, List.range_succ, List.flatMap_append] at houtgoing
  simp only [List.flatMap_cons, List.flatMap_nil, List.append_nil, Option.map_none,
    Option.toList_none] at houtgoing
  rw [hstate]
  refine ⟨fun i hi => ?_, ?_, ?_, ?_, ?_, ?_, ?_⟩
  · rw [link_setLink]
    split
    · exact hok
    · exact h.links i hi
  · rw [outgoing_last { s with client := s.client.pushBack request } hcurrent hclient, hsent,
      ← List.append_assoc]
    simp only [client_setLink, HttpClient.pushBack, List.zipIdx_append, List.zipIdx_singleton,
      Nat.zero_add]
    refine houtgoing.append ?_
    rw [hmore]
    split <;> simp
  · simp only [client_setLink, HttpClient.pushBack, List.length_append, List.length_singleton]
    rw [List.range_succ, ← h.order, List.append_assoc]
  · intro hnone
    simp only [client_setLink, HttpClient.pushBack, hgaurd] at hnone
    cases hnone
  · intro a ha
    simp only [client_setLink, HttpClient.pushBack, hclient] at ha
    cases ha
  · intro ptr' hptr'
    simp only [client_setLink, HttpClient.pushBack, hgaurd, Option.some.injEq] at hptr'
    subst hptr'
    have hbound : m ≤ ((s.link ptr.id).sent.map Prod.snd).length := by
      rw [List.length_map]
      exact hm.trans hlink.length_replies_le
    refine ⟨hcurrent, hwf, m, here,
      if ptr.state = .kConnected then [] else unsent ++ [s.client.requests.length], ?_⟩
    rw [link_setLink, if_pos rfl, hsame.1, hsame.2.1, hsent, List.map_append,
      List.drop_append_of_le_length hbound]
    refine ⟨hm, hseen, hpart, ?_, fun hconnected => if_pos hconnected⟩
    simp only [client_setLink, HttpClient.pushBack, hqueue, hmore]
    by_cases hconnected : ptr.state = .kConnected
    · simp [hconnected, hunsent hconnected]
    · simp [hconnected]
  · intro k r hr
    refine (h.answers k r hr).mono (Nat.le_refl _) (List.prefix_append _ _) fun i _ => ?_
    rw [link_setLink]
    split
    · rename_i hij
      rw [hij]
      exact ⟨⟨more, hsent.symm⟩, hsame.2.1 ▸ List.prefix_rfl, hsame.2.2 ▸ List.prefix_rfl⟩
    · exact .refl _

theorem Inv.connect (h : Inv httpCb s) (hconnect : s.connect = some t) : Inv httpCb t := by
  cases hclient : s.client.client with
  | none => simp [State.connect, hclient] at hconnect
  | some a =>
    obtain ⟨-, hqueue, hprintable, -⟩ := h.attempt a hclient
    obtain ⟨l, hl⟩ : ∃ l, l = Link.create.takeRequest a.request a.call
      (some a.request.serialized) := ⟨_, rfl⟩
    obtain ⟨c, hc⟩ : ∃ c : HttpClient, c = { s.client with
      client := none
      timers := s.client.timers - 1
      gaurd := some ⟨s.opened, .kConnected, HttpResponseParser.create,
        .ofSize Buffer.kInitBufferSize⟩ } := ⟨_, rfl⟩
    have ht : t = { s with client := c, opened := s.opened + 1 }.setLink s.opened l := by
      simp only [State.connect, hclient, HttpClient.onConnection, Option.map_some,
        sendMessage_requestMessage, if_true, Option.some.injEq] at hconnect
      rw [← hconnect, hl, hc]
    have hok : LinkOk httpCb l := hl ▸ linkOk_create.takeRequest hprintable a.call
    have houtgoing := h.numbered
    rw [outgoing, hclient, Option.map_some, Option.toList_some] at houtgoing
    rw [ht]
    refine ⟨fun i hi => ?_, ?_, ?_, ?_, ?_, ?_, ?_⟩
    · rw [link_setLink]
      split
      · exact hok
      · rename_i hne
        simp only [opened_setLink] at hi
        exact h.links i (by omega)
    · rw [outgoing_last { s with client := c, opened := s.opened + 1 } rfl (by rw [hc])]
      simp only [client_setLink, hc, hl]
      exact houtgoing
    · simp only [client_setLink, hc]
      exact h.order
    · intro hnone
      simp [hc] at hnone
    · intro a' ha'
      simp [hc] at ha'
    · intro ptr hptr
      simp only [client_setLink, hc, Option.some.injEq] at hptr
      subst hptr
      refine ⟨rfl, Buffer.wf_ofSize _, 0, [], [], ?_⟩
      rw [link_setLink, if_pos rfl]
      refine ⟨Nat.zero_le _, ?_, ?_, ?_, fun _ => rfl⟩
      · simp [hl, Link.takeRequest, Link.create]
      · simp only [HttpParser.view, Buffer.readable_ofSize]
        exact partway_create
      · simp [hc, hqueue, hl, Link.takeRequest, Link.create]
    · intro k r hr
      simp only [client_setLink, hc] at hr
      refine (h.answers k r hr).mono (Nat.le_succ _) ?_ fun i hi => ?_
      · simp only [client_setLink, hc]
        exact List.prefix_rfl
      · rw [link_setLink, if_neg (by omega)]
        exact .refl _

/-! What the client reads. -/

/-- What `HandleMessage` does with the result of `ParseBuffer`. -/
theorem handleMessage_cases {c c' : HttpClient} {fuel : ℕ} {data : List Byte}
    (hgaurd : c.gaurd = some ptr) (h : c.handleMessage fuel data = some c') :
    ∃ cb rest r state, c.queueCb = cb :: rest ∧
      HttpResponseParser.parseBuffer fuel ptr.parser (ptr.readbuf.readV (some data)) = some r ∧
      (state = .kConnected → ptr.state = .kConnected) ∧
      c' = if r.2.1.state = .kEnd then
          { c with
            queueCb := rest
            gaurd := some ⟨ptr.id, state, HttpResponseParser.reset, r.2.2⟩
            calls := c.calls ++ [(cb, .ok r.2.1.message)] }
        else { c with gaurd := some ⟨ptr.id, state, r.2.1, r.2.2⟩ } := by
  cases hqueue : c.queueCb with
  | nil => simp [HttpClient.handleMessage, hgaurd, hqueue] at h
  | cons cb rest =>
    simp only [HttpClient.handleMessage, hgaurd, hqueue, Option.map_eq_some_iff] at h
    obtain ⟨r, hr, rfl⟩ := h
    refine ⟨cb, rest, r, if r.1 then ptr.state else ptr.state.shutDown, rfl, hr, ?_, ?_⟩
    · split
      · exact id
      · exact fun hstate => absurd hstate (ConnectState.shutDown_ne _)
    · simp only [HttpParser.finishParse, decide_eq_true_eq]

/-- The reply that the next bytes belong to, and the callback that waits for it. -/
theorem InStep.next_reply (h : InStep s ptr) (hlink : LinkOk httpCb (s.link ptr.id)) {n : ℕ}
    (hdata : (s.link ptr.id).toClient.inFlight.take n ≠ []) :
    ∃ m here unsent q response more,
      (s.link ptr.id).toClient.seen = stream id ((s.link ptr.id).replies.take m) ++ here ∧
      Partway HttpResponseParser.grammar here (ptr.parser.view ptr.readbuf) ∧
      (s.link ptr.id).replies[m]? = some response.packet.bytes ∧
      s.client.queueCb = ((s.link ptr.id).sent.map Prod.snd).drop m ++ unsent ∧
      ((s.link ptr.id).sent.map Prod.snd).drop m =
        q.2 :: ((s.link ptr.id).sent.map Prod.snd).drop (m + 1) ∧
      (ptr.state = .kConnected → unsent = []) ∧ (s.link ptr.id).sent[m]? = some q ∧
      Answers httpCb (s.link ptr.id).session.acts ((s.link ptr.id).front m) q.1 response ∧
      here ++ (s.link ptr.id).toClient.inFlight.take n <+: response.packet.bytes ++ more := by
  obtain ⟨m, here, unsent, -, hseen, hpart, hqueue, hunsent⟩ := h.taken
  have harrives := (s.link ptr.id).toClient.seen_take_prefix n
  rw [hlink.replies, hseen] at harrives
  obtain ⟨text, htext, hnext⟩ := exists_next harrives hdata
  obtain ⟨q, response, hq, hanswers, rfl⟩ := hlink.answered m text htext
  rw [← HttpResponse.bytes_packet] at htext hnext
  refine ⟨m, here, unsent, q, response, _, hseen, hpart, htext, hqueue, ?_, hunsent, hq,
    hanswers, hnext⟩
  obtain ⟨hlt, rfl⟩ := List.getElem?_eq_some_iff.mp hq
  rw [List.drop_eq_getElem_cons (by rwa [List.length_map]), List.getElem_map]

theorem request_of_sent (h : Inv httpCb s) {j : ℕ} (hj : j < s.opened) {q : HttpRequest × ℕ}
    (hq : q ∈ (s.link j).sent) : s.client.requests[q.2]? = some q.1 := by
  have hmem : q ∈ outgoing s :=
    List.mem_append_left _ (List.mem_flatMap.mpr ⟨j, List.mem_range.mpr hj, hq⟩)
  exact List.mem_zipIdx_iff_getElem?.mp (h.numbered.subset hmem)

/-- The state after a read of the client. -/
def afterRead (s : State) (ptr : Connection) (n : ℕ) (queue : List ℕ) (ptr' : Connection)
    (calls : List (ℕ × Result)) : State :=
  { s with client :=
      { s.client with queueCb := queue, gaurd := some ptr', calls := calls } }.setLink ptr.id
    { s.link ptr.id with toClient := (s.link ptr.id).toClient.read n }

theorem Inv.afterRead (h : Inv httpCb s) (hgaurd : s.client.gaurd = some ptr) {n : ℕ}
    {queue : List ℕ} {ptr' : Connection} {calls : List (ℕ × Result)}
    (horder : calls.map Prod.fst ++ queue = List.range s.client.requests.length)
    (hstep : InStep (afterRead s ptr n queue ptr' calls) ptr')
    (hanswers : ∀ k r, (k, Result.ok r) ∈ calls → IsReplyTo httpCb s k r) :
    Inv httpCb (afterRead s ptr n queue ptr' calls) := by
  have hclient := h.client_none hgaurd
  have hcurrent := (h.inStep ptr hgaurd).current
  have houtgoing := h.numbered
  rw [outgoing, hclient, ← hcurrent, List.range_succ, List.flatMap_append] at houtgoing
  simp only [List.flatMap_cons, List.flatMap_nil, List.append_nil, Option.map_none,
    Option.toList_none] at houtgoing
  refine ⟨fun i hi => ?_, ?_, horder, ?_, ?_, ?_, ?_⟩
  · rw [HttpExchange.afterRead, link_setLink]
    split
    · exact (h.links ptr.id (by omega)).of_same rfl rfl rfl rfl rfl rfl id
    · exact h.links i hi
  · rw [HttpExchange.afterRead, outgoing_last
      { s with client := { s.client with queueCb := queue, gaurd := some ptr', calls := calls } }
      hcurrent hclient]
    exact houtgoing
  · exact fun hnone => by cases hnone
  · intro a ha
    simp only [HttpExchange.afterRead, client_setLink, hclient] at ha
    cases ha
  · intro ptr'' hptr
    simp only [HttpExchange.afterRead, client_setLink, Option.some.injEq] at hptr
    exact hptr ▸ hstep
  · intro k r hr
    refine (hanswers k r hr).mono (Nat.le_refl _) List.prefix_rfl fun i _ => ?_
    rw [HttpExchange.afterRead, link_setLink]
    split
    · rename_i hij
      rw [hij]
      exact ⟨List.prefix_rfl, List.prefix_rfl, List.prefix_rfl⟩
    · exact .refl _

theorem Inv.clientRead (h : Inv httpCb s) (hcb : PrintsResponses httpCb) {n fuel : ℕ}
    (hread : s.clientRead n fuel = some t)
    (hsize : ∀ ptr, s.client.gaurd = some ptr →
      (((s.link ptr.id).toClient.read n).seen).length < 2 ^ 32) : Inv httpCb t := by
  cases hgaurd : s.client.gaurd with
  | none => simp [State.clientRead, hgaurd] at hread
  | some ptr =>
    simp only [State.clientRead, hgaurd] at hread
    split at hread
    · cases hread
    rename_i hdata
    obtain ⟨c, hc, rfl⟩ := Option.map_eq_some_iff.mp hread
    obtain ⟨cb, rest, r, state, hcons, hparse, hstate, rfl⟩ := handleMessage_cases hgaurd hc
    have hstep := h.inStep ptr hgaurd
    have hcurrent := hstep.current
    have hlink := h.links ptr.id (by omega)
    obtain ⟨m, here, unsent, q, response, more, hseen, hpart, hreply, hqueue, hdrop, hunsent,
      hq, hanswers, hnext⟩ := hstep.next_reply hlink hdata
    have hm := (List.getElem?_eq_some_iff.mp hreply).1
    have hsound := HttpResponse.sound_packet (hanswers.printable hcb)
    have hlen : (here ++ (s.link ptr.id).toClient.inFlight.take n).length < 2 ^ 32 := by
      have hall := hsize ptr hgaurd
      rw [Pipe.seen_read, hseen] at hall
      simp only [List.length_append] at hall ⊢
      omega
    obtain ⟨hwf, hcases⟩ := hpart.parseBuffer hsound hstep.wf hnext hlen hparse
    rcases hcases with ⟨hne, hwait⟩ | ⟨rest', hall, -, hdone, hbytes⟩
    · rw [if_neg hne]
      refine h.afterRead hgaurd h.order ⟨hcurrent, hwf, m,
        here ++ (s.link ptr.id).toClient.inFlight.take n, unsent, ?_⟩ h.answers
      rw [HttpExchange.afterRead, link_setLink, if_pos rfl]
      refine ⟨hm.le, ?_, hwait, hqueue, fun hconnected => hunsent (hstate hconnected)⟩
      rw [Pipe.seen_read, hseen, List.append_assoc]
    · -- the first callback of the queue is that of the request that the reply answers
      rw [hcons, hdrop] at hqueue
      obtain ⟨rfl, hrest⟩ := List.cons_eq_cons.mp hqueue
      have horder := h.order
      rw [hcons] at horder
      rw [if_pos (by rw [hdone])]
      refine h.afterRead hgaurd ?_ ⟨hcurrent, hwf, m + 1, rest', unsent, ?_⟩ fun k r' hr => ?_
      · rw [List.map_append, List.append_assoc]
        exact horder
      · rw [HttpExchange.afterRead, link_setLink, if_pos rfl]
        refine ⟨hm, ?_, ?_, hrest, fun hconnected => hunsent (hstate hconnected)⟩
        · rw [Pipe.seen_read, hseen, List.append_assoc, hall, stream_take_succ hreply,
            List.append_assoc]
          rfl
        · have hview : HttpResponseParser.reset.view r.2.2 = ⟨.kLine, .create, rest'⟩ := by
            rw [HttpParser.view, hbytes]
            rfl
          rw [hview]
          exact .refl _
      · rcases List.mem_append.mp hr with hr | hr
        · exact h.answers k r' hr
        · simp only [List.mem_singleton, Prod.mk.injEq, Result.ok.injEq] at hr
          obtain ⟨rfl, rfl⟩ := hr
          refine ⟨ptr.id, m, q.1, response, by omega,
            request_of_sent h (by omega) (List.mem_of_getElem? hq), hq, ?_, hanswers, ?_⟩
          · rw [hreply, HttpResponse.bytes_packet]
          rw [hdone]
          rfl

/-! The ends of a connection and of an attempt to connect. -/

/-- Nothing is under way any more, and all callbacks have been called. -/
theorem Inv.of_idle (h : Inv httpCb s) {c : HttpClient} (hrequests : c.requests = s.client.requests)
    (hgaurd : c.gaurd = none) (hclient : c.client = none) (hqueue : c.queueCb = [])
    (horder : c.calls.map Prod.fst = List.range s.client.requests.length)
    (hanswers : ∀ k r, (k, Result.ok r) ∈ c.calls → (k, Result.ok r) ∈ s.client.calls) :
    Inv httpCb { s with client := c } where
  links := h.links
  numbered := by
    have hsub := h.numbered
    rw [outgoing] at hsub ⊢
    rw [hclient, hrequests, Option.map_none, Option.toList_none, List.append_nil]
    exact (List.sublist_append_left _ _).trans hsub
  order := by rw [hqueue, List.append_nil, horder, hrequests]
  idle _ _ := hqueue
  attempt a ha := by
    rw [hclient] at ha
    cases ha
  inStep ptr hptr := by
    rw [hgaurd] at hptr
    cases hptr
  answers k r hr := by
    refine (h.answers k r (hanswers k r hr)).mono (Nat.le_refl _) ?_ fun _ _ => .refl _
    exact ⟨[], by rw [List.append_nil, hrequests]⟩

theorem Inv.clientClose (h : Inv httpCb s) (hgaurd : s.client.gaurd = some ptr) :
    Inv httpCb { s with client := s.client.handleClose } := by
  refine h.of_idle rfl rfl (h.client_none hgaurd) rfl ?_ fun k r hr => ?_
  · have hfst (cbs : List ℕ) (result : Result) :
        (cbs.map fun cb => (cb, result)).map Prod.fst = cbs := by
      rw [List.map_map]
      exact List.map_id cbs
    rw [← h.order, HttpClient.handleClose, List.map_append, hfst]
  · rcases List.mem_append.mp hr with hr | hr
    · exact hr
    · obtain ⟨cb, -, heq⟩ := List.mem_map.mp hr
      cases heq

theorem Inv.handleTimeout (h : Inv httpCb s) {c : HttpClient}
    (hc : s.client.handleTimeout = some c) : Inv httpCb { s with client := c } := by
  rw [HttpClient.handleTimeout] at hc
  split at hc
  · cases hc
  cases hgaurd : s.client.gaurd with
  | some ptr =>
    simp only [hgaurd, Option.some.injEq] at hc
    subst hc
    have hclient := h.client_none hgaurd
    refine ⟨h.links, h.numbered, h.order, nofun, fun a ha => ?_, fun ptr' hptr' => ?_, h.answers⟩
    · rw [hclient] at ha
      cases ha
    · have hstep := h.inStep ptr' (hgaurd.trans hptr')
      exact ⟨hstep.current, hstep.wf, hstep.taken⟩
  | none =>
    cases hqueue : s.client.queueCb with
    | nil =>
      simp only [hgaurd, hqueue, Option.some.injEq] at hc
      subst hc
      cases hclient : s.client.client with
      | some a =>
        have hcall := (h.attempt a hclient).2.1
        rw [hqueue] at hcall
        cases hcall
      | none =>
        refine h.of_idle rfl rfl rfl rfl ?_ fun _ _ => id
        rw [← h.order, hqueue, List.append_nil]
    | cons cb rest =>
      simp only [hgaurd, hqueue, Option.some.injEq] at hc
      subst hc
      -- the one request that waits is that of the attempt
      have hrest : rest = [] := by
        cases hclient : s.client.client with
        | some a =>
          have hcall := (h.attempt a hclient).2.1
          rw [hqueue] at hcall
          exact (List.cons_eq_cons.mp hcall).2
        | none =>
          have hnil := h.idle hgaurd hclient
          rw [hqueue] at hnil
          cases hnil
      refine h.of_idle rfl rfl rfl hrest ?_ fun k r hr => ?_
      · rw [← h.order, hqueue, hrest, List.map_append]
        rfl
      · rcases List.mem_append.mp hr with hr | hr
        · exact hr
        · simp at hr

theorem inv_of_reachable (hcb : PrintsResponses httpCb)
    (hs : (machine httpCb).ReachableWhen Orderly s) : Inv httpCb s := by
  refine hs.invariant inv_create fun s a t _ hok h hnext => ?_
  cases a with
  | doHttpRequest request =>
    obtain rfl := Option.some.inj hnext
    obtain ⟨hprintable, hclient⟩ := hok
    cases hgaurd : s.client.gaurd with
    | none => exact h.firstRequest hprintable hclient hgaurd
    | some ptr => exact h.nextRequest hprintable hgaurd
  | connect => exact h.connect hnext
  | clientRead n fuel => exact h.clientRead hcb hnext hok
  | clientClose =>
    simp only [machine, next] at hnext
    split at hnext
    · rename_i hsome
      obtain ⟨ptr, hgaurd⟩ := Option.isSome_iff_exists.mp hsome
      obtain rfl := Option.some.inj hnext
      exact h.clientClose hgaurd
    · cases hnext
  | handleTimeout =>
    obtain ⟨c, hc, rfl⟩ := Option.map_eq_some_iff.mp hnext
    exact h.handleTimeout hc
  | serverRead j n fuel =>
    simp only [machine, next] at hnext
    split at hnext
    · rename_i hj
      obtain ⟨l, hl, rfl⟩ := Option.map_eq_some_iff.mp hnext
      obtain ⟨hlink, hcontinues⟩ := (h.links j hj).serverRead hl hok
      exact h.of_continues (fun _ => hlink) hcontinues
    · cases hnext
  | serverClose j =>
    obtain rfl := Option.some.inj hnext
    exact h.serverClose j
  | cut j n m =>
    obtain rfl := Option.some.inj hnext
    exact h.cut j n m

end Voyager.HttpExchange
