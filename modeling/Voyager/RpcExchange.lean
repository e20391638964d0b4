import Voyager.RpcLinks

/-!
What a client gets to see of its calls. However the threads, the loops and the
bytes interleave, `done` of a call is run with what the service computed for the
request of this very call, and a call is executed at most once. Once nothing is in
flight on a connection, the channel has been given one response for each request.
Both hold as long as the services answer the requests of a connection one at a time.
-/
namespace Voyager.RpcNetwork

open Lib.Runs ProtobufCodec RpcServer MessagePipe
open RpcChannel (callId)

/-! The network, seen from one connection. -/

variable (P : MessageClass RpcMessage) (kLittleEndian : Bool)

structure Inv (p : ConnId) (s : State) : Prop where
  server : Answering s.server
  calls : s.server.calls = s.accepted.map fun a => ⟨a.1, a.2.id⟩
  rejected : ∀ r ∈ s.server.replies, r.call = none → r.msg.error ≠ .ok
  link : LinkInv P kLittleEndian (s.link p) (repliesTo s.server p) (acceptedOn s.accepted p)
    (waitingOn s.server p)

/-- Protobuf can send every message of the connection. -/
def Sendable (p : ConnId) (s : State) : Prop :=
  (∀ r ∈ (s.link p).requests, Good P r.2) ∧ ∀ r ∈ s.server.replies, r.conn = p → Good P r.msg

/-- A request is accepted only when no earlier one of its connection is waiting. -/
def OneAtATime (s : State) : Label → Prop
  | .onRequest p addr =>
    ∀ msg ∈ (s.link p).toServer.pending, RpcServer.OneAtATime s.server (.onRequest p msg addr)
  | _ => True

instance (s : State) (a : Label) : Decidable (OneAtATime s a) := by
  unfold OneAtATime
  split <;> infer_instance

variable {P kLittleEndian} {s t : State} {p : ConnId}

theorem inv_create (initSize : ℕ) : Inv P kLittleEndian p (State.create initSize) where
  server := answering_create
  calls := rfl
  rejected r hr := by cases hr
  link := linkInv_create initSize

/-- A step that concerns one link and leaves the server alone. -/
theorem Inv.setLink (h : Inv P kLittleEndian p s) {q : ConnId} {l : Link}
    (hl : q = p → LinkInv P kLittleEndian l (repliesTo s.server p) (acceptedOn s.accepted p)
      (waitingOn s.server p)) : Inv P kLittleEndian p (s.setLink q l) :=
  { h with
    link := by
      by_cases hq : q = p
      · subst hq
        simpa [State.setLink] using hl rfl
      · simpa [State.setLink, Function.update_of_ne (Ne.symm hq)] using h.link }

/-! The books of the server, connection by connection. -/

section Server

variable {server server' : RpcServer.State} {p q : ConnId}

theorem repliesTo_append {r : Reply} (hreplies : server'.replies = server.replies ++ [r]) :
    repliesTo server' q =
      if q = r.conn then repliesTo server q ++ [r.msg] else repliesTo server q := by
  by_cases hq : q = r.conn
  · simp [repliesTo, hreplies, hq]
  · simp [repliesTo, hreplies, hq, Ne.symm hq]

theorem acceptedOn_append (accepted : List (ConnId × RpcMessage)) (msg : RpcMessage) :
    acceptedOn (accepted ++ [(p, msg)]) q =
      if q = p then acceptedOn accepted q ++ [msg] else acceptedOn accepted q := by
  by_cases hq : q = p
  · simp [acceptedOn, hq]
  · simp [acceptedOn, hq, Ne.symm hq]

/-- A call that is accepted waits behind the others. -/
theorem waitingOn_accept {id : RpcId} (hknown : ∀ k ∈ server.pending, k < server.calls.length)
    (hcalls : server'.calls = server.calls ++ [⟨p, id⟩])
    (hpending : server'.pending = server.pending ++ [server.calls.length]) :
    waitingOn server' q =
      if q = p then waitingOn server q ++ [id] else waitingOn server q := by
  have hold : (server.pending.filterMap fun k => (server.calls ++ [⟨p, id⟩])[k]?) =
      server.pending.filterMap fun k => server.calls[k]? :=
    List.filterMap_congr fun k hk => List.getElem?_append_left (hknown k hk)
  simp only [waitingOn, hcalls, hpending, List.filterMap_append, hold]
  by_cases hq : q = p
  · simp [hq]
  · simp [hq, Ne.symm hq]

/-- A call that is answered waits no longer. -/
theorem waitingOn_done {k : ℕ} {call : Call} (hcall : server.calls[k]? = some call)
    (hk : k ∈ server.pending) (hcalls : server'.calls = server.calls)
    (hpending : server'.pending = server.pending.erase k) :
    (waitingOn server q).Perm
      (if q = call.conn then call.id :: waitingOn server' q else waitingOn server' q) := by
  have hperm := ((((List.perm_cons_erase hk).filterMap fun k => server.calls[k]?).filter
    fun c => c.conn = q).map Call.id)
  simp only [waitingOn, hcalls, hpending]
  by_cases hq : q = call.conn
  · simpa [hcall, hq] using hperm
  · simpa [hcall, hq, Ne.symm hq] using hperm

end Server

theorem LinkInv.waiting_perm {l : Link} {replies accepted : List RpcMessage}
    {waiting waiting' : List RpcId} (h : LinkInv P kLittleEndian l replies accepted waiting)
    (hperm : waiting.Perm waiting') : LinkInv P kLittleEndian l replies accepted waiting' :=
  { h with balance := (hperm.symm.append_left _).trans h.balance }

/-- What `OnRequest` leads to: the request waits, or its answer is sent. -/
theorem onRequest_next {addr : Addr} {p : ConnId}
    (h : onRequest P kLittleEndian s p addr = some t) :
    ∃ msg server, (s.link p).toServer.pending = some msg ∧
      s.server.onRequest p msg addr = some server ∧
      ((server.replies = s.server.replies ∧ server.calls = s.server.calls ++ [⟨p, msg.id⟩] ∧
        server.pending = s.server.pending ++ [s.server.calls.length] ∧
        t = ⟨server, s.accepted ++ [(p, msg)], Function.update s.link p
          { s.link p with toServer := (s.link p).toServer.handle }⟩) ∨
      ∃ reply : RpcMessage, reply.id = msg.id ∧ reply.error ≠ .ok ∧
        server.replies = s.server.replies ++ [⟨p, reply, none⟩] ∧
        server.calls = s.server.calls ∧ server.pending = s.server.pending ∧
        t = ⟨server, s.accepted, Function.update s.link p
          { s.link p with
            toServer := (s.link p).toServer.handle
            toClient :=
              write P kLittleEndian (s.link p).connected (s.link p).toClient reply }⟩) := by
  simp only [onRequest] at h
  split at h
  · rename_i msg hpending
    obtain ⟨server, hserver, ht⟩ := Option.map_eq_some_iff.mp h
    refine ⟨msg, server, hpending, hserver, ?_⟩
    obtain ⟨herror, -, heq⟩ | ⟨herror, heq⟩ := onRequest_cases hserver
    · left
      have hnone : server.replies[s.server.replies.length]? = none := by simp [heq]
      refine ⟨by rw [heq], by rw [heq], by rw [heq], ?_⟩
      simpa [postReply, State.setLink, hnone, herror] using ht.symm
    · right
      have hsome : server.replies[s.server.replies.length]? =
          some ⟨p, ⟨msg.id, "", "", [], s.server.error msg⟩, none⟩ := by simp [heq]
      refine ⟨⟨msg.id, "", "", [], s.server.error msg⟩, rfl, herror, by rw [heq], by rw [heq],
        by rw [heq], ?_⟩
      simpa [postReply, State.setLink, hsome, herror] using ht.symm
  · cases h

/-- What `Done` leads to: the answer is sent. -/
theorem done_next {k : ℕ} {data : List Byte} {garbage : RpcId}
    (h : (s.server.done k data garbage).map (postReply P kLittleEndian s) = some t) :
    ∃ (call : Call) (reply : RpcMessage) (server : RpcServer.State),
      s.server.done k data garbage = some server ∧ s.server.calls[k]? = some call ∧
      k ∈ s.server.pending ∧ reply.id = s.server.readContext call.conn garbage ∧
      server.replies = s.server.replies ++ [⟨call.conn, reply, some k⟩] ∧
      server.calls = s.server.calls ∧ server.pending = s.server.pending.erase k ∧
      t = ⟨server, s.accepted, Function.update s.link call.conn
        { s.link call.conn with
          toClient := write P kLittleEndian (s.link call.conn).connected
            (s.link call.conn).toClient reply }⟩ := by
  obtain ⟨server, hserver, ht⟩ := Option.map_eq_some_iff.mp h
  obtain ⟨call, hcall, hk, heq⟩ := done_cases hserver
  have hsome : server.replies[s.server.replies.length]? =
      some ⟨call.conn, ⟨s.server.readContext call.conn garbage, "", "", data, .ok⟩, some k⟩ := by
    simp [heq]
  refine ⟨call, ⟨s.server.readContext call.conn garbage, "", "", data, .ok⟩, server, hserver, hcall,
    hk, rfl, by rw [heq], by rw [heq], by rw [heq], ?_⟩
  simpa [postReply, State.setLink, hsome] using ht.symm

/-- The link after a step of the server that concerns connection `q`. -/
theorem link_update {l : Link} {server : RpcServer.State}
    {accepted : List (ConnId × RpcMessage)} {q : ConnId}
    (h : LinkInv P kLittleEndian (s.link p) (repliesTo s.server p) (acceptedOn s.accepted p)
      (waitingOn s.server p))
    (hsame : q = p → LinkInv P kLittleEndian l (repliesTo server p) (acceptedOn accepted p)
      (waitingOn server p))
    (hother : p ≠ q → repliesTo server p = repliesTo s.server p ∧
      acceptedOn accepted p = acceptedOn s.accepted p ∧
      (waitingOn s.server p).Perm (waitingOn server p)) :
    LinkInv P kLittleEndian (Function.update s.link q l p) (repliesTo server p)
      (acceptedOn accepted p) (waitingOn server p) := by
  by_cases hq : p = q
  · subst hq
    rw [Function.update_self]
    exact hsame rfl
  · obtain ⟨hreplies, haccepted, hwaiting⟩ := hother hq
    rw [Function.update_of_ne hq, hreplies, haccepted]
    exact h.waiting_perm hwaiting

theorem Inv.onRequest (h : Inv P kLittleEndian p s) {q : ConnId} {addr : Addr}
    (hok : OneAtATime s (.onRequest q addr))
    (hgood : ∀ r ∈ t.server.replies, r.conn = p → Good P r.msg)
    (hnext : RpcNetwork.onRequest P kLittleEndian s q addr = some t) :
    Inv P kLittleEndian p t := by
  obtain ⟨msg, server, hpending, hserver, hcases⟩ := onRequest_next hnext
  have hanswering : Answering server :=
    h.server.step (a := .onRequest q msg addr) (hok msg hpending) (step_of_next hserver)
  obtain ⟨hreplies, hcalls, hwaiting, rfl⟩ |
      ⟨reply, hid, herror, hreplies, hcalls, hwaiting, rfl⟩ :=
    hcases
  · have hsame : repliesTo server p = repliesTo s.server p := by
      rw [repliesTo, hreplies, repliesTo]
    have hmore := waitingOn_accept (q := p) h.server.known hcalls hwaiting
    refine
      { server := hanswering
        calls := by rw [hcalls, h.calls]; simp
        rejected := by rw [hreplies]; exact h.rejected
        link := link_update h.link (fun hq => ?same) fun hq => ?other }
    case same =>
      subst hq
      rw [hsame, acceptedOn_append, if_pos rfl, hmore, if_pos rfl]
      exact h.link.accept hpending
    case other =>
      rw [hsame, acceptedOn_append, if_neg hq, hmore, if_neg hq]
      exact ⟨rfl, rfl, List.Perm.refl _⟩
  · have hmore := repliesTo_append (q := p) hreplies
    have hsame : waitingOn server p = waitingOn s.server p := by
      rw [waitingOn, hcalls, hwaiting, waitingOn]
    refine
      { server := hanswering
        calls := hcalls.trans h.calls
        rejected := fun r hr => ?rejected
        link := link_update h.link (fun hq => ?same) fun hq => ?other }
    case rejected =>
      rw [hreplies] at hr
      rcases List.mem_append.mp hr with hr | hr
      · exact h.rejected r hr
      · rw [List.mem_singleton.mp hr]
        exact fun _ => herror
    case same =>
      subst hq
      have hsendable : Good P reply := hgood ⟨q, reply, none⟩ (by rw [hreplies]; simp) rfl
      rw [hmore, if_pos rfl, hsame]
      exact h.link.reject hpending hid hsendable
    case other =>
      rw [hmore, if_neg hq, hsame]
      exact ⟨rfl, rfl, List.Perm.refl _⟩

theorem Inv.done (h : Inv P kLittleEndian p s) {k : ℕ} {data : List Byte} {garbage : RpcId}
    (hgood : ∀ r ∈ t.server.replies, r.conn = p → Good P r.msg)
    (hnext : (s.server.done k data garbage).map (postReply P kLittleEndian s) = some t) :
    Inv P kLittleEndian p t := by
  obtain ⟨call, reply, server, hserver, hcall, hk, hid, hreplies, hcalls, hpending, rfl⟩ :=
    done_next hnext
  have hanswering : Answering server :=
    h.server.step (a := .done k data garbage) trivial (step_of_next hserver)
  have hread : reply.id = call.id := by
    obtain ⟨addr, hcontext, hcell⟩ := h.server.slot k hk call hcall
    simp [hid, RpcServer.State.readContext, hcontext, hcell]
  have hmore := repliesTo_append (q := p) hreplies
  have hless := waitingOn_done (q := p) hcall hk hcalls hpending
  refine
    { server := hanswering
      calls := hcalls.trans h.calls
      rejected := fun r hr => ?rejected
      link := link_update h.link (fun hq => ?same) fun hq => ?other }
  case rejected =>
    rw [hreplies] at hr
    rcases List.mem_append.mp hr with hr | hr
    · exact h.rejected r hr
    · rw [List.mem_singleton.mp hr]
      intro hnone
      cases hnone
  case same =>
    subst hq
    have hsendable : Good P reply := hgood ⟨call.conn, reply, some k⟩ (by rw [hreplies]; simp) rfl
    rw [if_pos rfl, ← hread] at hless
    rw [hmore, if_pos rfl]
    exact h.link.answer hless hsendable
  case other =>
    rw [if_neg hq] at hless
    rw [hmore, if_neg hq]
    exact ⟨rfl, rfl, hless⟩

/-- What `CallMethod` leads to when it sends. -/
theorem callMethod_next {p : ConnId} {who : RpcChannel.Caller} {request : Request}
    (h : callMethod P kLittleEndian s p who request = some t) :
    ∃ ticket c, (s.link p).channel.callers who = some (ticket, .send) ∧
      RpcChannel.next (s.link p).channel
        (.send who (sendMessage P kLittleEndian true (request.message ticket.id)).res) = some c ∧
      t = s.setLink p { s.link p with
        channel := c
        requests := (s.link p).requests ++ [(ticket.call, request.message ticket.id)]
        toServer := write P kLittleEndian (s.link p).connected (s.link p).toServer
          (request.message ticket.id) } := by
  simp only [callMethod] at h
  split at h
  · rename_i ticket hwho
    obtain ⟨c, hc, ht⟩ := Option.map_eq_some_iff.mp h
    exact ⟨ticket, c, hwho, hc, ht.symm⟩
  · cases h

/-- What `OnResponse` leads to. -/
theorem onResponse_next {p : ConnId} (h : onResponse s p = some t) :
    ∃ msg c, (s.link p).toClient.pending = some msg ∧
      RpcChannel.next (s.link p).channel (.onResponse msg) = some c ∧
      t = s.setLink p { s.link p with
        channel := c
        toClient := (s.link p).toClient.handle } := by
  simp only [onResponse] at h
  split at h
  · rename_i msg hpending
    obtain ⟨c, hc, ht⟩ := Option.map_eq_some_iff.mp h
    exact ⟨msg, c, hpending, hc, ht.symm⟩
  · cases h

theorem requests_setLink {p q : ConnId} {l : Link}
    (h : (s.link p).requests <+: l.requests) :
    (s.link q).requests <+: ((s.setLink p l).link q).requests := by
  by_cases hq : q = p
  · subst hq
    simpa [State.setLink] using h
  · simp [State.setLink, hq]

/-- The books only grow. -/
theorem grows {a : Label} (hnext : next P kLittleEndian s a = some t) :
    (∀ q, (s.link q).requests <+: (t.link q).requests) ∧
      s.server.replies <+: t.server.replies := by
  cases a with
  | registerService fullName service =>
    cases hnext
    exact ⟨fun _ => List.prefix_rfl, List.prefix_rfl⟩
  | channel p a =>
    simp only [next] at hnext
    split at hnext
    · obtain ⟨c, -, rfl⟩ := Option.map_eq_some_iff.mp hnext
      exact ⟨fun _ => requests_setLink List.prefix_rfl, List.prefix_rfl⟩
    · cases hnext
  | send p who request =>
    obtain ⟨ticket, c, -, -, rfl⟩ := callMethod_next hnext
    exact ⟨fun _ => requests_setLink (List.prefix_append _ _), List.prefix_rfl⟩
  | readRequests p n =>
    obtain ⟨d, -, rfl⟩ := Option.map_eq_some_iff.mp hnext
    exact ⟨fun _ => requests_setLink List.prefix_rfl, List.prefix_rfl⟩
  | onRequest p addr =>
    obtain ⟨msg, server, -, -, ⟨hreplies, -, -, rfl⟩ | ⟨reply, -, -, hreplies, -, -, rfl⟩⟩ :=
      onRequest_next hnext
    · exact ⟨fun _ => requests_setLink List.prefix_rfl, hreplies ▸ List.prefix_rfl⟩
    · exact ⟨fun _ => requests_setLink List.prefix_rfl, hreplies ▸ List.prefix_append _ _⟩
  | done k data garbage =>
    obtain ⟨call, reply, server, -, -, -, -, hreplies, -, -, rfl⟩ := done_next hnext
    exact ⟨fun _ => requests_setLink List.prefix_rfl, hreplies ▸ List.prefix_append _ _⟩
  | readResponses p n =>
    obtain ⟨d, -, rfl⟩ := Option.map_eq_some_iff.mp hnext
    exact ⟨fun _ => requests_setLink List.prefix_rfl, List.prefix_rfl⟩
  | onResponse p =>
    obtain ⟨msg, c, -, -, rfl⟩ := onResponse_next hnext
    exact ⟨fun _ => requests_setLink List.prefix_rfl, List.prefix_rfl⟩
  | close p n m =>
    cases hnext
    exact ⟨fun _ => requests_setLink List.prefix_rfl, List.prefix_rfl⟩

theorem Sendable.before {a : Label} (h : Sendable P p t)
    (hnext : next P kLittleEndian s a = some t) : Sendable P p s :=
  ⟨fun r hr => h.1 r (((grows hnext).1 p).subset hr),
    fun r hr => h.2 r ((grows hnext).2.subset hr)⟩

theorem Inv.step {a : Label} (h : Inv P kLittleEndian p s) (hok : OneAtATime s a)
    (hgood : Sendable P p t) (hnext : next P kLittleEndian s a = some t) :
    Inv P kLittleEndian p t := by
  cases a with
  | registerService fullName service =>
    cases hnext
    exact
      { h with
        server := h.server.step (a := .registerService fullName service) trivial
          (.registerService fullName service) }
  | channel q a =>
    simp only [next] at hnext
    split at hnext
    · rename_i hlocal
      obtain ⟨c, hc, rfl⟩ := Option.map_eq_some_iff.mp hnext
      obtain ⟨hlive, hstep⟩ := RpcChannel.step_of_next hc
      refine h.setLink fun hq => ?_
      subst hq
      refine h.link.setChannel hlive hstep fun msg hmsg => ?_
      rw [hmsg] at hlocal
      cases hlocal
    · cases hnext
  | send q who request =>
    obtain ⟨ticket, c, hwho, hc, rfl⟩ := callMethod_next hnext
    refine h.setLink fun hq => ?_
    subst hq
    have hmsg : Good P (request.message ticket.id) :=
      hgood.1 (ticket.call, request.message ticket.id) (by simp [State.setLink])
    rw [(sendMessage_of_good hmsg).1] at hc
    obtain ⟨hlive, hstep⟩ := RpcChannel.step_of_next hc
    exact h.link.send hlive hwho hstep rfl hmsg
  | readRequests q n =>
    obtain ⟨d, hd, rfl⟩ := Option.map_eq_some_iff.mp hnext
    refine h.setLink fun hq => ?_
    subst hq
    exact h.link.readRequests hd
  | onRequest q addr => exact h.onRequest hok hgood.2 hnext
  | done k data garbage => exact h.done hgood.2 hnext
  | readResponses q n =>
    obtain ⟨d, hd, rfl⟩ := Option.map_eq_some_iff.mp hnext
    refine h.setLink fun hq => ?_
    subst hq
    exact h.link.readResponses hd
  | onResponse q =>
    obtain ⟨msg, c, hpending, hc, rfl⟩ := onResponse_next hnext
    obtain ⟨hlive, hstep⟩ := RpcChannel.step_of_next hc
    refine h.setLink fun hq => ?_
    subst hq
    exact h.link.onResponse hlive hpending hstep
  | close q n m =>
    cases hnext
    refine h.setLink fun hq => ?_
    subst hq
    exact h.link.close n m

theorem inv_of_reachable {initSize : ℕ}
    (hs : (machine P kLittleEndian initSize).ReachableWhen OneAtATime s)
    (hgood : Sendable P p s) : Inv P kLittleEndian p s := by
  induction hs with
  | init => exact inv_create initSize
  | step _ hok hnext ih => exact (ih (hgood.before hnext)).step hok hgood hnext

/-- Nothing is under way any more on a connection that has not broken. -/
structure Settled (s : State) (p : ConnId) : Prop where
  connected : (s.link p).connected = true
  toServer : (s.link p).toServer.Drained
  toClient : (s.link p).toClient.Drained
  answered : ∀ k ∈ s.server.pending, ∀ call, s.server.calls[k]? = some call → call.conn ≠ p

/-! One call of one client, the request in two reads. -/

/-- `RpcMessage` as protobuf serializes short ones: the tags and values of the fields
that do not have their default. -/
def wire (m : RpcMessage) : List Byte :=
  let field (tag : Byte) (bytes : List Byte) : List Byte :=
    if bytes = [] then [] else tag :: UInt8.ofNat bytes.length :: bytes
  (if m.id = 0 then [] else [0x08, UInt8.ofNat m.id.toNat]) ++
    field 0x12 m.serviceName.toUTF8.data.toList ++ field 0x1a m.methodName.toUTF8.data.toList ++
    field 0x22 m.data

def echoRequest : Request := ⟨"Echo", "echo", [7]⟩

def echoAnswer : RpcMessage := ⟨1, "", "", [9], .ok⟩

def shortMessages : MessageClass RpcMessage where
  byteSizeLong m := (wire m).length
  appendToString m := some (wire m)
  parseFromArray bytes n :=
    [echoRequest.message 1, echoAnswer].find? fun m => wire m = bytes.take n.toNat

theorem good_of_find {m : RpcMessage} (hsize : (wire m).length < 100)
    (hfind : [echoRequest.message 1, echoAnswer].find? (fun m' => wire m' = wire m) = some m) :
    Good shortMessages m := by
  refine ⟨?_, ⟨wire m, rfl, rfl⟩, ?_⟩
  · show 4 + (wire m).length < 2 ^ 31
    omega
  · rintro bytes rest ⟨⟩
    have htake : (wire m ++ rest).take (wire m).length = wire m := List.take_left' rfl
    simpa only [shortMessages, Int.toNat_natCast, htake] using hfind

def echoRun : List Label :=
  [.registerService "Echo" ⟨fun name => if name = "echo" then some ⟨fun _ => true⟩ else none⟩,
    .channel 0 (.beginCall (.thread 0)), .send 0 (.thread 0) echoRequest,
    .channel 0 (.runAfter (.thread 0) 0), .channel 0 (.register (.thread 0)),
    .readRequests 0 7, .readRequests 0 100, .onRequest 0 0, .done 0 [9] 0, .readResponses 0 100,
    .onResponse 0]

theorem exists_echo : ∃ s, (machine shortMessages true 0).ReachableWhen OneAtATime s ∧
    Sendable shortMessages 0 s ∧ (s.link 0).channel.issued = 1 ∧
    (s.link 0).channel.log.runs = [(0, echoAnswer)] ∧ Settled s 0 := by
  obtain ⟨s, hs, hrequests, hreplies, hissued, hruns, hconnected, hserver, hclient, hhandled,
      hhandled', hpending⟩ :=
    Machine.exists_reachableWhen_of_run (M := machine shortMessages true 0) OneAtATime echoRun
    (fun s => (s.link 0).requests = [(0, echoRequest.message 1)] ∧
      s.server.replies = [⟨0, echoAnswer, some 0⟩] ∧ (s.link 0).channel.issued = 1 ∧
      (s.link 0).channel.log.runs = [(0, echoAnswer)] ∧ (s.link 0).connected = true ∧
      (s.link 0).toServer.inFlight = [] ∧ (s.link 0).toClient.inFlight = [] ∧
      (s.link 0).toServer.handled = (s.link 0).toServer.delivery.messages.length ∧
      (s.link 0).toClient.handled = (s.link 0).toClient.delivery.messages.length ∧
      s.server.pending = []) (by decide +kernel)
  refine ⟨s, hs, ⟨fun r hr => ?_, fun r hr _ => ?_⟩, hissued, hruns, hconnected,
    ⟨hserver, hhandled⟩, ⟨hclient, hhandled'⟩, ?_⟩
  · rw [hrequests, List.mem_singleton] at hr
    rw [hr]
    exact good_of_find (by decide) (by decide)
  · rw [hreplies, List.mem_singleton] at hr
    rw [hr]
    exact good_of_find (by decide) (by decide)
  · rw [hpending]
    exact nofun

variable (P kLittleEndian)

/-- Once nothing is under way any more in such a run, the channel has been given one
response for each request that it has sent, and no other. -/
theorem settled_responses (initSize : ℕ) (s : State) (p : ConnId)
    (hs : (machine P kLittleEndian initSize).ReachableWhen OneAtATime s) (hgood : Sendable P p s)
    (hsettled : Settled s p) :
    ((s.link p).toClient.done.map RpcMessage.id).Perm
      ((s.link p).requests.map fun r => r.2.id) := by
  have h := inv_of_reachable hs hgood
  obtain ⟨hserver, hclient, hrequests, hanswers⟩ := h.link.whole hsettled.connected
  have hwaiting : waitingOn s.server p = [] := by
    rw [waitingOn, List.map_eq_nil_iff, List.filter_eq_nil_iff]
    intro call hcall
    obtain ⟨k, hk, hget⟩ := List.mem_filterMap.mp hcall
    simpa using hsettled.answered k hk call hget
  have hbalance := h.link.balance
  rw [hwaiting, List.append_nil, h.link.toServer.done_eq_sent hserver hsettled.toServer, hrequests,
    List.map_map] at hbalance
  rw [h.link.toClient.done_eq_sent hclient hsettled.toClient, hanswers]
  exact hbalance

theorem settled_responses_echo :
    ∃ s : State, (s.link 0).channel.log.runs = [(0, echoAnswer)] ∧
      ((s.link 0).toClient.done.map RpcMessage.id).Perm
        ((s.link 0).requests.map fun r => r.2.id) := by
  obtain ⟨s, hs, hgood, -, hruns, hsettled⟩ := exists_echo
  exact ⟨s, hruns, settled_responses shortMessages true 0 s 0 hs hgood hsettled⟩

end Voyager.RpcNetwork
