import Voyager.RpcNetwork

/-!
One connection of the network: what a step of its channel or of the server does to
the calls, and the invariant of a link, which relates the requests of the channel,
the bytes in both directions and the books that the server keeps for the connection.
-/
namespace Voyager.RpcNetwork

open Lib.Runs ProtobufCodec RpcServer MessagePipe
open RpcChannel (callId)

/-! What a step of a channel does to its calls. -/

/-- Only `++seq_` brings a call to the point before `SendMessage`. -/
structure Moves (c c' : RpcChannel.State) : Prop where
  issued : c.issued ≤ c'.issued
  begun : ∀ who ticket, c'.callers who = some (ticket, .send) →
    c.callers who = some (ticket, .send) ∨ c.issued ≤ ticket.call

/-- A caller is moved to a later stage or away, the other ones stay. -/
theorem moves_of_callers {c c' : RpcChannel.State} {who : RpcChannel.Caller}
    {place : Option (RpcChannel.Ticket × RpcChannel.Stage)} (hissued : c'.issued = c.issued)
    (hcallers : c'.callers = Function.update c.callers who place)
    (hplace : ∀ ticket, place ≠ some (ticket, .send)) : Moves c c' where
  issued := Nat.le_of_eq hissued.symm
  begun who' ticket h := by
    rw [hcallers] at h
    by_cases heq : who' = who
    · subst heq
      rw [Function.update_self] at h
      exact absurd h (hplace ticket)
    · rw [Function.update_of_ne heq] at h
      exact .inl h

theorem moves_of_eq {c c' : RpcChannel.State} (hissued : c'.issued = c.issued)
    (hcallers : c'.callers = c.callers) : Moves c c' where
  issued := Nat.le_of_eq hissued.symm
  begun _ _ h := .inl (hcallers ▸ h)

theorem moves_of_step {c c' : RpcChannel.State} {a : RpcChannel.Label}
    (h : RpcChannel.Step c a c') : Moves c c' := by
  cases h with
  | setTimeout on => exact moves_of_eq rfl rfl
  | @beginCall who hidle =>
    refine ⟨Nat.le_succ _, fun who' ticket h => ?_⟩
    rcases RpcChannel.State.setCaller_some.mp h with ⟨-, hnew⟩ | ⟨-, hold⟩
    · cases hnew
      exact .inr (Nat.le_refl _)
    · exact .inl hold
  | sent hwho => exact moves_of_callers rfl rfl (by simp)
  | unsent hwho => exact moves_of_callers rfl rfl (by simp)
  | armed hwho hfree hinserting => exact moves_of_callers rfl rfl (by simp)
  | notArmed hwho => exact moves_of_callers rfl rfl (by simp)
  | register hwho => exact moves_of_callers rfl rfl (by simp)
  | insertInLoop hfirst => exact moves_of_eq rfl rfl
  | @known msg data hloop hfound =>
    apply moves_of_eq <;> by_cases hok : msg.error = .ok <;> simp [RpcChannel.State.onKnown, hok]
  | unknown hloop hfound => exact moves_of_eq rfl rfl
  | @onTimeout addr timer hloop htimer =>
    apply moves_of_eq <;> cases hfound : c.callMap.lookup timer.id <;>
      simp [RpcChannel.State.onTimeout, hfound]
  | destroy =>
    obtain ⟨timers, hfold⟩ := RpcChannel.State.foldl_removeTimer_eq c.callMap.entries c
    apply moves_of_eq <;> simp [RpcChannel.State.destroy, hfold]

/-- `done` is run in `OnResponse` only, with the message it was called with. -/
theorem runs_of_step {c c' : RpcChannel.State} {a : RpcChannel.Label}
    (h : RpcChannel.Step c a c') {r : ℕ × RpcMessage} (hr : r ∈ c'.log.runs) :
    r ∈ c.log.runs ∨ a = .onResponse r.2 := by
  cases h with
  | @known msg data hloop hfound =>
    by_cases hok : msg.error = .ok
    · simp only [RpcChannel.State.onKnown, hok, if_true, RpcChannel.State.removeTimer_log,
        List.mem_append, List.mem_singleton] at hr
      rcases hr with hr | rfl
      · exact .inl hr
      · exact .inr rfl
    · simp only [RpcChannel.State.onKnown, hok, if_false, RpcChannel.State.removeTimer_log] at hr
      exact .inl hr
  | @onTimeout addr timer hloop htimer =>
    left
    cases hfound : c.callMap.lookup timer.id <;>
      simpa [RpcChannel.State.onTimeout, hfound] using hr
  | destroy =>
    obtain ⟨timers, hfold⟩ := RpcChannel.State.foldl_removeTimer_eq c.callMap.entries c
    left
    simpa [RpcChannel.State.destroy, hfold] using hr
  | setTimeout on => exact .inl hr
  | beginCall hidle => exact .inl hr
  | sent hwho => exact .inl hr
  | unsent hwho => exact .inl hr
  | armed hwho hfree hinserting => exact .inl hr
  | notArmed hwho => exact .inl hr
  | register hwho => exact .inl hr
  | insertInLoop hfirst => exact .inl hr
  | unknown hloop hfound => exact .inl hr

/-! What a step of the server does. -/

theorem onRequest_cases {server server' : RpcServer.State} {p : ConnId} {msg : RpcMessage}
    {addr : Addr} (h : server.onRequest p msg addr = some server') :
    (server.error msg = .ok ∧ server.cells addr = none ∧
      server' = { server with
        cells := Function.update server.cells addr (some msg.id)
        context := Function.update server.context p (some addr)
        calls := server.calls ++ [⟨p, msg.id⟩]
        pending := server.pending ++ [server.calls.length] }) ∨
    (server.error msg ≠ .ok ∧
      server' = { server with
        replies := server.replies ++ [⟨p, ⟨msg.id, "", "", [], server.error msg⟩, none⟩] }) := by
  unfold RpcServer.State.onRequest at h
  split at h
  · rename_i herror
    split at h
    · rename_i hfree
      cases h
      exact .inl ⟨herror, hfree, rfl⟩
    · cases h
  · rename_i herror
    cases h
    exact .inr ⟨herror, rfl⟩

theorem done_cases {server server' : RpcServer.State} {k : ℕ} {data : List Byte} {garbage : RpcId}
    (h : server.done k data garbage = some server') :
    ∃ call, server.calls[k]? = some call ∧ k ∈ server.pending ∧
      server' = { server with
        replies := server.replies ++
          [⟨call.conn, ⟨server.readContext call.conn garbage, "", "", data, .ok⟩, some k⟩]
        cells := server.deleteContext call.conn
        pending := server.pending.erase k } := by
  unfold RpcServer.State.done at h
  split at h
  · rename_i call hcall
    split at h
    · rename_i hk
      cases h
      exact ⟨call, hcall, hk, rfl⟩
    · cases h
  · cases h

/-- The messages of the server's answers on a connection. -/
def repliesTo (server : RpcServer.State) (p : ConnId) : List RpcMessage :=
  (server.replies.filter fun r => r.conn = p).map Reply.msg

/-- The requests of a connection that were accepted. -/
def acceptedOn (accepted : List (ConnId × RpcMessage)) (p : ConnId) : List RpcMessage :=
  (accepted.filter fun a => a.1 = p).map Prod.snd

/-- The ids of the requests of a connection whose `done` has not been run. -/
def waitingOn (server : RpcServer.State) (p : ConnId) : List RpcId :=
  ((server.pending.filterMap fun k => server.calls[k]?).filter fun c => c.conn = p).map Call.id

variable (P : MessageClass RpcMessage) (kLittleEndian : Bool)

/-- A link, with what the server has answered and accepted on its connection and the
ids it has still to answer. -/
structure LinkInv (l : Link) (replies accepted : List RpcMessage) (waiting : List RpcId) :
    Prop where
  routed : RpcChannel.Routed l.channel
  begun : ∀ who ticket, l.channel.callers who = some (ticket, .send) →
    ticket.call ∉ l.requests.map Prod.fst
  ids : ∀ r ∈ l.requests, r.2.id = callId r.1 ∧ r.1 < l.channel.issued
  once : (l.requests.map Prod.fst).Nodup
  toServer : Ok P kLittleEndian l.toServer
  toClient : Ok P kLittleEndian l.toClient
  sent : l.toServer.sent.Sublist (l.requests.map Prod.snd)
  answers : l.toClient.sent.Sublist replies
  whole : l.connected = true → Whole P kLittleEndian l.toServer ∧
    Whole P kLittleEndian l.toClient ∧ l.toServer.sent = l.requests.map Prod.snd ∧
    l.toClient.sent = replies
  accepted : accepted.Sublist l.toServer.done
  balance : (replies.map RpcMessage.id ++ waiting).Perm (l.toServer.done.map RpcMessage.id)
  runs : ∀ r ∈ l.channel.log.runs, r.2 ∈ l.toClient.done

variable {P kLittleEndian}

theorem linkInv_create (initSize : ℕ) :
    LinkInv P kLittleEndian (Link.create initSize) [] [] [] where
  routed := RpcChannel.routed_create
  begun _ _ h := by cases h
  ids r hr := by cases hr
  once := List.nodup_nil
  toServer := ok_create initSize
  toClient := ok_create initSize
  sent := List.Sublist.refl []
  answers := List.Sublist.refl []
  whole _ := ⟨whole_create initSize, whole_create initSize, rfl, rfl⟩
  accepted := List.nil_sublist _
  balance := List.Perm.refl []
  runs r hr := by cases hr

theorem sendMessage_of_good {msg : RpcMessage} (hgood : Good P msg) :
    (sendMessage P kLittleEndian true msg).res = true ∧
      (sendMessage P kLittleEndian true msg).message = some (frame P kLittleEndian msg) := by
  obtain ⟨bytes, hbytes, -⟩ := hgood.2.appends
  simp [frame, sendMessage, hbytes]

theorem write_of_good {connected : Bool} {d : MessagePipe RpcMessage} {msg : RpcMessage}
    (hgood : Good P msg) : write P kLittleEndian connected d msg =
      if connected then d.write msg (frame P kLittleEndian msg) else d := by
  rw [write, (sendMessage_of_good hgood).2]

section LinkInv

variable {l : Link} {replies accepted : List RpcMessage} {waiting : List RpcId}

/-- A direction after `SendMessage`, next to all that was to be sent on it. -/
theorem write_spec {connected : Bool} {d : MessagePipe RpcMessage} {msg : RpcMessage}
    {all : List RpcMessage} (hgood : Good P msg) (hok : Ok P kLittleEndian d)
    (hsent : d.sent.Sublist all)
    (hwhole : connected = true → Whole P kLittleEndian d ∧ d.sent = all) :
    Ok P kLittleEndian (write P kLittleEndian connected d msg) ∧
      (write P kLittleEndian connected d msg).done = d.done ∧
      (write P kLittleEndian connected d msg).sent.Sublist (all ++ [msg]) ∧
      (connected = true → Whole P kLittleEndian (write P kLittleEndian connected d msg) ∧
        (write P kLittleEndian connected d msg).sent = all ++ [msg]) := by
  rw [write_of_good hgood]
  cases connected with
  | false => exact ⟨hok, rfl, hsent.trans (List.sublist_append_left all [msg]), nofun⟩
  | true =>
    obtain ⟨hw, hall⟩ := hwhole rfl
    have hnew : (d.write msg (frame P kLittleEndian msg)).sent = all ++ [msg] := by
      rw [← hall]
      rfl
    exact ⟨hok.write hgood hw, rfl, hnew ▸ List.Sublist.refl _, fun _ => ⟨hw.write msg, hnew⟩⟩

/-- A step of the channel; what it handles in `OnResponse` has been taken before. -/
theorem LinkInv.setChannel (h : LinkInv P kLittleEndian l replies accepted waiting)
    {c : RpcChannel.State} {a : RpcChannel.Label} (hlive : l.channel.destroyed = false)
    (hstep : RpcChannel.Step l.channel a c)
    (ha : ∀ msg, a = .onResponse msg → msg ∈ l.toClient.done) :
    LinkInv P kLittleEndian { l with channel := c } replies accepted waiting :=
  { h with
    routed := h.routed.step hlive hstep
    begun := fun who ticket hwho => by
      rcases (moves_of_step hstep).begun who ticket hwho with hold | hnew
      · exact h.begun who ticket hold
      · intro hmem
        obtain ⟨r, hr, hcall⟩ := List.mem_map.mp hmem
        have hlt := (h.ids r hr).2
        omega
    ids := fun r hr =>
      ⟨(h.ids r hr).1, Nat.lt_of_lt_of_le (h.ids r hr).2 (moves_of_step hstep).issued⟩
    runs := fun r hr => (runs_of_step hstep hr).elim (h.runs r) (ha r.2) }

/-- `CallMethod` sends its message. -/
theorem LinkInv.send (h : LinkInv P kLittleEndian l replies accepted waiting)
    {c : RpcChannel.State} {who : RpcChannel.Caller} {ticket : RpcChannel.Ticket} {msg : RpcMessage}
    (hlive : l.channel.destroyed = false) (hwho : l.channel.callers who = some (ticket, .send))
    (hstep : RpcChannel.Step l.channel (.send who true) c) (hid : msg.id = ticket.id)
    (hgood : Good P msg) :
    LinkInv P kLittleEndian { l with
      channel := c
      requests := l.requests ++ [(ticket.call, msg)]
      toServer := write P kLittleEndian l.connected l.toServer msg } replies accepted waiting := by
  have hnext := h.setChannel hlive hstep nofun
  have hheld := h.routed.held hlive
  obtain ⟨hticket, hlt, -⟩ := hheld.caller who ticket .send hwho
  obtain ⟨hok, hdone, hsent, hwhole⟩ := write_spec hgood h.toServer h.sent
    fun hc => ⟨(h.whole hc).1, (h.whole hc).2.2.1⟩
  refine
    { hnext with
      begun := fun who' ticket' hwho' => ?begun
      ids := fun r hr => ?ids
      once := ?once
      toServer := hok
      sent := by rw [List.map_append]; exact hsent
      whole := fun hc => ?whole
      accepted := by rw [hdone]; exact h.accepted
      balance := by rw [hdone]; exact h.balance }
  case begun =>
    have hne : ticket'.call ≠ ticket.call := by
      cases hstep with
      | sent hwho₁ =>
        obtain ⟨hother, hold⟩ := (RpcChannel.State.setCaller_some.mp hwho').resolve_left (by simp)
        exact fun hsame => hother (hheld.callers who' who _ _ hold hwho hsame)
    rw [List.map_append, List.mem_append, not_or]
    exact ⟨hnext.begun who' ticket' hwho', by simpa using hne⟩
  case ids =>
    rcases List.mem_append.mp hr with hr | hr
    · exact hnext.ids r hr
    · rw [List.mem_singleton.mp hr]
      exact ⟨hid.trans hticket, Nat.lt_of_lt_of_le hlt (moves_of_step hstep).issued⟩
  case once =>
    rw [List.map_append]
    exact RpcChannel.nodup_concat h.once (h.begun who ticket hwho)
  case whole =>
    obtain ⟨-, hclient, -, hanswers⟩ := h.whole hc
    obtain ⟨hserver, hall⟩ := hwhole hc
    exact ⟨hserver, hclient, by rw [List.map_append]; exact hall, hanswers⟩

theorem LinkInv.readRequests (h : LinkInv P kLittleEndian l replies accepted waiting) {n : ℕ}
    {d : MessagePipe RpcMessage} (hread : l.toServer.read P kLittleEndian n = some d) :
    LinkInv P kLittleEndian { l with toServer := d } replies accepted waiting := by
  obtain ⟨hok, hsent, hdone, hbytes⟩ := h.toServer.read_eq hread
  exact
    { h with
      toServer := hok
      sent := hsent ▸ h.sent
      whole := fun hc => by
        rw [Whole, hbytes, hsent]
        exact h.whole hc
      accepted := hdone ▸ h.accepted
      balance := hdone ▸ h.balance }

theorem LinkInv.readResponses (h : LinkInv P kLittleEndian l replies accepted waiting) {n : ℕ}
    {d : MessagePipe RpcMessage} (hread : l.toClient.read P kLittleEndian n = some d) :
    LinkInv P kLittleEndian { l with toClient := d } replies accepted waiting := by
  obtain ⟨hok, hsent, hdone, hbytes⟩ := h.toClient.read_eq hread
  exact
    { h with
      toClient := hok
      answers := hsent ▸ h.answers
      whole := fun hc => by
        obtain ⟨hserver, hclient, hrequests, hanswers⟩ := h.whole hc
        refine ⟨hserver, ?_, hrequests, hsent.trans hanswers⟩
        rw [Whole, hbytes, hsent]
        exact hclient
      runs := hdone ▸ h.runs }

/-- The server takes a request and will answer it later. -/
theorem LinkInv.accept (h : LinkInv P kLittleEndian l replies accepted waiting) {msg : RpcMessage}
    (hpending : l.toServer.pending = some msg) :
    LinkInv P kLittleEndian { l with toServer := l.toServer.handle } replies (accepted ++ [msg])
      (waiting ++ [msg.id]) :=
  { h with
    toServer := h.toServer.handle hpending
    accepted := by
      rw [done_handle hpending]
      exact h.accepted.append (List.Sublist.refl _)
    balance := by
      rw [done_handle hpending, List.map_append, ← List.append_assoc]
      exact h.balance.append_right _ }

/-- A request that is answered with an error at once. -/
theorem LinkInv.reject (h : LinkInv P kLittleEndian l replies accepted waiting)
    {msg reply : RpcMessage} (hpending : l.toServer.pending = some msg) (hid : reply.id = msg.id)
    (hgood : Good P reply) :
    LinkInv P kLittleEndian { l with
      toServer := l.toServer.handle
      toClient := write P kLittleEndian l.connected l.toClient reply } (replies ++ [reply])
      accepted waiting := by
  obtain ⟨hok, hdone, hsent, hwhole⟩ := write_spec hgood h.toClient h.answers
    fun hc => ⟨(h.whole hc).2.1, (h.whole hc).2.2.2⟩
  refine
    { h with
      toServer := h.toServer.handle hpending
      toClient := hok
      answers := hsent
      whole := fun hc => ?whole
      accepted := ?accepted
      balance := ?balance
      runs := by rw [hdone]; exact h.runs }
  case whole =>
    obtain ⟨hserver, -, hrequests, -⟩ := h.whole hc
    exact ⟨hserver, (hwhole hc).1, hrequests, (hwhole hc).2⟩
  case accepted =>
    rw [done_handle hpending]
    exact h.accepted.trans (List.sublist_append_left _ _)
  case balance =>
    rw [done_handle hpending, List.map_append, List.map_append]
    have hswap : (replies.map RpcMessage.id ++ [reply].map RpcMessage.id ++ waiting).Perm
        (replies.map RpcMessage.id ++ waiting ++ [reply].map RpcMessage.id) := by
      rw [List.append_assoc, List.append_assoc]
      exact List.perm_append_comm.append_left _
    refine hswap.trans ?_
    rw [List.map_singleton, List.map_singleton, hid]
    exact h.balance.append_right _

/-- A request that was accepted before is answered. -/
theorem LinkInv.answer (h : LinkInv P kLittleEndian l replies accepted waiting)
    {reply : RpcMessage} {waiting' : List RpcId} (hwaiting : waiting.Perm (reply.id :: waiting'))
    (hgood : Good P reply) :
    LinkInv P kLittleEndian { l with
      toClient := write P kLittleEndian l.connected l.toClient reply } (replies ++ [reply])
      accepted waiting' := by
  obtain ⟨hok, hdone, hsent, hwhole⟩ := write_spec hgood h.toClient h.answers
    fun hc => ⟨(h.whole hc).2.1, (h.whole hc).2.2.2⟩
  refine
    { h with
      toClient := hok
      answers := hsent
      whole := fun hc => ?whole
      balance := ?balance
      runs := by rw [hdone]; exact h.runs }
  case whole =>
    obtain ⟨hserver, -, hrequests, -⟩ := h.whole hc
    exact ⟨hserver, (hwhole hc).1, hrequests, (hwhole hc).2⟩
  case balance =>
    rw [List.map_append, List.append_assoc, List.map_singleton, List.singleton_append]
    exact (hwaiting.symm.append_left _).trans h.balance

/-- `OnResponse` with the next message. -/
theorem LinkInv.onResponse (h : LinkInv P kLittleEndian l replies accepted waiting)
    {c : RpcChannel.State} {msg : RpcMessage} (hlive : l.channel.destroyed = false)
    (hpending : l.toClient.pending = some msg)
    (hstep : RpcChannel.Step l.channel (.onResponse msg) c) :
    LinkInv P kLittleEndian { l with channel := c, toClient := l.toClient.handle } replies accepted
      waiting := by
  have hdone := done_handle hpending
  have htaken : LinkInv P kLittleEndian { l with toClient := l.toClient.handle } replies accepted
      waiting :=
    { h with
      toClient := h.toClient.handle hpending
      runs := fun r hr => by
        rw [hdone]
        exact List.mem_append_left _ (h.runs r hr) }
  refine htaken.setChannel hlive hstep fun msg' heq => ?_
  cases heq
  rw [hdone]
  exact List.mem_append_right _ (List.mem_singleton.mpr rfl)

theorem LinkInv.close (h : LinkInv P kLittleEndian l replies accepted waiting) (n m : ℕ) :
    LinkInv P kLittleEndian (l.close n m) replies accepted waiting :=
  { h with
    toServer := h.toServer.cut n
    toClient := h.toClient.cut m
    whole := nofun }

end LinkInv

end Voyager.RpcNetwork
