import Voyager.Descriptors

/-!
What each step of the process makes of its acceptors and connectors: inversion
lemmas that say all a step can do, and the induction rules over their moves.
-/
namespace Voyager.Descriptors

open Lib Lib.Runs

variable {s t : State}

@[simp] theorem acceptors_close (o : Owner) (fd : Option ℕ) :
    (s.close o fd).acceptors = s.acceptors := by
  cases fd <;> rfl

@[simp] theorem connectors_close (o : Owner) (fd : Option ℕ) :
    (s.close o fd).connectors = s.connectors := by
  cases fd <;> rfl

@[simp] theorem connections_close (o : Owner) (fd : Option ℕ) :
    (s.close o fd).connections = s.connections := by
  cases fd <;> rfl

/-! What the methods of an acceptor do to it. -/

/-- An acceptor goes from `x` to `y` while the table is `u`. -/
inductive AcceptorMoves (u : Ledger Owner) (x : TcpAcceptor) : AcceptorLabel → TcpAcceptor → Prop
  | listened (hpc : x.pc = .idle) : AcceptorMoves u x .enableListen { x with listenning := true }
  | arrived (peer : ℕ) : AcceptorMoves u x (.arrive peer) { x with
      queue := x.queue ++ [peer], arrived := x.arrived ++ [peer] }
  | withdrawn (i : ℕ) : AcceptorMoves u x (.withdraw i) { x with queue := x.queue.eraseIdx i }
  | accepted (errno : AcceptError) (fd peer : ℕ) (rest : List ℕ) (hpc : x.pc = .idle)
      (hqueue : x.queue = peer :: rest) :
      AcceptorMoves u x (.accept .connection errno) { x with
        queue := rest, pc := .accepted fd peer }
  | refused (e : AcceptError) (hpc : x.pc = .idle) :
      AcceptorMoves u x (.accept (.error e) .emfile) { x with pc := .closeIdle }
  | failed (e errno : AcceptError) (hpc : x.pc = .idle) (herrno : errno ≠ .emfile) :
      AcceptorMoves u x (.accept (.error e) errno) { x with outcomes := x.outcomes ++ [.failed e] }
  | handedOff (k fd peer : ℕ) (o : TcpAcceptor.Outcome) (hpc : x.pc = .accepted fd peer)
      (ho : o.peer = some peer) :
      AcceptorMoves u x (.handOff k) { x with pc := .idle, outcomes := x.outcomes ++ [o] }
  | closedIdle (hpc : x.pc = .closeIdle) :
      AcceptorMoves u x .closeIdle { x with pc := .acceptIdle }
  | dropped (fd peer : ℕ) (rest : List ℕ) (hpc : x.pc = .acceptIdle)
      (hqueue : x.queue = peer :: rest) :
      AcceptorMoves u x (.acceptIdle .connection) { x with
        queue := rest, idlefd := some fd, pc := .closeAccepted
        outcomes := x.outcomes ++ [.dropped peer] }
  | missed (e : AcceptError) (hpc : x.pc = .acceptIdle) (hpossible : possible u x.queue e = true) :
      AcceptorMoves u x (.acceptIdle (.error e)) { x with
        idlefd := none, pc := .closeAccepted, outcomes := x.outcomes ++ [.missed e] }
  | closedAccepted (hpc : x.pc = .closeAccepted) :
      AcceptorMoves u x .closeAccepted { x with pc := .openIdle }
  | openFailed (hpc : x.pc = .openIdle ∨ x.pc = .construct) :
      AcceptorMoves u x (.openIdle true) { x with idlefd := none, pc := .idle }
  | opened (fd : ℕ) (hpc : x.pc = .openIdle ∨ x.pc = .construct) :
      AcceptorMoves u x (.openIdle false) { x with idlefd := some fd, pc := .idle }
  | deleted (hpc : x.pc = .idle) : AcceptorMoves u x .delete { x with pc := .closeSocket }

/-- What a step makes of the acceptors: nothing, when accept(2) fails for good, the end of
one, or a move of one. -/
inductive AcceptorChange (a : ℕ) (x : TcpAcceptor) (l : AcceptorLabel) (s t : State) : Prop
  | same (hsame : t.acceptors = s.acceptors) (hopens : (Label.acceptor a l).opens = none)
  | deleted (hdeleted : t.acceptors = Function.update s.acceptors a none)
  | moved (y : TcpAcceptor) (hmoves : AcceptorMoves s.table x l y)
      (hmoved : t.acceptors = Function.update s.acceptors a (some y))

section Acceptor

variable {a : ℕ} {x : TcpAcceptor}

theorem acceptorChange_accept (hpc : x.pc = .idle) {errno : AcceptError} {r : AcceptResult}
    (h : accept s a x errno r = some t) :
    AcceptorChange a x (.accept r errno) s t ∧ t.connectors = s.connectors := by
  cases r with
  | connection =>
    simp only [accept] at h
    split at h
    · rename_i peer rest fd u hqueue htake
      cases h
      exact ⟨.moved _ (.accepted errno fd peer rest hpc hqueue) rfl, rfl⟩
    · cases h
  | error e =>
    simp only [accept] at h
    split at h
    · cases h
    split at h
    · cases h
      exact ⟨.same rfl rfl, rfl⟩
    split at h
    · rename_i herrno
      cases h
      exact ⟨.moved _ (herrno ▸ .refused e hpc) rfl, rfl⟩
    · rename_i herrno
      cases h
      exact ⟨.moved _ (.failed e errno hpc herrno) rfl, rfl⟩

theorem acceptorChange_acceptIdle (hpc : x.pc = .acceptIdle) {r : AcceptResult}
    (h : acceptIdle s a x r = some t) :
    AcceptorChange a x (.acceptIdle r) s t ∧ t.connectors = s.connectors := by
  cases r with
  | connection =>
    simp only [acceptIdle] at h
    split at h
    · rename_i peer rest fd u hqueue htake
      cases h
      exact ⟨.moved _ (.dropped fd peer rest hpc hqueue) rfl, rfl⟩
    · cases h
  | error e =>
    simp only [acceptIdle] at h
    split at h
    · cases h
    · rename_i hpossible
      cases h
      exact ⟨.moved _ (.missed e hpc (by simpa using hpossible)) rfl, rfl⟩

theorem acceptorChange_openIdle (hpc : x.pc = .openIdle ∨ x.pc = .construct) {fails : Bool}
    (h : openIdle s a x fails = some t) :
    AcceptorChange a x (.openIdle fails) s t ∧ t.connectors = s.connectors := by
  cases fails with
  | true =>
    cases h
    exact ⟨.moved _ (.openFailed hpc) rfl, rfl⟩
  | false =>
    simp only [openIdle, Bool.false_eq_true, if_false, Option.map_eq_some_iff] at h
    obtain ⟨⟨fd, u⟩, -, rfl⟩ := h
    exact ⟨.moved _ (.opened fd hpc) rfl, rfl⟩

theorem acceptorChange_nextAcceptor {l : AcceptorLabel} (h : nextAcceptor s a x l x.pc = some t) :
    AcceptorChange a x l s t ∧ t.connectors = s.connectors := by
  generalize hpc : x.pc = pc at h
  unfold nextAcceptor at h
  split at h
  · cases h
    exact ⟨.moved _ (.listened hpc) rfl, rfl⟩
  · split at h
    · cases h
      exact ⟨.moved _ (.arrived _) rfl, rfl⟩
    · cases h
  · cases h
    exact ⟨.moved _ (.withdrawn _) rfl, rfl⟩
  · split at h
    · exact acceptorChange_accept hpc h
    · cases h
  · rename_i k connectfd peer
    unfold handOff at h
    split at h
    · split at h
      · cases h
      · cases h
        exact ⟨.moved _ (.handedOff k connectfd peer (.handed peer) hpc rfl) rfl, rfl⟩
    · cases h
      exact ⟨.moved _ (.handedOff k connectfd peer (.closed peer) hpc rfl)
        (by simp [State.setAcceptor]), by simp [State.setAcceptor]⟩
  · cases h
    exact ⟨.moved _ (.closedIdle hpc) (by simp [State.setAcceptor]), by simp [State.setAcceptor]⟩
  · exact acceptorChange_acceptIdle hpc h
  · cases h
    exact ⟨.moved _ (.closedAccepted hpc) (by simp [State.setAcceptor]),
      by simp [State.setAcceptor]⟩
  · exact acceptorChange_openIdle (.inl hpc) h
  · exact acceptorChange_openIdle (.inr hpc) h
  · cases h
    exact ⟨.moved _ (.deleted hpc) (by simp [State.setAcceptor]), by simp [State.setAcceptor]⟩
  · cases h
    exact ⟨.deleted (by simp [State.setAcceptor]), by simp [State.setAcceptor]⟩
  · cases h

end Acceptor

/-! What the methods of a connector do to its socket. -/

/-- A connector goes from `x` to `y`. -/
inductive ConnectorMoves (x : Connector) : ConnectorLabel → Connector → Prop
  | created (start : Option Bool) (fd : ℕ) :
      ConnectorMoves x (.startInLoop start) { x.start start with pc := .created fd }
  | started (start : Option Bool) (hpc : x.pc = .idle) :
      ConnectorMoves x (.startInLoop start) (x.start start)
  | installed (fd : ℕ) (hpc : x.pc = .created fd) :
      ConnectorMoves x .resetSocket { x with
        socket := some (BaseSocket.create fd), pc := .installed }
  | connect (err : TcpConnector.Err) (hpc : x.pc = .installed) (hgives : givesUp err = false) :
      ConnectorMoves x (.connect err) { x with self := (x.self.connect err).1, pc := .idle }
  | gaveUp (err : TcpConnector.Err) (hpc : x.pc = .installed) (hgives : givesUp err = true) :
      ConnectorMoves x (.connect err) { x with
        self := (x.self.connect err).1, socket := none, pc := .idle }
  | stopped (hpc : x.pc = .idle) :
      ConnectorMoves x .stopInLoop { x with self := x.self.stopInLoop.1 }
  | dispatchReset (hpc : x.pc = .idle) :
      ConnectorMoves x .dispatchReset { x with self := x.self.dispatchReset.1 }
  | retried (r : TcpConnector.SocketResult) (k : ℕ) (hpc : x.pc = .idle) (hr : r ≠ .connected) :
      ConnectorMoves x (.handleEvent r k) { x with self := (x.self.handleEvent r).1 }
  | connected (k : ℕ) (y : TcpConnector) (hpc : x.pc = .idle) (hy : y.state = .kConnected) :
      ConnectorMoves x (.handleEvent .connected k) { x with self := y, socket := none }

/-- What a step makes of the connectors: nothing, the end of one, or a move of one. -/
inductive ConnectorChange (c : ℕ) (x : Connector) (l : ConnectorLabel) (s t : State) : Prop
  | same (hsame : t.connectors = s.connectors)
  | deleted (hdeleted : t.connectors = Function.update s.connectors c none)
  | moved (y : Connector) (hmoves : ConnectorMoves x l y)
      (hmoved : t.connectors = Function.update s.connectors c (some y))

theorem handleEvent_connected_state (k : TcpConnector) (hstate : k.state = .kConnecting) :
    (k.handleEvent .connected).1.state = .kConnected := by
  simp [TcpConnector.handleEvent, hstate]

theorem connectorChange_nextConnector {c : ℕ} {x : Connector} {l : ConnectorLabel}
    (h : nextConnector s c x l x.pc = some t) :
    ConnectorChange c x l s t ∧ t.acceptors = s.acceptors := by
  generalize hpc : x.pc = pc at h
  unfold nextConnector at h
  split at h
  · rename_i start
    unfold startInLoop at h
    split at h
    · split at h
      · cases h
        exact ⟨.moved _ (.created start _) rfl, rfl⟩
      · cases h
        exact ⟨.same rfl, rfl⟩
    · cases h
      exact ⟨.moved _ (.started start hpc) rfl, rfl⟩
  · cases h
    refine ⟨.moved _ (.installed _ hpc) ?_, ?_⟩ <;>
      simp [resetSocket, State.setConnector, State.setTable]
  · rename_i err
    cases h
    unfold connect
    dsimp only
    split
    · exact ⟨.moved _ (.gaveUp err hpc ‹_›) (by simp [State.setConnector]),
        by simp [State.setConnector]⟩
    · exact ⟨.moved _ (.connect err hpc (by simpa using ‹¬givesUp err = true›)) rfl, rfl⟩
  · cases h
    exact ⟨.moved _ (.stopped hpc) rfl, rfl⟩
  · cases h
    exact ⟨.moved _ (.dispatchReset hpc) rfl, rfl⟩
  · rename_i r k
    unfold handleEvent at h
    split at h
    · cases h
      exact ⟨.same rfl, rfl⟩
    rename_i hstate
    have hstate : x.self.state = .kConnecting := by simpa using hstate
    have hconnected := handleEvent_connected_state x.self hstate
    split at h
    · cases h
      exact ⟨.same rfl, rfl⟩
    dsimp only at h
    split at h
    · cases h
      exact ⟨.moved _ (.retried .error k hpc (by simp)) rfl, rfl⟩
    · cases h
      exact ⟨.moved _ (.retried .selfConnect k hpc (by simp)) rfl, rfl⟩
    · split at h
      · split at h
        · cases h
        · cases h
          refine ⟨.moved _ (.connected k (x.self.handleEvent .connected).1.newConnectionDone hpc
            hconnected) ?_, ?_⟩ <;>
            simp [State.setConnector, State.setConnection, State.setTable]
      · cases h
        exact ⟨.moved _ (.connected k _ hpc hconnected) (by simp [State.setConnector]),
          by simp [State.setConnector]⟩
  · cases h
    exact ⟨.deleted (by simp [State.setConnector]), by simp [State.setConnector]⟩
  · cases h

/-- What holds of a new connector and is kept by its moves holds of every connector. -/
theorem connectors_next {P : Connector → Prop} (hcreate : P Connector.create) {l : Label}
    (hmoves : ∀ c l' x y, l = .connector c l' → s.connectors c = some x → P x →
      ConnectorMoves x l' y → P y)
    (h : next s l = some t) (hs : ∀ c x, s.connectors c = some x → P x) :
    ∀ c x, t.connectors c = some x → P x := by
  unfold next at h
  split at h
  · cases h
  split at h
  · have hsame : t.connectors = s.connectors := by
      unfold newAcceptor at h
      split at h <;> cases h <;> rfl
    rwa [hsame]
  · obtain ⟨x, -, hnext⟩ := Option.bind_eq_some_iff.mp h
    rwa [(acceptorChange_nextAcceptor hnext).2]
  · rename_i c
    split at h
    · cases h
    cases h
    intro b x hx
    by_cases hb : b = c
    · subst hb
      simp only [State.setConnector, Function.update_self, Option.some.injEq] at hx
      exact hx ▸ hcreate
    · simp only [State.setConnector, Function.update_of_ne hb] at hx
      exact hs b x hx
  · rename_i c l' _
    obtain ⟨x, hx, hnext⟩ := Option.bind_eq_some_iff.mp h
    intro b y hy
    cases (connectorChange_nextConnector hnext).1 with
    | same hsame => exact hs b y (hsame ▸ hy)
    | deleted hdeleted =>
      rw [hdeleted] at hy
      by_cases hb : b = c
      · rw [hb, Function.update_self] at hy
        cases hy
      · rw [Function.update_of_ne hb] at hy
        exact hs b y hy
    | moved z hmove hmoved =>
      rw [hmoved] at hy
      by_cases hb : b = c
      · rw [hb, Function.update_self, Option.some.injEq] at hy
        exact hy ▸ hmoves c l' x z rfl hx (hs c x hx) hmove
      · rw [Function.update_of_ne hb] at hy
        exact hs b y hy
  · obtain ⟨x, -, rfl⟩ := Option.map_eq_some_iff.mp h
    simpa [State.setConnection] using hs
  · split at h
    · cases h
    · obtain ⟨_, -, rfl⟩ := Option.map_eq_some_iff.mp h
      exact hs
  · obtain ⟨_, -, rfl⟩ := Option.map_eq_some_iff.mp h
    exact hs

def Label.isOf (a : ℕ) : Label → Bool
  | .acceptor b _ => b == a
  | _ => false

/-- How the acceptor `b` comes to be `y`. -/
inductive AcceptorStep (b : ℕ) (y : TcpAcceptor) (l : Label) (s : State) : Prop
  | kept (hx : s.acceptors b = some y) (hl : l.opens = none ∨ l.isOf b = false)
  | created (fd : ℕ) (connCb : Bool) (hy : y = TcpAcceptor.create fd connCb)
  | moved (x : TcpAcceptor) (l' : AcceptorLabel) (hl : l = .acceptor b l')
      (hx : s.acceptors b = some x) (hmoves : AcceptorMoves s.table x l' y)

theorem acceptorStep_next {b : ℕ} {y : TcpAcceptor} {l : Label} (h : next s l = some t)
    (hy : t.acceptors b = some y) : AcceptorStep b y l s := by
  unfold next at h
  split at h
  · cases h
  split at h
  · rename_i a connCb
    unfold newAcceptor at h
    split at h
    · cases h
    · rename_i hnone _
      cases h
      refine .kept hy (.inr ?_)
      by_cases hb : a = b
      · rw [← hb] at hy
        rw [State.stop, hnone] at hy
        cases hy
      · simpa [Label.isOf] using hb
    · rename_i fd u _ _
      cases h
      by_cases hb : b = a
      · subst hb
        simp only [State.setAcceptor, Function.update_self, Option.some.injEq] at hy
        exact .created fd connCb hy.symm
      · simp only [State.setAcceptor, State.setTable, Function.update_of_ne hb] at hy
        exact .kept hy (.inr (by simpa [Label.isOf] using Ne.symm hb))
  · rename_i a l' _
    obtain ⟨x, hx, hnext⟩ := Option.bind_eq_some_iff.mp h
    have hother (hb : b ≠ a) : (Label.acceptor a l').isOf b = false := by
      simpa [Label.isOf] using Ne.symm hb
    cases (acceptorChange_nextAcceptor hnext).1 with
    | same hsame hopens => exact .kept (hsame ▸ hy) (.inl hopens)
    | deleted hdeleted =>
      rw [hdeleted] at hy
      by_cases hb : b = a
      · rw [hb, Function.update_self] at hy
        cases hy
      · rw [Function.update_of_ne hb] at hy
        exact .kept hy (.inr (hother hb))
    | moved z hmoves hmoved =>
      rw [hmoved] at hy
      by_cases hb : b = a
      · subst hb
        rw [Function.update_self, Option.some.injEq] at hy
        exact .moved x l' rfl hx (hy ▸ hmoves)
      · rw [Function.update_of_ne hb] at hy
        exact .kept hy (.inr (hother hb))
  · split at h
    · cases h
    · cases h
      exact .kept hy (.inr rfl)
  · obtain ⟨x, -, hnext⟩ := Option.bind_eq_some_iff.mp h
    exact .kept ((connectorChange_nextConnector hnext).2 ▸ hy) (.inr rfl)
  · obtain ⟨x, -, rfl⟩ := Option.map_eq_some_iff.mp h
    exact .kept (by simpa [State.setConnection] using hy) (.inr rfl)
  · split at h
    · cases h
    · obtain ⟨_, -, rfl⟩ := Option.map_eq_some_iff.mp h
      exact .kept hy (.inr rfl)
  · obtain ⟨_, -, rfl⟩ := Option.map_eq_some_iff.mp h
    exact .kept hy (.inr rfl)

end Voyager.Descriptors
