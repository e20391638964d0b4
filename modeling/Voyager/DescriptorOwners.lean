import Voyager.DescriptorMoves

/-!
Who holds which descriptor, across any interleaving. A step of the process opens a
descriptor for one variable, closes the one that a variable holds, hands one from
a variable to another, or leaves them alone.
-/
namespace Voyager.Descriptors

open Lib Lib.Runs

variable {limit : ℕ} {s t : State}

/-- What a step does to the descriptors; one with `opening = false` opens none. -/
inductive Change (opening : Bool) : State → State → Prop
  | same {s t : State} (htable : t.table = s.table) (hheld : t.held = s.held)
      (hcloses : t.closes = s.closes) : Change opening s t
  | took {s t : State} (o : Owner) (f : ℕ) (hopening : opening = true)
      (htake : s.table.take o = some (f, t.table)) (hnone : s.held o = none)
      (hheld : t.held = Function.update s.held o (some f)) (hcloses : t.closes = s.closes) :
      Change opening s t
  | closed {s t : State} (o : Owner) (htable : t.table = (s.close o (s.held o)).table)
      (hheld : t.held = Function.update s.held o none)
      (hcloses : t.closes = (s.close o (s.held o)).closes) : Change opening s t
  | gave {s t : State} (o o' : Owner) (f : ℕ) (ho : s.held o = some f) (hnone : s.held o' = none)
      (htable : t.table = s.table.transfer f o')
      (hheld : t.held = Function.update (Function.update s.held o none) o' (some f))
      (hcloses : t.closes = s.closes) : Change opening s t
  | trans {s t u : State} (hfirst : Change opening s t) (hlast : Change opening t u) :
      Change opening s u

/-- The variables hold what the table says is theirs, and every close(2) so far met a
descriptor of its caller. -/
structure Owned (s : State) : Prop where
  agrees : s.table.Agrees s.held
  closes : ∀ e ∈ s.closes, e.found = some e.caller

theorem owned_create : Owned (State.create limit) where
  agrees := by
    have hheld : (State.create limit).held = fun _ => none := by
      funext o
      cases o <;> rfl
    rw [hheld]
    exact Ledger.agrees_create limit
  closes := nofun

theorem Owned.close (h : Owned s) (o : Owner) (hheld : t.held = Function.update s.held o none)
    (htable : t.table = (s.close o (s.held o)).table)
    (hcloses : t.closes = (s.close o (s.held o)).closes) : Owned t := by
  cases ho : s.held o with
  | none =>
    have hsame : Function.update s.held o none = s.held := by rw [← ho, Function.update_eq_self]
    rw [ho] at htable hcloses
    refine ⟨?_, hcloses ▸ h.closes⟩
    rw [htable, hheld, hsame]
    exact h.agrees
  | some f =>
    rw [ho] at htable hcloses
    constructor
    · rw [htable, hheld]
      exact h.agrees.release ho
    · intro e he
      rw [hcloses] at he
      rcases List.mem_append.mp he with he | he
      · exact h.closes e he
      · rw [List.mem_singleton.mp he]
        exact (h.agrees o f).mp ho

theorem Owned.change {opening : Bool} (hchange : Change opening s t) (h : Owned s) : Owned t := by
  induction hchange with
  | same htable hheld hcloses =>
    exact ⟨by rw [htable, hheld]; exact h.agrees, hcloses ▸ h.closes⟩
  | took o f _ htake hnone hheld hcloses =>
    exact ⟨hheld ▸ h.agrees.take hnone htake, hcloses ▸ h.closes⟩
  | closed o htable hheld hcloses => exact h.close o hheld htable hcloses
  | gave o o' f ho hnone htable hheld hcloses =>
    refine ⟨?_, hcloses ▸ h.closes⟩
    rw [htable, hheld]
    exact h.agrees.transfer ho hnone
  | trans _ _ ihfirst ihlast => exact ihlast (ihfirst h)

/-- A step that opens nothing leaves a free slot free, if there is one. -/
theorem Change.isSome_free (hchange : Change false s t) (h : Owned s)
    (hfree : s.table.free.isSome) : t.table.free.isSome := by
  generalize hopening : false = opening at hchange
  induction hchange with
  | same htable _ _ => rwa [htable]
  | took o f hopens _ _ _ _ =>
    rw [← hopening] at hopens
    cases hopens
  | @closed s t o htable _ _ =>
    rw [htable]
    cases s.held o with
    | none => exact hfree
    | some f => exact Ledger.isSome_free_of_release hfree
  | gave o o' f ho _ htable _ _ =>
    rw [htable]
    exact Ledger.isSome_free_of_transfer ((h.agrees o f).mp ho) hfree
  | trans hfirst _ ihfirst ihlast => exact ihlast (h.change hfirst) (ihfirst h hfree)

section Held

variable {a c k n : ℕ}

@[simp] theorem held_setTable (u : Ledger Owner) : (s.setTable u).held = s.held := by
  funext o
  cases o <;> rfl

@[simp] theorem held_close (o : Owner) (fd : Option ℕ) : (s.close o fd).held = s.held := by
  cases fd with
  | none => rfl
  | some fd =>
    funext p
    cases p <;> rfl

/-- An acceptor changes what one of its variables holds. -/
theorem held_setAcceptor (x : Option TcpAcceptor) (role : TcpAcceptor.Role)
    (hrole : ∀ r, r ≠ role → x.bind (·.held r) = s.held (.acceptor a r)) :
    (s.setAcceptor a x).held =
      Function.update s.held (.acceptor a role) (x.bind (·.held role)) := by
  funext o
  by_cases ho : o = .acceptor a role
  · rw [ho, Function.update_self]
    simp [State.held, State.setAcceptor]
  · rw [Function.update_of_ne ho]
    cases o with
    | acceptor b r =>
      by_cases hb : b = a
      · subst hb
        rw [← hrole r (by simpa using ho)]
        simp [State.held, State.setAcceptor]
      · simp [State.held, State.setAcceptor, Function.update_of_ne hb]
    | _ => rfl

theorem held_setConnector (x : Option Connector) (role : ConnectorRole)
    (hrole : ∀ r, r ≠ role → x.bind (·.held r) = s.held (.connector c r)) :
    (s.setConnector c x).held =
      Function.update s.held (.connector c role) (x.bind (·.held role)) := by
  funext o
  by_cases ho : o = .connector c role
  · rw [ho, Function.update_self]
    simp [State.held, State.setConnector]
  · rw [Function.update_of_ne ho]
    cases o with
    | connector b r =>
      by_cases hb : b = c
      · subst hb
        rw [← hrole r (by simpa using ho)]
        simp [State.held, State.setConnector]
      · simp [State.held, State.setConnector, Function.update_of_ne hb]
    | _ => rfl

theorem held_setConnection (x : Option BaseSocket) :
    (s.setConnection k x).held =
      Function.update s.held (.connection k) (x.bind BaseSocket.owned) := by
  funext o
  by_cases ho : o = .connection k
  · rw [ho, Function.update_self]
    simp [State.held, State.setConnection]
  · rw [Function.update_of_ne ho]
    cases o with
    | connection j =>
      have hj : j ≠ k := by simpa using ho
      simp [State.held, State.setConnection, Function.update_of_ne hj]
    | _ => rfl

theorem held_setOther (x : Option ℕ) :
    (s.setOther n x).held = Function.update s.held (.other n) x := by
  funext o
  by_cases ho : o = .other n
  · rw [ho, Function.update_self]
    simp [State.held, State.setOther]
  · rw [Function.update_of_ne ho]
    cases o with
    | other m =>
      have hm : m ≠ n := by simpa using ho
      simp [State.held, State.setOther, Function.update_of_ne hm]
    | _ => rfl

end Held

section Acceptor

variable {a : ℕ} {x x' : TcpAcceptor} {opening : Bool}

theorem held_acceptor (hx : s.acceptors a = some x) (role : TcpAcceptor.Role) :
    s.held (.acceptor a role) = x.held role := by
  simp [State.held, hx]

theorem change_setAcceptor (hx : s.acceptors a = some x) (hrole : ∀ r, x'.held r = x.held r) :
    Change opening s (s.setAcceptor a (some x')) := by
  refine .same rfl ?_ rfl
  rw [held_setAcceptor (some x') .socket fun r _ => (hrole r).trans (held_acceptor hx r).symm,
    Option.bind_some, hrole, ← held_acceptor hx, Function.update_eq_self]

/-- The new descriptor goes to one of the acceptor's variables. -/
theorem change_takeAcceptor {x' : TcpAcceptor} {role : TcpAcceptor.Role} {fd : ℕ}
    {u : Ledger Owner} (htake : s.table.take (.acceptor a role) = some (fd, u))
    (hnone : s.held (.acceptor a role) = none) (hfd : x'.held role = some fd)
    (hrole : ∀ r, r ≠ role → x'.held r = s.held (.acceptor a r)) :
    Change true s ((s.setTable u).setAcceptor a (some x')) := by
  refine .took _ fd rfl htake hnone ?_ rfl
  rw [held_setAcceptor (some x') role, Option.bind_some, hfd, held_setTable]
  intro r hr
  rw [held_setTable]
  exact hrole r hr

/-- One of the acceptor's variables gives its descriptor up. -/
theorem change_closeAcceptor {x' : Option TcpAcceptor} {role : TcpAcceptor.Role} {fd : Option ℕ}
    (hfd : s.held (.acceptor a role) = fd) (hnone : x'.bind (·.held role) = none)
    (hrole : ∀ r, r ≠ role → x'.bind (·.held r) = s.held (.acceptor a r)) :
    Change opening s ((s.close (.acceptor a role) fd).setAcceptor a x') := by
  subst hfd
  refine .closed _ rfl ?_ rfl
  rw [held_setAcceptor x' role, hnone, held_close]
  intro r hr
  rw [held_close]
  exact hrole r hr

/-- The acceptor closes what `idlefd_` holds and goes on without it. -/
theorem change_closeIdlefd (hx : s.acceptors a = some x) (hidle : x.pc.withoutIdle = false)
    (hconnectfd : x.held .connectfd = none) {pc : TcpAcceptor.Pc} (hpc : pc.withoutIdle = true)
    (hnone : TcpAcceptor.held { x with pc := pc } .connectfd = none) :
    Change opening s ((s.close (.acceptor a .idlefd) x.idlefd).setAcceptor a
      (some { x with pc := pc })) := by
  refine change_closeAcceptor ?_ ?_ fun r hr => ?_
  · simp [held_acceptor hx, TcpAcceptor.held, hidle]
  · simp [TcpAcceptor.held, hpc]
  · rw [held_acceptor hx]
    cases r with
    | socket => rfl
    | connectfd => exact hnone.trans hconnectfd.symm
    | idlefd => exact absurd rfl hr

theorem change_newAcceptor {connCb : Bool} (h : newAcceptor s a connCb = some t) :
    Change true s t := by
  unfold newAcceptor at h
  split at h
  · cases h
  · rename_i hnone _
    cases h
    exact .same rfl rfl rfl
  · rename_i fd u hnone htake
    cases h
    refine change_takeAcceptor htake (by simp [State.held, hnone]) rfl fun r hr => ?_
    cases r with
    | socket => exact absurd rfl hr
    | connectfd => simp [State.held, hnone, TcpAcceptor.create, TcpAcceptor.held]
    | idlefd => simp [State.held, hnone, TcpAcceptor.create, TcpAcceptor.held,
        TcpAcceptor.Pc.withoutIdle]

theorem change_accept (hx : s.acceptors a = some x) (hpc : x.pc = .idle) {errno : AcceptError}
    {r : AcceptResult} (h : accept s a x errno r = some t) :
    Change (decide (r = .connection)) s t := by
  cases r with
  | connection =>
    simp only [accept] at h
    split at h
    · rename_i peer rest fd u hqueue htake
      cases h
      refine change_takeAcceptor htake ?_ rfl fun r hr => ?_
      · simp [held_acceptor hx, TcpAcceptor.held, hpc]
      · rw [held_acceptor hx]
        cases r with
        | connectfd => exact absurd rfl hr
        | _ => simp [TcpAcceptor.held, hpc, TcpAcceptor.Pc.withoutIdle]
    · cases h
  | error e =>
    simp only [accept] at h
    split at h
    · cases h
    split at h
    · cases h
      exact .same rfl rfl rfl
    split at h
    all_goals
      cases h
      refine change_setAcceptor hx fun r => ?_
      cases r <;> simp [TcpAcceptor.held, hpc, TcpAcceptor.Pc.withoutIdle]

theorem change_handOff (hx : s.acceptors a = some x) {connectfd peer k : ℕ}
    (hpc : x.pc = .accepted connectfd peer) (h : handOff s a x connectfd peer k = some t) :
    Change opening s t := by
  have hheld : s.held (.acceptor a .connectfd) = some connectfd := by
    simp [held_acceptor hx, TcpAcceptor.held, hpc]
  have hrole (outcomes : List TcpAcceptor.Outcome) (r : TcpAcceptor.Role) (hr : r ≠ .connectfd) :
      TcpAcceptor.held { x with pc := .idle, outcomes := outcomes } r =
        s.held (.acceptor a r) := by
    rw [held_acceptor hx]
    cases r with
    | connectfd => exact absurd rfl hr
    | _ => simp [TcpAcceptor.held, hpc, TcpAcceptor.Pc.withoutIdle]
  unfold handOff at h
  split at h
  · split at h
    · cases h
    rename_i hfresh
    cases h
    have hnone : s.connections k = none := by simpa using hfresh
    refine .gave _ (.connection k) connectfd hheld (by simp [State.held, hnone]) rfl ?_ rfl
    rw [held_setAcceptor _ .connectfd, held_setConnection, held_setTable]
    · rw [Function.update_comm (by simp)]
      rfl
    · intro r hr
      rw [held_setConnection, Function.update_of_ne (by simp), held_setTable]
      exact hrole _ r hr
  · cases h
    exact change_closeAcceptor hheld rfl (hrole _)

theorem change_acceptIdle (hx : s.acceptors a = some x) (hpc : x.pc = .acceptIdle)
    {r : AcceptResult} (h : acceptIdle s a x r = some t) :
    Change (decide (r = .connection)) s t := by
  cases r with
  | connection =>
    simp only [acceptIdle] at h
    split at h
    · rename_i peer rest fd u hqueue htake
      cases h
      refine change_takeAcceptor htake ?_ rfl fun r hr => ?_
      · simp [held_acceptor hx, TcpAcceptor.held, hpc, TcpAcceptor.Pc.withoutIdle]
      · rw [held_acceptor hx]
        cases r with
        | idlefd => exact absurd rfl hr
        | _ => simp [TcpAcceptor.held, hpc]
    · cases h
  | error e =>
    simp only [acceptIdle] at h
    split at h
    · cases h
    · cases h
      refine change_setAcceptor hx fun r => ?_
      cases r <;> simp [TcpAcceptor.held, hpc, TcpAcceptor.Pc.withoutIdle]

theorem change_openIdle (hx : s.acceptors a = some x) (hpc : x.pc = .openIdle ∨ x.pc = .construct)
    {fails : Bool} (h : openIdle s a x fails = some t) : Change (!fails) s t := by
  have hnone : x.pc.withoutIdle = true ∧ x.held .connectfd = none := by
    rcases hpc with hpc | hpc <;> simp [hpc, TcpAcceptor.Pc.withoutIdle, TcpAcceptor.held]
  cases fails with
  | true =>
    cases h
    refine change_setAcceptor hx fun r => ?_
    cases r with
    | socket => rfl
    | connectfd => exact hnone.2.symm
    | idlefd => simp [TcpAcceptor.held, hnone.1]
  | false =>
    simp only [openIdle, Bool.false_eq_true, if_false, Option.map_eq_some_iff] at h
    obtain ⟨⟨fd, u⟩, htake, rfl⟩ := h
    refine change_takeAcceptor htake ?_ rfl fun r hr => ?_
    · simp [held_acceptor hx, TcpAcceptor.held, hnone.1]
    · rw [held_acceptor hx]
      cases r with
      | socket => rfl
      | connectfd => exact hnone.2.symm
      | idlefd => exact absurd rfl hr

theorem change_nextAcceptor (hx : s.acceptors a = some x) {l : AcceptorLabel}
    (h : nextAcceptor s a x l x.pc = some t) : Change (Label.acceptor a l).opens.isSome s t := by
  generalize hpc : x.pc = pc at h
  unfold nextAcceptor at h
  split at h
  · -- `EnableListen`
    cases h
    exact change_setAcceptor hx fun r => by cases r <;> rfl
  · -- a connection arrives
    split at h
    · cases h
      exact change_setAcceptor hx fun r => by cases r <;> rfl
    · cases h
  · -- a connection is withdrawn
    cases h
    exact change_setAcceptor hx fun r => by cases r <;> rfl
  · rename_i r errno
    split at h
    · have hchange := change_accept hx hpc h
      cases r <;> exact hchange
    · cases h
  · exact change_handOff hx hpc h
  · -- `Accept` gives its reserve up
    cases h
    exact change_closeIdlefd hx (by rw [hpc]; rfl) (by simp [TcpAcceptor.held, hpc]) rfl rfl
  · rename_i r
    have hchange := change_acceptIdle hx hpc h
    cases r <;> exact hchange
  · -- `Accept` closes the connection it has no descriptor for
    cases h
    exact change_closeIdlefd hx (by rw [hpc]; rfl) (by simp [TcpAcceptor.held, hpc]) rfl rfl
  · rename_i fails
    have hchange := change_openIdle hx (.inl hpc) h
    cases fails <;> exact hchange
  · rename_i fails
    have hchange := change_openIdle hx (.inr hpc) h
    cases fails <;> exact hchange
  · -- `~TcpAcceptor`
    cases h
    exact change_closeIdlefd hx (by rw [hpc]; rfl) (by simp [TcpAcceptor.held, hpc]) rfl rfl
  · -- the destructor of `socket_`
    cases h
    refine change_closeAcceptor (held_acceptor hx .socket) rfl fun r hr => ?_
    rw [held_acceptor hx]
    cases r with
    | socket => exact absurd rfl hr
    | _ => simp [TcpAcceptor.held, hpc, TcpAcceptor.Pc.withoutIdle]
  · cases h

end Acceptor

/-- The `ClientSocket` that a connector still has closes its descriptor. -/
def Connector.AutoClose (x : Connector) : Prop :=
  ∀ socket, x.socket = some socket → socket.needClose = true

theorem ConnectorMoves.autoClose {x y : Connector} {l : ConnectorLabel}
    (hmoves : ConnectorMoves x l y)
    (h : x.AutoClose) : y.AutoClose := by
  cases hmoves with
  | created start fd => cases start <;> exact h
  | started start _ => cases start <;> exact h
  | installed fd _ =>
    intro socket hsocket
    cases hsocket
    rfl
  | gaveUp | connected => exact nofun
  | _ => exact h

section Connector

variable {c : ℕ} {x : Connector} {opening : Bool}

theorem held_connector (hx : s.connectors c = some x) (role : ConnectorRole) :
    s.held (.connector c role) = x.held role := by
  simp [State.held, hx]

theorem change_setConnector {x' : Connector} (hx : s.connectors c = some x)
    (hrole : ∀ r, x'.held r = x.held r) : Change opening s (s.setConnector c (some x')) := by
  refine .same rfl ?_ rfl
  rw [held_setConnector (some x') .socket fun r _ => (hrole r).trans (held_connector hx r).symm,
    Option.bind_some, hrole, ← held_connector hx, Function.update_eq_self]

/-- The connector's socket is destroyed. -/
theorem change_closeConnector {x' : Option Connector} {fd : Option ℕ}
    (hfd : s.held (.connector c .socket) = fd) (hnone : x'.bind (·.held .socket) = none)
    (hcreated : x'.bind (·.held .created) = s.held (.connector c .created)) :
    Change opening s ((s.close (.connector c .socket) fd).setConnector c x') := by
  subst hfd
  refine .closed _ rfl ?_ rfl
  rw [held_setConnector x' .socket, hnone, held_close]
  intro r hr
  rw [held_close]
  cases r with
  | socket => exact absurd rfl hr
  | created => exact hcreated

theorem change_startInLoop (hx : s.connectors c = some x) (hpc : x.pc = .idle)
    {start : Option Bool} (h : startInLoop s c x start = some t) : Change true s t := by
  have hsocket : (x.start start).socket = x.socket := by cases start <;> rfl
  have hpc' : (x.start start).pc = x.pc := by cases start <;> rfl
  unfold startInLoop at h
  split at h
  · split at h
    · rename_i fd u htake
      cases h
      refine .took _ fd rfl htake (by simp [held_connector hx, Connector.held, hpc]) ?_ rfl
      rw [held_setConnector _ .created, held_setTable]
      · rfl
      · intro r hr
        rw [held_setTable, held_connector hx]
        cases r with
        | socket => exact congrArg (·.bind BaseSocket.owned) hsocket
        | created => exact absurd rfl hr
    · cases h
      exact .same rfl rfl rfl
  · cases h
    refine change_setConnector hx fun r => ?_
    cases r <;> simp only [Connector.held, hsocket, hpc']

theorem change_resetSocket (hx : s.connectors c = some x) {fd : ℕ} (hpc : x.pc = .created fd) :
    Change opening s (resetSocket s c x fd) := by
  -- the old socket goes first, then the new one comes to `socket_`
  have hclosed : Change opening s ((s.close (.connector c .socket)
      (x.socket.bind BaseSocket.owned)).setConnector c (some { x with socket := none })) :=
    change_closeConnector (held_connector hx .socket) rfl (held_connector hx .created).symm
  refine hclosed.trans (.gave (.connector c .created) (.connector c .socket) fd ?_ ?_ rfl ?_ rfl)
  · simp [State.held, State.setConnector, Connector.held, hpc]
  · simp [State.held, State.setConnector, Connector.held]
  · funext o
    by_cases hsocket : o = .connector c .socket
    · subst hsocket
      simp [resetSocket, State.held, State.setConnector, Connector.held, BaseSocket.owned,
        BaseSocket.create]
    · rw [Function.update_of_ne hsocket]
      by_cases hcreated : o = .connector c .created
      · subst hcreated
        simp [resetSocket, State.held, State.setConnector, Connector.held]
      · rw [Function.update_of_ne hcreated]
        cases o with
        | connector b r =>
          have hb : b ≠ c := by
            intro hb
            subst hb
            cases r with
            | socket => exact hsocket rfl
            | created => exact hcreated rfl
          simp [resetSocket, State.held, State.setConnector, Function.update_of_ne hb,
            State.setTable]
        | _ => simp [resetSocket, State.held, State.setConnector, State.setTable]

theorem change_connect (hx : s.connectors c = some x) (hpc : x.pc = .installed)
    (err : TcpConnector.Err) : Change opening s (connect s c x err) := by
  unfold connect
  dsimp only
  split
  · exact change_closeConnector (held_connector hx .socket) rfl
      (by simp [held_connector hx, Connector.held, hpc])
  · refine change_setConnector hx fun r => ?_
    cases r with
    | socket => rfl
    | created => simp [Connector.held, hpc]

theorem change_handleEvent (hauto : x.AutoClose) (hx : s.connectors c = some x)
    (hpc : x.pc = .idle) {k : ℕ} {r : TcpConnector.SocketResult}
    (h : handleEvent s c x k r = some t) : Change opening s t := by
  unfold handleEvent at h
  split at h
  · cases h
    exact .same rfl rfl rfl
  split at h
  · cases h
    exact .same rfl rfl rfl
  rename_i socket hsocket
  have hneed := hauto socket hsocket
  have hheld : s.held (.connector c .socket) = some socket.fd := by
    simp [held_connector hx, Connector.held, hsocket, BaseSocket.owned, hneed]
  have hcreated : s.held (.connector c .created) = none := by
    simp [held_connector hx, Connector.held, hpc]
  dsimp only at h
  split at h
  · cases h
    exact change_setConnector hx fun r => by cases r <;> rfl
  · cases h
    exact change_setConnector hx fun r => by cases r <;> rfl
  · split at h
    · split at h
      · cases h
      rename_i hfresh
      cases h
      have hnone : s.connections k = none := by simpa using hfresh
      refine .gave _ (.connection k) socket.fd hheld (by simp [State.held, hnone]) rfl ?_ rfl
      rw [held_setConnector _ .socket, held_close, held_setConnection, held_setTable]
      · rw [Function.update_comm (by simp)]
        rfl
      · intro r hr
        rw [held_close, held_setConnection, Function.update_of_ne (by simp), held_setTable]
        cases r with
        | socket => exact absurd rfl hr
        | created => simp [Connector.held, hpc, hcreated]
    · cases h
      refine change_closeConnector ?_ rfl ?_
      · simp [hheld, BaseSocket.owned, hneed]
      · simp [Connector.held, hpc, hcreated]

theorem change_nextConnector (hauto : x.AutoClose) (hx : s.connectors c = some x)
    {l : ConnectorLabel} (h : nextConnector s c x l x.pc = some t) :
    Change (Label.connector c l).opens.isSome s t := by
  generalize hpc : x.pc = pc at h
  unfold nextConnector at h
  split at h
  · exact change_startInLoop hx hpc h
  · cases h
    exact change_resetSocket hx hpc
  · cases h
    exact change_connect hx hpc _
  · cases h
    exact change_setConnector hx fun r => by cases r <;> rfl
  · cases h
    exact change_setConnector hx fun r => by cases r <;> rfl
  · exact change_handleEvent hauto hx hpc h
  · cases h
    exact change_closeConnector (held_connector hx .socket) rfl
      (by simp [held_connector hx, Connector.held, hpc])
  · cases h

end Connector

/-- Every connector keeps its sockets as `AutoClose` says. -/
def AutoCloses (s : State) : Prop := ∀ c x, s.connectors c = some x → x.AutoClose

theorem change_next (hauto : AutoCloses s) {l : Label} (h : next s l = some t) :
    Change l.opens.isSome s t := by
  unfold next at h
  split at h
  · cases h
  split at h
  · exact change_newAcceptor h
  · obtain ⟨x, hx, hnext⟩ := Option.bind_eq_some_iff.mp h
    exact change_nextAcceptor hx hnext
  · rename_i c
    split at h
    · cases h
    rename_i hnone
    cases h
    have hnone : s.connectors c = none := by simpa using hnone
    refine .same rfl ?_ rfl
    have hheld (r : ConnectorRole) : s.held (.connector c r) = none := by
      simp [State.held, hnone]
    rw [held_setConnector _ .socket fun r _ => by rw [hheld]; cases r <;> rfl]
    exact (congrArg _ (hheld .socket).symm).trans (Function.update_eq_self _ _)
  · obtain ⟨x, hx, hnext⟩ := Option.bind_eq_some_iff.mp h
    exact change_nextConnector (hauto _ x hx) hx hnext
  · rename_i k
    obtain ⟨x, hx, rfl⟩ := Option.map_eq_some_iff.mp h
    have hheld : s.held (.connection k) = x.owned := by simp [State.held, hx]
    rw [← hheld]
    refine .closed (.connection k) rfl ?_ rfl
    rw [held_setConnection, held_close]
    rfl
  · rename_i n
    split at h
    · cases h
    rename_i hnone
    obtain ⟨⟨fd, u⟩, htake, rfl⟩ := Option.map_eq_some_iff.mp h
    refine .took (.other n) fd rfl htake (by simpa [State.held] using hnone) ?_ rfl
    rw [held_setOther, held_setTable]
  · rename_i n
    obtain ⟨fd, hfd, rfl⟩ := Option.map_eq_some_iff.mp h
    have hheld : s.held (.other n) = some fd := hfd
    rw [← hheld]
    refine .closed (.other n) rfl ?_ rfl
    rw [held_setOther, held_close]

theorem autoClose_create : Connector.create.AutoClose := by
  intro socket hsocket
  cases hsocket

theorem autoCloses_next {l : Label} (h : next s l = some t) (hs : AutoCloses s) : AutoCloses t :=
  connectors_next autoClose_create (fun _ _ _ _ _ _ hx hmoves => hmoves.autoClose hx) h hs

theorem autoCloses_of_reachable (hs : (machine limit).Reachable s) : AutoCloses s :=
  hs.invariant (P := AutoCloses) (fun _ _ hx => by cases hx) fun _ _ _ _ ih h =>
    autoCloses_next h ih

theorem owned_of_reachable (hs : (machine limit).Reachable s) : Owned s :=
  hs.invariant owned_create fun _ _ _ hs ih h =>
    ih.change (change_next (autoCloses_of_reachable hs) h)

/-- Whatever the order in which the threads of the process open and close descriptors, every
close(2) meets an open descriptor that is its caller's own; each open descriptor is held by
exactly one acceptor, connector, connection or other part of the process; and no two of
them hold the same one. -/
theorem closes_own_descriptors (hs : (machine limit).Reachable s) :
    (∀ e ∈ s.closes, e.found = some e.caller) ∧
      (∀ f o, s.table.slot f = some o ↔ s.held o = some f) ∧
      ∀ o o' f, s.held o = some f → s.held o' = some f → o = o' := by
  have howned := owned_of_reachable hs
  exact ⟨howned.closes, fun f o => (howned.agrees o f).symm,
    fun _ _ _ ho ho' => howned.agrees.holder_unique ho ho'⟩

/-- A full table: the second connection is dropped through the reserve, the first one destroyed
later. -/
theorem closes_own_descriptors_full :
    ∃ s : State, (machine 3).Reachable s ∧ s.closes.map Close.fd = [1, 1, 2] ∧
      (∀ e ∈ s.closes, e.found = some e.caller) ∧
      (∀ f o, s.table.slot f = some o ↔ s.held o = some f) ∧
      ∀ o o' f, s.held o = some f → s.held o' = some f → o = o' := by
  obtain ⟨s, hs, hcloses⟩ := Machine.exists_reachable_of_run (M := machine 3)
    [.acceptor 0 (.create true), .acceptor 0 (.openIdle false), .acceptor 0 .enableListen,
      .acceptor 0 (.arrive 7), .acceptor 0 (.arrive 8),
      .acceptor 0 (.accept .connection .other), .acceptor 0 (.handOff 0),
      .acceptor 0 (.accept (.error .emfile) .emfile), .acceptor 0 .closeIdle,
      .acceptor 0 (.acceptIdle .connection), .acceptor 0 .closeAccepted,
      .acceptor 0 (.openIdle false), .deleteConnection 0]
    (fun s => s.closes.map Close.fd = [1, 1, 2]) (by decide)
  exact ⟨s, hs, hcloses, closes_own_descriptors hs⟩

end Voyager.Descriptors
