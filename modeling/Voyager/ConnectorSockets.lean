import Voyager.DescriptorOwners

/-!
The socket of a connector that waits for its connection. `HandleEvent` uses it without
a test, and it is there as long as `StartInLoop` finds the state that it asserts.
-/
namespace Voyager.Descriptors

open Lib Lib.Runs

variable {limit : ℕ} {s t : State}

/-- What `HandleEvent` needs: a connector that waits for its socket has one. -/
structure Connector.HasSocket (x : Connector) : Prop where
  entered : x.pc ≠ .idle → x.self.state = .kDisConnected
  installed : x.pc = .installed → x.socket.isSome
  connecting : x.self.state = .kConnecting → x.socket.isSome

/-- The assertion of `StartInLoop` holds. -/
def Asserted (s : State) : Label → Prop
  | .connector c (.startInLoop _) =>
    ∀ x, s.connectors c = some x → x.self.state = .kDisConnected
  | _ => True

theorem ConnectorMoves.hasSocket {x y : Connector} {l : ConnectorLabel}
    (hmoves : ConnectorMoves x l y)
    (hassert : ∀ start, l = .startInLoop start → x.self.state = .kDisConnected)
    (h : x.HasSocket) : y.HasSocket := by
  cases hmoves with
  | created start fd =>
    have hstate : (x.start start).self.state = .kDisConnected := by
      cases start <;> exact hassert _ rfl
    refine ⟨fun _ => hstate, nofun, fun hconnecting => ?_⟩
    rw [hstate] at hconnecting
    cases hconnecting
  | started start hpc =>
    have hstate : (x.start start).self.state = .kDisConnected := by
      cases start <;> exact hassert _ rfl
    have hidle : (x.start start).pc = .idle := by cases start <;> exact hpc
    refine ⟨fun _ => hstate, fun hinstalled => ?_, fun hconnecting => ?_⟩
    · rw [hidle] at hinstalled
      cases hinstalled
    · rw [hstate] at hconnecting
      cases hconnecting
  | installed fd hpc =>
    exact ⟨fun _ => h.entered (by simp [hpc]), fun _ => rfl, fun _ => rfl⟩
  | connect err hpc _ =>
    exact ⟨fun hidle => absurd rfl hidle, nofun, fun _ => h.installed hpc⟩
  | gaveUp err hpc hgives =>
    have hstate : (x.self.connect err).1.state = .kDisConnected := by
      rw [← h.entered (by simp [hpc])]
      cases err <;> first | rfl | cases hgives
    refine ⟨fun hidle => absurd rfl hidle, nofun, fun hconnecting => ?_⟩
    rw [hstate] at hconnecting
    cases hconnecting
  | stopped hpc =>
    refine ⟨fun hidle => absurd hpc hidle, fun hinstalled => ?_, fun hconnecting => ?_⟩
    · rw [hpc] at hinstalled
      cases hinstalled
    · by_cases hstate : x.self.state = .kConnecting
      · exact h.connecting hstate
      · rw [TcpConnector.stopInLoop_of_ne _ hstate] at hconnecting
        exact absurd hconnecting hstate
  | dispatchReset hpc =>
    exact ⟨fun hidle => absurd hpc hidle, h.installed, h.connecting⟩
  | retried r k hpc hr =>
    refine ⟨fun hidle => absurd hpc hidle, h.installed, fun hconnecting => ?_⟩
    by_cases hstate : x.self.state = .kConnecting
    · exact h.connecting hstate
    · rw [TcpConnector.handleEvent_of_ne _ hstate] at hconnecting
      exact absurd hconnecting hstate
  | connected k y hpc hy =>
    refine ⟨fun hidle => absurd hpc hidle, fun hinstalled => ?_, fun hconnecting => ?_⟩
    · rw [hpc] at hinstalled
      cases hinstalled
    · rw [hy] at hconnecting
      cases hconnecting

theorem hasSocket_create : Connector.create.HasSocket :=
  ⟨fun _ => rfl, nofun, nofun⟩

/-- Every connector has the socket it waits for. -/
def HaveSockets (s : State) : Prop := ∀ c x, s.connectors c = some x → x.HasSocket

theorem haveSockets_next {l : Label} (h : next s l = some t) (hok : Asserted s l)
    (hs : HaveSockets s) : HaveSockets t := by
  refine connectors_next hasSocket_create (fun c l' x y hl hx hsocket hmoves => ?_) h hs
  refine hmoves.hasSocket (fun start hstart => ?_) hsocket
  subst hl
  subst hstart
  exact hok x hx

/-- As long as the assertion of `StartInLoop` holds, a connector that waits for its socket has
one with a descriptor of its own: `HandleEvent` neither uses a null pointer nor asks a
descriptor that was closed or belongs to somebody else. -/
theorem waits_with_own_socket {c : ℕ} {x : Connector}
    (hs : (machine limit).ReachableWhen Asserted s) (hx : s.connectors c = some x)
    (hstate : x.self.state = .kConnecting) :
    ∃ fd, x.socket = some ⟨fd, true⟩ ∧ s.table.slot fd = some (.connector c .socket) := by
  have hsockets : HaveSockets s :=
    hs.invariant (P := HaveSockets) (fun _ _ hx => by cases hx) fun _ _ _ _ hok ih h =>
      haveSockets_next h hok ih
  obtain ⟨socket, hsocket⟩ := Option.isSome_iff_exists.mp ((hsockets c x hx).connecting hstate)
  have hneed := autoCloses_of_reachable hs.reachable c x hx socket hsocket
  refine ⟨socket.fd, ?_, ?_⟩
  · rw [hsocket, ← hneed]
  · refine ((owned_of_reachable hs.reachable).agrees _ _).mp ?_
    simp [held_connector hx, Connector.held, hsocket, BaseSocket.owned, hneed]

/-- A connector that waits, with its descriptor 0. -/
theorem waits_with_own_socket_started :
    ∃ s : State, ∃ x : Connector, (machine 2).ReachableWhen Asserted s ∧
      s.connectors 0 = some x ∧ x.self.state = .kConnecting ∧
      ∃ fd, x.socket = some ⟨fd, true⟩ ∧ s.table.slot fd = some (.connector 0 .socket) := by
  have hcreated : (machine 2).ReachableWhen Asserted _ :=
    Machine.ReachableWhen.init.step (a := Label.connector 0 .create) trivial rfl
  have hstarted := hcreated.step (a := Label.connector 0 (.startInLoop (some true)))
    (fun x hx => by cases hx; rfl) rfl
  have hreset := hstarted.step (a := Label.connector 0 .resetSocket) trivial rfl
  have hconnected := hreset.step (a := Label.connector 0 (.connect .einprogress)) trivial rfl
  exact ⟨_, _, hconnected, rfl, rfl, waits_with_own_socket hconnected rfl rfl⟩

end Voyager.Descriptors
