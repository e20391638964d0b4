import Voyager.DescriptorOwners

/-!
What `TcpAcceptor::Accept` makes of the connections that the kernel has for it. Each
is taken at most once and in order. With its reserve a full table does not stop it,
unless somebody else opens a descriptor while the reserve is given up.
-/
namespace Voyager.Descriptors

open Lib Lib.Runs TcpAcceptor

variable {limit a : ℕ} {s t : State} {x y : TcpAcceptor}

/-- The connections taken, the one in hand and those that wait, in this order, are among those
that arrived. -/
def InOrder (x : TcpAcceptor) : Prop :=
  List.Sublist (x.outcomes.filterMap Outcome.peer ++ (x.inHand ++ x.queue)) x.arrived

theorem inHand_of_ne (hpc : ∀ fd peer, x.pc ≠ .accepted fd peer) : x.inHand = [] := by
  unfold inHand
  split
  · rename_i fd peer hpc'
    exact absurd hpc' (hpc fd peer)
  · rfl

theorem AcceptorMoves.inOrder {u : Ledger Owner} {l : AcceptorLabel}
    (hmoves : AcceptorMoves u x l y) (h : InOrder x) : InOrder y := by
  unfold InOrder at h ⊢
  cases hmoves with
  | listened _ => exact h
  | arrived peer =>
    have hboth := h.append (List.Sublist.refl [peer])
    simpa only [inHand, List.append_assoc] using hboth
  | withdrawn i =>
    refine List.Sublist.trans ?_ h
    exact (List.Sublist.refl _).append ((List.Sublist.refl _).append (List.eraseIdx_sublist _ i))
  | accepted errno fd peer rest hpc hqueue =>
    rw [inHand_of_ne (by simp [hpc]), hqueue] at h
    simpa [inHand] using h
  | refused e hpc =>
    rw [inHand_of_ne (by simp [hpc])] at h
    exact h
  | failed e errno hpc _ =>
    rw [inHand_of_ne (by simp [hpc])] at h
    simpa [inHand, hpc, Outcome.peer, List.filterMap_cons] using h
  | handedOff k fd peer o hpc ho =>
    simpa [inHand, hpc, ho, List.filterMap_append] using h
  | closedIdle hpc =>
    rw [inHand_of_ne (by simp [hpc])] at h
    exact h
  | dropped fd peer rest hpc hqueue =>
    rw [inHand_of_ne (by simp [hpc]), hqueue] at h
    simpa [inHand, Outcome.peer, List.filterMap_append] using h
  | missed e hpc _ =>
    rw [inHand_of_ne (by simp [hpc])] at h
    simpa [inHand, Outcome.peer, List.filterMap_append, List.filterMap_cons] using h
  | closedAccepted hpc | deleted hpc =>
    rw [inHand_of_ne (by simp [hpc])] at h
    exact h
  | openFailed hpc | opened fd hpc =>
    rw [inHand_of_ne (by rcases hpc with hpc | hpc <;> simp [hpc])] at h
    exact h

/-- In every run, each connection that arrives is handed over, closed or dropped at most once,
and in the order of arrival. -/
theorem accepts_in_order (hs : (machine limit).Reachable s) (hx : s.acceptors a = some x) :
    List.Sublist (x.outcomes.filterMap Outcome.peer ++ (x.inHand ++ x.queue)) x.arrived := by
  suffices hall : ∀ a x, s.acceptors a = some x → InOrder x from hall a x hx
  refine hs.invariant (P := fun s => ∀ a x, s.acceptors a = some x → InOrder x)
    (fun _ _ hx => by cases hx) fun s l t _ ih h a y hy => ?_
  cases acceptorStep_next h hy with
  | kept hx _ => exact ih a y hx
  | created fd connCb hy => exact hy ▸ List.Sublist.refl []
  | moved x l' _ hx hmoves => exact hmoves.inOrder (ih a x hx)

/-- Of three connections one is handed over, one withdrawn and one still waits. -/
theorem accepts_in_order_waiting :
    ∃ s : State, ∃ x : TcpAcceptor, (machine 3).Reachable s ∧ s.acceptors 0 = some x ∧
      (x.outcomes = [.handed 7] ∧ x.queue = [9]) ∧
      List.Sublist (x.outcomes.filterMap Outcome.peer ++ (x.inHand ++ x.queue)) x.arrived := by
  obtain ⟨s, hs, hboth⟩ := Machine.exists_reachable_of_run (M := machine 3)
    [.acceptor 0 (.create true), .acceptor 0 (.openIdle false), .acceptor 0 .enableListen,
      .acceptor 0 (.arrive 7), .acceptor 0 (.arrive 8), .acceptor 0 (.arrive 9),
      .acceptor 0 (.withdraw 1), .acceptor 0 (.accept .connection .other),
      .acceptor 0 (.handOff 0)]
    (fun s => (s.acceptors 0).map (fun x => (x.outcomes, x.queue)) = some ([.handed 7], [9]))
    (by decide)
  obtain ⟨x, hx, hpair⟩ := Option.map_eq_some_iff.mp hboth
  exact ⟨s, x, hs, hx, Prod.mk.inj hpair, accepts_in_order hs hx⟩

/-- Nobody else opens a descriptor while the acceptor `a` has given its reserve up; a log
leaves `errno` alone; the kernel refuses to open `/dev/null` only when the table is full, and
not in the constructor. -/
def undisturbed (a : ℕ) (s : State) (l : Label) : Bool :=
  (!(s.acceptors a).any (·.pc.lendsIdle) || l.opens.isNone || l.isOf a) &&
    match l with
    | .acceptor b (.accept (.error e) errno) => b != a || errno == e
    | .acceptor b (.openIdle true) =>
      b != a || ((s.acceptors a).any (·.pc != .construct) && s.table.free.isNone)
    | _ => true

/-- The reserve, in the acceptor's hands or as a free slot of the table. -/
structure KeepsReserve (u : Ledger Owner) (x : TcpAcceptor) : Prop where
  holds : x.pc.withoutIdle = false → x.pc ≠ .closeAccepted → x.idlefd.isSome
  lends : x.pc = .acceptIdle ∨ x.pc = .openIdle → u.free.isSome
  drops : x.pc = .closeAccepted → x.idlefd.isSome ∨ u.free.isSome
  outcomes : ∀ o ∈ x.outcomes, o.peer.isSome ∨
    ∃ e, (o = .failed e ∨ o = .missed e) ∧ e ≠ .emfile

theorem keepsReserve_create (u : Ledger Owner) (fd : ℕ) (connCb : Bool) :
    KeepsReserve u (TcpAcceptor.create fd connCb) where
  holds hpc := by cases hpc
  lends hpc := by rcases hpc with hpc | hpc <;> cases hpc
  drops hpc := by cases hpc
  outcomes o ho := by cases ho

/-- `Accept` closes what it holds in `idlefd_`, and the table has a free slot. -/
theorem isSome_free_close (h : Owned s) (hx : s.acceptors a = some x)
    (hpc : x.pc.withoutIdle = false) (hidle : x.idlefd.isSome) :
    (s.close (.acceptor a .idlefd) x.idlefd).table.free.isSome := by
  obtain ⟨fd, hfd⟩ := Option.isSome_iff_exists.mp hidle
  have hheld : s.held (.acceptor a .idlefd) = some fd := by
    simp [held_acceptor hx, TcpAcceptor.held, hpc, hfd]
  rw [hfd]
  exact Ledger.isSome_free_release ((h.agrees _ fd).mp hheld)

theorem table_closeIdle (hx : s.acceptors a = some x) (hpc : x.pc = .closeIdle)
    (h : next s (.acceptor a .closeIdle) = some t) :
    t.table = (s.close (.acceptor a .idlefd) x.idlefd).table := by
  simp only [next, hx, hpc, Option.bind_some, nextAcceptor] at h
  split at h <;> cases h
  rfl

theorem table_closeAccepted (hx : s.acceptors a = some x) (hpc : x.pc = .closeAccepted)
    (h : next s (.acceptor a .closeAccepted) = some t) :
    t.table = (s.close (.acceptor a .idlefd) x.idlefd).table := by
  simp only [next, hx, hpc, Option.bind_some, nextAcceptor] at h
  split at h <;> cases h
  rfl

/-- The acceptor itself moves. -/
theorem KeepsReserve.moves {l : AcceptorLabel} (howned : Owned s) (hauto : AutoCloses s)
    (hx : s.acceptors a = some x) (h : next s (.acceptor a l) = some t)
    (hok : undisturbed a s (.acceptor a l) = true) (hmoves : AcceptorMoves s.table x l y)
    (hs : KeepsReserve s.table x) : KeepsReserve t.table y := by
  have hkept (hopens : (Label.acceptor a l).opens = none) (hfree : s.table.free.isSome) :
      t.table.free.isSome := by
    have hchange := change_next hauto h
    rw [hopens] at hchange
    exact hchange.isSome_free howned hfree
  cases hmoves with
  | listened hpc =>
    exact ⟨hs.holds, fun hlends => hkept rfl (hs.lends hlends),
      fun hdrops => (hs.drops hdrops).imp_right (hkept rfl), hs.outcomes⟩
  | arrived | withdrawn =>
    exact ⟨hs.holds, fun hlends => hkept rfl (hs.lends hlends),
      fun hdrops => (hs.drops hdrops).imp_right (hkept rfl), hs.outcomes⟩
  | accepted errno fd peer rest hpc hqueue =>
    exact ⟨fun _ _ => hs.holds (by rw [hpc]; rfl) (by simp [hpc]), by simp, by simp, hs.outcomes⟩
  | refused e hpc =>
    exact ⟨fun _ _ => hs.holds (by rw [hpc]; rfl) (by simp [hpc]), by simp, by simp, hs.outcomes⟩
  | failed e errno hpc herrno =>
    refine ⟨hs.holds, by simp [hpc], fun hdrops => ?_, fun o ho => ?_⟩
    · rw [hpc] at hdrops
      cases hdrops
    · rcases List.mem_append.mp ho with ho | ho
      · exact hs.outcomes o ho
      · have he : errno = e := by simpa using (Bool.and_eq_true_iff.mp hok).2
        exact .inr ⟨e, .inl (List.mem_singleton.mp ho), he ▸ herrno⟩
  | handedOff k fd peer o hpc ho =>
    refine ⟨fun _ _ => hs.holds (by rw [hpc]; rfl) (by simp [hpc]), by simp, by simp,
      fun p hp => ?_⟩
    rcases List.mem_append.mp hp with hp | hp
    · exact hs.outcomes p hp
    · rw [List.mem_singleton.mp hp, ho]
      exact .inl rfl
  | closedIdle hpc =>
    have hfree := isSome_free_close howned hx (by rw [hpc]; rfl)
      (hs.holds (by rw [hpc]; rfl) (by simp [hpc]))
    rw [← table_closeIdle hx hpc h] at hfree
    exact ⟨by simp [Pc.withoutIdle], fun _ => hfree, by simp, hs.outcomes⟩
  | dropped fd peer rest hpc hqueue =>
    refine ⟨fun _ hne => absurd rfl hne, by simp, fun _ => .inl rfl, fun o ho => ?_⟩
    rcases List.mem_append.mp ho with ho | ho
    · exact hs.outcomes o ho
    · rw [List.mem_singleton.mp ho]
      exact .inl rfl
  | missed e hpc hpossible =>
    have hfree := hs.lends (.inl hpc)
    refine ⟨fun _ hne => absurd rfl hne, by simp, fun _ => .inr (hkept rfl hfree),
      fun o ho => ?_⟩
    rcases List.mem_append.mp ho with ho | ho
    · exact hs.outcomes o ho
    · refine .inr ⟨e, .inr (List.mem_singleton.mp ho), fun he => ?_⟩
      -- a slot is free, so the table is not what the kernel refuses for
      subst he
      simp only [possible, Option.isNone_iff_eq_none] at hpossible
      rw [hpossible] at hfree
      cases hfree
  | closedAccepted hpc =>
    have hfree : t.table.free.isSome := by
      rcases hs.drops hpc with hidle | hfree
      · rw [table_closeAccepted hx hpc h]
        exact isSome_free_close howned hx (by rw [hpc]; rfl) hidle
      · exact hkept rfl hfree
    exact ⟨by simp [Pc.withoutIdle], fun _ => hfree, by simp, hs.outcomes⟩
  | openFailed hpc =>
    have hrefused : x.pc ≠ .construct ∧ s.table.free = none := by
      simpa [undisturbed, hx, Label.isOf] using hok
    rcases hpc with hpc | hpc
    · have hfree := hs.lends (.inr hpc)
      rw [hrefused.2] at hfree
      cases hfree
    · exact absurd hpc hrefused.1
  | opened fd hpc =>
    exact ⟨fun _ _ => rfl, by simp, by simp, hs.outcomes⟩
  | deleted hpc =>
    exact ⟨by simp [Pc.withoutIdle], by simp, by simp, hs.outcomes⟩

theorem keepsReserve_next {l : Label} (howned : Owned s) (hauto : AutoCloses s)
    (h : next s l = some t) (hok : undisturbed a s l = true)
    (hs : ∀ x, s.acceptors a = some x → KeepsReserve s.table x) (hy : t.acceptors a = some y) :
    KeepsReserve t.table y := by
  cases acceptorStep_next h hy with
  | kept hx hl =>
    have hkept (hlends : y.pc.lendsIdle = true) (hfree : s.table.free.isSome) :
        t.table.free.isSome := by
      have hopens : l.opens = none := by
        rcases hl with hl | hl
        · exact hl
        · simp only [undisturbed, hx, Option.any_some, hlends, hl, Bool.not_true, Bool.false_or,
            Bool.or_false, Bool.and_eq_true, Option.isNone_iff_eq_none] at hok
          exact hok.1
      have hchange := change_next hauto h
      rw [hopens] at hchange
      exact hchange.isSome_free howned hfree
    have hy := hs y hx
    refine ⟨hy.holds, fun hpc => hkept ?_ (hy.lends hpc), fun hpc =>
      (hy.drops hpc).imp_right (hkept (by rw [hpc]; rfl)), hy.outcomes⟩
    rcases hpc with hpc | hpc <;> rw [hpc] <;> rfl
  | created fd connCb hy => exact hy ▸ keepsReserve_create t.table fd connCb
  | moved x l' hl hx hmoves =>
    subst hl
    exact (hs x hx).moves howned hauto hx h hok hmoves

/-- In every undisturbed run the acceptor has its reserve whenever `Accept` is not at work,
and a full table costs no call of `Accept` its connection: each call ends with a
connection taken, unless accept(2) reports something else than a full table. -/
theorem reserve_kept (hs : (machine limit).ReachableWhen (undisturbed a · ·) s)
    (hx : s.acceptors a = some x) :
    (x.pc = .idle → ∃ fd, x.idlefd = some fd ∧ s.table.slot fd = some (.acceptor a .idlefd)) ∧
      ∀ o ∈ x.outcomes, o.peer.isSome ∨ ∃ e, (o = .failed e ∨ o = .missed e) ∧ e ≠ .emfile := by
  have hreserve : ∀ x, s.acceptors a = some x → KeepsReserve s.table x :=
    hs.invariant (P := fun s => ∀ x, s.acceptors a = some x → KeepsReserve s.table x)
      (fun _ hx => by cases hx) fun s l t hreach hok ih h y hy =>
        keepsReserve_next (owned_of_reachable hreach.reachable)
          (autoCloses_of_reachable hreach.reachable) h hok ih hy
  refine ⟨fun hpc => ?_, (hreserve x hx).outcomes⟩
  obtain ⟨fd, hfd⟩ := Option.isSome_iff_exists.mp
    ((hreserve x hx).holds (by rw [hpc]; rfl) (by simp [hpc]))
  refine ⟨fd, hfd, ((owned_of_reachable hs.reachable).agrees _ _).mp ?_⟩
  simp [held_acceptor hx, TcpAcceptor.held, hpc, TcpAcceptor.Pc.withoutIdle, hfd]

/-- The table is full when the second connection comes. -/
theorem reserve_kept_full :
    ∃ s : State, ∃ x : TcpAcceptor, (machine 3).ReachableWhen (undisturbed 0 · ·) s ∧
      s.acceptors 0 = some x ∧ x.outcomes = [.handed 7, .dropped 8] ∧
      (x.pc = .idle →
        ∃ fd, x.idlefd = some fd ∧ s.table.slot fd = some (.acceptor 0 .idlefd)) ∧
      ∀ o ∈ x.outcomes, o.peer.isSome ∨ ∃ e, (o = .failed e ∨ o = .missed e) ∧ e ≠ .emfile := by
  obtain ⟨s, hs, houtcomes⟩ := Machine.exists_reachableWhen_of_run (M := machine 3)
    (undisturbed 0 · ·)
    [.acceptor 0 (.create true), .acceptor 0 (.openIdle false), .acceptor 0 .enableListen,
      .acceptor 0 (.arrive 7), .acceptor 0 (.arrive 8),
      .acceptor 0 (.accept .connection .other), .acceptor 0 (.handOff 0),
      .acceptor 0 (.accept (.error .emfile) .emfile), .acceptor 0 .closeIdle,
      .acceptor 0 (.acceptIdle .connection), .acceptor 0 .closeAccepted,
      .acceptor 0 (.openIdle false)]
    (fun s => (s.acceptors 0).map TcpAcceptor.outcomes = some [.handed 7, .dropped 8])
    (by decide)
  obtain ⟨x, hx, houtcomes⟩ := Option.map_eq_some_iff.mp houtcomes
  exact ⟨s, x, hs, hx, houtcomes, reserve_kept hs hx⟩

end Voyager.Descriptors
