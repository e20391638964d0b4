import Voyager.PollerCalls
import Voyager.Lib.Runs

/-!
`RemoveEvents`. Three pollers return the Dispatch to the state of a new one, where
it was registered; `EventKqueue` keeps a write filter that only was disabled.
`EventPoll` gives up a slot by moving the last one there, and leaves the number of
the slot it gave up in the Dispatch, which its next call then trips over.
-/
namespace Voyager

open EventPoller Lib.Slots Lib.Runs

namespace EventPoll

/-- The entry a registered Dispatch finds by its `index_`. -/
def slot (s : EventPoll) (fd : Fd) : Option PollFd :=
  if s.dispatchMap fd then s.pollfds[(s.index fd).toNat]? else none

def held (s : EventPoll) (fd : Fd) : Registration (Option PollFd) :=
  ⟨s.dispatchMap fd, s.index fd, s.slot fd⟩

/-- Every registered Dispatch has an entry of its own, ignored or not. -/
structure Tidy (s : EventPoll) : Prop where
  slots : Represents s.index s.pollfds s.slot
  known : ∀ fd, s.dispatchMap fd = (s.slot fd).isSome
  owned : ∀ fd p, s.slot fd = some p → p.fd = fd ∨ p.fd = -(fd : Int) - 1

section

variable {s s' : EventPoll} {fd g : Fd} {d : Dispatch}

theorem slot_eq {table : Fd → Option PollFd} (h : Represents s.index s.pollfds table)
    (hknown : ∀ fd, s.dispatchMap fd = (table fd).isSome) : s.slot = table := by
  funext fd
  rw [slot, hknown]
  cases htable : table fd with
  | none => rfl
  | some p =>
    obtain ⟨i, hi, hp⟩ := h.find fd p htable
    rw [Option.isSome_some, if_pos rfl, hi]
    exact hp

theorem id_of_owned {p : PollFd} (h : p.fd = fd ∨ p.fd = -(fd : Int) - 1) :
    PollFd.id p = fd := by
  unfold PollFd.id
  split <;> omega

/-- A call on `fd` that leaves `entry` there, wherever the entries of the others are. -/
theorem Tidy.of_update (h : Tidy s) (s' : EventPoll) (entry : Option PollFd)
    (hmap : s'.dispatchMap = Function.update s.dispatchMap fd entry.isSome)
    (hslots : Represents s'.index s'.pollfds (Function.update s.slot fd entry))
    (hentry : ∀ p, entry = some p → p.fd = fd ∨ p.fd = -(fd : Int) - 1) :
    Tidy s' ∧ s'.slot = Function.update s.slot fd entry := by
  have hknown (g : Fd) : s'.dispatchMap g = (Function.update s.slot fd entry g).isSome := by
    rw [hmap]
    by_cases hg : g = fd
    · rw [hg, Function.update_self, Function.update_self]
    · rw [Function.update_of_ne hg, Function.update_of_ne hg, h.known]
  have howned (g : Fd) (p : PollFd) (hp : Function.update s.slot fd entry g = some p) :
      p.fd = g ∨ p.fd = -(g : Int) - 1 := by
    by_cases hg : g = fd
    · subst hg
      rw [Function.update_self] at hp
      exact hentry p hp
    · rw [Function.update_of_ne hg] at hp
      exact h.owned g p hp
  have hslot : s'.slot = Function.update s.slot fd entry := slot_eq hslots hknown
  refine ⟨⟨?_, ?_, ?_⟩, hslot⟩
  · rwa [hslot]
  · rwa [hslot]
  · rwa [hslot]

theorem updateDispatch_cases (hupdate : s.updateDispatch fd d = some s') :
    (s.index fd = -1 ∧ s.dispatchMap fd = false ∧
      s' = ⟨Function.update s.dispatchMap fd true,
        Function.update s.index fd s.pollfds.length,
        s.pollfds ++ [⟨fd, toShort d.events⟩]⟩) ∨
    (∃ n : ℕ, s.index fd = n ∧ s.dispatchMap fd = true ∧
      s' = { s with pollfds :=
        s.pollfds.set n ⟨if d.isNoneEvent then -(fd : Int) - 1 else fd, toShort d.events⟩ }) := by
  unfold updateDispatch at hupdate
  dsimp only at hupdate
  split at hupdate
  · rename_i hindex
    split at hupdate
    · cases hupdate
    · rename_i hmap
      rw [Option.some.injEq] at hupdate
      exact .inl ⟨hindex, by simpa using hmap, by simp [← hupdate]⟩
  · split at hupdate
    · split at hupdate
      · rename_i hassert
        rw [Option.some.injEq] at hupdate
        exact .inr ⟨(s.index fd).toNat, (Int.toNat_of_nonneg hassert.2.1).symm, hassert.1,
          hupdate.symm⟩
      · cases hupdate
    · cases hupdate

theorem removeDispatch_cases (hremove : s.removeDispatch fd d = some s') :
    ∃ (n : ℕ) (back : PollFd), s.index fd = n ∧ s.dispatchMap fd = true ∧
      s.pollfds.getLast? = some back ∧
      ((n + 1 = s.pollfds.length ∧
          s' = { s with dispatchMap := Function.update s.dispatchMap fd false,
                        pollfds := s.pollfds.dropLast }) ∨
        s' = ⟨Function.update s.dispatchMap fd false,
          Function.update s.index (PollFd.id back).toNat n, swapRemove s.pollfds n back⟩) := by
  unfold removeDispatch at hremove
  dsimp only at hremove
  split at hremove
  · rename_i entry back hentry hback
    split at hremove
    · rename_i hassert
      obtain ⟨hmap, -, hpos, -⟩ := hassert
      have hn : s.index fd = ((s.index fd).toNat : ℕ) := (Int.toNat_of_nonneg hpos).symm
      refine ⟨(s.index fd).toNat, back, hn, hmap, hback, ?_⟩
      split at hremove
      · rename_i hlast
        rw [Option.some.injEq] at hremove
        exact .inl ⟨by omega, hremove.symm⟩
      · split at hremove
        · rw [Option.some.injEq] at hremove
          rw [← hn]
          exact .inr hremove.symm
        · cases hremove
    · cases hremove
  · cases hremove

/-- What `UpdateDispatch` does when no assertion fails. -/
theorem Tidy.updateDispatch (h : Tidy s) (hupdate : s.updateDispatch fd d = some s') :
    ∃ p, Tidy s' ∧ s'.slot = Function.update s.slot fd (some p) ∧
      s'.dispatchMap = Function.update s.dispatchMap fd true ∧
      ∀ g, g ≠ fd → s'.index g = s.index g := by
  obtain ⟨hindex, hmap, rfl⟩ | ⟨n, hindex, hmap, rfl⟩ := updateDispatch_cases hupdate
  · have hfree : s.slot fd = none := by simp [slot, hmap]
    obtain ⟨htidy, hslot⟩ := h.of_update ⟨_, _, _⟩
      (some ⟨fd, toShort d.events⟩) rfl (h.slots.push _ hfree)
      (fun p hp => by cases hp; exact .inl rfl)
    exact ⟨_, htidy, hslot, rfl, fun g hg => Function.update_of_ne hg _ _⟩
  · have hsome : (s.slot fd).isSome := by rw [← h.known, hmap]
    have hknown : s.dispatchMap = Function.update s.dispatchMap fd true := by
      rw [← hmap, Function.update_eq_self]
    obtain ⟨htidy, hslot⟩ := h.of_update
      ⟨s.dispatchMap, s.index, s.pollfds.set n _⟩
      (some ⟨if d.isNoneEvent then -(fd : Int) - 1 else fd, toShort d.events⟩) hknown
      (h.slots.set _ hsome hindex) (fun p hp => by cases hp; dsimp only; split <;> simp)
    exact ⟨_, htidy, hslot, hknown, fun _ _ => rfl⟩

/-- What `RemoveDispatch` does when no assertion fails: the number stays. -/
theorem Tidy.removeDispatch (h : Tidy s) (hremove : s.removeDispatch fd d = some s') :
    Tidy s' ∧ s'.slot = Function.update s.slot fd none ∧
      s'.dispatchMap = Function.update s.dispatchMap fd false ∧ 0 ≤ s'.index fd := by
  obtain ⟨n, back, hindex, hmap, hback, hcases⟩ := removeDispatch_cases hremove
  have hsome : (s.slot fd).isSome := by rw [← h.known, hmap]
  -- the owner of the last entry is the one that is renumbered
  have hlast : s.pollfds[s.pollfds.length - 1]? = some back := by
    rw [← List.getLast?_eq_getElem?, hback]
  obtain ⟨g, hg, hgindex⟩ := h.slots.owner _ _ hlast
  have hid : (PollFd.id back).toNat = g := by
    rw [id_of_owned (h.owned g back hg)]
    rfl
  have hmoved := h.slots.swapRemove hsome hindex hg hgindex
  obtain ⟨hn, rfl⟩ | rfl := hcases
  · have hgfd : g = fd := by
      apply h.slots.inj g fd (by rw [hg]; rfl) hsome
      rw [hgindex, hindex, ← hn, Nat.add_sub_cancel]
    have hkeep : Function.update s.index g n = s.index := by
      rw [hgfd, ← hindex, Function.update_eq_self]
    have hpop : swapRemove s.pollfds n back = s.pollfds.dropLast := by
      apply swapRemove_self
      rw [← hlast, ← hn, Nat.add_sub_cancel]
    rw [hkeep, hpop] at hmoved
    obtain ⟨htidy, hslot⟩ := h.of_update ⟨_, s.index, _⟩ none rfl hmoved nofun
    exact ⟨htidy, hslot, rfl, by rw [hindex]; omega⟩
  · rw [hid]
    obtain ⟨htidy, hslot⟩ := h.of_update ⟨_, _, _⟩ none rfl hmoved nofun
    refine ⟨htidy, hslot, rfl, ?_⟩
    by_cases hfd : fd = g
    · simp [hfd]
    · simp [Function.update_of_ne hfd, hindex]

/-- What poll(2) is told of a descriptor is told by its own entry. -/
theorem Tidy.polls_eq (h : Tidy s) (bits : Mask) :
    s.polls fd bits =
      (s.slot fd).any fun p => p.fd == (fd : Int) && Mask.has (toInt p.events) bits := by
  rw [Bool.eq_iff_iff, polls, List.any_eq_true]
  constructor
  · rintro ⟨p, hp, hmatch⟩
    obtain ⟨i, hi⟩ := List.mem_iff_getElem?.mp hp
    obtain ⟨g, hg, -⟩ := h.slots.owner i p hi
    have hfd : p.fd = fd := beq_iff_eq.mp (Bool.and_eq_true_iff.mp hmatch).1
    have hgfd : g = fd := by
      apply Int.ofNat.inj
      rcases h.owned g p hg with howned | howned
      · exact howned.symm.trans hfd
      · omega
    rw [← hgfd, hg, Option.any_some, hgfd]
    exact hmatch
  · intro hany
    cases hslot : s.slot fd with
    | none =>
      rw [hslot] at hany
      cases hany
    | some p =>
      rw [hslot, Option.any_some] at hany
      obtain ⟨i, -, hp⟩ := h.slots.find fd p hslot
      exact ⟨p, List.mem_of_getElem? hp, hany⟩

end

/-- A call leaves every other Dispatch registered as it was, with the entry it had
and what poll(2) is told of it. The entry may have moved, and its number with it. -/
structure Spares (s s' : EventPoll) (fd : Fd) : Prop where
  known : ∀ g, g ≠ fd → s'.dispatchMap g = s.dispatchMap g
  slot : ∀ g, g ≠ fd → s'.slot g = s.slot g
  polls : ∀ g, g ≠ fd → ∀ bits, s'.polls g bits = s.polls g bits

section

variable {s s' : EventPoll} {fd : Fd}

theorem Tidy.spares (h : Tidy s) (h' : Tidy s') {known : Bool} {entry : Option PollFd}
    (hmap : s'.dispatchMap = Function.update s.dispatchMap fd known)
    (hslot : s'.slot = Function.update s.slot fd entry) : Spares s s' fd where
  known g hg := by rw [hmap, Function.update_of_ne hg]
  slot g hg := by rw [hslot, Function.update_of_ne hg]
  polls g hg bits := by rw [h.polls_eq, h'.polls_eq, hslot, Function.update_of_ne hg]

end

section

variable {s s' : Loop EventPoll} {fd : Fd} {op : Op}

theorem tidy_init : Tidy poller.init :=
  ⟨represents_empty _, fun _ => rfl, nofun⟩

theorem call_cases (hcall : poller.call s fd op = some s') :
    (op = .removeEvents ∧
      s.poller.removeDispatch fd (s.dispatch fd) = some s'.poller) ∨
    (op ≠ .removeEvents ∧ (op.apply (s.dispatch fd)).2 = true ∧
      s.poller.updateDispatch fd (op.apply (s.dispatch fd)).1 = some s'.poller) ∨
    (op ≠ .removeEvents ∧ (op.apply (s.dispatch fd)).2 = false ∧ s'.poller = s.poller) := by
  by_cases hop : op = .removeEvents
  · subst hop
    have hnone : (s.dispatch fd).isNoneEvent = true := allowed_of_call hcall rfl
    simp only [call, hnone, if_true, Option.map_eq_some_iff] at hcall
    obtain ⟨p, hp, rfl⟩ := hcall
    exact .inl ⟨rfl, hp⟩
  · cases hcalled : (op.apply (s.dispatch fd)).2 with
    | true =>
      simp only [call, if_neg hop, hcalled, if_true, Option.map_eq_some_iff] at hcall
      obtain ⟨p, hp, rfl⟩ := hcall
      exact .inr (.inl ⟨hop, rfl, hp⟩)
    | false =>
      rw [call_quiet hop hcalled, Option.some.injEq] at hcall
      exact .inr (.inr ⟨hop, rfl, by rw [← hcall]⟩)

theorem Tidy.call (h : Tidy s.poller) (hcall : poller.call s fd op = some s') :
    Tidy s'.poller ∧ Spares s.poller s'.poller fd := by
  obtain ⟨-, hremove⟩ | ⟨-, -, hupdate⟩ | ⟨-, -, heq⟩ := call_cases hcall
  · obtain ⟨h', hslot, hmap, -⟩ := h.removeDispatch hremove
    exact ⟨h', h.spares h' hmap hslot⟩
  · obtain ⟨p, h', hslot, hmap, -⟩ := h.updateDispatch hupdate
    exact ⟨h', h.spares h' hmap hslot⟩
  · rw [heq]
    exact ⟨h, fun _ _ => rfl, fun _ _ => rfl, fun _ _ _ => rfl⟩

theorem not_behaves_remove (h : Tidy s.poller) :
    ¬ Behaves poller held s (fd, .removeEvents) := by
  rintro ⟨s', hs', hclean⟩
  obtain ⟨-, hremove⟩ | ⟨hop, -⟩ | ⟨hop, -⟩ := call_cases hs'
  · obtain ⟨-, -, -, hindex⟩ := h.removeDispatch hremove
    have hnew : s'.poller.index fd = -1 :=
      congrArg Registration.index (hclean.removed rfl)
    rw [hnew] at hindex
    omega
  · exact hop rfl
  · exact hop rfl

/-- As long as there was no `RemoveEvents`, no number is left over. -/
structure Unremoved (s : EventPoll) : Prop where
  tidy : Tidy s
  fresh : ∀ fd, s.dispatchMap fd = false → s.index fd = -1

theorem Unremoved.updateDispatch (h : Unremoved s.poller) (fd : Fd) (d : Dispatch) :
    ∃ p, s.poller.updateDispatch fd d = some p := by
  apply Option.isSome_iff_exists.mp
  cases hmap : s.poller.dispatchMap fd with
  | false => simp [EventPoll.updateDispatch, h.fresh fd hmap, hmap]
  | true =>
    have hsome : (s.poller.slot fd).isSome := by rw [← h.tidy.known, hmap]
    obtain ⟨entry, hentry⟩ := Option.isSome_iff_exists.mp hsome
    obtain ⟨n, hindex, hslot⟩ := h.tidy.slots.find fd entry hentry
    have hnew : ¬ (n : Int) = -1 := by omega
    simp [EventPoll.updateDispatch, hindex, hnew, hslot, hmap, h.tidy.owned fd entry hentry]

theorem Unremoved.call (h : Unremoved s.poller) (hop : op ≠ .removeEvents)
    (hcall : poller.call s fd op = some s') :
    Unremoved s'.poller ∧ (∀ g, g ≠ fd → held s'.poller g = held s.poller g) ∧
      ((op.apply (s.dispatch fd)).2 = true → s'.poller.dispatchMap fd = true) := by
  obtain ⟨htidy, hspares⟩ := h.tidy.call hcall
  obtain ⟨hremove, -⟩ | ⟨-, hcalled, hupdate⟩ | ⟨-, hcalled, heq⟩ := call_cases hcall
  · exact absurd hremove hop
  · obtain ⟨p, -, -, hmap, hindex⟩ := h.tidy.updateDispatch hupdate
    refine ⟨⟨htidy, fun g hg => ?_⟩, fun g hg => ?_, fun _ => ?_⟩
    · have hgfd : g ≠ fd := by
        rintro rfl
        rw [hmap, Function.update_self] at hg
        cases hg
      rw [hmap, Function.update_of_ne hgfd] at hg
      rw [hindex g hgfd, h.fresh g hg]
    · rw [held, held, hspares.known g hg, hspares.slot g hg, hindex g hg]
    · rw [hmap, Function.update_self]
  · rw [heq, hcalled]
    exact ⟨h, fun _ _ => rfl, nofun⟩

theorem Unremoved.behaves (h : Unremoved s.poller) (hop : op ≠ .removeEvents) :
    Behaves poller held s (fd, op) := by
  have hremove {p : Prop} (heq : op = .removeEvents) : p := absurd heq hop
  have hreturn : ∃ s', poller.call s fd op = some s' ∧
      s'.dispatch = Function.update s.dispatch fd (op.apply (s.dispatch fd)).1 := by
    cases hcalled : (op.apply (s.dispatch fd)).2 with
    | true =>
      obtain ⟨p, hp⟩ := h.updateDispatch fd (op.apply (s.dispatch fd)).1
      exact ⟨_, call_update hop hcalled hp, rfl⟩
    | false => exact ⟨_, call_quiet hop hcalled, rfl⟩
  obtain ⟨s', hs', hdispatch⟩ := hreturn
  obtain ⟨-, hothers, hknown⟩ := h.call hop hs'
  refine ⟨s', hs', fun g hg => ⟨?_, hothers g hg⟩, ?_, hremove, hremove⟩
  · rw [hdispatch, Function.update_of_ne hg]
  · rintro (rfl | rfl)
    · exact hknown rfl
    · exact hknown rfl

theorem everyCall_iff (calls : List (Fd × Op)) :
    EveryCall poller (Behaves poller held) calls ↔
      EveryCall poller (fun _ c => c.2 ≠ .removeEvents) calls := by
  constructor
  · apply EveryCallFrom.imp (fun s => Tidy s.poller)
      (fun _ _ _ h _ hcall => (h.call hcall).1) _ tidy_init
    rintro s ⟨fd, op⟩ h - hbehaves rfl
    exact not_behaves_remove h hbehaves
  · apply EveryCallFrom.imp (fun s => Unremoved s.poller)
      (fun _ _ _ h hop hcall => (h.call hop hcall).1) _ ⟨tidy_init, fun _ _ => rfl⟩
    exact fun s c h _ hop => h.behaves hop

theorem spares_of_reachable (hs : poller.machine.Reachable s)
    (hcall : poller.call s fd op = some s') : Spares s.poller s'.poller fd := by
  have htidy : Tidy s.poller := hs.invariant (P := fun s => Tidy s.poller) tidy_init
    (fun _ _ _ _ h hnext => (h.call hnext).1)
  exact (htidy.call hcall).2

end

end EventPoll

namespace EventPoller

/-- When every call of a run is clean and local, and what holds for `EventPoll` all
the same. -/
theorem everyCall_behaves_iff (calls : List (Fd × Op)) :
    (EveryCall EventSelect.poller (Behaves EventSelect.poller EventSelect.held) calls ↔
      EveryCall EventSelect.poller
        (Suits EventSelect.held (fun fd => fd < EventSelect.fdSetSize) fun _ => True) calls) ∧
    (EveryCall EventEpoll.poller (Behaves EventEpoll.poller EventEpoll.held) calls ↔
      EveryCall EventEpoll.poller
        (Suits EventEpoll.held (fun _ => True) fun _ => True) calls) ∧
    (EveryCall EventKqueue.poller (Behaves EventKqueue.poller EventKqueue.held) calls ↔
      EveryCall EventKqueue.poller
        (Suits EventKqueue.held (fun _ => True) fun d => d.addWrite = false) calls) ∧
    (EveryCall EventPoll.poller (Behaves EventPoll.poller EventPoll.held) calls ↔
      EveryCall EventPoll.poller (fun _ c => c.2 ≠ .removeEvents) calls) ∧
    (∀ s, EventPoll.poller.machine.run EventPoll.poller.machine.init calls = some s →
      ∀ fd op s', EventPoll.poller.call s fd op = some s' →
        EventPoll.Spares s.poller s'.poller fd) := by
  refine ⟨EventSelect.keeps.everyCall_iff calls, EventEpoll.keeps.everyCall_iff calls,
    EventKqueue.keeps.everyCall_iff calls, EventPoll.everyCall_iff calls, ?_⟩
  intro s hrun fd op s' hcall
  exact EventPoll.spares_of_reachable ((Machine.Reachable.init _).run hrun) hcall

/-- `TcpAcceptor::~TcpAcceptor` where `EnableListen` was never called. -/
def neverListening : List (Fd × Op) := [(3, .disableAll), (3, .removeEvents)]

/-- `TcpAcceptor::~TcpAcceptor` after `EnableListen`. -/
def listening : List (Fd × Op) := [(3, .enableRead), (3, .disableAll), (3, .removeEvents)]

theorem not_suits_neverListening {σ ε : Type} {P : EventPoller σ}
    {held : σ → Fd → Registration ε} {ok : Fd → Prop} {clears : Dispatch → Prop}
    (hfresh : (held P.init 3).known = false) :
    ¬ EveryCall P (Suits held ok clears) neverListening := by
  have hquiet : (Op.disableAll.apply Dispatch.create).2 = false := by decide
  have hnone : Dispatch.create.disableAll.1.isNoneEvent = true := by decide
  rintro ⟨-, hrest⟩
  obtain ⟨hremove, -⟩ := hrest _ (call_quiet (by decide) hquiet)
  have hsuits := hremove fun _ => by simp [machine, Op.apply, hnone]
  rw [Suits, if_pos rfl] at hsuits
  exact Bool.false_ne_true (hfresh.symm.trans hsuits.1)

theorem not_everyCall_behaves :
    ¬ EveryCall EventSelect.poller (Behaves EventSelect.poller EventSelect.held) neverListening ∧
    ¬ EveryCall EventEpoll.poller (Behaves EventEpoll.poller EventEpoll.held) neverListening ∧
    ¬ EveryCall EventKqueue.poller (Behaves EventKqueue.poller EventKqueue.held) neverListening ∧
    ¬ EveryCall EventPoll.poller (Behaves EventPoll.poller EventPoll.held) neverListening ∧
    ¬ EveryCall EventPoll.poller (Behaves EventPoll.poller EventPoll.held) listening ∧
    (EventPoll.poller.machine.run EventPoll.poller.machine.init listening).isSome = true ∧
    EventPoll.poller.machine.run EventPoll.poller.machine.init
      (listening ++ [(3, .enableRead)]) = none := by
  refine ⟨?_, ?_, ?_, ?_, ?_, by rfl, by rfl⟩
  · rw [EventSelect.keeps.everyCall_iff]
    exact not_suits_neverListening rfl
  · rw [EventEpoll.keeps.everyCall_iff]
    exact not_suits_neverListening rfl
  · rw [EventKqueue.keeps.everyCall_iff]
    exact not_suits_neverListening rfl
  · rw [EventPoll.everyCall_iff]
    rintro ⟨-, hrest⟩
    exact (hrest _ rfl).1 (fun _ => rfl) rfl
  · rw [EventPoll.everyCall_iff]
    rintro ⟨-, hrest⟩
    exact ((hrest _ rfl).2 _ rfl).1 (fun _ => rfl) rfl

end EventPoller

end Voyager
