import Voyager.EventPoller
import Voyager.Lib.Slots
import Mathlib.Data.Finset.Lattice.Fold
import Mathlib.Order.Lattice.Nat

/-!
The pollers that hand the kernel their own tables at every `Poll`: `EventSelect`
of core/event_select.cc, with two descriptor sets and the bound `nfds_`, and
`EventPoll` of core/event_poll.cc, with an array whose slot numbers are kept in
the Dispatches.
-/
namespace Voyager

open EventPoller Lib.Slots

structure EventSelect where
  dispatchMap : Fd → Bool
  index : Fd → Int
  readfds : Fd → Bool
  writefds : Fd → Bool
  workerMap : Finset Fd
  nfds : ℕ

namespace EventSelect

def fdSetSize : ℕ := 1024

/-- `FD_SET` and `FD_CLR`; outside of the set they have no defined effect. -/
def fdAssign (fds : Fd → Bool) (fd : Fd) (value : Bool) : Option (Fd → Bool) :=
  if fd < fdSetSize then some (Function.update fds fd value) else none

def modifyFds (s : EventSelect) (fd : Fd) : ModifyEvent → Option EventSelect
  | .kAddRead => (fdAssign s.readfds fd true).map fun fds => { s with readfds := fds }
  | .kAddWrite => (fdAssign s.writefds fd true).map fun fds => { s with writefds := fds }
  | .kDeleteRead => (fdAssign s.readfds fd false).map fun fds => { s with readfds := fds }
  | .kDeleteWrite => (fdAssign s.writefds fd false).map fun fds => { s with writefds := fds }
  | .kEnableWrite => (fdAssign s.writefds fd true).map fun fds => { s with writefds := fds }
  | .kDisableWrite => (fdAssign s.writefds fd false).map fun fds => { s with writefds := fds }
  | .kDeleteAll =>
    (fdAssign s.readfds fd false).bind fun readfds =>
      (fdAssign s.writefds fd false).map fun writefds =>
        { s with readfds := readfds, writefds := writefds }
  | .kNoModify => some s

def register (s : EventSelect) (fd : Fd) : Option EventSelect :=
  if s.index fd = -1 then
    if s.dispatchMap fd then none
    else some { s with
      dispatchMap := Function.update s.dispatchMap fd true,
      index := Function.update s.index fd 0 }
  else if s.dispatchMap fd then some s
  else none

/-- The last part of `UpdateDispatch`: the descriptors at work and their bound. -/
def updateWorkers (s : EventSelect) (fd : Fd) (d : Dispatch) : EventSelect :=
  let workerMap := if d.isNoneEvent then s.workerMap.erase fd else insert fd s.workerMap
  { s with
    workerMap := workerMap,
    nfds := if workerMap = ∅ then 1 else workerMap.sup id + 1 }

def updateDispatch (s : EventSelect) (fd : Fd) (d : Dispatch) : Option EventSelect :=
  (s.modifyFds fd d.modify).bind fun s =>
    (s.register fd).map fun s => s.updateWorkers fd d

def removeDispatch (s : EventSelect) (fd : Fd) (d : Dispatch) : Option EventSelect :=
  if s.dispatchMap fd ∧ d.isNoneEvent then
    some { s with
      dispatchMap := Function.update s.dispatchMap fd false,
      index := Function.update s.index fd (-1) }
  else none

def poller : EventPoller EventSelect where
  init := ⟨fun _ => false, fun _ => -1, fun _ => false, fun _ => false, ∅, 0⟩
  updateDispatch := updateDispatch
  removeDispatch := removeDispatch
  readInterest s fd := s.readfds fd && decide (fd < s.nfds)
  writeInterest s fd := s.writefds fd && decide (fd < s.nfds)

/-- What the poller holds for one descriptor. -/
def Slot (reg : Reg) (known : Bool) (index : Int) : Prop :=
  match reg with
  | .fresh => known = false ∧ index = -1
  | .live _ => known = true ∧ index = 0
  | .removed => True

structure Inv (reg : Fd → Reg) (s : EventSelect) : Prop where
  slot : ∀ fd, Slot (reg fd) (s.dispatchMap fd) (s.index fd)
  read : ∀ fd, s.readfds fd = (reg fd).interest.reading
  write : ∀ fd, s.writefds fd = (reg fd).interest.writing
  worker : ∀ fd, fd ∈ s.workerMap ↔
    (reg fd).interest.reading = true ∨ (reg fd).interest.writing = true
  bound : ∀ fd ∈ s.workerMap, fd < s.nfds

section

variable {reg : Fd → Reg} {s : EventSelect} {fd : Fd} {d : Dispatch}

theorem modifyFds_eq {i i' : Interest} {m : ModifyEvent} (hfd : fd < fdSetSize)
    (hread : s.readfds fd = i.reading) (hwrite : s.writefds fd = i.writing)
    (hchange : Change i m i') :
    s.modifyFds fd m = some { s with
      readfds := Function.update s.readfds fd i'.reading,
      writefds := Function.update s.writefds fd i'.writing } := by
  have hsameRead : Function.update s.readfds fd i.reading = s.readfds := by
    rw [← hread, Function.update_eq_self]
  have hsameWrite : Function.update s.writefds fd i.writing = s.writefds := by
    rw [← hwrite, Function.update_eq_self]
  cases hchange <;> simp_all [modifyFds, fdAssign]

theorem register_eq (hslot : (s.index fd = -1 ∧ s.dispatchMap fd = false) ∨
      (s.index fd = 0 ∧ s.dispatchMap fd = true)) :
    s.register fd = some { s with
      dispatchMap := Function.update s.dispatchMap fd true,
      index := Function.update s.index fd 0 } := by
  obtain ⟨hindex, hmap⟩ | ⟨hindex, hmap⟩ := hslot
  · simp [register, hindex, hmap]
  · have hknown : Function.update s.dispatchMap fd true = s.dispatchMap := by
      rw [← hmap, Function.update_eq_self]
    have hsame : Function.update s.index fd 0 = s.index := by
      rw [← hindex, Function.update_eq_self]
    simp [register, hindex, hmap, hknown, hsame]

theorem mem_workerMap_updateWorkers (g : Fd) :
    g ∈ (s.updateWorkers fd d).workerMap ↔
      if g = fd then d.isNoneEvent = false else g ∈ s.workerMap := by
  unfold updateWorkers
  cases d.isNoneEvent <;> by_cases hg : g = fd <;> simp [hg]

theorem lt_nfds_updateWorkers {g : Fd} (hg : g ∈ (s.updateWorkers fd d).workerMap) :
    g < (s.updateWorkers fd d).nfds := by
  have hne : (s.updateWorkers fd d).workerMap ≠ ∅ := Finset.ne_empty_of_mem hg
  have hnfds : (s.updateWorkers fd d).nfds = (s.updateWorkers fd d).workerMap.sup id + 1 :=
    if_neg hne
  have hle : id g ≤ (s.updateWorkers fd d).workerMap.sup id := Finset.le_sup hg
  rw [hnfds]
  exact Nat.lt_succ_of_le hle

theorem updateDispatch_eq {i : Interest} (hfd : fd < fdSetSize)
    (hread : s.readfds fd = i.reading) (hwrite : s.writefds fd = i.writing)
    (hslot : (s.index fd = -1 ∧ s.dispatchMap fd = false) ∨
      (s.index fd = 0 ∧ s.dispatchMap fd = true))
    (hchange : Change i d.modify (interest d)) :
    s.updateDispatch fd d = some (updateWorkers { s with
      dispatchMap := Function.update s.dispatchMap fd true,
      index := Function.update s.index fd 0,
      readfds := Function.update s.readfds fd (interest d).reading,
      writefds := Function.update s.writefds fd (interest d).writing } fd d) := by
  rw [updateDispatch, modifyFds_eq hfd hread hwrite hchange, Option.bind_some, register_eq,
    Option.map_some]
  exact hslot

/-- Whether the descriptor is new or known, one change leads to the interest after it. -/
theorem Inv.updateDispatch (h : Inv reg s) (hfd : fd < fdSetSize) (hplain : Plain d)
    (hslot : (s.index fd = -1 ∧ s.dispatchMap fd = false) ∨
      (s.index fd = 0 ∧ s.dispatchMap fd = true))
    (hchange : Change (reg fd).interest d.modify (interest d)) :
    ∃ s', s.updateDispatch fd d = some s' ∧
      Inv (Function.update reg fd (.live (interest d))) s' := by
  refine ⟨_, updateDispatch_eq hfd (h.read fd) (h.write fd) hslot hchange, ?_⟩
  refine ⟨fun g => ?_, fun g => ?_, fun g => ?_, fun g => ?_, fun g hg => ?_⟩
  · by_cases hg : g = fd
    · subst hg
      simp [updateWorkers, Slot]
    · simpa [updateWorkers, hg] using h.slot g
  · by_cases hg : g = fd
    · subst hg
      simp [updateWorkers, Reg.interest]
    · simpa [updateWorkers, hg] using h.read g
  · by_cases hg : g = fd
    · subst hg
      simp [updateWorkers, Reg.interest]
    · simpa [updateWorkers, hg] using h.write g
  · rw [mem_workerMap_updateWorkers]
    by_cases hg : g = fd
    · subst hg
      rw [if_pos rfl, Function.update_self, Reg.interest, hplain.isNoneEvent]
      show (!(interest d).reading && !(interest d).writing) = false ↔ _
      cases (interest d).reading <;> simp
    · rw [if_neg hg, Function.update_of_ne hg]
      exact h.worker g
  · exact lt_nfds_updateWorkers hg

theorem Inv.select_interest (h : Inv reg s) :
    (s.readfds fd && decide (fd < s.nfds)) = (reg fd).interest.reading ∧
      (s.writefds fd && decide (fd < s.nfds)) = (reg fd).interest.writing := by
  rw [h.read, h.write]
  by_cases hmem : fd ∈ s.workerMap
  · simp [h.bound fd hmem]
  · rw [h.worker, not_or, Bool.not_eq_true, Bool.not_eq_true] at hmem
    simp [hmem]

end

theorem tracks : Tracks poller (fun fd => fd < fdSetSize) Inv where
  init := ⟨fun _ => ⟨rfl, rfl⟩, fun _ => rfl, fun _ => rfl, by simp [poller, Reg.interest,
    Interest.none], by simp [poller]⟩
  add := by
    intro reg s fd d h hfd hreg hplain hchange _
    have hslot := h.slot fd
    rw [hreg] at hslot
    exact h.updateDispatch hfd hplain (.inl ⟨hslot.2, hslot.1⟩) (by rw [hreg]; exact hchange)
  change := by
    intro reg s fd d i h hfd hreg hplain hchange
    have hslot := h.slot fd
    rw [hreg] at hslot
    exact h.updateDispatch hfd hplain (.inr ⟨hslot.2, hslot.1⟩) (by rw [hreg]; exact hchange)
  remove := by
    intro reg s fd d h _ hreg hplain hidle
    have hslot := h.slot fd
    rw [hreg] at hslot
    have hnone := hplain.isNoneEvent_of_idle hidle
    refine ⟨_, if_pos ⟨hslot.1, hnone⟩, ?_⟩
    have hsame (g : Fd) : (Function.update reg fd .removed g).interest = (reg g).interest := by
      by_cases hg : g = fd
      · rw [hg, hreg, Function.update_self]
        rfl
      · rw [Function.update_of_ne hg]
    refine ⟨fun g => ?_, fun g => ?_, fun g => ?_, fun g => ?_, h.bound⟩
    · by_cases hg : g = fd
      · subst hg
        simp [Slot]
      · simpa [hg] using h.slot g
    · rw [hsame, h.read]
    · rw [hsame, h.write]
    · rw [hsame, h.worker]
  readInterest := fun _ h => h.select_interest.1
  writeInterest := fun _ h => h.select_interest.2

end EventSelect

/-- `pollfd`, without the `revents` of the last `Poll`. -/
structure PollFd where
  fd : Int
  events : BitVec 16
deriving DecidableEq, Repr

structure EventPoll where
  dispatchMap : Fd → Bool
  index : Fd → Int
  pollfds : List PollFd

namespace EventPoll

/-- `static_cast<short>`. -/
def toShort (mask : Mask) : BitVec 16 := mask.setWidth 16

/-- A `short` where an `int` is expected. -/
def toInt (events : BitVec 16) : Mask := events.signExtend 32

/-- The descriptor of an entry, ignored or not. -/
def PollFd.id (p : PollFd) : Int := if p.fd < 0 then -p.fd - 1 else p.fd

def removeDispatch (s : EventPoll) (fd : Fd) (d : Dispatch) : Option EventPoll :=
  let idx := s.index fd
  let size := s.pollfds.length
  match s.pollfds[idx.toNat]?, s.pollfds.getLast? with
  | some entry, some back =>
    if s.dispatchMap fd ∧ d.isNoneEvent ∧ 0 ≤ idx ∧ entry.fd = -(fd : Int) - 1 ∧
        toInt entry.events = d.events then
      let dispatchMap := Function.update s.dispatchMap fd false
      if idx = (size : Int) - 1 then
        some { s with dispatchMap := dispatchMap, pollfds := s.pollfds.dropLast }
      else
        -- the entry swapped to the back is popped; a descriptor that is not in
        -- the map would make `SetIndex` follow a null pointer
        let id := (PollFd.id back).toNat
        if dispatchMap id then
          some ⟨dispatchMap, Function.update s.index id idx,
            swapRemove s.pollfds idx.toNat back⟩
        else none
    else none
  | _, _ => none

def updateDispatch (s : EventPoll) (fd : Fd) (d : Dispatch) : Option EventPoll :=
  let idx := s.index fd
  if idx = -1 then
    if s.dispatchMap fd then none
    else
      let pollfds := s.pollfds ++ [⟨fd, toShort d.events⟩]
      some ⟨Function.update s.dispatchMap fd true,
        Function.update s.index fd ((pollfds.length : Int) - 1), pollfds⟩
  else
    match s.pollfds[idx.toNat]? with
    | some entry =>
      if s.dispatchMap fd ∧ 0 ≤ idx ∧ (entry.fd = fd ∨ entry.fd = -(fd : Int) - 1) then
        let ignored := if d.isNoneEvent then -(fd : Int) - 1 else fd
        some { s with pollfds := s.pollfds.set idx.toNat ⟨ignored, toShort d.events⟩ }
      else none
    | none => none

/-- poll(2) skips the entries with a negative descriptor. -/
def polls (s : EventPoll) (fd : Fd) (bits : Mask) : Bool :=
  s.pollfds.any fun p => p.fd == (fd : Int) && Mask.has (toInt p.events) bits

def poller : EventPoller EventPoll where
  init := ⟨fun _ => false, fun _ => -1, []⟩
  updateDispatch := updateDispatch
  removeDispatch := removeDispatch
  readInterest s fd := s.polls fd Dispatch.kReadEvent
  writeInterest s fd := s.polls fd Dispatch.kWriteEvent

/-- The entry of a registered descriptor. -/
def entry (fd : Fd) (i : Interest) : PollFd where
  fd := if i.reading || i.writing then fd else -(fd : Int) - 1
  events := toShort (mask i.reading i.writing)

def table (reg : Fd → Reg) (fd : Fd) : Option PollFd :=
  match reg fd with
  | .live i => some (entry fd i)
  | _ => none

structure Inv (reg : Fd → Reg) (s : EventPoll) : Prop where
  slots : Represents s.index s.pollfds (table reg)
  known : ∀ fd, s.dispatchMap fd = (table reg fd).isSome
  fresh : ∀ fd, reg fd = .fresh → s.index fd = -1

theorem toInt_toShort_mask (r w : Bool) : toInt (toShort (mask r w)) = mask r w := by
  cases r <;> cases w <;> decide

theorem entry_fd (fd : Fd) (i : Interest) :
    (entry fd i).fd = fd ∨ (entry fd i).fd = -(fd : Int) - 1 := by
  unfold entry
  cases i.reading || i.writing <;> simp

theorem id_entry (fd : Fd) (i : Interest) : PollFd.id (entry fd i) = fd := by
  unfold PollFd.id
  rcases entry_fd fd i with h | h <;> rw [h] <;> split <;> omega

section

variable {reg : Fd → Reg} {s : EventPoll} {fd : Fd} {d : Dispatch}

theorem table_live {i : Interest} (hreg : reg fd = .live i) : table reg fd = some (entry fd i) := by
  rw [table, hreg]

theorem table_update_live (reg : Fd → Reg) (fd : Fd) (i : Interest) :
    table (Function.update reg fd (.live i)) =
      Function.update (table reg) fd (some (entry fd i)) := by
  funext g
  by_cases hg : g = fd
  · subst hg
    simp [table]
  · simp [table, hg]

theorem table_update_removed (reg : Fd → Reg) (fd : Fd) :
    table (Function.update reg fd .removed) = Function.update (table reg) fd none := by
  funext g
  by_cases hg : g = fd
  · subst hg
    simp [table]
  · simp [table, hg]

theorem entry_interest (hplain : Plain d) :
    entry fd (interest d) =
      ⟨if d.isNoneEvent then -(fd : Int) - 1 else fd, toShort d.events⟩ := by
  rw [entry, ← hplain.events_interest, hplain.isNoneEvent]
  show PollFd.mk (if d.isReading || d.isWriting then _ else _) _ = _
  cases d.isReading <;> cases d.isWriting <;> rfl

theorem Inv.add (h : Inv reg s) (hreg : reg fd = .fresh) (hplain : Plain d)
    (hsome : d.isNoneEvent = false) :
    ∃ s', s.updateDispatch fd d = some s' ∧
      Inv (Function.update reg fd (.live (interest d))) s' := by
  have hindex : s.index fd = -1 := h.fresh fd hreg
  have htable : table reg fd = none := by rw [table, hreg]
  have hmap : s.dispatchMap fd = false := by
    rw [h.known, htable]
    rfl
  have hentry : entry fd (interest d) = ⟨fd, toShort d.events⟩ := by
    rw [entry_interest hplain, hsome]
    rfl
  have hupdate : s.updateDispatch fd d = some ⟨Function.update s.dispatchMap fd true,
      Function.update s.index fd s.pollfds.length,
      s.pollfds ++ [entry fd (interest d)]⟩ := by
    simp [EventPoll.updateDispatch, hindex, hmap, hentry]
  refine ⟨_, hupdate, ?_, fun g => ?_, fun g hg => ?_⟩
  · rw [table_update_live]
    exact h.slots.push _ htable
  · rw [table_update_live]
    by_cases hgf : g = fd
    · subst hgf
      simp
    · simp [hgf, h.known]
  · by_cases hgf : g = fd
    · subst hgf
      simp at hg
    · simp only [Function.update_of_ne hgf] at hg ⊢
      exact h.fresh g hg

theorem Inv.change {i : Interest} (h : Inv reg s) (hreg : reg fd = .live i) (hplain : Plain d) :
    ∃ s', s.updateDispatch fd d = some s' ∧
      Inv (Function.update reg fd (.live (interest d))) s' := by
  have htable := table_live hreg
  obtain ⟨n, hindex, hslot⟩ := h.slots.find fd _ htable
  have hmap : s.dispatchMap fd = true := by
    rw [h.known, htable]
    rfl
  have hupdate : s.updateDispatch fd d =
      some { s with pollfds := s.pollfds.set n (entry fd (interest d)) } := by
    have hnew : ¬ (n : Int) = -1 := by omega
    simp [EventPoll.updateDispatch, hindex, hslot, hmap, hnew, entry_fd, entry_interest hplain]
  refine ⟨_, hupdate, ?_, fun g => ?_, fun g hg => ?_⟩
  · rw [table_update_live]
    exact h.slots.set _ (by rw [htable]; rfl) hindex
  · rw [table_update_live]
    by_cases hgf : g = fd
    · subst hgf
      simp [hmap]
    · simp [hgf, h.known]
  · by_cases hgf : g = fd
    · subst hgf
      simp at hg
    · rw [Function.update_of_ne hgf] at hg
      exact h.fresh g hg

/-- The last entry and its owner, the one whose index `RemoveDispatch` rewrites. -/
theorem Inv.exists_back (h : Inv reg s) (hne : s.pollfds ≠ []) :
    ∃ g i, reg g = .live i ∧ s.pollfds.getLast? = some (entry g i) ∧
      s.index g = (s.pollfds.length - 1 : ℕ) := by
  have hlast : s.pollfds[s.pollfds.length - 1]? = some (s.pollfds.getLast hne) := by
    rw [← List.getLast?_eq_getElem?, List.getLast?_eq_some_getLast hne]
  obtain ⟨g, hg, hindex⟩ := h.slots.owner _ _ hlast
  cases hreg : reg g with
  | fresh => simp [table, hreg] at hg
  | removed => simp [table, hreg] at hg
  | live i =>
    rw [table_live hreg, Option.some.injEq] at hg
    exact ⟨g, i, hreg, by rw [List.getLast?_eq_some_getLast hne, hg], hindex⟩

theorem removeDispatch_eq {n : ℕ} {g : Fd} {i : Interest} (hindex : s.index fd = n)
    (hslot : s.pollfds[n]? = some (entry fd Interest.none))
    (hback : s.pollfds.getLast? = some (entry g i))
    (hlast : s.index g = (s.pollfds.length - 1 : ℕ))
    (hmap : s.dispatchMap fd = true) (hmapBack : s.dispatchMap g = true)
    (hplain : Plain d) (hidle : interest d = Interest.none) :
    s.removeDispatch fd d = some ⟨Function.update s.dispatchMap fd false,
      Function.update s.index g n, swapRemove s.pollfds n (entry g i)⟩ := by
  have hnone := hplain.isNoneEvent_of_idle hidle
  have hevents : toInt (entry fd Interest.none).events = d.events := by
    rw [hplain.events_interest, hidle]
    exact toInt_toShort_mask _ _
  have hfd : (entry fd Interest.none).fd = -(fd : Int) - 1 := rfl
  have hlt : n < s.pollfds.length := (List.getElem?_eq_some_iff.mp hslot).1
  by_cases hn : n = s.pollfds.length - 1
  · -- the entry to go is itself the last one
    have hcond : (n : Int) = (s.pollfds.length : Int) - 1 := by omega
    have hsame : entry g i = entry fd Interest.none := by
      rw [List.getLast?_eq_getElem?, ← hn, hslot, Option.some.injEq] at hback
      exact hback.symm
    have hg : g = fd := by
      have hid := congrArg PollFd.id hsame
      rw [id_entry, id_entry] at hid
      exact Int.ofNat.inj hid
    have hkeep : Function.update s.index g n = s.index := by
      rw [hg, ← hindex, Function.update_eq_self]
    rw [hkeep, hsame, swapRemove_self hslot]
    simp [EventPoll.removeDispatch, hindex, hslot, hback, hmap, hnone, hfd, hevents,
      eq_true hcond]
  · have hcond : ¬ (n : Int) = (s.pollfds.length : Int) - 1 := by omega
    have hg : g ≠ fd := by
      rintro rfl
      omega
    have hid : (PollFd.id (entry g i)).toNat = g := by
      rw [id_entry]
      rfl
    simp [EventPoll.removeDispatch, hindex, hslot, hback, hmap, hnone, hfd, hevents, hcond, hid,
      hg, hmapBack]

theorem Inv.remove (h : Inv reg s) (hreg : reg fd = .live Interest.none) (hplain : Plain d)
    (hidle : interest d = Interest.none) :
    ∃ s', s.removeDispatch fd d = some s' ∧ Inv (Function.update reg fd .removed) s' := by
  have htable := table_live hreg
  obtain ⟨n, hindex, hlt, hslot⟩ := h.slots.index_lt htable
  obtain ⟨g, i, hlive, hback, hlast⟩ := h.exists_back (List.ne_nil_of_length_pos (by omega))
  have hmap : s.dispatchMap fd = true := by
    rw [h.known, htable]
    rfl
  have hmapBack : s.dispatchMap g = true := by
    rw [h.known, table_live hlive]
    rfl
  refine ⟨_, removeDispatch_eq hindex hslot hback hlast hmap hmapBack hplain hidle, ?_,
    fun k => ?_, fun k hk => ?_⟩
  · rw [table_update_removed]
    exact h.slots.swapRemove (by rw [htable]; rfl) hindex (table_live hlive) hlast
  · rw [table_update_removed]
    by_cases hkf : k = fd
    · subst hkf
      simp
    · simp [hkf, h.known]
  · have hkf : k ≠ fd := by
      rintro rfl
      simp at hk
    rw [Function.update_of_ne hkf] at hk
    have hkg : k ≠ g := by
      rintro rfl
      rw [hk] at hlive
      cases hlive
    exact (Function.update_of_ne hkg _ _).trans (h.fresh k hk)

theorem Inv.polls_eq (h : Inv reg s) (bits : Mask) :
    s.polls fd bits =
      Mask.has (mask (reg fd).interest.reading (reg fd).interest.writing) bits := by
  rw [Bool.eq_iff_iff, polls, List.any_eq_true]
  constructor
  · rintro ⟨p, hp, hmatch⟩
    rw [Bool.and_eq_true, beq_iff_eq] at hmatch
    obtain ⟨j, hj⟩ := List.mem_iff_getElem?.mp hp
    obtain ⟨g, hg, -⟩ := h.slots.owner j p hj
    cases hreg : reg g with
    | fresh => simp [table, hreg] at hg
    | removed => simp [table, hreg] at hg
    | live i =>
      rw [table_live hreg, Option.some.injEq] at hg
      obtain ⟨hfd, hbits⟩ := hmatch
      have hgf : g = fd := by
        rw [← hg] at hfd
        apply Int.ofNat.inj
        rcases entry_fd g i with hentry | hentry
        · exact hentry.symm.trans hfd
        · omega
      subst hgf
      rw [← hg, entry, toInt_toShort_mask] at hbits
      rw [hreg]
      exact hbits
  · intro hbits
    cases hreg : reg fd with
    | fresh =>
      rw [hreg] at hbits
      exact absurd hbits (by simp [Reg.interest, Interest.none, mask, Mask.has])
    | removed =>
      rw [hreg] at hbits
      exact absurd hbits (by simp [Reg.interest, Interest.none, mask, Mask.has])
    | live i =>
      rw [hreg] at hbits
      obtain ⟨n, -, hslot⟩ := h.slots.find fd _ (table_live hreg)
      refine ⟨entry fd i, List.mem_of_getElem? hslot, ?_⟩
      have hany : (i.reading || i.writing) = true := by
        by_contra hnot
        rw [Bool.not_eq_true, Bool.or_eq_false_iff] at hnot
        simp [Reg.interest, hnot, mask, Mask.has] at hbits
      rw [entry, toInt_toShort_mask, hany, if_pos rfl, beq_self_eq_true, Bool.true_and]
      exact hbits

end

theorem tracks : Tracks poller (fun _ => True) Inv where
  init := ⟨represents_empty _, fun _ => rfl, fun _ _ => rfl⟩
  add := fun h _ hreg hplain _ hsome => h.add hreg hplain hsome
  change := fun h _ hreg hplain _ => h.change hreg hplain
  remove := fun h _ hreg hplain hidle => h.remove hreg hplain hidle
  readInterest := by
    intro reg s fd h
    show s.polls fd Dispatch.kReadEvent = _
    rw [h.polls_eq, has_mask_read]
  writeInterest := by
    intro reg s fd h
    show s.polls fd Dispatch.kWriteEvent = _
    rw [h.polls_eq, has_mask_write]

end EventPoll

end Voyager
