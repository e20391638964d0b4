import Voyager.EventPoller

/-!
The pollers that keep the interest in the kernel: `EventEpoll` of
core/event_epoll.cc and `EventKqueue` of core/event_kqueue.cc. The kernel objects
are modelled by their documented effect: a call on a missing entry fails and
changes nothing, and the failure is only logged.
-/
namespace Voyager

open EventPoller

structure EventEpoll where
  dispatchMap : Fd → Bool
  index : Fd → Int
  epollSet : Fd → Option Mask

namespace EventEpoll

def kNew : Int := -1
def kAdded : Int := 1
def kDeleted : Int := 2

inductive Ctl
  | add
  | mod
  | del
deriving DecidableEq, Repr

/-- epoll_ctl(2): `EEXIST` and `ENOENT` leave the set as it is. -/
def epollCTL (s : EventEpoll) (op : Ctl) (fd : Fd) (d : Dispatch) : EventEpoll :=
  match op, s.epollSet fd with
  | .add, none => { s with epollSet := Function.update s.epollSet fd (some d.events) }
  | .mod, some _ => { s with epollSet := Function.update s.epollSet fd (some d.events) }
  | .del, some _ => { s with epollSet := Function.update s.epollSet fd none }
  | _, _ => s

def setIndex (s : EventEpoll) (fd : Fd) (index : Int) : EventEpoll :=
  { s with index := Function.update s.index fd index }

def updateDispatch (s : EventEpoll) (fd : Fd) (d : Dispatch) : Option EventEpoll :=
  if s.index fd = kNew ∨ s.index fd = kDeleted then
    if s.index fd = kNew then
      if s.dispatchMap fd then none
      else
        let s := { s with dispatchMap := Function.update s.dispatchMap fd true }
        some ((s.setIndex fd kAdded).epollCTL .add fd d)
    else if s.dispatchMap fd then some ((s.setIndex fd kAdded).epollCTL .add fd d)
    else none
  else if s.dispatchMap fd ∧ s.index fd = kAdded then
    if d.isNoneEvent then some ((s.epollCTL .del fd d).setIndex fd kDeleted)
    else some (s.epollCTL .mod fd d)
  else none

def removeDispatch (s : EventEpoll) (fd : Fd) (d : Dispatch) : Option EventEpoll :=
  if s.dispatchMap fd ∧ d.isNoneEvent ∧ (s.index fd = kAdded ∨ s.index fd = kDeleted) then
    let idx := s.index fd
    let s := { s with dispatchMap := Function.update s.dispatchMap fd false }
    let s := if idx = kAdded then s.epollCTL .del fd d else s
    some (s.setIndex fd kNew)
  else none

def poller : EventPoller EventEpoll where
  init := ⟨fun _ => false, fun _ => kNew, fun _ => none⟩
  updateDispatch := updateDispatch
  removeDispatch := removeDispatch
  readInterest s fd := (s.epollSet fd).any fun events => Mask.has events Dispatch.kReadEvent
  writeInterest s fd := (s.epollSet fd).any fun events => Mask.has events Dispatch.kWriteEvent

/-- What the poller holds for one descriptor. `kDeleted` is an entry taken out of
the set because nothing was left of it. -/
def Slot (reg : Reg) (known : Bool) (index : Int) (entry : Option Mask) : Prop :=
  match reg with
  | .fresh => known = false ∧ index = kNew ∧ entry = none
  | .live i => known = true ∧
    ((index = kAdded ∧ entry = some (mask i.reading i.writing)) ∨
      (index = kDeleted ∧ entry = none ∧ i.reading = false ∧ i.writing = false))
  | .removed => entry = none

def Inv (reg : Fd → Reg) (s : EventEpoll) : Prop :=
  ∀ fd, Slot (reg fd) (s.dispatchMap fd) (s.index fd) (s.epollSet fd)

theorem Inv.update {reg : Fd → Reg} {s s' : EventEpoll} {fd : Fd} {r : Reg} (h : Inv reg s)
    (hother : ∀ g, g ≠ fd → s'.dispatchMap g = s.dispatchMap g ∧ s'.index g = s.index g ∧
      s'.epollSet g = s.epollSet g)
    (hslot : Slot r (s'.dispatchMap fd) (s'.index fd) (s'.epollSet fd)) :
    Inv (Function.update reg fd r) s' := by
  intro g
  by_cases hgf : g = fd
  · subst hgf
    simpa using hslot
  · obtain ⟨hmap, hindex, hset⟩ := hother g hgf
    rw [Function.update_of_ne hgf, hmap, hindex, hset]
    exact h g

/-- What epoll holds for a descriptor is what it should be told about. -/
theorem Slot.entry_eq {reg : Reg} {known : Bool} {index : Int} {entry : Option Mask}
    (h : Slot reg known index entry) :
    (entry = none ∧ reg.interest.reading = false ∧ reg.interest.writing = false) ∨
      entry = some (mask reg.interest.reading reg.interest.writing) := by
  cases reg with
  | fresh => exact .inl ⟨h.2.2, rfl, rfl⟩
  | removed => exact .inl ⟨h, rfl, rfl⟩
  | live i =>
    obtain ⟨-, ⟨-, hentry⟩ | ⟨-, hentry, hread, hwrite⟩⟩ := h
    · exact .inr hentry
    · exact .inl ⟨hentry, hread, hwrite⟩

theorem Slot.any_read {reg : Reg} {known : Bool} {index : Int} {entry : Option Mask}
    (h : Slot reg known index entry) :
    (entry.any fun events => Mask.has events Dispatch.kReadEvent) = reg.interest.reading := by
  rcases h.entry_eq with ⟨hentry, hread, -⟩ | hentry
  · rw [hentry, hread, Option.any_none]
  · rw [hentry, Option.any_some, has_mask_read]

theorem Slot.any_write {reg : Reg} {known : Bool} {index : Int} {entry : Option Mask}
    (h : Slot reg known index entry) :
    (entry.any fun events => Mask.has events Dispatch.kWriteEvent) = reg.interest.writing := by
  rcases h.entry_eq with ⟨hentry, -, hwrite⟩ | hentry
  · rw [hentry, hwrite, Option.any_none]
  · rw [hentry, Option.any_some, has_mask_write]

section

variable {s : EventEpoll} {fd : Fd} {d : Dispatch}

theorem updateDispatch_kNew (hindex : s.index fd = kNew) (hmap : s.dispatchMap fd = false)
    (hset : s.epollSet fd = none) :
    s.updateDispatch fd d = some ⟨Function.update s.dispatchMap fd true,
      Function.update s.index fd kAdded, Function.update s.epollSet fd (some d.events)⟩ := by
  simp [updateDispatch, hindex, hmap, epollCTL, setIndex, hset]

theorem updateDispatch_kDeleted (hindex : s.index fd = kDeleted) (hmap : s.dispatchMap fd = true)
    (hset : s.epollSet fd = none) :
    s.updateDispatch fd d = some { s with
      index := Function.update s.index fd kAdded,
      epollSet := Function.update s.epollSet fd (some d.events) } := by
  have hne : kDeleted ≠ kNew := by decide
  simp [updateDispatch, hindex, hmap, hne, epollCTL, setIndex, hset]

theorem updateDispatch_kAdded {m : Mask} (hindex : s.index fd = kAdded)
    (hmap : s.dispatchMap fd = true) (hset : s.epollSet fd = some m) :
    s.updateDispatch fd d =
      if d.isNoneEvent then some { s with
        index := Function.update s.index fd kDeleted,
        epollSet := Function.update s.epollSet fd none }
      else some { s with epollSet := Function.update s.epollSet fd (some d.events) } := by
  have hne : kAdded ≠ kNew ∧ kAdded ≠ kDeleted := by decide
  simp [updateDispatch, hindex, hmap, hne, epollCTL, setIndex, hset]

/-- Out of the set whether `DisableAll` had already taken the entry out or not. -/
theorem removeDispatch_live {i : Interest}
    (hslot : Slot (.live i) (s.dispatchMap fd) (s.index fd) (s.epollSet fd))
    (hnone : d.isNoneEvent = true) :
    s.removeDispatch fd d = some ⟨Function.update s.dispatchMap fd false,
      Function.update s.index fd kNew, Function.update s.epollSet fd none⟩ := by
  obtain ⟨hmap, ⟨hindex, hset⟩ | ⟨hindex, hset, -, -⟩⟩ := hslot
  · simp [removeDispatch, hindex, hmap, hnone, epollCTL, setIndex, hset]
  · have hne : kDeleted ≠ kAdded := by decide
    have hsame : Function.update s.epollSet fd none = s.epollSet := by
      rw [← hset, Function.update_eq_self]
    simp [removeDispatch, hindex, hmap, hnone, hne, setIndex, hsame]

end

theorem tracks : Tracks poller (fun _ => True) Inv where
  init := fun _ => ⟨rfl, rfl, rfl⟩
  add := by
    intro reg s fd d h _ hreg hplain _ _
    have hslot := h fd
    rw [hreg] at hslot
    obtain ⟨hmap, hindex, hset⟩ := hslot
    refine ⟨_, updateDispatch_kNew hindex hmap hset, ?_⟩
    refine h.update (fun g hg => by simp [hg]) ⟨by simp, .inl ⟨by simp, ?_⟩⟩
    simp [hplain.events_interest]
  change := by
    intro reg s fd d i h _ hreg hplain _
    have hslot := h fd
    rw [hreg] at hslot
    obtain ⟨hmap, ⟨hindex, hset⟩ | ⟨hindex, hset, -, -⟩⟩ := hslot
    · cases hnone : d.isNoneEvent with
      | true =>
        refine ⟨_, (updateDispatch_kAdded hindex hmap hset).trans (if_pos hnone), ?_⟩
        refine h.update (fun g hg => by simp [hg]) ⟨hmap, .inr ⟨by simp, by simp, ?_⟩⟩
        exact hplain.isNoneEvent_iff.mp hnone
      | false =>
        refine ⟨_, (updateDispatch_kAdded hindex hmap hset).trans (if_neg (by simp [hnone])), ?_⟩
        refine h.update (fun g hg => by simp [hg]) ⟨hmap, .inl ⟨hindex, ?_⟩⟩
        simp [hplain.events_interest]
    · refine ⟨_, updateDispatch_kDeleted hindex hmap hset, ?_⟩
      refine h.update (fun g hg => by simp [hg]) ⟨hmap, .inl ⟨by simp, ?_⟩⟩
      simp [hplain.events_interest]
  remove := by
    intro reg s fd d h _ hreg hplain hidle
    have hslot := h fd
    rw [hreg] at hslot
    have hnone := hplain.isNoneEvent_of_idle hidle
    refine ⟨_, removeDispatch_live hslot hnone, ?_⟩
    exact h.update (fun g hg => by simp [hg]) (by simp [Slot])
  readInterest := by
    intro reg s fd h
    exact (h fd).any_read
  writeInterest := by
    intro reg s fd h
    exact (h fd).any_write

end EventEpoll

/-! Kqueue. -/

inductive Filter
  | evfiltRead
  | evfiltWrite
deriving DecidableEq, Repr

inductive KFlags
  | evAddEnable
  | evDelete
  | evEnable
  | evDisable
deriving DecidableEq, Repr

/-- A filter of the queue is there or not, and enabled or not. -/
structure EventKqueue where
  dispatchMap : Fd → Bool
  index : Fd → Int
  knotes : Fd → Filter → Option Bool

namespace EventKqueue

/-- One element of the changelist; `none` is `ENOENT`. -/
def change (knote : Option Bool) : KFlags → Option (Option Bool)
  | .evAddEnable => some (some true)
  | .evDelete => knote.map fun _ => none
  | .evEnable => knote.map fun _ => some true
  | .evDisable => knote.map fun _ => some false

/-- kevent(2) with no room for events: it stops at the first change that fails. -/
def kevent (s : EventKqueue) (fd : Fd) : List (Filter × KFlags) → EventKqueue
  | [] => s
  | (filter, flags) :: rest =>
    match change (s.knotes fd filter) flags with
    | none => s
    | some knote =>
      kevent { s with
        knotes := Function.update s.knotes fd (Function.update (s.knotes fd) filter knote) }
        fd rest

def changelist : ModifyEvent → Option (List (Filter × KFlags))
  | .kAddRead => some [(.evfiltRead, .evAddEnable)]
  | .kAddWrite => some [(.evfiltWrite, .evAddEnable)]
  | .kDeleteRead => some [(.evfiltRead, .evDelete)]
  | .kDeleteWrite => some [(.evfiltWrite, .evDelete)]
  | .kEnableWrite => some [(.evfiltWrite, .evEnable)]
  | .kDisableWrite => some [(.evfiltWrite, .evDisable)]
  | .kDeleteAll => some [(.evfiltRead, .evDelete), (.evfiltWrite, .evDelete)]
  | .kNoModify => none

def updateDispatch (s : EventKqueue) (fd : Fd) (d : Dispatch) : Option EventKqueue :=
  (changelist d.modify).bind fun changes =>
    let s := s.kevent fd changes
    if s.index fd = -1 then
      if s.dispatchMap fd then none
      else some { s with
        dispatchMap := Function.update s.dispatchMap fd true,
        index := Function.update s.index fd 0 }
    else if s.dispatchMap fd then some s
    else none

def removeDispatch (s : EventKqueue) (fd : Fd) (d : Dispatch) : Option EventKqueue :=
  if s.dispatchMap fd ∧ d.isNoneEvent then
    some { s with
      dispatchMap := Function.update s.dispatchMap fd false,
      index := Function.update s.index fd (-1) }
  else none

def poller : EventPoller EventKqueue where
  init := ⟨fun _ => false, fun _ => -1, fun _ _ => none⟩
  updateDispatch := updateDispatch
  removeDispatch := removeDispatch
  readInterest s fd := s.knotes fd .evfiltRead == some true
  writeInterest s fd := s.knotes fd .evfiltWrite == some true

/-- The changelist as it acts on the filters of the descriptor alone. -/
def changed (notes : Filter → Option Bool) : List (Filter × KFlags) → Filter → Option Bool
  | [] => notes
  | (filter, flags) :: rest =>
    match change (notes filter) flags with
    | none => notes
    | some knote => changed (Function.update notes filter knote) rest

theorem kevent_eq (s : EventKqueue) (fd : Fd) (changes : List (Filter × KFlags)) :
    s.kevent fd changes =
      { s with knotes := Function.update s.knotes fd (changed (s.knotes fd) changes) } := by
  induction changes generalizing s with
  | nil => simp [kevent, changed]
  | cons c rest ih =>
    obtain ⟨filter, flags⟩ := c
    cases hchange : change (s.knotes fd filter) flags with
    | none => simp [kevent, changed, hchange]
    | some knote =>
      simp only [kevent, changed, hchange]
      rw [ih]
      simp

/-- A write filter stays, disabled, until it is deleted; a read filter does not. -/
structure Notes (i : Interest) (notes : Filter → Option Bool) : Prop where
  read : notes .evfiltRead = if i.reading then some true else none
  write : notes .evfiltWrite = if i.addWrite then some i.writing else none

theorem Notes.changed {i i' : Interest} {m : ModifyEvent} {notes : Filter → Option Bool}
    (h : Notes i notes) (hchange : Change i m i') :
    ∃ changes, changelist m = some changes ∧ Notes i' (changed notes changes) := by
  obtain ⟨hread, hwrite⟩ := h
  cases hchange with
  | addRead =>
    refine ⟨_, rfl, ?_, ?_⟩
    · simp [EventKqueue.changed, change]
    · simpa [EventKqueue.changed, change] using hwrite
  | addWrite =>
    refine ⟨_, rfl, ?_, ?_⟩
    · simpa [EventKqueue.changed, change] using hread
    · simp [EventKqueue.changed, change]
  | deleteRead =>
    -- deleting a filter that is not there fails, and nothing is lost by that
    rename_i r w a
    refine ⟨_, rfl, ?_, ?_⟩
    · cases r <;> simp [EventKqueue.changed, change, hread]
    · cases r <;> simpa [EventKqueue.changed, change, hread] using hwrite
  | deleteWrite =>
    refine ⟨_, rfl, ?_, ?_⟩
    · simpa [EventKqueue.changed, change, hwrite] using hread
    · simp [EventKqueue.changed, change, hwrite]
  | enableWrite =>
    refine ⟨_, rfl, ?_, ?_⟩
    · simpa [EventKqueue.changed, change, hwrite] using hread
    · simp [EventKqueue.changed, change, hwrite]
  | disableWrite =>
    refine ⟨_, rfl, ?_, ?_⟩
    · simpa [EventKqueue.changed, change, hwrite] using hread
    · simp [EventKqueue.changed, change, hwrite]
  | deleteAll =>
    refine ⟨_, rfl, ?_, ?_⟩
    · simp [EventKqueue.changed, change, hread, hwrite]
    · simp [EventKqueue.changed, change, hread, hwrite]

def Slot (reg : Reg) (known : Bool) (index : Int) (notes : Filter → Option Bool) : Prop :=
  match reg with
  | .fresh => known = false ∧ index = -1 ∧ Notes Interest.none notes
  | .live i => known = true ∧ index = 0 ∧ Notes i notes ∧ (i.writing = true → i.addWrite = true)
  | .removed => Notes Interest.none notes

def Inv (reg : Fd → Reg) (s : EventKqueue) : Prop :=
  ∀ fd, Slot (reg fd) (s.dispatchMap fd) (s.index fd) (s.knotes fd)

theorem Inv.update {reg : Fd → Reg} {s : EventKqueue} {fd : Fd} {r : Reg} {known : Bool}
    {index : Int} {notes : Filter → Option Bool} (h : Inv reg s)
    (hslot : Slot r known index notes) :
    Inv (Function.update reg fd r) ⟨Function.update s.dispatchMap fd known,
      Function.update s.index fd index, Function.update s.knotes fd notes⟩ := by
  intro g
  by_cases hgf : g = fd
  · subst hgf
    simpa using hslot
  · simpa [hgf] using h g

theorem Slot.notes {reg : Reg} {known : Bool} {index : Int} {notes : Filter → Option Bool}
    (h : Slot reg known index notes) : Notes reg.interest notes := by
  cases reg with
  | fresh => exact h.2.2
  | live i => exact h.2.2.1
  | removed => exact h

theorem Slot.addWrite {reg : Reg} {known : Bool} {index : Int} {notes : Filter → Option Bool}
    (h : Slot reg known index notes) (hw : reg.interest.writing = true) :
    reg.interest.addWrite = true := by
  cases reg with
  | fresh => exact hw
  | live i => exact h.2.2.2 hw
  | removed => exact hw

theorem updateDispatch_of_changelist {s : EventKqueue} {fd : Fd} {d : Dispatch}
    {changes : List (Filter × KFlags)} (hchanges : changelist d.modify = some changes)
    (hslot : (s.index fd = -1 ∧ s.dispatchMap fd = false) ∨
      (s.index fd = 0 ∧ s.dispatchMap fd = true)) :
    s.updateDispatch fd d = some ⟨Function.update s.dispatchMap fd true,
      Function.update s.index fd 0,
      Function.update s.knotes fd (changed (s.knotes fd) changes)⟩ := by
  rw [updateDispatch, hchanges, Option.bind_some, kevent_eq]
  obtain ⟨hindex, hmap⟩ | ⟨hindex, hmap⟩ := hslot
  · simp [hindex, hmap]
  · have hknown : Function.update s.dispatchMap fd true = s.dispatchMap := by
      rw [← hmap, Function.update_eq_self]
    have hsame : Function.update s.index fd 0 = s.index := by
      rw [← hindex, Function.update_eq_self]
    simp [hindex, hmap, hknown, hsame]

theorem tracks : Tracks poller (fun _ => True) Inv where
  init := fun _ => ⟨rfl, rfl, rfl, rfl⟩
  add := by
    intro reg s fd d h _ hreg hplain hchange _
    have hslot := h fd
    rw [hreg] at hslot
    obtain ⟨hmap, hindex, hnotes⟩ := hslot
    obtain ⟨changes, hchanges, hnotes'⟩ := hnotes.changed hchange
    refine ⟨_, updateDispatch_of_changelist hchanges (.inl ⟨hindex, hmap⟩), ?_⟩
    exact h.update ⟨rfl, rfl, hnotes', hplain.wf⟩
  change := by
    intro reg s fd d i h _ hreg hplain hchange
    have hslot := h fd
    rw [hreg] at hslot
    obtain ⟨hmap, hindex, hnotes, -⟩ := hslot
    obtain ⟨changes, hchanges, hnotes'⟩ := hnotes.changed hchange
    refine ⟨_, updateDispatch_of_changelist hchanges (.inr ⟨hindex, hmap⟩), ?_⟩
    exact h.update ⟨rfl, rfl, hnotes', hplain.wf⟩
  remove := by
    intro reg s fd d h _ hreg hplain hidle
    have hslot := h fd
    rw [hreg] at hslot
    have hnone := hplain.isNoneEvent_of_idle hidle
    obtain ⟨hmap, -, hnotes, -⟩ := hslot
    refine ⟨_, if_pos ⟨hmap, hnone⟩, ?_⟩
    have hinv : Inv (Function.update reg fd .removed) ⟨Function.update s.dispatchMap fd false,
        Function.update s.index fd (-1), Function.update s.knotes fd (s.knotes fd)⟩ :=
      h.update hnotes
    simpa using hinv
  readInterest := by
    intro reg s fd h
    show (s.knotes fd .evfiltRead == some true) = _
    rw [(h fd).notes.read]
    cases (reg fd).interest.reading <;> rfl
  writeInterest := by
    intro reg s fd h
    have hadd := (h fd).addWrite
    show (s.knotes fd .evfiltWrite == some true) = _
    rw [(h fd).notes.write]
    cases hw : (reg fd).interest.writing with
    | true => rw [hadd hw]; rfl
    | false => cases (reg fd).interest.addWrite <;> rfl

end EventKqueue

end Voyager
