import Voyager.Lib.OrderedSet
import Mathlib.Data.Finset.Basic
import Mathlib.Data.Prod.Lex
import Mathlib.Algebra.Group.Nat.Defs

/-!
`TimerList` of core/timerlist.cc. A Timer is named by its address; the memory
keeps what was last written there, and `live` are the addresses of the Timers that
have been allocated and not deleted. `RunTimerProcs` is cut where it calls back:
`beginRun` is what comes before its loop and `fireFirst` one iteration of it up to
the callback.
-/
namespace Voyager

open Lib

abbrev Addr := ℕ

/-- `serial` numbers the Timers in the order of their allocation. -/
structure Timer where
  msValue : ℕ
  msInterval : ℕ
  serial : ℕ
deriving DecidableEq, Repr

/-- `std::pair<uint64_t, Timer*>` -/
@[ext]
structure TimerId where
  value : ℕ
  timer : Addr
deriving DecidableEq, Repr

namespace TimerId

def toPair (id : TimerId) : ℕ ×ₗ Addr := toLex (id.value, id.timer)

theorem toPair_injective : Function.Injective toPair := by
  rintro ⟨v, a⟩ ⟨w, b⟩ h
  cases h
  rfl

instance : LinearOrder TimerId := LinearOrder.lift' toPair toPair_injective

theorem value_le {id id' : TimerId} (h : id ≤ id') : id.value ≤ id'.value := by
  have hle : toPair id ≤ toPair id' := h
  rcases Prod.Lex.le_iff.mp hle with hlt | ⟨heq, -⟩
  · exact le_of_lt hlt
  · exact le_of_eq heq

end TimerId

@[ext]
structure TimerList where
  memory : Addr → Timer
  live : Finset Addr
  timers : OrderedSet TimerId
  timerPtrs : Finset Addr
  lastTimeOut : ℕ

namespace TimerList

/-- Arithmetic of `uint64_t`. -/
def uint64 (n : ℕ) : ℕ := n % 2 ^ 64

def newTimer (s : TimerList) (a : Addr) (t : Timer) : TimerList :=
  { s with memory := Function.update s.memory a t, live := insert a s.live }

def setValue (s : TimerList) (a : Addr) (value : ℕ) : TimerList :=
  { s with memory := Function.update s.memory a { s.memory a with msValue := value } }

def insertInLoop (s : TimerList) (id : TimerId) : TimerList :=
  { s with timers := s.timers.insert id, timerPtrs := insert id.timer s.timerPtrs }

def eraseInLoop (s : TimerList) (id : TimerId) : TimerList :=
  if id.timer ∈ s.timerPtrs then
    { s with
      timers := s.timers.erase ⟨(s.memory id.timer).msValue, id.timer⟩,
      live := s.live.erase id.timer,
      timerPtrs := s.timerPtrs.erase id.timer }
  else s

/-- A key after the clock went back by `diff`. -/
def rebased (diff value : ℕ) : ℕ := if diff < value then value - diff else 0

/-- The loop over `timers_`, which fills a new set. -/
def rebaseLoop (diff : ℕ) : List TimerId → TimerList → OrderedSet TimerId →
    TimerList × OrderedSet TimerId
  | [], s, timers => (s, timers)
  | id :: rest, s, timers =>
    let value := rebased diff id.value
    rebaseLoop diff rest (s.setValue id.timer value) (timers.insert ⟨value, id.timer⟩)

def rebase (s : TimerList) (diff : ℕ) : TimerList :=
  let (s', timers) := rebaseLoop diff s.timers.elems s OrderedSet.empty
  { s' with timers := timers }

/-- Up to the loop, when `timers_` is not empty. -/
def beginRun (s : TimerList) (msNow : ℕ) : TimerList :=
  let s := if msNow < s.lastTimeOut then s.rebase (s.lastTimeOut - msNow) else s
  { s with lastTimeOut := msNow }

/-- The first timer, if it is due. -/
def due? (s : TimerList) (msNow : ℕ) : Option TimerId :=
  s.timers.first?.filter fun id => id.value ≤ msNow

/-- One iteration for the timer at the head, up to `cb()`. -/
def fireFirst (s : TimerList) (msNow : ℕ) (id : TimerId) : TimerList :=
  let a := id.timer
  let s := { s with timers := s.timers.erase id }
  if 0 < (s.memory a).msInterval then
    let value := uint64 (msNow + (s.memory a).msInterval)
    let s := s.setValue a value
    { s with timers := s.timers.insert ⟨value, a⟩ }
  else { s with live := s.live.erase a, timerPtrs := s.timerPtrs.erase a }

/-! The invariant. -/

/-- The two sets and the Timers say the same: an entry of `timers_` is a pointer of
`timer_ptrs_` with the key that its Timer has. -/
structure Rep (s : TimerList) : Prop where
  mem_timers : ∀ id, id ∈ s.timers ↔
    id.timer ∈ s.timerPtrs ∧ id.value = (s.memory id.timer).msValue
  live : s.timerPtrs ⊆ s.live

section

variable {s : TimerList}

theorem Rep.mem_timerPtrs (h : Rep s) (a : Addr) :
    a ∈ s.timerPtrs ↔ ∃ id ∈ s.timers, id.timer = a := by
  constructor
  · intro ha
    exact ⟨⟨(s.memory a).msValue, a⟩, (h.mem_timers _).mpr ⟨ha, rfl⟩, rfl⟩
  · rintro ⟨id, hid, rfl⟩
    exact ((h.mem_timers id).mp hid).1

theorem Rep.value_eq (h : Rep s) {id : TimerId} (hid : id ∈ s.timers) :
    id.value = (s.memory id.timer).msValue :=
  ((h.mem_timers id).mp hid).2

theorem Rep.timer_mem (h : Rep s) {id : TimerId} (hid : id ∈ s.timers) : id.timer ∈ s.timerPtrs :=
  ((h.mem_timers id).mp hid).1

theorem Rep.timer_injOn (h : Rep s) {id id' : TimerId} (hid : id ∈ s.timers)
    (hid' : id' ∈ s.timers) (htimer : id.timer = id'.timer) : id = id' := by
  apply TimerId.ext _ htimer
  rw [h.value_eq hid, h.value_eq hid', htimer]

/-- No Timer occurs twice. -/
theorem Rep.nodup (h : Rep s) : (s.timers.elems.map TimerId.timer).Nodup := by
  apply List.Nodup.map_on _ s.timers.nodup_elems
  intro id hid id' hid' htimer
  exact h.timer_injOn hid hid' htimer

theorem rep_empty (memory : Addr → Timer) (msNow : ℕ) :
    Rep ⟨memory, ∅, OrderedSet.empty, ∅, msNow⟩ :=
  ⟨fun id => by simp, by simp⟩

theorem Rep.newTimer (h : Rep s) {a : Addr} (ha : a ∉ s.live) (t : Timer) :
    Rep (s.newTimer a t) := by
  refine ⟨fun id => ?_, h.live.trans (Finset.subset_insert _ _)⟩
  show id ∈ s.timers ↔ id.timer ∈ s.timerPtrs ∧ id.value = (Function.update s.memory a t _).msValue
  rw [h.mem_timers]
  by_cases hid : id.timer = a
  · have hnot : id.timer ∉ s.timerPtrs := by
      rw [hid]
      exact fun hmem => ha (h.live hmem)
    simp [hnot]
  · rw [Function.update_of_ne hid]

theorem Rep.insertInLoop (h : Rep s) {id : TimerId} (hlive : id.timer ∈ s.live)
    (hvalue : id.value = (s.memory id.timer).msValue) : Rep (s.insertInLoop id) := by
  refine ⟨fun id' => ?_, Finset.insert_subset hlive h.live⟩
  simp only [TimerList.insertInLoop, OrderedSet.mem_insert, Finset.mem_insert, h.mem_timers]
  constructor
  · rintro (rfl | ⟨hmem, hkey⟩)
    · exact ⟨.inl rfl, hvalue⟩
    · exact ⟨.inr hmem, hkey⟩
  · rintro ⟨htimer | hmem, hkey⟩
    · rw [htimer] at hkey
      exact .inl (TimerId.ext (hkey.trans hvalue.symm) htimer)
    · exact .inr ⟨hmem, hkey⟩

theorem Rep.eraseInLoop (h : Rep s) (id : TimerId) : Rep (s.eraseInLoop id) := by
  unfold TimerList.eraseInLoop
  split
  · refine ⟨fun id' => ?_, ?_⟩
    · simp only [OrderedSet.mem_erase, Finset.mem_erase, h.mem_timers]
      constructor
      · rintro ⟨hne, hmem, hkey⟩
        refine ⟨⟨fun htimer => hne ?_, hmem⟩, hkey⟩
        rw [← htimer, ← hkey]
      · rintro ⟨⟨hne, hmem⟩, hkey⟩
        exact ⟨fun heq => hne (by rw [heq]), hmem, hkey⟩
    · intro a ha
      rw [Finset.mem_erase] at ha ⊢
      exact ⟨ha.1, h.live ha.2⟩
  · exact h

end

/-! The rebase. -/

theorem mem_rebaseLoop (diff : ℕ) (l : List TimerId) (s : TimerList) (timers : OrderedSet TimerId)
    (id : TimerId) :
    id ∈ (rebaseLoop diff l s timers).2 ↔
      id ∈ timers ∨ ∃ e ∈ l, id = ⟨rebased diff e.value, e.timer⟩ := by
  induction l generalizing s timers with
  | nil => simp [rebaseLoop]
  | cons e rest ih =>
    simp only [rebaseLoop, ih, OrderedSet.mem_insert, List.exists_mem_cons_iff]
    tauto

/-- Only keys in the memory change. -/
theorem rebaseLoop_frame (diff : ℕ) (l : List TimerId) (s : TimerList)
    (timers : OrderedSet TimerId) :
    let s' := (rebaseLoop diff l s timers).1
    s'.live = s.live ∧ s'.timerPtrs = s.timerPtrs ∧ s'.lastTimeOut = s.lastTimeOut ∧
      ∀ a, (s'.memory a).msInterval = (s.memory a).msInterval ∧
        (s'.memory a).serial = (s.memory a).serial := by
  induction l generalizing s timers with
  | nil => simp [rebaseLoop]
  | cons e rest ih =>
    obtain ⟨hlive, hptrs, hlast, hmemory⟩ :=
      ih (s.setValue e.timer (rebased diff e.value)) (timers.insert ⟨_, e.timer⟩)
    refine ⟨hlive, hptrs, hlast, fun a => ?_⟩
    obtain ⟨hinterval, hserial⟩ := hmemory a
    simp only [rebaseLoop]
    rw [hinterval, hserial]
    by_cases ha : a = e.timer
    · subst ha
      simp [setValue]
    · simp [setValue, ha]

theorem rebaseLoop_value_of_ne {a : Addr} (diff : ℕ) (l : List TimerId) (s : TimerList)
    (timers : OrderedSet TimerId) (ha : ∀ e ∈ l, e.timer ≠ a) :
    ((rebaseLoop diff l s timers).1.memory a).msValue = (s.memory a).msValue := by
  induction l generalizing s timers with
  | nil => rfl
  | cons e rest ih =>
    rw [List.forall_mem_cons] at ha
    simp only [rebaseLoop]
    rw [ih _ _ ha.2]
    simp [setValue, ha.1.symm]

theorem rebaseLoop_value {e : TimerId} (diff : ℕ) (l : List TimerId) (s : TimerList)
    (timers : OrderedSet TimerId) (hnodup : (l.map TimerId.timer).Nodup) (he : e ∈ l) :
    ((rebaseLoop diff l s timers).1.memory e.timer).msValue = rebased diff e.value := by
  induction l generalizing s timers with
  | nil => cases he
  | cons e' rest ih =>
    rw [List.map_cons, List.nodup_cons] at hnodup
    simp only [rebaseLoop]
    rcases List.mem_cons.mp he with rfl | he
    · rw [rebaseLoop_value_of_ne]
      · simp [setValue]
      · intro e' he' heq
        exact hnodup.1 (heq ▸ List.mem_map_of_mem he')
    · exact ih _ _ hnodup.2 he

section

variable {s : TimerList}

theorem rebase_frame (s : TimerList) (diff : ℕ) :
    (s.rebase diff).live = s.live ∧ (s.rebase diff).timerPtrs = s.timerPtrs ∧
      (s.rebase diff).lastTimeOut = s.lastTimeOut ∧
      ∀ a, ((s.rebase diff).memory a).msInterval = (s.memory a).msInterval ∧
        ((s.rebase diff).memory a).serial = (s.memory a).serial :=
  rebaseLoop_frame diff s.timers.elems s OrderedSet.empty

theorem mem_rebase (diff : ℕ) (id : TimerId) :
    id ∈ (s.rebase diff).timers ↔ ∃ e ∈ s.timers, id = ⟨rebased diff e.value, e.timer⟩ := by
  have h := mem_rebaseLoop diff s.timers.elems s OrderedSet.empty id
  rw [or_iff_right (OrderedSet.not_mem_empty id)] at h
  exact h

theorem Rep.rebase_value (h : Rep s) (diff : ℕ) (a : Addr) :
    ((s.rebase diff).memory a).msValue =
      if a ∈ s.timerPtrs then rebased diff (s.memory a).msValue else (s.memory a).msValue := by
  split
  · rename_i ha
    exact rebaseLoop_value diff s.timers.elems s OrderedSet.empty h.nodup
      ((h.mem_timers ⟨(s.memory a).msValue, a⟩).mpr ⟨ha, rfl⟩)
  · rename_i ha
    apply rebaseLoop_value_of_ne
    intro e he htimer
    exact ha (htimer ▸ h.timer_mem he)

theorem Rep.rebase (h : Rep s) (diff : ℕ) : Rep (s.rebase diff) := by
  obtain ⟨hlive, hptrs, -, -⟩ := rebase_frame s diff
  refine ⟨fun id => ?_, by rw [hlive, hptrs]; exact h.live⟩
  rw [mem_rebase, hptrs, h.rebase_value]
  constructor
  · rintro ⟨e, he, rfl⟩
    have hmem := h.timer_mem he
    exact ⟨hmem, by rw [if_pos hmem, ← h.value_eq he]⟩
  · rintro ⟨hmem, hvalue⟩
    rw [if_pos hmem] at hvalue
    refine ⟨⟨(s.memory id.timer).msValue, id.timer⟩, (h.mem_timers _).mpr ⟨hmem, rfl⟩, ?_⟩
    rw [← hvalue]

/-- No entry is lost, and none is merged with another. -/
theorem Rep.rebase_perm (h : Rep s) (diff : ℕ) :
    ((s.rebase diff).timers.elems.map TimerId.timer).Perm (s.timers.elems.map TimerId.timer) := by
  apply (List.perm_ext_iff_of_nodup (h.rebase diff).nodup h.nodup).mpr
  intro a
  have hnew := (h.rebase diff).mem_timerPtrs a
  rw [(rebase_frame s diff).2.1] at hnew
  rw [List.mem_map, List.mem_map]
  exact hnew.symm.trans (h.mem_timerPtrs a)

theorem beginRun_lastTimeOut (s : TimerList) (msNow : ℕ) :
    (s.beginRun msNow).lastTimeOut = msNow := rfl

theorem beginRun_frame (s : TimerList) (msNow : ℕ) :
    (s.beginRun msNow).live = s.live ∧ (s.beginRun msNow).timerPtrs = s.timerPtrs ∧
      ∀ a, ((s.beginRun msNow).memory a).msInterval = (s.memory a).msInterval ∧
        ((s.beginRun msNow).memory a).serial = (s.memory a).serial := by
  unfold beginRun
  split
  · obtain ⟨hlive, hptrs, -, hmemory⟩ := rebase_frame s (s.lastTimeOut - msNow)
    exact ⟨hlive, hptrs, hmemory⟩
  · exact ⟨rfl, rfl, fun _ => ⟨rfl, rfl⟩⟩

theorem Rep.beginRun (h : Rep s) (msNow : ℕ) : Rep (s.beginRun msNow) := by
  have hlast (u : TimerList) (hu : Rep u) : Rep { u with lastTimeOut := msNow } :=
    ⟨hu.mem_timers, hu.live⟩
  unfold TimerList.beginRun
  split
  · exact hlast _ (h.rebase _)
  · exact hlast _ h

/-! One iteration. -/

theorem mem_of_due? {msNow : ℕ} {id : TimerId} (h : s.due? msNow = some id) :
    id ∈ s.timers ∧ id.value ≤ msNow := by
  obtain ⟨hfirst, hle⟩ := Option.filter_eq_some_iff.mp h
  exact ⟨OrderedSet.mem_of_first? hfirst, of_decide_eq_true hle⟩

/-- The first timer is the earliest one: if it is not due, none is. -/
theorem later_of_due?_eq_none {msNow : ℕ} {id : TimerId} (h : s.due? msNow = none)
    (hid : id ∈ s.timers) : msNow < id.value := by
  cases hfirst : s.timers.first? with
  | none =>
    rw [OrderedSet.first?_eq_none.mp hfirst] at hid
    exact absurd hid (OrderedSet.not_mem_empty id)
  | some first =>
    have hlate : msNow < first.value := by simpa [due?, hfirst] using h
    have hle : first.value ≤ id.value := TimerId.value_le (OrderedSet.first?_le hfirst hid)
    omega

theorem Rep.fireFirst (h : Rep s) {msNow : ℕ} {id : TimerId} (hid : id ∈ s.timers) :
    Rep (s.fireFirst msNow id) := by
  have hkey := h.value_eq hid
  have hmem := h.timer_mem hid
  unfold TimerList.fireFirst
  dsimp only
  split
  · refine ⟨fun id' => ?_, h.live⟩
    simp only [setValue, OrderedSet.mem_insert, OrderedSet.mem_erase, h.mem_timers]
    by_cases htimer : id'.timer = id.timer
    · rw [htimer, Function.update_self]
      constructor
      · rintro (rfl | ⟨hne, -, hkey'⟩)
        · exact ⟨hmem, rfl⟩
        · exact absurd (h.timer_injOn ((h.mem_timers id').mpr ⟨htimer ▸ hmem, htimer ▸ hkey'⟩) hid
            htimer) hne
      · rintro ⟨-, hvalue⟩
        exact .inl (TimerId.ext hvalue htimer)
    · rw [Function.update_of_ne htimer]
      constructor
      · rintro (rfl | ⟨-, hrest⟩)
        · exact absurd rfl htimer
        · exact hrest
      · intro hrest
        exact .inr ⟨fun heq => htimer (by rw [heq]), hrest⟩
  · refine ⟨fun id' => ?_, ?_⟩
    · simp only [OrderedSet.mem_erase, Finset.mem_erase, h.mem_timers]
      constructor
      · rintro ⟨hne, hmem', hkey'⟩
        have hid' := (h.mem_timers id').mpr ⟨hmem', hkey'⟩
        exact ⟨⟨fun htimer => hne (h.timer_injOn hid' hid htimer), hmem'⟩, hkey'⟩
      · rintro ⟨⟨hne, hmem'⟩, hkey'⟩
        exact ⟨fun heq => hne (by rw [heq]), hmem', hkey'⟩
    · intro a ha
      rw [Finset.mem_erase] at ha ⊢
      exact ⟨ha.1, h.live ha.2⟩

end

/-! What the operations other than an insertion do to the Timers. -/

/-- The Timers in `gone` are deleted, and only Timers of the list get a new key. -/
structure Shrinks (s s' : TimerList) (gone : Finset Addr) : Prop where
  gone_subset : gone ⊆ s.timerPtrs
  live : s'.live = s.live \ gone
  timerPtrs : s'.timerPtrs = s.timerPtrs \ gone
  serial : ∀ a, (s'.memory a).serial = (s.memory a).serial
  interval : ∀ a, (s'.memory a).msInterval = (s.memory a).msInterval
  value : ∀ a, a ∉ s.timerPtrs → (s'.memory a).msValue = (s.memory a).msValue

theorem shrinks_eraseInLoop (s : TimerList) (id : TimerId) :
    Shrinks s (s.eraseInLoop id) (if id.timer ∈ s.timerPtrs then {id.timer} else ∅) := by
  unfold eraseInLoop
  split
  · rename_i hmem
    refine ⟨Finset.singleton_subset_iff.mpr hmem, ?_, ?_, fun _ => rfl, fun _ => rfl,
      fun _ _ => rfl⟩
    · exact Finset.erase_eq _ _
    · exact Finset.erase_eq _ _
  · exact ⟨Finset.empty_subset _, by simp, by simp, fun _ => rfl, fun _ => rfl, fun _ _ => rfl⟩

theorem Rep.shrinks_beginRun {s : TimerList} (h : Rep s) (msNow : ℕ) :
    Shrinks s (s.beginRun msNow) ∅ := by
  obtain ⟨hlive, hptrs, hmemory⟩ := beginRun_frame s msNow
  refine ⟨Finset.empty_subset _, by simp [hlive], by simp [hptrs], fun a => (hmemory a).2,
    fun a => (hmemory a).1, fun a ha => ?_⟩
  unfold TimerList.beginRun
  split
  · exact (h.rebase_value _ a).trans (if_neg ha)
  · rfl

theorem Rep.shrinks_fireFirst {s : TimerList} (h : Rep s) (msNow : ℕ) {id : TimerId}
    (hid : id ∈ s.timers) :
    Shrinks s (s.fireFirst msNow id)
      (if 0 < (s.memory id.timer).msInterval then ∅ else {id.timer}) := by
  have hmem := h.timer_mem hid
  unfold TimerList.fireFirst
  dsimp only
  split
  · refine ⟨Finset.empty_subset _, by simp [setValue], by simp [setValue], fun a => ?_, fun a => ?_,
      fun a ha => ?_⟩
    · by_cases hne : a = id.timer
      · simp [setValue, hne]
      · simp [setValue, hne]
    · by_cases hne : a = id.timer
      · simp [setValue, hne]
      · simp [setValue, hne]
    · have hne : a ≠ id.timer := fun heq => ha (heq ▸ hmem)
      simp [setValue, hne]
  · refine ⟨Finset.singleton_subset_iff.mpr hmem, ?_, ?_, fun _ => rfl, fun _ => rfl,
      fun _ _ => rfl⟩
    · exact Finset.erase_eq _ _
    · exact Finset.erase_eq _ _

theorem memory_eraseInLoop (s : TimerList) (id : TimerId) :
    (s.eraseInLoop id).memory = s.memory := by
  unfold eraseInLoop
  split <;> rfl

theorem lastTimeOut_eraseInLoop (s : TimerList) (id : TimerId) :
    (s.eraseInLoop id).lastTimeOut = s.lastTimeOut := by
  unfold eraseInLoop
  split <;> rfl

theorem lastTimeOut_fireFirst (s : TimerList) (msNow : ℕ) (id : TimerId) :
    (s.fireFirst msNow id).lastTimeOut = s.lastTimeOut := by
  unfold fireFirst
  dsimp only
  split <;> rfl

theorem fireFirst_value_of_ne (s : TimerList) (msNow : ℕ) {id : TimerId} {a : Addr}
    (ha : a ≠ id.timer) :
    ((s.fireFirst msNow id).memory a).msValue = (s.memory a).msValue := by
  unfold fireFirst
  dsimp only
  split
  · simp [setValue, ha]
  · rfl

theorem Rep.beginRun_value {s : TimerList} (h : Rep s) (msNow : ℕ) (a : Addr) :
    ((s.beginRun msNow).memory a).msValue =
      if msNow < s.lastTimeOut ∧ a ∈ s.timerPtrs then
        rebased (s.lastTimeOut - msNow) (s.memory a).msValue
      else (s.memory a).msValue := by
  unfold TimerList.beginRun
  by_cases hback : msNow < s.lastTimeOut
  · simp [hback, h.rebase_value]
  · simp [hback]

theorem le_rebased_add (diff value : ℕ) : value ≤ rebased diff value + diff := by
  unfold rebased
  split <;> omega

end TimerList

end Voyager
