import Mathlib.Data.Nat.Notation

/-!
`Dispatch` of core/dispatch.h and core/dispatch.cc: the events one descriptor
is interested in and those the last `Poll` reported for it. Each change of the
former that reaches the poller is paired with whether `UpdateEvents` is called.
-/
namespace Voyager

/-- The `int` masks of poll(2). -/
abbrev Mask := BitVec 32

def pollIn : Mask := 0x0001#32
def pollPri : Mask := 0x0002#32
def pollOut : Mask := 0x0004#32
def pollErr : Mask := 0x0008#32
def pollHup : Mask := 0x0010#32
def pollNval : Mask := 0x0020#32
def pollRdHup : Mask := 0x2000#32

/-- `mask & bits` as a condition. -/
def Mask.has (mask bits : Mask) : Bool := mask &&& bits != 0#32

theorem Mask.has_or {bits : Mask} (mask added : Mask) (h : added &&& bits = 0#32) :
    Mask.has (mask ||| added) bits = Mask.has mask bits := by
  have hand : (mask ||| added) &&& bits = mask &&& bits := by
    rw [BitVec.and_comm, BitVec.and_or_distrib_left, BitVec.and_comm bits added, h,
      BitVec.or_zero, BitVec.and_comm]
  rw [Mask.has, Mask.has, hand]

theorem Mask.has_and_not {bits : Mask} (mask removed : Mask) (h : ~~~removed &&& bits = bits) :
    Mask.has (mask &&& ~~~removed) bits = Mask.has mask bits := by
  rw [Mask.has, Mask.has, BitVec.and_assoc, h]

theorem Mask.has_or_self {bits : Mask} (mask : Mask) (h : bits ≠ 0#32) :
    Mask.has (mask ||| bits) bits = true := by
  have hand : (mask ||| bits) &&& bits = bits := by
    ext i hi
    simp only [BitVec.getElem_and, BitVec.getElem_or]
    cases mask[i] <;> simp
  rw [Mask.has, hand]
  simpa using h

inductive ModifyEvent
  | kNoModify
  | kAddRead
  | kAddWrite
  | kDeleteRead
  | kDeleteWrite
  | kEnableWrite
  | kDisableWrite
  | kDeleteAll
deriving DecidableEq, Repr

/-- `index_` belongs to the pollers. -/
structure Dispatch where
  events : Mask
  revents : Mask
  modify : ModifyEvent
  addWrite : Bool
  tied : Bool
deriving DecidableEq, Repr

namespace Dispatch

def kNoneEvent : Mask := 0#32
def kReadEvent : Mask := pollIn ||| pollPri
def kWriteEvent : Mask := pollOut

def create : Dispatch := ⟨0#32, 0#32, .kNoModify, false, false⟩

def isNoneEvent (d : Dispatch) : Bool := d.events == kNoneEvent
def isReading (d : Dispatch) : Bool := Mask.has d.events kReadEvent
def isWriting (d : Dispatch) : Bool := Mask.has d.events kWriteEvent

def setRevents (d : Dispatch) (rv : Mask) : Dispatch := { d with revents := rv }

def tie (d : Dispatch) : Dispatch := { d with tied := true }

/-- Ends in `UpdateEvents`, as `enableWrite` and `disableRead` do. -/
def enableRead (d : Dispatch) : Dispatch :=
  { d with events := d.events ||| kReadEvent, modify := .kAddRead }

def enableWrite (d : Dispatch) : Dispatch :=
  let d := { d with events := d.events ||| kWriteEvent }
  if d.addWrite then { d with modify := .kEnableWrite }
  else { d with modify := .kAddWrite, addWrite := true }

def disableRead (d : Dispatch) : Dispatch :=
  { d with events := d.events &&& ~~~kReadEvent, modify := .kDeleteRead }

/-- With it, whether `UpdateEvents` is called. -/
def disableWrite (d : Dispatch) : Dispatch × Bool :=
  if d.addWrite then
    ({ d with events := d.events &&& ~~~kWriteEvent, modify := .kDisableWrite }, true)
  else (d, false)

def disableAll (d : Dispatch) : Dispatch × Bool :=
  let disabled (modify : ModifyEvent) : Dispatch × Bool :=
    ({ d with modify := modify, addWrite := false, events := kNoneEvent }, true)
  if d.isReading && d.addWrite then disabled .kDeleteAll
  else if d.isReading then disabled .kDeleteRead
  else if d.addWrite then disabled .kDeleteWrite
  else ({ d with modify := .kNoModify }, false)

/-- The branches of `HandleEventWithGuard`. -/
def closes (d : Dispatch) : Bool := Mask.has d.revents pollHup && !Mask.has d.revents pollIn
def errors (d : Dispatch) : Bool := Mask.has d.revents (pollErr ||| pollNval)
def reads (d : Dispatch) : Bool := Mask.has d.revents (pollIn ||| pollPri ||| pollRdHup)
def writes (d : Dispatch) : Bool := Mask.has d.revents pollOut

variable (d : Dispatch)

@[simp] theorem isWriting_create : create.isWriting = false := by decide

@[simp] theorem isWriting_tie : d.tie.isWriting = d.isWriting := rfl

@[simp] theorem isWriting_enableRead : d.enableRead.isWriting = d.isWriting :=
  Mask.has_or _ _ (by decide)

@[simp] theorem isWriting_disableRead : d.disableRead.isWriting = d.isWriting :=
  Mask.has_and_not _ _ (by decide)

@[simp] theorem isWriting_enableWrite : d.enableWrite.isWriting = true := by
  have hhas : Mask.has (d.events ||| kWriteEvent) kWriteEvent = true :=
    Mask.has_or_self _ (by decide)
  cases hadd : d.addWrite <;> simpa [isWriting, enableWrite, hadd] using hhas

@[simp] theorem isReading_enableRead : d.enableRead.isReading = true :=
  Mask.has_or_self _ (by decide)

@[simp] theorem addWrite_tie : d.tie.addWrite = d.addWrite := rfl
@[simp] theorem addWrite_enableRead : d.enableRead.addWrite = d.addWrite := rfl

@[simp] theorem addWrite_enableWrite : d.enableWrite.addWrite = true := by
  cases hadd : d.addWrite <;> simp [enableWrite, hadd]

@[simp] theorem revents_enableWrite : d.enableWrite.revents = d.revents := by
  unfold enableWrite
  dsimp only
  split <;> rfl

@[simp] theorem revents_disableWrite : d.disableWrite.1.revents = d.revents := by
  unfold disableWrite
  split <;> rfl

@[simp] theorem revents_disableAll : d.disableAll.1.revents = d.revents := by
  unfold disableAll
  dsimp only
  split
  · rfl
  · split
    · rfl
    · split <;> rfl

/-- `add_write_` is what allows `DisableWrite` and `DisableAll` to take the
write event back. -/
def Wf : Prop := d.isWriting = true → d.addWrite = true

variable {d}

theorem wf_of_not_isWriting (h : d.isWriting = false) : d.Wf := by
  intro hw
  rw [h] at hw
  cases hw

theorem Wf.not_isWriting (h : d.Wf) (hadd : d.addWrite = false) : d.isWriting = false := by
  cases hw : d.isWriting with
  | false => rfl
  | true => rw [h hw] at hadd; cases hadd

theorem isWriting_disableWrite (h : d.Wf) : d.disableWrite.1.isWriting = false := by
  have hbits : Mask.has (d.events &&& ~~~kWriteEvent) kWriteEvent = false := by
    have hzero : ~~~kWriteEvent &&& kWriteEvent = 0#32 := by decide
    rw [Mask.has, BitVec.and_assoc, hzero, BitVec.and_zero]
    rfl
  cases hadd : d.addWrite with
  | false => simpa [disableWrite, hadd] using h.not_isWriting hadd
  | true => simpa [disableWrite, hadd, isWriting] using hbits

theorem isWriting_disableAll (h : d.Wf) : d.disableAll.1.isWriting = false := by
  have hnone : Mask.has kNoneEvent kWriteEvent = false := by decide
  cases hread : d.isReading with
  | true => cases hadd : d.addWrite <;> simpa [disableAll, hread, hadd, isWriting] using hnone
  | false =>
    cases hadd : d.addWrite with
    | true => simpa [disableAll, hread, hadd, isWriting] using hnone
    | false => simpa [disableAll, hread, hadd, isWriting] using h.not_isWriting hadd

end Dispatch

end Voyager
