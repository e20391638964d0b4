import Voyager.Buffer
import Mathlib.Logic.Function.Basic

/-!
The special member functions of `Buffer` in core/buffer.cc, and `ShrinkToFit`. A
move takes the vector away and leaves the indices of the source where they were;
`ShrinkToFit` makes every byte of the vector readable. Both are seen in runs over
any number of buffers.
-/
namespace Voyager

open Lib.Splices

namespace Buffer

def copy (other : Buffer) : Buffer := ⟨other.buf, other.readIndex, other.writeIndex⟩

/-- The new buffer, and what is left of the other one: its vector is empty. -/
def move (other : Buffer) : Buffer × Buffer :=
  (⟨other.buf, other.readIndex, other.writeIndex⟩, { other with buf := [] })

/-- `shrink_to_fit` gives memory back and changes no element. -/
def shrinkToFit (b : Buffer) : Buffer := ⟨b.buf, 0, b.buf.length⟩

theorem wf_shrinkToFit (b : Buffer) : b.shrinkToFit.Wf := ⟨Nat.zero_le _, Nat.le_refl _⟩

/-- Only a buffer that is readable from end to end keeps its contents. -/
theorem readable_shrinkToFit {b : Buffer} (h : b.Wf) :
    b.shrinkToFit.readable = b.readable ↔ b.readIndex = 0 ∧ b.writeIndex = b.buf.length := by
  have hread := h.read_le
  have hwrite := h.write_le
  constructor
  · intro heq
    have hlen := congrArg List.length heq
    rw [length_readable (wf_shrinkToFit b), length_readable h] at hlen
    simp only [readableSize, shrinkToFit] at hlen
    omega
  · rintro ⟨hzero, hend⟩
    simp only [readable, shrinkToFit, hzero, hend]

/-- What a move leaves is a buffer only if nothing was ever written behind the front. -/
theorem wf_moved {b : Buffer} (h : b.Wf) : b.move.2.Wf ↔ b.writeIndex = 0 := by
  have hread := h.read_le
  constructor
  · intro hmoved
    have hle := hmoved.write_le
    simp only [move, List.length_nil] at hle
    omega
  · intro hzero
    exact ⟨hread, Nat.le_of_eq hzero⟩

end Buffer

/-- The buffers of a program by name. -/
abbrev BufferPool := ℕ → Buffer

/-- A call of a member function; a constructor destroys what had the name before. -/
inductive PoolOp
  | call (i : ℕ) (op : BufferOp)
  | construct (i initSize : ℕ)
  | copyConstruct (i other : ℕ)
  | moveConstruct (i other : ℕ)
  | copyAssign (i other : ℕ)
  | moveAssign (i other : ℕ)
  | shrinkToFit (i : ℕ)
deriving DecidableEq, Repr

namespace BufferPool

def set (p : BufferPool) (i : ℕ) (b : Buffer) : BufferPool := Function.update p i b

@[simp] theorem set_self (p : BufferPool) (i : ℕ) (b : Buffer) : p.set i b i = b :=
  Function.update_self ..

theorem set_of_ne (p : BufferPool) {i k : ℕ} (h : k ≠ i) (b : Buffer) : p.set i b k = p k :=
  Function.update_of_ne h ..

def moveInto (p : BufferPool) (i other : ℕ) : BufferPool :=
  (p.set other (p other).move.2).set i (p other).move.1

/-- Assignment of a buffer to itself does nothing. -/
def exec (p : BufferPool) : PoolOp → BufferPool × BufferOutput
  | .call i op => (p.set i ((p i).exec op).1, ((p i).exec op).2)
  | .construct i initSize => (p.set i (Buffer.ofSize initSize), .void)
  | .copyConstruct i other => (p.set i (p other).copy, .void)
  | .moveConstruct i other => (p.moveInto i other, .void)
  | .copyAssign i other => (if i = other then p else p.set i (p other).copy, .void)
  | .moveAssign i other => (if i = other then p else p.moveInto i other, .void)
  | .shrinkToFit i => (p.set i (p i).shrinkToFit, .void)

/-- The asserted preconditions; an object is not constructed from itself. -/
def Pre (p : BufferPool) : PoolOp → Prop
  | .call i op => (p i).Pre op
  | .copyConstruct i other | .moveConstruct i other => i ≠ other
  | _ => True

def Wf (p : BufferPool) : Prop := ∀ i, (p i).Wf

/-- What the call is for: a queue operation, a queue that is copied, moved or left
as it is. -/
def KeepsContents (p p' : BufferPool) (out : BufferOutput) : PoolOp → Prop
  | .call i op =>
    (p' i).readable = (ByteQueue.exec (p i).readable op).1 ∧
      out = (ByteQueue.exec (p i).readable op).2
  | .construct i _ => (p' i).readable = []
  | .copyConstruct i other | .copyAssign i other =>
    (p' i).readable = (p other).readable ∧ (p' other).readable = (p other).readable
  | .moveConstruct i other | .moveAssign i other => (p' i).readable = (p other).readable
  | .shrinkToFit i => (p' i).readable = (p i).readable

/-- Contents are preserved, and every buffer is valid afterwards. -/
def Good (p : BufferPool) (op : PoolOp) : Prop :=
  KeepsContents p (p.exec op).1 (p.exec op).2 op ∧ (p.exec op).1.Wf

/-- Only a buffer that is readable from end to end is shrunk, and only one that is
empty with its indices at the front is moved from. -/
def Safe (p : BufferPool) : PoolOp → Prop
  | .shrinkToFit i => (p i).readIndex = 0 ∧ (p i).writeIndex = (p i).buf.length
  | .moveConstruct _ other => (p other).writeIndex = 0
  | .moveAssign i other => i = other ∨ (p other).writeIndex = 0
  | _ => True

instance (p : BufferPool) (op : PoolOp) : Decidable (p.Pre op) := by
  unfold Pre
  split <;> infer_instance

instance (p : BufferPool) (op : PoolOp) : Decidable (p.Safe op) := by
  unfold Safe
  split <;> infer_instance

variable {p : BufferPool}

theorem Wf.set (h : p.Wf) {i : ℕ} {b : Buffer} (hb : b.Wf) : (p.set i b).Wf := by
  intro k
  by_cases hk : k = i
  · rw [hk, set_self]
    exact hb
  · rw [set_of_ne p hk]
    exact h k

/-- A move between two buffers is good if the source was empty at the front. -/
theorem wf_moveInto (h : p.Wf) {i other : ℕ} (hne : i ≠ other) :
    (p.moveInto i other).Wf ↔ (p other).writeIndex = 0 := by
  rw [← Buffer.wf_moved (h other)]
  constructor
  · intro hmoved
    have hother := hmoved other
    rwa [moveInto, set_of_ne _ hne.symm, set_self] at hother
  · intro hsource
    exact (h.set hsource).set (h other)

theorem readable_moveInto (p : BufferPool) (i other : ℕ) :
    (p.moveInto i other i).readable = (p other).readable := by
  rw [moveInto, set_self]
  rfl

/-- From valid buffers a call does what it is for exactly where it is safe. -/
theorem good_iff_safe (h : p.Wf) {op : PoolOp} (hpre : p.Pre op) : p.Good op ↔ p.Safe op := by
  cases op with
  | call i op =>
    obtain ⟨hwf, hcontents, hout⟩ := Buffer.exec_refines (h i) op hpre
    refine ⟨fun _ => trivial, fun _ => ⟨⟨?_, hout⟩, h.set hwf⟩⟩
    simp only [exec, set_self]
    exact hcontents
  | construct i initSize =>
    refine ⟨fun _ => trivial, fun _ => ⟨?_, h.set (Buffer.wf_ofSize initSize)⟩⟩
    simp only [KeepsContents, exec, set_self, Buffer.readable_ofSize]
  | copyConstruct i other =>
    have hne : other ≠ i := fun heq => hpre heq.symm
    refine ⟨fun _ => trivial, fun _ => ⟨⟨?_, ?_⟩, h.set (h other)⟩⟩
    · simp only [exec, set_self]
      rfl
    · simp only [exec, set_of_ne p hne]
  | copyAssign i other =>
    refine ⟨fun _ => trivial, fun _ => ?_⟩
    by_cases hself : i = other
    · subst hself
      simp only [Good, KeepsContents, exec, if_true, and_self, true_and]
      exact h
    · simp only [Good, KeepsContents, exec, if_neg hself, set_self, set_of_ne p (Ne.symm hself)]
      exact ⟨⟨rfl, trivial⟩, h.set (h other)⟩
  | moveConstruct i other =>
    simp only [Good, KeepsContents, exec, Safe, readable_moveInto, true_and]
    exact wf_moveInto h hpre
  | moveAssign i other =>
    by_cases hself : i = other
    · subst hself
      simp only [Good, KeepsContents, exec, Safe, if_true, true_and, true_or, iff_true]
      exact h
    · simp only [Good, KeepsContents, exec, Safe, if_neg hself, readable_moveInto, true_and]
      rw [or_iff_right hself]
      exact wf_moveInto h hself
  | shrinkToFit i =>
    simp only [Good, KeepsContents, exec, Safe, set_self]
    rw [and_iff_left (h.set (Buffer.wf_shrinkToFit (p i))), Buffer.readable_shrinkToFit (h i)]

/-- Every call of a run has the property in the state it is made in. -/
def AllSteps (P : BufferPool → PoolOp → Prop) : BufferPool → List PoolOp → Prop
  | _, [] => True
  | p, op :: ops => P p op ∧ AllSteps P (p.exec op).1 ops

def decideAllSteps {P : BufferPool → PoolOp → Prop} (dec : ∀ p op, Decidable (P p op)) :
    ∀ (p : BufferPool) (ops : List PoolOp), Decidable (AllSteps P p ops)
  | _, [] => .isTrue trivial
  | p, op :: ops =>
    @instDecidableAnd _ _ (dec p op) (decideAllSteps dec (p.exec op).1 ops)

instance (p : BufferPool) (ops : List PoolOp) : Decidable (AllSteps Pre p ops) :=
  decideAllSteps (fun _ _ => inferInstance) p ops

instance (p : BufferPool) (ops : List PoolOp) : Decidable (AllSteps Safe p ops) :=
  decideAllSteps (fun _ _ => inferInstance) p ops

/-- A run is good in all its calls exactly when they are all safe. -/
theorem allSteps_good_iff_safe {ops : List PoolOp} (h : p.Wf) (hpre : AllSteps Pre p ops) :
    AllSteps Good p ops ↔ AllSteps Safe p ops := by
  induction ops generalizing p with
  | nil => exact Iff.rfl
  | cons op ops ih =>
    obtain ⟨hop, hrest⟩ := hpre
    have hstep := good_iff_safe h hop
    constructor
    · rintro ⟨hgood, hall⟩
      exact ⟨hstep.mp hgood, (ih hgood.2 hrest).mp hall⟩
    · rintro ⟨hsafe, hall⟩
      have hgood := hstep.mpr hsafe
      exact ⟨hgood, (ih hgood.2 hrest).mpr hall⟩

/-- Newly constructed buffers. -/
def start (sizes : ℕ → ℕ) : BufferPool := fun i => Buffer.ofSize (sizes i)

/-- In a run from new buffers every copy, move and shrinking keeps the contents and
leaves valid buffers exactly when each of them is safe. -/
theorem start_good_iff_safe (sizes : ℕ → ℕ) {ops : List PoolOp}
    (hpre : AllSteps Pre (start sizes) ops) :
    AllSteps Good (start sizes) ops ↔ AllSteps Safe (start sizes) ops :=
  allSteps_good_iff_safe (fun i => Buffer.wf_ofSize (sizes i)) hpre

/-- A buffer is filled, copied, and emptied before it is moved. -/
def copyThenMove : List PoolOp :=
  [.call 0 (.append [1, 2]), .copyConstruct 1 0, .call 0 .retrieveAll, .moveAssign 2 0,
    .call 0 (.append [3])]

theorem start_good_iff_safe_copyThenMove :
    AllSteps Good (start fun _ => 4) copyThenMove ↔ AllSteps Safe (start fun _ => 4) copyThenMove :=
  start_good_iff_safe (fun _ => 4) (by decide)

/-- Two bytes are moved away from their buffer. -/
def moveFilled : List PoolOp := [.call 0 (.append [1, 2]), .moveConstruct 1 0]

/-- One of two bytes has been taken when the buffer is shrunk. -/
def shrinkPartly : List PoolOp :=
  [.call 0 (.append [1, 2]), .call 0 (.retrieve 1), .shrinkToFit 0]

/-- The first run leaves indices behind an empty vector, the second makes a byte
readable that was taken and two that were never written. -/
theorem moved_and_shrunk :
    (AllSteps Pre (start fun _ => 4) moveFilled ∧
        ¬ AllSteps Good (start fun _ => 4) moveFilled) ∧
      AllSteps Pre (start fun _ => 4) shrinkPartly ∧
        ¬ AllSteps Good (start fun _ => 4) shrinkPartly := by
  have hwf : (start fun _ => 4).Wf := fun _ => Buffer.wf_ofSize 4
  have hmove : AllSteps Pre (start fun _ => 4) moveFilled := by decide
  have hshrink : AllSteps Pre (start fun _ => 4) shrinkPartly := by decide
  refine ⟨⟨hmove, ?_⟩, hshrink, ?_⟩
  · rw [allSteps_good_iff_safe hwf hmove]
    decide
  · rw [allSteps_good_iff_safe hwf hshrink]
    decide

end BufferPool

end Voyager
