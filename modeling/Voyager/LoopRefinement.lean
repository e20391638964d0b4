import Voyager.LoopQueue
import Voyager.TaskQueue

/-!
The loop inside the world is an event loop. Methods call it directly, but always
from code that the loop thread may execute in its phase, and with no `WakeUp`
left to execute. So a run of the world is a run of its loop, and what holds of
the task queue there holds of the closures of the connections.
-/
namespace Voyager

namespace TcpConnection

/-- `QueueInLoop` is called at most once, and after it only writing is enabled. -/
def QueuesOnce (effects : List Effect) : Prop :=
  (∀ size, .queueHighWaterMark size ∉ effects) ∨
    ∃ size, effects = [.queueHighWaterMark size] ∨
      effects = [.queueHighWaterMark size, .updateEvents]

theorem QueuesOnce.nil : QueuesOnce [] := .inl fun _ he => by cases he

theorem not_queue_invoke (k : TcpConnection) (cb : Callback) (size : ℕ) :
    .queueHighWaterMark size ∉ k.invoke cb := by
  intro he
  unfold invoke at he
  cases cb <;> dsimp only at he <;> split at he <;> simp at he

theorem queuesOnce_handleClose (k : TcpConnection) (excused : Bool) :
    QueuesOnce (k.handleClose excused).2 := by
  left
  intro size he
  cases hopen : k.isOpen <;> cases hcalled : k.dispatch.disableAll.2 <;>
    cases hcb : k.callbacks.close <;>
    simp [handleClose, assert, updateEvents, invoke, hopen, hcalled, hcb] at he

theorem queuesOnce_sendRemaining (k : TcpConnection) (remaining : List Byte) :
    QueuesOnce (k.sendRemaining remaining).2 := by
  unfold sendRemaining
  split
  · dsimp only
    split
    · split
      · exact .inr ⟨_, .inl rfl⟩
      · exact .nil
    · split
      · exact .inr ⟨_, .inr rfl⟩
      · left
        simp
  · exact .nil

theorem queuesOnce_sendInLoop (k : TcpConnection) (m : Message) (r : WriteResult) :
    QueuesOnce (k.sendInLoop m r).2 := by
  unfold sendInLoop
  split
  · exact .nil
  dsimp only
  split
  · cases r with
    | wrote n =>
      dsimp only
      split
      · exact .inl fun _ => not_queue_invoke _ .writecomplete _
      · exact queuesOnce_sendRemaining _ _
    | failed errno =>
      dsimp only
      split
      · exact queuesOnce_handleClose _ _
      · exact queuesOnce_sendRemaining _ _
  · exact queuesOnce_sendRemaining _ _

theorem queuesOnce_handleRead (k : TcpConnection) (r : ReadResult) :
    QueuesOnce (k.handleRead r).2 := by
  cases r with
  | bytes data =>
    simp only [handleRead]
    split
    · exact .inl fun _ => not_queue_invoke _ .message _
    · exact queuesOnce_handleClose _ _
  | failed errno =>
    simp only [handleRead]
    split
    · exact queuesOnce_handleClose _ _
    · exact .nil

theorem queuesOnce_handleWrite (k : TcpConnection) (r : WriteResult) :
    QueuesOnce (k.handleWrite r).2 := by
  unfold handleWrite
  split
  · cases r with
    | wrote n =>
      dsimp only
      split
      · left
        intro size he
        rcases List.mem_append.mp he with he | he
        · cases hcalled : k.dispatch.disableWrite.2 <;> simp [updateEvents, hcalled] at he
        · exact not_queue_invoke _ _ _ he
      · exact .nil
    | failed errno =>
      dsimp only
      split
      · exact queuesOnce_handleClose _ _
      · exact .nil
  · exact .nil

theorem queuesOnce_exec (k : TcpConnection) (op : Op) : QueuesOnce (k.exec op).2 := by
  cases op with
  | handleEventClose =>
    simp only [exec, handleEventClose]
    split
    · exact queuesOnce_handleClose _ _
    · exact .nil
  | handleEventRead r =>
    simp only [exec, handleEventRead]
    split
    · exact queuesOnce_handleRead k r
    · exact .nil
  | handleEventWrite r =>
    simp only [exec, handleEventWrite]
    split
    · exact queuesOnce_handleWrite k r
    · exact .nil
  | handleEventDone => exact .nil
  | resumeHandleWrite =>
    simp only [exec, resumeHandleWrite]
    split
    · exact queuesOnce_handleClose _ _
    · exact .nil
  | sendInLoop m r => exact queuesOnce_sendInLoop k m r
  | shutDownInLoop =>
    simp only [exec, shutDownInLoop]
    split
    · left
      simp
    · exact .nil
  | forceCloseInLoop =>
    simp only [exec, forceCloseInLoop]
    split
    · exact queuesOnce_handleClose _ _
    · exact .nil
  | startReadInLoop =>
    simp only [exec, startReadInLoop]
    split
    · left
      simp
    · exact .nil
  | stopReadInLoop =>
    simp only [exec, stopReadInLoop]
    split
    · left
      simp
    · exact .nil
  | setCallbacks callbacks => exact .nil
  | setHighWaterMark size => exact .nil
  | retrieve size => exact .nil

end TcpConnection

namespace ConnectionLoop

open Lib.Runs EventLoop

/-- What a call of a method does to the loop. -/
def callLoop (c : ConnId) (l : State Func Owner) : Effect → State Func Owner
  | .updateEvents => l.updateDispatch (.owned (.conn c))
  | .removeEvents => l.removeDispatch (.owned (.conn c))
  | .queueHighWaterMark size => l.queueInLoop (.highWaterMark c size)
  | _ => l

theorem foldl_perform_loop (c : ConnId) (effects : List Effect) (w : World) :
    (effects.foldl (World.perform c) w).loop = effects.foldl (callLoop c) w.loop := by
  induction effects generalizing w with
  | nil => rfl
  | cons e rest ih =>
    rw [List.foldl_cons, List.foldl_cons, ih]
    congr 1
    cases e <;> rfl

theorem foldl_callLoop_frame (c : ConnId) (effects : List Effect) (l : State Func Owner) :
    (effects.foldl (callLoop c) l).phase = l.phase ∧
      (effects.foldl (callLoop c) l).waking = l.waking := by
  induction effects generalizing l with
  | nil => exact ⟨rfl, rfl⟩
  | cons e rest ih =>
    obtain ⟨hphase, hwaking⟩ := ih (callLoop c l e)
    rw [List.foldl_cons, hphase, hwaking]
    cases e <;> exact ⟨rfl, rfl⟩

theorem reachable_next {l l' : State Func Owner} {a : EventLoop.Label Func Owner}
    (hl : (EventLoop.machine Func Owner).Reachable l) (ha : EventLoop.next l a = some l') :
    (EventLoop.machine Func Owner).Reachable l' :=
  Machine.Reachable.step (a := a) hl ha

section Calls

variable {l : State Func Owner} (hl : (EventLoop.machine Func Owner).Reachable l)
  (huser : l.userCode = true) (hwaking : l.loopWaking = none)
include hl huser hwaking

theorem reachable_queueInLoop (f : Func) :
    (EventLoop.machine Func Owner).Reachable (l.queueInLoop f) := by
  refine reachable_next (a := .queueInLoop f) hl ?_
  simp [EventLoop.next, huser, hwaking]

theorem reachable_updateDispatch (d : DispatchId Owner) :
    (EventLoop.machine Func Owner).Reachable (l.updateDispatch d) := by
  refine reachable_next (a := .updateDispatch d) hl ?_
  simp [EventLoop.next, huser, hwaking]

theorem reachable_removeDispatch (d : DispatchId Owner) :
    (EventLoop.machine Func Owner).Reachable (l.removeDispatch d) := by
  refine reachable_next (a := .removeDispatch d) hl ?_
  simp [EventLoop.next, huser, hwaking]

/-- The calls of a method. Enabling writing after `QueueInLoop` comes to the same as
before it, when the loop thread has no `WakeUp` to execute yet. -/
theorem reachable_foldl_callLoop (c : ConnId) {effects : List Effect}
    (hqueues : TcpConnection.QueuesOnce effects) :
    (EventLoop.machine Func Owner).Reachable (effects.foldl (callLoop c) l) := by
  rcases hqueues with hnone | ⟨size, rfl | rfl⟩
  · induction effects generalizing l with
    | nil => exact hl
    | cons e rest ih =>
      have hrest : ∀ size, .queueHighWaterMark size ∉ rest := fun size he =>
        hnone size (List.mem_cons_of_mem _ he)
      rw [List.foldl_cons]
      cases e with
      | updateEvents => exact ih (reachable_updateDispatch hl huser hwaking _) huser hwaking hrest
      | removeEvents => exact ih (reachable_removeDispatch hl huser hwaking _) huser hwaking hrest
      | queueHighWaterMark size => exact absurd List.mem_cons_self (hnone size)
      | _ => exact ih hl huser hwaking hrest
  · exact reachable_queueInLoop hl huser hwaking _
  · exact reachable_queueInLoop (reachable_updateDispatch hl huser hwaking (.owned (.conn c))) huser
      hwaking (.highWaterMark c size)

end Calls

/-- The loop thread has calls to finish only where it executes code of its users, and
a thread that is about to push has no `WakeUp` left to execute. -/
structure Scheduled (w : World) : Prop where
  reachable : (EventLoop.machine Func Owner).Reachable w.loop
  busy : w.idle = false → w.loop.userCode = true
  calls : ∀ t, w.calls t ≠ none → w.loop.waking t = none

theorem scheduled_create : Scheduled World.create where
  reachable := .init _
  busy h := by cases h
  calls t h := absurd rfl h

theorem Scheduled.frame {w w' : World} (h : Scheduled w) (hloop : w'.loop = w.loop)
    (hcalls : w'.calls = w.calls) (huser : w.loop.userCode = true) : Scheduled w' := by
  refine ⟨?_, fun _ => ?_, ?_⟩
  · rw [hloop]
    exact h.reachable
  · rw [hloop]
    exact huser
  · rw [hloop, hcalls]
    exact h.calls

theorem World.userCode_of_phase {l l' : State Func Owner} (hphase : l'.phase = l.phase) :
    l'.userCode = l.userCode := by
  simp only [State.userCode, hphase]

theorem Scheduled.userCode_of_userTurn {w : World} (h : Scheduled w) (huser : w.userTurn = true) :
    w.loop.userCode = true ∧ w.loop.loopWaking = none := by
  simp only [World.userTurn, Bool.and_eq_true, Option.isNone_iff_eq_none] at huser
  obtain ⟨⟨_, hwaking⟩, hplace⟩ := huser
  refine ⟨?_, hwaking⟩
  split at hplace
  · rename_i hstack
    exact h.busy (by simp [World.idle, hstack])
  · split at hplace
    · rename_i hphase
      simp [State.userCode, hphase]
    · rename_i hphase
      simp [State.userCode, hphase]
    · rename_i hphase
      simp [State.userCode, hphase]
    · cases hplace
  · cases hplace

/-- A method of a connection. -/
theorem Scheduled.settle {w : World} (h : Scheduled w) (huser : w.loop.userCode = true)
    (hwaking : w.loop.loopWaking = none) (c : ConnId) {out : TcpConnection.Outcome}
    (hqueues : TcpConnection.QueuesOnce out.2) : Scheduled (w.settle c out) := by
  have hloop : (w.settle c out).loop = out.2.foldl (callLoop c) w.loop := foldl_perform_loop _ _ _
  obtain ⟨hphase, hwakes⟩ := foldl_callLoop_frame c out.2 w.loop
  refine ⟨?_, fun _ => ?_, fun t ht => ?_⟩
  · rw [hloop]
    exact reachable_foldl_callLoop h.reachable huser hwaking c hqueues
  · rw [hloop, World.userCode_of_phase hphase]
    exact huser
  · rw [World.settle_calls] at ht
    rw [hloop, hwakes]
    exact h.calls t ht

/-- A call made on the loop thread. -/
theorem Scheduled.enterCall {w : World} (h : Scheduled w) (huser : w.loop.userCode = true)
    (hwaking : w.loop.loopWaking = none) (call : Call) : Scheduled (w.enterCall call) := by
  cases call with
  | forceClose c =>
    exact ⟨reachable_queueInLoop h.reachable huser hwaking _, fun _ => huser, h.calls⟩
  | _ => exact h.frame rfl rfl huser

/-- Another thread pushes the closure of its call. -/
theorem Scheduled.pushCall {w : World} (h : Scheduled w) {t : ThreadId} {call : Call}
    (hcall : w.calls t = some call) : Scheduled (w.pushCall t call) := by
  have hwaking : w.loop.waking t = none := h.calls t (by rw [hcall]; simp)
  have hpushed : ∀ f, (EventLoop.machine Func Owner).Reachable (w.loop.threadQueueInLoop t f) := by
    intro f
    refine reachable_next (a := .threadQueueInLoop t f) h.reachable ?_
    simp [EventLoop.next, hwaking]
  have hcalls : ∀ t', Function.update w.calls t none t' ≠ none →
      ∀ wake, Function.update w.loop.waking t wake t' = none := by
    intro t' hsome wake
    have hne : t' ≠ t := by
      rintro rfl
      exact hsome (Function.update_self _ _ _)
    rw [Function.update_of_ne hne] at hsome ⊢
    exact h.calls t' hsome
  cases call <;> exact ⟨hpushed _, h.busy, fun t' ht' => hcalls t' ht' _⟩

/-- The loop's own steps leave their phase only when the loop thread is idle. -/
theorem Scheduled.loop {w : World} (h : Scheduled w) {a : EventLoop.Label Func Owner}
    {l : State Func Owner} (hallows : w.allows a = true) (hl : EventLoop.next w.loop a = some l) :
    Scheduled { w with loop := l } := by
  have hreachable := reachable_next h.reachable hl
  have hidle : ∀ {l : State Func Owner}, w.idle = true → w.idle = false → l.userCode = true :=
    fun htrue hfalse => by rw [htrue] at hfalse; cases hfalse
  have hwakes : ∀ t wake, (w.calls t).isNone = true → ∀ t', w.calls t' ≠ none →
      Function.update w.loop.waking t wake t' = none := by
    intro t wake hnone t' hsome
    have hne : t' ≠ t := by
      rintro rfl
      exact hsome (Option.isNone_iff_eq_none.mp hnone)
    rw [Function.update_of_ne hne]
    exact h.calls t' hsome
  cases EventLoop.step_of_next hl with
  | enter _ _ => exact ⟨hreachable, hidle hallows, h.calls⟩
  | leave _ _ => exact ⟨hreachable, hidle hallows, h.calls⟩
  | iterate _ _ => exact ⟨hreachable, hidle hallows, h.calls⟩
  | poll ds _ _ => cases hallows
  | timersDone _ _ => exact ⟨hreachable, hidle hallows, h.calls⟩
  | handleEvent _ _ _ _ _ _ _ => cases hallows
  | runFuncs _ _ => exact ⟨hreachable, hidle hallows, h.calls⟩
  | swap _ => exact ⟨hreachable, hidle hallows, h.calls⟩
  | exec _ _ => cases hallows
  | funcsDone _ _ => exact ⟨hreachable, hidle hallows, h.calls⟩
  | released _ _ => exact ⟨hreachable, hidle hallows, h.calls⟩
  | queueInLoop f _ _ => exact ⟨hreachable, h.busy, h.calls⟩
  | wakeUp _ => exact ⟨hreachable, h.busy, h.calls⟩
  | exit _ _ => exact ⟨hreachable, h.busy, h.calls⟩
  | updateDispatch d _ _ => exact ⟨hreachable, h.busy, h.calls⟩
  | removeDispatch d _ _ => exact ⟨hreachable, h.busy, h.calls⟩
  | destroy d _ _ => exact ⟨hreachable, h.busy, h.calls⟩
  | threadQueueInLoop t f _ =>
    refine ⟨hreachable, h.busy, hwakes t _ ?_⟩
    cases f with
    | user => exact hallows
    | _ => cases hallows
  | threadExit t _ => exact ⟨hreachable, h.busy, hwakes t _ hallows⟩
  | @threadWakeUp t wake _ =>
    refine ⟨hreachable, h.busy, fun t' ht' => ?_⟩
    change Function.update w.loop.waking t none t' = none
    by_cases heq : t' = t
    · rw [heq, Function.update_self]
    · rw [Function.update_of_ne heq]
      exact h.calls t' ht'

theorem World.idle_of_turn {w : World} {r : ReadResult} {wr : WriteResult} {c : ConnId}
    {op : TcpConnection.Op} {stack : List Frame} (hturn : w.turn r wr = some (c, op, stack)) :
    w.idle = false := by
  unfold World.turn at hturn
  split at hturn <;> cases hturn <;> simp_all [World.idle]

theorem Scheduled.step {w w' : World} {a : Label} (h : Scheduled w) (hstep : Step w a w') :
    Scheduled w' := by
  cases hstep with
  | loop hallows hl => exact h.loop hallows hl
  | @poll events l hidle hl =>
    have hreachable := reachable_next h.reachable hl
    cases EventLoop.step_of_next hl with
    | poll _ hphase _ =>
      refine ⟨hreachable, fun hfalse => ?_, h.calls⟩
      exact absurd (hidle.symm.trans hfalse) (by decide)
  | @handleEvent reads alive d rest l hidle hphase hl =>
    have hreachable := reachable_next h.reachable hl
    cases EventLoop.step_of_next hl with
    | handleEvent _ _ _ _ _ _ ht =>
      rw [ht] at hreachable ⊢
      exact ⟨hreachable, fun _ => rfl, h.calls⟩
  | @exec task rest l hidle hphase hl =>
    have hreachable := reachable_next h.reachable hl
    cases EventLoop.step_of_next hl with
    | exec _ _ => exact ⟨hreachable, fun _ => rfl, h.calls⟩
  | @start _ _ callbacks hrun hwaking =>
    have huser := h.busy (by simp [World.idle, hrun])
    have hbase : Scheduled { w with running := none, created := w.created + 1 } :=
      h.frame rfl rfl huser
    refine hbase.settle huser hwaking w.created (.inl fun size he => ?_)
    rcases List.mem_append.mp he with he | he
    · simp [TcpConnection.assert, TcpConnection.create] at he
    · exact TcpConnection.not_queue_invoke _ _ _ he
  | callback hrun _ _ => exact h.frame rfl rfl (h.busy (by simp [World.idle, hrun]))
  | @turn r wr c op stack hturn hc hwaking =>
    have huser := h.busy (World.idle_of_turn hturn)
    have hbase : Scheduled { w with running := none, stack := stack } := h.frame rfl rfl huser
    exact hbase.settle huser hwaking c (TcpConnection.queuesOnce_exec _ _)
  | ret hstack => exact h.frame rfl rfl (h.busy (by simp [World.idle, hstack]))
  | user _ huser _ =>
    obtain ⟨hcode, hwaking⟩ := h.userCode_of_userTurn huser
    exact h.settle hcode hwaking _ (TcpConnection.queuesOnce_exec _ _)
  | callIgnored => exact h
  | @call w' call spurious huser _ hcheck =>
    obtain ⟨hcode, hwaking⟩ := h.userCode_of_userTurn huser
    have hframe := World.check_frame hcheck
    have hchecked : Scheduled w' := h.frame hframe.loop hframe.calls hcode
    rw [← hframe.loop] at hcode hwaking
    exact hchecked.enterCall hcode hwaking call
  | threadCallIgnored => exact h
  | @threadCall w' t call spurious _ _ hcheck hwaking =>
    have hframe := World.check_frame hcheck
    refine ⟨hframe.loop ▸ h.reachable, fun hfalse => ?_, fun t' ht' => ?_⟩
    · change w'.loop.userCode = true
      rw [hframe.loop]
      exact h.busy (hframe.idle.symm.trans hfalse)
    · change w'.loop.waking t' = none
      rw [hframe.loop]
      by_cases heq : t' = t
      · rw [heq]
        exact hwaking
      · change Function.update w'.calls t (some call) t' ≠ none at ht'
        rw [Function.update_of_ne heq, hframe.calls] at ht'
        exact h.calls t' ht'
  | threadPush hcall => exact h.pushCall hcall

/-- Every run of the world is a run of its loop. -/
theorem loop_reachable {w : World} (hw : machine.Reachable w) :
    (EventLoop.machine Func Owner).Reachable w.loop := by
  have h : Scheduled w := Machine.Reachable.invariant (M := machine) scheduled_create
    (fun _ _ _ _ h ha => h.step (step_of_next ha)) hw
  exact h.reachable

/-- The closures are executed in the order in which they were queued. -/
theorem closures_in_order {w : World} (hw : machine.Reachable w) :
    w.loop.executed.map Task.func ++ w.queue = w.loop.pushed.map Task.func := by
  have horder := (queueInv_of_reachable (loop_reachable hw)).order
  rw [← horder, World.queue, ← List.map_append, ← List.append_assoc]

end ConnectionLoop

end Voyager
