import Voyager.ConnectionLoop

/-!
The order of the bytes a connection writes. Direct writes, the write buffer
and its draining share one invariant, which every method keeps for every
result of `write`.
-/
namespace Voyager

open Lib.Framing

namespace TcpConnection

/-- What was written is the beginning of what was sent; the write buffer holds
the rest until the connection is closed. -/
structure Ordered (k : TcpConnection) : Prop where
  buffer : k.writebuf.Wf
  dispatch : k.dispatch.Wf
  written : k.written <+: stream Message.data k.sent
  contents : k.state ≠ .kDisconnected →
    k.written ++ k.writebuf.readable = stream Message.data k.sent
  isWriting : k.state ≠ .kDisconnected →
    (k.dispatch.isWriting = true ↔ k.writebuf.readable ≠ [])
  closed : k.state = .kDisconnected → k.dispatch.isWriting = false

theorem ordered_create (callbacks : Callbacks) : (create callbacks).Ordered where
  buffer := Buffer.wf_ofSize _
  dispatch := Dispatch.wf_of_not_isWriting Dispatch.isWriting_create
  written := List.nil_prefix
  contents _ := by simp [create]
  isWriting _ := by simp [create]
  closed h := by cases h

/-- A step that only touches the other fields, or moves between open states. -/
theorem Ordered.frame {k k' : TcpConnection} (h : k.Ordered) (hbuf : k'.writebuf = k.writebuf)
    (hsent : k'.sent = k.sent) (hwritten : k'.written = k.written)
    (hstate : k'.state = .kDisconnected ↔ k.state = .kDisconnected)
    (hwriting : k'.dispatch.isWriting = k.dispatch.isWriting)
    (hadd : k'.dispatch.addWrite = k.dispatch.addWrite) : k'.Ordered where
  buffer := by rw [hbuf]; exact h.buffer
  dispatch := by
    intro hw
    rw [hadd]
    exact h.dispatch (hwriting ▸ hw)
  written := by rw [hwritten, hsent]; exact h.written
  contents hopen := by
    rw [hwritten, hbuf, hsent]
    exact h.contents (mt hstate.mpr hopen)
  isWriting hopen := by
    rw [hwriting, hbuf]
    exact h.isWriting (mt hstate.mpr hopen)
  closed hclosed := by
    rw [hwriting]
    exact h.closed (hstate.mp hclosed)

/-- Closing keeps the order of what has been written and needs no more. -/
theorem ordered_handleClose {k : TcpConnection} (hbuf : k.writebuf.Wf) (hdispatch : k.dispatch.Wf)
    (hwritten : k.written <+: stream Message.data k.sent) (excused : Bool) :
    (k.handleClose excused).1.Ordered where
  buffer := hbuf
  dispatch := Dispatch.wf_of_not_isWriting (Dispatch.isWriting_disableAll hdispatch)
  written := hwritten
  contents h := absurd rfl h
  isWriting h := absurd rfl h
  closed _ := Dispatch.isWriting_disableAll hdispatch

theorem Ordered.handleClose {k : TcpConnection} (h : k.Ordered) (excused : Bool) :
    (k.handleClose excused).1.Ordered :=
  ordered_handleClose h.buffer h.dispatch h.written excused

theorem Ordered.startWorking {k : TcpConnection} (h : k.Ordered) (hstate : k.state = .kConnecting) :
    k.startWorking.1.Ordered :=
  h.frame rfl rfl rfl (by simp [TcpConnection.startWorking, hstate])
    (by simp [TcpConnection.startWorking]) (by simp [TcpConnection.startWorking])

theorem Ordered.handleRead {k : TcpConnection} (h : k.Ordered) (r : ReadResult) :
    (k.handleRead r).1.Ordered := by
  cases r with
  | bytes data =>
    have hread : ({ k with readbuf := k.readbuf.readV (some data) }).Ordered :=
      h.frame rfl rfl rfl Iff.rfl rfl rfl
    simp only [TcpConnection.handleRead]
    split
    · exact hread
    · exact hread.handleClose true
  | failed errno =>
    have hread : ({ k with readbuf := k.readbuf.readV none }).Ordered :=
      h.frame rfl rfl rfl Iff.rfl rfl rfl
    simp only [TcpConnection.handleRead]
    split
    · exact hread.handleClose true
    · exact hread

/-- Appending what is left of a message to the write buffer. -/
theorem ordered_sendRemaining {k : TcpConnection} (hbuf : k.writebuf.Wf)
    (hdispatch : k.dispatch.Wf) (hopen : k.state ≠ .kDisconnected) (remaining : List Byte)
    (hcontents : k.written ++ k.writebuf.readable ++ remaining = stream Message.data k.sent)
    (hwriting : k.dispatch.isWriting = true ↔ k.writebuf.readable ≠ []) :
    (k.sendRemaining remaining).1.Ordered := by
  by_cases hlen : 0 < remaining.length
  · obtain ⟨hwf, hread⟩ := Buffer.append_spec hbuf remaining
    have hne : (k.writebuf.append remaining).readable ≠ [] := by
      rw [hread]
      exact List.append_ne_nil_of_right_ne_nil _ (List.ne_nil_of_length_pos hlen)
    have hall : k.written ++ (k.writebuf.append remaining).readable =
        stream Message.data k.sent := by
      rw [hread, ← List.append_assoc, hcontents]
    have hpre : k.written <+: stream Message.data k.sent := ⟨_, hall⟩
    cases hw : k.dispatch.isWriting with
    | true =>
      simp only [sendRemaining, hlen, hw, if_true]
      exact ⟨hwf, hdispatch, hpre, fun _ => hall, fun _ => by simp [hw, hne],
        fun hclosed => absurd hclosed hopen⟩
    | false =>
      simp only [sendRemaining, hlen, hw, if_true, Bool.false_eq_true, if_false]
      exact ⟨hwf, fun _ => Dispatch.addWrite_enableWrite _, hpre, fun _ => hall,
        fun _ => by simp [hne], fun hclosed => absurd hclosed hopen⟩
  · have hnil : remaining = [] := by
      rw [← List.length_eq_zero_iff]
      omega
    subst remaining
    rw [List.append_nil] at hcontents
    simp only [sendRemaining, List.length_nil, Nat.lt_irrefl, if_false]
    exact ⟨hbuf, hdispatch, ⟨_, hcontents⟩, fun _ => hcontents, fun _ => hwriting,
      fun hclosed => absurd hclosed hopen⟩

theorem Ordered.sendInLoop {k : TcpConnection} (h : k.Ordered) (m : Message) (r : WriteResult) :
    (k.sendInLoop m r).1.Ordered := by
  by_cases hclosed : k.state = .kDisconnected
  · simpa only [TcpConnection.sendInLoop, hclosed, if_true] using h
  have hcontents := h.contents hclosed
  have hwriting := h.isWriting hclosed
  have hstream : stream Message.data (k.sent ++ [m]) =
      k.written ++ k.writebuf.readable ++ m.data := by
    rw [stream_append, hcontents, stream_cons, stream_nil, List.append_nil]
  by_cases hdirect : (!k.dispatch.isWriting && decide (k.writebuf.readableSize = 0)) = true
  · have hempty : k.writebuf.readable = [] := by
      simp only [Bool.and_eq_true, decide_eq_true_eq] at hdirect
      exact (Buffer.readableSize_eq_zero h.buffer).mp hdirect.2
    rw [hempty, List.append_nil] at hstream
    cases r with
    | wrote n =>
      have hcut : m.data.take (min n m.data.length) ++ m.data.drop (min n m.data.length) = m.data :=
        List.take_append_drop _ _
      simp only [TcpConnection.sendInLoop, hclosed, hdirect, if_true, if_false]
      split
      · rename_i hdone
        have hall : m.data.take (min n m.data.length) = m.data :=
          List.take_of_length_le (by omega)
        have hwritten : k.written ++ m.data.take (min n m.data.length) =
            stream Message.data (k.sent ++ [m]) := by
          rw [hall, hstream]
        refine ⟨h.buffer, h.dispatch, ⟨[], ?_⟩, fun _ => ?_, fun _ => hwriting,
          fun hc => absurd hc hclosed⟩
        · rw [List.append_nil, hwritten]
        · simp only [hempty, hwritten, List.append_nil]
      · apply ordered_sendRemaining
        · exact h.buffer
        · exact h.dispatch
        · exact hclosed
        · simp only [hempty, List.append_nil, List.append_assoc, hcut, hstream]
        · exact hwriting
    | failed errno =>
      simp only [TcpConnection.sendInLoop, hclosed, hdirect, if_true, if_false]
      split
      · apply ordered_handleClose
        · exact h.buffer
        · exact h.dispatch
        · exact ⟨m.data, hstream.symm⟩
      · apply ordered_sendRemaining
        · exact h.buffer
        · exact h.dispatch
        · exact hclosed
        · simp only [hempty, List.append_nil, hstream]
        · exact hwriting
  · simp only [TcpConnection.sendInLoop, hclosed, hdirect, if_false]
    apply ordered_sendRemaining
    · exact h.buffer
    · exact h.dispatch
    · exact hclosed
    · exact hstream.symm
    · exact hwriting

theorem Ordered.handleWrite {k : TcpConnection} (h : k.Ordered) (r : WriteResult) :
    (k.handleWrite r).1.Ordered := by
  cases hw : k.dispatch.isWriting with
  | false => simpa only [TcpConnection.handleWrite, hw, Bool.false_eq_true, if_false] using h
  | true =>
    have hopen : k.state ≠ .kDisconnected := by
      intro hclosed
      rw [h.closed hclosed] at hw
      cases hw
    cases r with
    | failed errno =>
      simp only [TcpConnection.handleWrite, hw, if_true]
      split
      · exact h.handleClose true
      · exact h
    | wrote n =>
      obtain ⟨hwf, hread⟩ := Buffer.retrieve_spec h.buffer (min n k.writebuf.readableSize)
      have hall : k.written ++ k.writebuf.readable.take (min n k.writebuf.readableSize) ++
          (k.writebuf.retrieve (min n k.writebuf.readableSize)).readable =
            stream Message.data k.sent := by
        rw [hread, List.append_assoc, List.take_append_drop, h.contents hopen]
      simp only [TcpConnection.handleWrite, hw, if_true]
      split
      · rename_i hdrained
        have hempty := (Buffer.readableSize_eq_zero hwf).mp hdrained
        have hoff := Dispatch.isWriting_disableWrite h.dispatch
        refine ⟨hwf, Dispatch.wf_of_not_isWriting hoff, ⟨_, hall⟩, fun _ => hall, fun _ => ?_,
          fun _ => hoff⟩
        simp [hoff, hempty]
      · rename_i hleft
        have hne := mt (Buffer.readableSize_eq_zero hwf).mpr hleft
        exact ⟨hwf, h.dispatch, ⟨_, hall⟩, fun _ => hall, fun _ => by simp [hw, hne],
          fun hclosed => absurd hclosed hopen⟩

/-- The step lemma: every method keeps the order. -/
theorem Ordered.exec {k : TcpConnection} (h : k.Ordered) (op : Op) : (k.exec op).1.Ordered := by
  cases op with
  | handleEventClose =>
    simp only [TcpConnection.exec, handleEventClose]
    split
    · exact h.handleClose true
    · exact h
  | handleEventRead r =>
    simp only [TcpConnection.exec, handleEventRead]
    split
    · exact h.handleRead r
    · exact h
  | handleEventWrite r =>
    simp only [TcpConnection.exec, handleEventWrite]
    split
    · exact h.handleWrite r
    · exact h
  | handleEventDone => exact h.frame rfl rfl rfl Iff.rfl rfl rfl
  | resumeHandleWrite =>
    simp only [TcpConnection.exec, resumeHandleWrite]
    split
    · exact h.handleClose false
    · exact h
  | sendInLoop m r => exact h.sendInLoop m r
  | shutDownInLoop =>
    simp only [TcpConnection.exec, shutDownInLoop]
    split <;> exact h
  | forceCloseInLoop =>
    simp only [TcpConnection.exec, forceCloseInLoop]
    split
    · exact h.handleClose true
    · exact h
  | startReadInLoop =>
    simp only [TcpConnection.exec, startReadInLoop]
    split
    · exact h.frame rfl rfl rfl Iff.rfl (Dispatch.isWriting_enableRead _) rfl
    · exact h
  | stopReadInLoop =>
    simp only [TcpConnection.exec, stopReadInLoop]
    split
    · exact h.frame rfl rfl rfl Iff.rfl (Dispatch.isWriting_disableRead _) rfl
    · exact h
  | setCallbacks callbacks => exact h.frame rfl rfl rfl Iff.rfl rfl rfl
  | setHighWaterMark size => exact h.frame rfl rfl rfl Iff.rfl rfl rfl
  | retrieve size => exact h.frame rfl rfl rfl Iff.rfl rfl rfl

end TcpConnection

namespace ConnectionLoop

open Lib.Runs EventLoop

/-- Before its closure a call at most makes a connected connection disconnecting. -/
theorem World.ordered_check {w w' : World} {spurious : Bool} {call : Call}
    (h : ∀ c, (w.conns c).Ordered) (hcheck : w.check spurious call = some w') (c : ConnId) :
    (w'.conns c).Ordered := by
  have hset : ∀ c', (w.conns c').state = .kConnected →
      ((w.setState c' .kDisconnecting).conns c).Ordered := by
    intro c' hstate
    by_cases heq : c = c'
    · subst c'
      simp only [World.setState, Function.update_self]
      exact (h c).frame rfl rfl rfl (by simp [hstate]) rfl rfl
    · simpa only [World.setState, Function.update_of_ne heq] using h c
  rcases World.check_cases hcheck with
    rfl | ⟨c', _, ⟨rfl, _⟩ | ⟨hstate, ⟨_, rfl⟩ | ⟨_, rfl⟩⟩⟩
  · exact h c
  · exact h c
  · exact hset c' hstate
  · exact hset c' hstate

theorem World.ordered_act {w : World} (h : ∀ c, (w.conns c).Ordered) (c' : ConnId)
    (op : TcpConnection.Op) (c : ConnId) : ((w.act c' op).conns c).Ordered := by
  rw [World.act_conns]
  by_cases heq : c = c'
  · subst c'
    rw [Function.update_self]
    exact (h c).exec op
  · rw [Function.update_of_ne heq]
    exact h c

theorem World.ordered_step {w w' : World} {a : Label} (h : ∀ c, (w.conns c).Ordered)
    (hstep : Step w a w') (c : ConnId) : (w'.conns c).Ordered := by
  cases hstep with
  | loop _ _ => exact h c
  | @poll events _ _ _ =>
    obtain ⟨rv, hrv⟩ := World.report_cases w.conns events c
    change (World.report w.conns events c).Ordered
    rw [hrv]
    exact (h c).frame rfl rfl rfl Iff.rfl rfl rfl
  | handleEvent _ _ _ => exact h c
  | exec _ _ _ => exact h c
  | @start _ _ callbacks _ =>
    simp only [World.startWorking, World.settle_conns]
    by_cases heq : c = w.created
    · subst c
      rw [Function.update_self]
      exact (TcpConnection.ordered_create callbacks).startWorking rfl
    · rw [Function.update_of_ne heq]
      exact h c
  | callback _ _ => exact h c
  | turn _ _ => exact World.ordered_act (w := { w with running := none, stack := _ }) h _ _ c
  | ret _ => exact h c
  | user _ _ _ => exact World.ordered_act h _ _ c
  | callIgnored => exact h c
  | call _ _ hcheck =>
    rw [World.enterCall_conns]
    exact World.ordered_check h hcheck c
  | threadCallIgnored => exact h c
  | threadCall _ _ hcheck => exact World.ordered_check h hcheck c
  | threadPush _ =>
    rw [World.pushCall_conns]
    exact h c

theorem ordered_of_reachable {w : World} (hw : machine.Reachable w) (c : ConnId) :
    (w.conns c).Ordered := by
  have hall := Machine.Reachable.invariant (P := fun w => ∀ c, (w.conns c).Ordered)
    (fun _ => TcpConnection.ordered_create _)
    (fun _ _ _ _ h ha => World.ordered_step h (step_of_next ha)) hw
  exact hall c

/-- In every run, for every connection: what was written is the beginning of
what was sent, and while the connection is open the write buffer holds exactly
the rest and waits for the socket exactly when it is not empty. -/
theorem written_in_order (w : World) (hw : machine.Reachable w) (c : ConnId) :
    (w.conns c).written <+: stream Message.data (w.conns c).sent ∧
      ((w.conns c).state = .kConnected ∨ (w.conns c).state = .kDisconnecting →
        (w.conns c).written ++ (w.conns c).writebuf.readable =
            stream Message.data (w.conns c).sent ∧
          ((w.conns c).dispatch.isWriting = true ↔ (w.conns c).writebuf.readable ≠ [])) := by
  have h := ordered_of_reachable hw c
  refine ⟨h.written, fun hopen => ?_⟩
  have hstate : (w.conns c).state ≠ .kDisconnected := by
    rcases hopen with hc | hc <;> rw [hc] <;> decide
  exact ⟨h.contents hstate, h.isWriting hstate⟩

/-- The loop thread accepts a connection before `Loop`. -/
def accept (callbacks : Callbacks) : List Label :=
  [.call (.newConnection callbacks) false, .resume (.failed .eagain) (.failed .eagain)]

def readNothing : ReadResult := .failed .eagain

/-- `SendMessage` on the loop thread. -/
def sendMessage (c : ConnId) (data : List Byte) (wr : WriteResult) : List Label :=
  [.call (.sendMessage c data) false, .resume readNothing wr]

/-- `HandleEvent` on the next active dispatch, none of its callbacks doing anything
up to `HandleWrite`. -/
def handleWritable (wr : WriteResult) : List Label :=
  [.handleEvent false true, .resume readNothing wr, .resume readNothing wr, .resume readNothing wr]

/-- A message goes out in part, the rest is drained in two writes, and the
write-complete callback sends the next message. -/
theorem written_in_order_reentrant :
    ∃ w, machine.Reachable w ∧ (w.conns 0).sent.length = 2 ∧ (w.conns 0).state = .kConnected ∧
      (w.conns 0).written ++ (w.conns 0).writebuf.readable =
        stream Message.data (w.conns 0).sent := by
  obtain ⟨w, hw, hlen, hstate⟩ := Machine.exists_reachable_of_run (M := machine)
    (accept ⟨false, false, true, false, false⟩ ++ sendMessage 0 [1, 2, 3] (.wrote 1) ++
      [Label.loop .enter, .loop .iterate, .poll [(.owned (.conn 0), pollOut)], .loop .timersDone] ++
      handleWritable (.wrote 1) ++ [Label.resume readNothing (.wrote 0), .loop .runFuncs,
        .loop .swap, .loop .funcsDone, .loop .released, .loop .iterate,
        .poll [(.owned (.conn 0), pollOut)], .loop .timersDone] ++
      handleWritable (.wrote 1) ++ sendMessage 0 [4, 5] (.wrote 1))
    (fun w => (w.conns 0).sent.length = 2 ∧ (w.conns 0).state = .kConnected) (by decide +kernel)
  exact ⟨w, hw, hlen, hstate, ((written_in_order w hw 0).2 (.inl hstate)).1⟩

end ConnectionLoop

end Voyager
