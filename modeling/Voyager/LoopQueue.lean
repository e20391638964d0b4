import Voyager.SendOrder

/-!
What a step of the world does to the closures that wait for the loop thread and
to the history of the messages: the loop moves closures from `funcs_` to the
batch and takes the first one, calls add at the end, methods queue nothing but
high-water-mark callbacks, and only `SendInLoop` takes on messages.
-/
namespace Voyager

open Lib.Framing

namespace TcpConnection

theorem sent_sendRemaining (k : TcpConnection) (remaining : List Byte) :
    (k.sendRemaining remaining).1.sent = k.sent := by
  unfold sendRemaining
  split
  · dsimp only
    split <;> rfl
  · rfl

/-- A message is taken on unless the connection is closed. -/
theorem sent_sendInLoop (k : TcpConnection) (m : Message) (r : WriteResult)
    (hopen : k.state ≠ .kDisconnected) : (k.sendInLoop m r).1.sent = k.sent ++ [m] := by
  simp only [sendInLoop, hopen, if_false]
  split
  · cases r with
    | wrote n =>
      dsimp only
      split
      · rfl
      · exact sent_sendRemaining _ _
    | failed errno =>
      dsimp only
      split
      · rfl
      · exact sent_sendRemaining _ _
  · exact sent_sendRemaining _ _

theorem sent_handleRead (k : TcpConnection) (r : ReadResult) :
    (k.handleRead r).1.sent = k.sent ∧ (k.handleRead r).1.written = k.written := by
  cases r <;> simp only [handleRead] <;> split <;> exact ⟨rfl, rfl⟩

theorem sent_handleWrite (k : TcpConnection) (r : WriteResult) :
    (k.handleWrite r).1.sent = k.sent := by
  unfold handleWrite
  split
  · cases r with
    | wrote n =>
      dsimp only
      split <;> rfl
    | failed errno =>
      dsimp only
      split <;> rfl
  · rfl

/-- No other method touches what was sent; only writing adds to what was written. -/
theorem sent_exec (k : TcpConnection) (op : Op) :
    (∃ m r, op = .sendInLoop m r) ∨ (k.exec op).1.sent = k.sent := by
  cases op with
  | sendInLoop m r => exact .inl ⟨m, r, rfl⟩
  | handleEventClose => right; simp only [exec, handleEventClose]; split <;> rfl
  | handleEventRead r =>
    right
    simp only [exec, handleEventRead]
    split
    · exact (sent_handleRead k r).1
    · rfl
  | handleEventWrite r =>
    right
    simp only [exec, handleEventWrite]
    split
    · exact sent_handleWrite k r
    · rfl
  | handleEventDone => exact .inr rfl
  | resumeHandleWrite => right; simp only [exec, resumeHandleWrite]; split <;> rfl
  | shutDownInLoop => right; simp only [exec, shutDownInLoop]; split <;> rfl
  | forceCloseInLoop => right; simp only [exec, forceCloseInLoop]; split <;> rfl
  | startReadInLoop => right; simp only [exec, startReadInLoop]; split <;> rfl
  | stopReadInLoop => right; simp only [exec, stopReadInLoop]; split <;> rfl
  | setCallbacks callbacks => exact .inr rfl
  | setHighWaterMark size => exact .inr rfl
  | retrieve size => exact .inr rfl

/-- After the close nothing is sent and nothing written. -/
theorem exec_disconnected {k : TcpConnection} (h : k.Ordered) (hstate : k.state = .kDisconnected)
    (op : Op) : (k.exec op).1.sent = k.sent ∧ (k.exec op).1.written = k.written := by
  cases op with
  | sendInLoop m r => simp [exec, sendInLoop, hstate]
  | handleEventClose => simp only [exec, handleEventClose]; split <;> exact ⟨rfl, rfl⟩
  | handleEventRead r =>
    simp only [exec, handleEventRead]
    split
    · exact sent_handleRead k r
    · exact ⟨rfl, rfl⟩
  | handleEventWrite r =>
    simp only [exec, handleEventWrite]
    split
    · simp [handleWrite, h.closed hstate]
    · exact ⟨rfl, rfl⟩
  | handleEventDone => exact ⟨rfl, rfl⟩
  | resumeHandleWrite => simp only [exec, resumeHandleWrite]; split <;> exact ⟨rfl, rfl⟩
  | shutDownInLoop => simp only [exec, shutDownInLoop]; split <;> exact ⟨rfl, rfl⟩
  | forceCloseInLoop => simp only [exec, forceCloseInLoop]; split <;> exact ⟨rfl, rfl⟩
  | startReadInLoop => simp only [exec, startReadInLoop]; split <;> exact ⟨rfl, rfl⟩
  | stopReadInLoop => simp only [exec, stopReadInLoop]; split <;> exact ⟨rfl, rfl⟩
  | setCallbacks callbacks => exact ⟨rfl, rfl⟩
  | setHighWaterMark size => exact ⟨rfl, rfl⟩
  | retrieve size => exact ⟨rfl, rfl⟩

end TcpConnection

namespace ConnectionLoop

open Lib.Runs EventLoop

/-- Once all bytes are written every message is. -/
theorem flushed_of_drained {k : TcpConnection} (hwritten : k.written = stream Message.data k.sent)
    {m : Message} (hm : m ∈ k.sent) : Flushed k m := by
  obtain ⟨i, hi, hget⟩ := List.mem_iff_getElem.mp hm
  refine ⟨i, hi, by rw [List.getElem?_eq_getElem hi, hget], ?_⟩
  refine ⟨stream Message.data (k.sent.drop (i + 1)), ?_⟩
  rw [← stream_append, List.take_append_drop, hwritten]

namespace World

/-- The closures that wait in the batch and in `funcs_`, in the order of their
execution. -/
def queue (w : World) : List Func := (w.loop.batch ++ w.loop.funcs).map EventLoop.Task.func

theorem mem_due {w : World} {c : ConnId} {m : Message} (hm : m ∈ w.due c) :
    m.data ≠ [] ∧ ∃ n, w.log.shutDownAt c = some n ∧ (c, m) ∈ w.log.accepted.take n := by
  unfold due at hm
  split at hm
  · cases hm
  · rename_i n hn
    obtain ⟨⟨c', m'⟩, hmem, hsome⟩ := List.mem_filterMap.mp hm
    dsimp only at hsome
    split at hsome
    · rename_i heq
      cases hsome
      exact ⟨heq.2, n, hn, heq.1 ▸ hmem⟩
    · cases hsome

theorem unflushed_eq_nil {w : World} {c : ConnId}
    (hwritten : (w.conns c).written = stream Message.data (w.conns c).sent)
    (hdue : ∀ m ∈ w.due c, m ∈ (w.conns c).sent) : w.unflushed c = [] := by
  rw [unflushed, List.filter_eq_nil_iff]
  intro m hm
  simpa using flushed_of_drained hwritten (hdue m hm)

/-- What the messages due and still missing are computed from. -/
theorem unflushed_congr {w w' : World} {c : ConnId} (hdue : w'.due c = w.due c)
    (hsent : (w'.conns c).sent = (w.conns c).sent)
    (hwritten : (w'.conns c).written = (w.conns c).written) : w'.unflushed c = w.unflushed c := by
  simp only [unflushed, hdue, Flushed, hsent, hwritten]

/-- The loop's own steps keep the queue, up to a function of a user. -/
theorem queue_loop {w : World} {a : EventLoop.Label Func Owner} {l : State Func Owner}
    (hallows : w.allows a = true) (hl : EventLoop.next w.loop a = some l) :
    { w with loop := l }.queue = w.queue ∨ { w with loop := l }.queue = w.queue ++ [Func.user] := by
  have hstep := EventLoop.step_of_next hl
  cases hstep with
  | enter hphase _ => left; simp [queue, State.batch, hphase]
  | leave hphase _ => left; simp [queue, State.batch, hphase]
  | iterate hphase _ => left; simp [queue, State.batch, hphase]
  | poll ds hphase _ => cases hallows
  | timersDone hphase _ => left; simp [queue, State.batch, hphase]
  | handleEvent _ _ _ _ _ _ _ => cases hallows
  | runFuncs hphase _ => left; simp [queue, State.batch, hphase]
  | swap hphase => left; simp [queue, State.batch, hphase]
  | exec _ _ => cases hallows
  | funcsDone hphase _ => left; simp [queue, State.batch, hphase]
  | released hphase _ => left; simp [queue, State.batch, hphase]
  | queueInLoop f _ _ =>
    right
    cases f with
    | user => simp [queue, State.batch, State.queueInLoop, State.push]
    | _ => cases hallows
  | wakeUp _ => exact .inl rfl
  | exit _ _ => exact .inl rfl
  | updateDispatch d _ _ => exact .inl rfl
  | removeDispatch d _ _ => exact .inl rfl
  | destroy d _ _ => exact .inl rfl
  | threadQueueInLoop t f _ =>
    right
    cases f with
    | user => simp [queue, State.batch, State.threadQueueInLoop, State.push]
    | _ => cases hallows
  | threadExit t _ => exact .inl rfl
  | threadWakeUp t _ => exact .inl rfl

theorem queue_poll {w : World} {ds : List (DispatchId Owner)} {l : State Func Owner}
    (hl : EventLoop.next w.loop (.poll ds) = some l) : { w with loop := l }.queue = w.queue := by
  cases EventLoop.step_of_next hl with
  | poll _ hphase _ => simp [queue, State.batch, hphase]

theorem queue_handleEvent {w : World} {reads : Bool} {l : State Func Owner}
    (hl : EventLoop.next w.loop (.handleEvent reads) = some l) :
    { w with loop := l }.queue = w.queue := by
  cases EventLoop.step_of_next hl with
  | handleEvent d rest _ hphase _ _ ht =>
    rw [ht]
    simp [queue, State.batch, hphase]

theorem queue_exec {w : World} {task : EventLoop.Task Func} {rest : List (EventLoop.Task Func)}
    {l : State Func Owner} (hphase : w.loop.phase = .funcs (task :: rest))
    (hl : EventLoop.next w.loop .exec = some l) :
    w.queue = task.func :: { w with loop := l }.queue := by
  cases EventLoop.step_of_next hl with
  | exec hphase' _ =>
    rw [hphase] at hphase'
    cases hphase'
    simp [queue, State.batch, hphase]

/-- Methods queue nothing but high-water-mark callbacks. -/
theorem queue_settle (w : World) (c : ConnId) (out : TcpConnection.Outcome) :
    ∃ extra, (w.settle c out).queue = w.queue ++ extra ∧
      ∀ f ∈ extra, ∃ size, f = .highWaterMark c size := by
  have hfold : ∀ (effects : List Effect) (w : World), ∃ extra,
      (effects.foldl (perform c) w).queue = w.queue ++ extra ∧
        ∀ f ∈ extra, ∃ size, f = .highWaterMark c size := by
    intro effects
    induction effects with
    | nil => exact fun w => ⟨[], (List.append_nil _).symm, fun _ hf => by cases hf⟩
    | cons e rest ih =>
      intro w
      obtain ⟨extra, heq, hextra⟩ := ih (perform c w e)
      have hone : (perform c w e).queue = w.queue ∨
          ∃ size, (perform c w e).queue = w.queue ++ [.highWaterMark c size] := by
        cases e with
        | queueHighWaterMark size =>
          right
          exact ⟨size, by simp [perform, queue, State.batch, State.queueInLoop, State.push]⟩
        | _ => exact .inl rfl
      rcases hone with hsame | ⟨size, hmore⟩
      · exact ⟨extra, by rw [List.foldl_cons, heq, hsame], hextra⟩
      · refine ⟨.highWaterMark c size :: extra, ?_, ?_⟩
        · rw [List.foldl_cons, heq, hmore, List.append_assoc]
          rfl
        · intro f hf
          rcases List.mem_cons.mp hf with rfl | hf
          · exact ⟨size, rfl⟩
          · exact hextra f hf
  exact hfold out.2 _

theorem settle_accepted (w : World) (c : ConnId) (out : TcpConnection.Outcome) :
    (w.settle c out).log.accepted = w.log.accepted :=
  foldl_perform_eq _ c (fun w => w.log.accepted) out.2 fun _ e _ => by cases e <;> rfl

theorem settle_shutDownAt (w : World) (c : ConnId) (out : TcpConnection.Outcome) :
    (w.settle c out).log.shutDownAt = w.log.shutDownAt :=
  foldl_perform_eq _ c (fun w => w.log.shutDownAt) out.2 fun _ e _ => by cases e <;> rfl

theorem settle_due (w : World) (c c' : ConnId) (out : TcpConnection.Outcome) :
    (w.settle c out).due c' = w.due c' := by
  simp only [due, settle_accepted, settle_shutDownAt]

theorem settle_ended_quiet (w : World) (c : ConnId) (out : TcpConnection.Outcome)
    (hquiet : ∀ e ∈ out.2, e.isQuiet = true) :
    (w.settle c out).log.excused = w.log.excused ∧ (w.settle c out).log.ended = w.log.ended := by
  have hlog := foldl_perform_eq { w with conns := Function.update w.conns c out.1 } c
    (fun w => (w.log.excused, w.log.ended)) out.2 fun w e he => by
      have hq := hquiet e he
      cases e <;> first | rfl | cases hq
  exact ⟨congrArg Prod.fst hlog, congrArg Prod.snd hlog⟩

theorem settle_ended_handleClose (w : World) (c : ConnId) (k : TcpConnection) (excused : Bool) :
    (w.settle c (k.handleClose excused)).log.excused =
        Function.update w.log.excused c (w.log.excused c || excused) ∧
      (w.settle c (k.handleClose excused)).log.ended =
        w.log.ended ++ [⟨c, w.log.excused c || excused,
          { w with
            conns := Function.update w.conns c (k.handleClose excused).1 }.unflushed c⟩] := by
  cases hopen : k.isOpen <;> cases hcalled : k.dispatch.disableAll.2 <;>
    cases hcb : k.callbacks.close <;>
    simp [settle, TcpConnection.handleClose, TcpConnection.assert, hopen, hcalled, hcb,
      TcpConnection.updateEvents, TcpConnection.invoke, perform, callback, removeConnection,
      noteClosed, noteEnded, noteFailed, unflushed, due]

/-- Accepted after `ShutDown`, if there was one, or without bytes. -/
def late (w : World) (c : ConnId) (m : Message) : Prop :=
  m.data = [] ∨ ∀ n, w.log.shutDownAt c = some n → n ≤ m.id

end World

theorem mem_sent_exec {k : TcpConnection} {m : Message} (hopen : k.state ≠ .kDisconnected)
    (op : TcpConnection.Op) (hm : m ∈ k.sent ∨ ∃ r, op = .sendInLoop m r) :
    m ∈ (k.exec op).1.sent := by
  rcases k.sent_exec op with ⟨m', r, rfl⟩ | hsame
  · rw [TcpConnection.exec, TcpConnection.sent_sendInLoop k m' r hopen, List.mem_append,
      List.mem_singleton]
    rcases hm with hm | ⟨r', heq⟩
    · exact .inl hm
    · cases heq
      exact .inr rfl
  · rw [hsame]
    rcases hm with hm | ⟨r, rfl⟩
    · exact hm
    · rw [TcpConnection.exec, TcpConnection.sent_sendInLoop k m r hopen] at hsame
      rw [← hsame]
      exact List.mem_append_right _ (List.mem_singleton.mpr rfl)

def Func.sends (c : ConnId) : Func → Bool
  | .send c' m => c' = c && !m.data.isEmpty
  | _ => false

/-- How a turn of the loop thread uses up the closure it runs. -/
theorem World.turn_running {w : World} {r : ReadResult} {wr : WriteResult} {c : ConnId}
    {op : TcpConnection.Op} {stack : List Frame} (hturn : w.turn r wr = some (c, op, stack)) :
    (∀ c' m, w.running = some (.send c' m) → c' = c ∧ ∃ r, op = .sendInLoop m r) ∧
      (op = .shutDownInLoop → w.running = some (.shutDown c)) := by
  unfold World.turn at hturn
  split at hturn <;> cases hturn <;> simp_all

theorem World.running_of_userTurn {w : World} (huser : w.userTurn = true) : w.running = none := by
  simp only [World.userTurn, Bool.and_eq_true, Option.isNone_iff_eq_none] at huser
  exact huser.1.1

theorem World.running_of_idle {w : World} (hidle : w.idle = true) : w.running = none := by
  simp only [World.idle, Bool.and_eq_true, Option.isNone_iff_eq_none] at hidle
  exact hidle.2

/-- What a call leaves alone before it comes to its closure. -/
structure CheckFrame (w w' : World) : Prop where
  loop : w'.loop = w.loop
  stack : w'.stack = w.stack
  running : w'.running = w.running
  calls : w'.calls = w.calls
  dispatch : ∀ c, (w'.conns c).dispatch = (w.conns c).dispatch

theorem World.check_frame {w w' : World} {spurious : Bool} {call : Call}
    (hcheck : w.check spurious call = some w') : CheckFrame w w' := by
  have hset : ∀ c c', ((w.setState c .kDisconnecting).conns c').dispatch =
      (w.conns c').dispatch := by
    intro c c'
    by_cases heq : c' = c
    · simp [World.setState, heq]
    · simp [World.setState, Function.update_of_ne heq]
  rcases World.check_cases hcheck with rfl | ⟨c, _, ⟨rfl, _⟩ | ⟨_, ⟨_, rfl⟩ | ⟨_, rfl⟩⟩⟩
  · exact ⟨rfl, rfl, rfl, rfl, fun _ => rfl⟩
  · exact ⟨rfl, rfl, rfl, rfl, fun _ => rfl⟩
  · exact ⟨rfl, rfl, rfl, rfl, hset c⟩
  · exact ⟨rfl, rfl, rfl, rfl, hset c⟩

theorem CheckFrame.queue {w w' : World} (h : CheckFrame w w') : w'.queue = w.queue := by
  simp only [World.queue, h.loop]

theorem CheckFrame.idle {w w' : World} (h : CheckFrame w w') : w'.idle = w.idle := by
  simp only [World.idle, h.stack, h.running]

end ConnectionLoop

end Voyager
