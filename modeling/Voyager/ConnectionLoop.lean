import Voyager.EventLoop
import Voyager.TcpConnection

/-!
One event loop with all its connections, their users and the other threads.
The loop thread executes the closures in its queue and the handlers of active
dispatches; each may run user callbacks, in which any method of any connection
may be called, so the calls that are interrupted by a callback form a stack.
Another thread reads or changes `state_`, pushes its closure and wakes the loop
up in separate steps. Labels carry what the code does not decide: the results
of `Poll`, `readv` and `write`, the callers' next call and whether
`compare_exchange_weak` fails without a reason.
-/
namespace Voyager.ConnectionLoop

open Lib.Runs Lib.Framing EventLoop

abbrev ConnId := ℕ

inductive Owner
  | conn (c : ConnId)
  | other (k : ℕ)
deriving DecidableEq, Repr

/-- The closures in `funcs_`. `startWorking` also creates the connection, which
only this closure knows before; `user` is any other function of a user. -/
inductive Func
  | startWorking (callbacks : Callbacks)
  | send (c : ConnId) (m : Message)
  | shutDown (c : ConnId)
  | forceClose (c : ConnId)
  | startRead (c : ConnId)
  | stopRead (c : ConnId)
  | highWaterMark (c : ConnId) (size : ℕ)
  | user
deriving DecidableEq, Repr

/-- The calls of users, and `NewConnection` of a server or client. The four
overloads of `SendMessage` differ only in where the bytes come from. -/
inductive Call
  | newConnection (callbacks : Callbacks)
  | sendMessage (c : ConnId) (data : List Byte)
  | shutDown (c : ConnId)
  | forceClose (c : ConnId)
  | startRead (c : ConnId)
  | stopRead (c : ConnId)
deriving DecidableEq, Repr

def Call.conn? : Call → Option ConnId
  | .newConnection _ => none
  | .sendMessage c _ | .shutDown c | .forceClose c | .startRead c | .stopRead c => some c

/-- The next branch of `HandleEventWithGuard`. -/
inductive Stage
  | close
  | read
  | write
  | done
deriving DecidableEq, Repr

/-- A call of the loop thread that has not returned: a callback of a user, or
a function of the source that goes on after one. -/
inductive Frame
  | callback
  | handleEvent (c : ConnId) (stage : Stage)
  | handleWrite (c : ConnId)
deriving DecidableEq, Repr

/-- The local end of the writing side, by `HandleClose` or `ShutDownWrite`:
whether the peer, a broken write or `ForceClose` excuse it, and the messages
accepted before `ShutDown` that were not written completely. -/
structure Ended where
  conn : ConnId
  excused : Bool
  unflushed : List Message
deriving DecidableEq, Repr

/-- The history, which influences nothing. `failed` lists the failed assertions
of `StartWorking` and `HandleClose`, `shutDownAt` how many messages had been
accepted when `ShutDown` took effect. -/
structure Log where
  failed : List ConnId
  closed : List ConnId
  closeCbs : List ConnId
  accepted : List (ConnId × Message)
  shutDownAt : ConnId → Option ℕ
  excused : ConnId → Bool
  ended : List Ended

/-- Connections are numbered in the order of `StartWorking`. `running` is the
closure the loop thread is about to run, `calls` what another thread is about
to push. -/
structure World where
  loop : State Func Owner
  connectionSize : Int
  connections : ConnId → Bool
  created : ℕ
  conns : ConnId → TcpConnection
  stack : List Frame
  running : Option Func
  calls : ThreadId → Option Call
  log : Log

/-- The last byte of `m`, and all before it, has been written. -/
def Flushed (k : TcpConnection) (m : Message) : Prop :=
  ∃ i < k.sent.length, k.sent[i]? = some m ∧
    stream Message.data (k.sent.take (i + 1)) <+: k.written

instance (k : TcpConnection) (m : Message) : Decidable (Flushed k m) := by
  unfold Flushed
  infer_instance

namespace World

def create : World where
  loop := .create
  connectionSize := 0
  connections _ := false
  created := 0
  conns _ := .create ⟨false, false, false, false, false⟩
  stack := []
  running := none
  calls _ := none
  log := ⟨[], [], [], [], fun _ => none, fun _ => false, []⟩

/-- The messages accepted before `ShutDown` that have bytes to write. -/
def due (w : World) (c : ConnId) : List Message :=
  match w.log.shutDownAt c with
  | none => []
  | some n =>
    (w.log.accepted.take n).filterMap fun (c', m) => if c' = c ∧ m.data ≠ [] then some m else none

def unflushed (w : World) (c : ConnId) : List Message :=
  (w.due c).filter fun m => !decide (Flushed (w.conns c) m)

/-- `AddConnection` and `RemoveConnection`; the names in `connections_` are
those of the connections themselves. -/
def addConnection (w : World) (c : ConnId) : World :=
  { w with
    connections := Function.update w.connections c true
    connectionSize := w.connectionSize + 1 }

def removeConnection (w : World) (c : ConnId) : World :=
  { w with
    connections := Function.update w.connections c false
    connectionSize := w.connectionSize - 1 }

def noteEnded (w : World) (c : ConnId) (excused : Bool) : World :=
  { w with
    log := { w.log with
      excused := Function.update w.log.excused c (w.log.excused c || excused)
      ended := w.log.ended ++ [⟨c, w.log.excused c || excused, w.unflushed c⟩] } }

def noteClosed (w : World) (c : ConnId) : World :=
  { w with log := { w.log with closed := w.log.closed ++ [c] } }

def noteFailed (w : World) (c : ConnId) : World :=
  { w with log := { w.log with failed := w.log.failed ++ [c] } }

/-- Calls a callback; its code is up to the labels until it returns. -/
def callback (w : World) (c : ConnId) (cb : Callback) : World :=
  { w with
    stack := .callback :: w.stack
    log := { w.log with
      closeCbs := if cb = .close then w.log.closeCbs ++ [c] else w.log.closeCbs } }

def perform (c : ConnId) (w : World) : Effect → World
  | .updateEvents => { w with loop := w.loop.updateDispatch (.owned (.conn c)) }
  | .removeEvents => { w with loop := w.loop.removeDispatch (.owned (.conn c)) }
  | .addConnection => w.addConnection c
  | .removeConnection => w.removeConnection c
  | .queueHighWaterMark size => { w with loop := w.loop.queueInLoop (.highWaterMark c size) }
  | .shutDownWrite => w.noteEnded c false
  | .resumeHandleWrite => { w with stack := .handleWrite c :: w.stack }
  | .callback cb => w.callback c cb
  | .closed excused => (w.noteClosed c).noteEnded c excused
  | .assertFailed => w.noteFailed c

/-- A method's outcome: the new fields, then its calls one after the other. -/
def settle (w : World) (c : ConnId) (out : TcpConnection.Outcome) : World :=
  out.2.foldl (perform c) { w with conns := Function.update w.conns c out.1 }

def act (w : World) (c : ConnId) (op : TcpConnection.Op) : World :=
  w.settle c ((w.conns c).exec op)

def startWorking (w : World) (callbacks : Callbacks) : World :=
  { w with created := w.created + 1 }.settle w.created (TcpConnection.create callbacks).startWorking

/-- The loop thread has no call of its own to finish. -/
def idle (w : World) : Bool := w.stack.isEmpty && w.running.isNone

/-- The loop thread executes code of a user: in a callback, in a timer callback, in
the destructor of what an executed closure holds, or before and after `Loop`. -/
def userTurn (w : World) : Bool :=
  w.running.isNone && w.loop.loopWaking.isNone &&
    match w.stack with
    | .callback :: _ => true
    | [] =>
      match w.loop.phase with
      | .outside | .timers _ | .release => true
      | _ => false
    | _ => false

/-- Users know a connection once it has been created. -/
def knows (w : World) (call : Call) : Bool := call.conn?.all fun c => c < w.created

def setState (w : World) (c : ConnId) (state : ConnectState) : World :=
  { w with conns := Function.update w.conns c { w.conns c with state := state } }

def noteShutDown (w : World) (c : ConnId) : World :=
  { w with log := { w.log with
      shutDownAt := Function.update w.log.shutDownAt c (some w.log.accepted.length) } }

def noteExcused (w : World) (c : ConnId) : World :=
  { w with log := { w.log with excused := Function.update w.log.excused c true } }

/-- What a call does before it comes to its closure; `none` if it does not.
`spurious` makes the weak compare-and-exchange fail. -/
def check (w : World) (spurious : Bool) : Call → Option World
  | .newConnection _ => some w
  | .sendMessage c _ => if (w.conns c).state = .kConnected then some w else none
  | .shutDown c =>
    if (w.conns c).state = .kConnected ∧ spurious = false then
      some ((w.setState c .kDisconnecting).noteShutDown c)
    else none
  | .forceClose c =>
    if (w.conns c).state = .kConnected ∧ spurious = false then
      some ((w.setState c .kDisconnecting).noteExcused c)
    else if (w.conns c).state = .kDisconnecting then some (w.noteExcused c)
    else none
  | .startRead _ => some w
  | .stopRead _ => some w

/-- The closure of a call. A message is accepted with it. -/
def closure (w : World) : Call → World × Func
  | .newConnection callbacks => (w, .startWorking callbacks)
  | .sendMessage c data =>
    let m : Message := ⟨w.log.accepted.length, data⟩
    ({ w with log := { w.log with accepted := w.log.accepted ++ [(c, m)] } }, .send c m)
  | .shutDown c => (w, .shutDown c)
  | .forceClose c => (w, .forceClose c)
  | .startRead c => (w, .startRead c)
  | .stopRead c => (w, .stopRead c)

/-- On the loop thread: `ForceClose` queues its closure, the others run it. -/
def enterCall (w : World) (call : Call) : World :=
  let (w, f) := w.closure call
  match call with
  | .forceClose _ => { w with loop := w.loop.queueInLoop f }
  | _ => { w with running := some f }

/-- On another thread, up to `WakeUp`. -/
def pushCall (w : World) (t : ThreadId) (call : Call) : World :=
  let (w, f) := w.closure call
  { w with loop := w.loop.threadQueueInLoop t f, calls := Function.update w.calls t none }

/-- The steps of the loop that concern no connection, and the user's own
functions and dispatches. -/
def allows (w : World) : EventLoop.Label Func Owner → Bool
  | .enter | .leave | .iterate | .timersDone | .runFuncs | .swap | .funcsDone | .released =>
    w.idle
  | .wakeUp | .threadWakeUp _ => true
  | .threadExit t | .threadQueueInLoop t .user => (w.calls t).isNone
  | .exit | .queueInLoop .user => w.userTurn
  | .updateDispatch (.owned (.other _)) | .removeDispatch (.owned (.other _))
  | .destroy (.owned (.other _)) => w.userTurn
  | _ => false

/-- `SetRevents` on the reported dispatches. -/
def report (conns : ConnId → TcpConnection) :
    List (DispatchId Owner × Mask) → ConnId → TcpConnection
  | [] => conns
  | (.owned (.conn c), rv) :: rest =>
    report (Function.update conns c ((conns c).setRevents rv)) rest
  | _ :: rest => report conns rest

/-- `Dispatch::HandleEvent` up to the guard. A connection in `connections_` is
alive; `alive` says whether another pointer keeps one that is not. -/
def handleEvent (w : World) (alive : Bool) : DispatchId Owner → List Frame
  | .owned (.conn c) =>
    if (w.conns c).dispatch.tied && !(w.connections c || alive) then []
    else [.handleEvent c .close]
  | .owned (.other _) => [.callback]
  | .wakeup => []

/-- What the loop thread executes next on a connection, and the stack then. -/
def turn (w : World) (r : ReadResult) (wr : WriteResult) :
    Option (ConnId × TcpConnection.Op × List Frame) :=
  match w.running, w.stack with
  | some (.send c m), stack => some (c, .sendInLoop m wr, stack)
  | some (.shutDown c), stack => some (c, .shutDownInLoop, stack)
  | some (.forceClose c), stack => some (c, .forceCloseInLoop, stack)
  | some (.startRead c), stack => some (c, .startReadInLoop, stack)
  | some (.stopRead c), stack => some (c, .stopReadInLoop, stack)
  | none, .handleEvent c .close :: rest =>
    some (c, .handleEventClose, .handleEvent c .read :: rest)
  | none, .handleEvent c .read :: rest =>
    some (c, .handleEventRead r, .handleEvent c .write :: rest)
  | none, .handleEvent c .write :: rest =>
    some (c, .handleEventWrite wr, .handleEvent c .done :: rest)
  | none, .handleEvent c .done :: rest => some (c, .handleEventDone, rest)
  | none, .handleWrite c :: rest => some (c, .resumeHandleWrite, rest)
  | _, _ => none

end World

inductive Label
  | loop (a : EventLoop.Label Func Owner)
  | poll (events : List (DispatchId Owner × Mask))
  | handleEvent (reads alive : Bool)
  | exec
  | resume (r : ReadResult) (wr : WriteResult)
  | ret
  | setCallbacks (c : ConnId) (callbacks : Callbacks)
  | setHighWaterMark (c : ConnId) (size : ℕ)
  | retrieve (c : ConnId) (size : ℕ)
  | call (call : Call) (spurious : Bool)
  | threadCall (t : ThreadId) (call : Call) (spurious : Bool)
  | threadPush (t : ThreadId)

/-- The labels by which a user's code sets up or empties a connection. -/
def Label.op? : Label → Option (ConnId × TcpConnection.Op)
  | .setCallbacks c callbacks => some (c, .setCallbacks callbacks)
  | .setHighWaterMark c size => some (c, .setHighWaterMark size)
  | .retrieve c size => some (c, .retrieve size)
  | _ => none

open World in
def next (w : World) : Label → Option World
  | .loop a =>
    if w.allows a then (EventLoop.next w.loop a).map fun l => { w with loop := l } else none
  | .poll events =>
    if w.idle then
      (EventLoop.next w.loop (.poll (events.map Prod.fst))).map fun l =>
        { w with loop := l, conns := report w.conns events }
    else none
  | .handleEvent reads alive =>
    match w.idle, w.loop.phase with
    | true, .dispatch (d :: _) =>
      (EventLoop.next w.loop (.handleEvent reads)).map fun l =>
        { w with loop := l, stack := w.handleEvent alive d }
    | _, _ => none
  | .exec =>
    match w.idle, w.loop.phase with
    | true, .funcs (task :: _) =>
      (EventLoop.next w.loop .exec).map fun l => { w with loop := l, running := some task.func }
    | _, _ => none
  | .resume r wr =>
    if w.loop.loopWaking.isSome then none
    else
      match w.running with
      | some (.startWorking callbacks) => some ({ w with running := none }.startWorking callbacks)
      | some (.highWaterMark _ _) | some .user =>
        some { w with running := none, stack := .callback :: w.stack }
      | _ =>
        match w.turn r wr with
        | some (c, op, stack) =>
          if c < w.created then some ({ w with running := none, stack := stack }.act c op)
          else none
        | none => none
  | .ret =>
    match w.userTurn, w.stack with
    | true, .callback :: rest => some { w with stack := rest }
    | _, _ => none
  | .setCallbacks c callbacks =>
    if w.userTurn ∧ c < w.created then some (w.act c (.setCallbacks callbacks)) else none
  | .setHighWaterMark c size =>
    if w.userTurn ∧ c < w.created then some (w.act c (.setHighWaterMark size)) else none
  | .retrieve c size =>
    if w.userTurn ∧ c < w.created then some (w.act c (.retrieve size)) else none
  | .call call spurious =>
    if w.userTurn ∧ w.knows call then
      match w.check spurious call with
      | some w => some (w.enterCall call)
      | none => some w
    else none
  | .threadCall t call spurious =>
    if (w.calls t).isNone ∧ (w.loop.waking t).isNone ∧ w.knows call then
      match w.check spurious call with
      | some w => some { w with calls := Function.update w.calls t (some call) }
      | none => some w
    else none
  | .threadPush t =>
    match w.calls t with
    | some call => some (w.pushCall t call)
    | none => none

def machine : Machine World Label := ⟨World.create, next⟩

/-- All that a step can do, with its guards. -/
inductive Step : World → Label → World → Prop
  | loop {w : World} {a : EventLoop.Label Func Owner} {l : State Func Owner}
      (hallows : w.allows a = true) (hl : EventLoop.next w.loop a = some l) :
      Step w (.loop a) { w with loop := l }
  | poll {w : World} {events : List (DispatchId Owner × Mask)} {l : State Func Owner}
      (hidle : w.idle = true) (hl : EventLoop.next w.loop (.poll (events.map Prod.fst)) = some l) :
      Step w (.poll events) { w with loop := l, conns := World.report w.conns events }
  | handleEvent {w : World} {reads alive : Bool} {d : DispatchId Owner}
      {rest : List (DispatchId Owner)} {l : State Func Owner} (hidle : w.idle = true)
      (hphase : w.loop.phase = .dispatch (d :: rest))
      (hl : EventLoop.next w.loop (.handleEvent reads) = some l) :
      Step w (.handleEvent reads alive) { w with loop := l, stack := w.handleEvent alive d }
  | exec {w : World} {task : EventLoop.Task Func} {rest : List (EventLoop.Task Func)}
      {l : State Func Owner} (hidle : w.idle = true) (hphase : w.loop.phase = .funcs (task :: rest))
      (hl : EventLoop.next w.loop .exec = some l) :
      Step w .exec { w with loop := l, running := some task.func }
  | start {w : World} {r : ReadResult} {wr : WriteResult} {callbacks : Callbacks}
      (hrun : w.running = some (.startWorking callbacks)) (hwaking : w.loop.loopWaking = none) :
      Step w (.resume r wr) ({ w with running := none }.startWorking callbacks)
  | callback {w : World} {r : ReadResult} {wr : WriteResult} {f : Func}
      (hrun : w.running = some f) (hsend : ∀ c m, f ≠ .send c m)
      (hwaking : w.loop.loopWaking = none) :
      Step w (.resume r wr) { w with running := none, stack := .callback :: w.stack }
  | turn {w : World} {r : ReadResult} {wr : WriteResult} {c : ConnId} {op : TcpConnection.Op}
      {stack : List Frame} (hturn : w.turn r wr = some (c, op, stack)) (hc : c < w.created)
      (hwaking : w.loop.loopWaking = none) :
      Step w (.resume r wr) ({ w with running := none, stack := stack }.act c op)
  | ret {w : World} {rest : List Frame} (hstack : w.stack = .callback :: rest) :
      Step w .ret { w with stack := rest }
  | user {w : World} {a : Label} {c : ConnId} {op : TcpConnection.Op}
      (hop : a.op? = some (c, op)) (huser : w.userTurn = true) (hc : c < w.created) :
      Step w a (w.act c op)
  | callIgnored {w : World} {call : Call} {spurious : Bool} : Step w (.call call spurious) w
  | call {w w' : World} {call : Call} {spurious : Bool} (huser : w.userTurn = true)
      (hknows : w.knows call = true) (hcheck : w.check spurious call = some w') :
      Step w (.call call spurious) (w'.enterCall call)
  | threadCallIgnored {w : World} {t : ThreadId} {call : Call} {spurious : Bool} :
      Step w (.threadCall t call spurious) w
  | threadCall {w w' : World} {t : ThreadId} {call : Call} {spurious : Bool}
      (hcalls : w.calls t = none) (hknows : w.knows call = true)
      (hcheck : w.check spurious call = some w') (hwaking : w.loop.waking t = none) :
      Step w (.threadCall t call spurious)
        { w' with calls := Function.update w'.calls t (some call) }
  | threadPush {w : World} {t : ThreadId} {call : Call} (hcall : w.calls t = some call) :
      Step w (.threadPush t) (w.pushCall t call)

theorem step_of_resume {w w' : World} {r : ReadResult} {wr : WriteResult}
    (ha : next w (.resume r wr) = some w') : Step w (.resume r wr) w' := by
  simp only [next] at ha
  split at ha
  · cases ha
  rename_i hwaking
  rw [Option.not_isSome_iff_eq_none] at hwaking
  split at ha
  · rename_i hrun
    cases ha
    exact .start hrun hwaking
  · rename_i hrun
    cases ha
    exact .callback hrun (by simp) hwaking
  · rename_i hrun
    cases ha
    exact .callback hrun (by simp) hwaking
  · split at ha
    · rename_i hturn
      split at ha
      · rename_i hc
        cases ha
        exact .turn hturn hc hwaking
      · cases ha
    · cases ha

theorem step_of_next {w w' : World} {a : Label} (ha : next w a = some w') : Step w a w' := by
  cases a with
  | loop a =>
    simp only [next] at ha
    split at ha
    · obtain ⟨l, hl, rfl⟩ := Option.map_eq_some_iff.mp ha
      exact .loop ‹_› hl
    · cases ha
  | poll events =>
    simp only [next] at ha
    split at ha
    · obtain ⟨l, hl, rfl⟩ := Option.map_eq_some_iff.mp ha
      exact .poll ‹_› hl
    · cases ha
  | handleEvent reads alive =>
    simp only [next] at ha
    split at ha
    · obtain ⟨l, hl, rfl⟩ := Option.map_eq_some_iff.mp ha
      exact .handleEvent ‹_› ‹_› hl
    · cases ha
  | exec =>
    simp only [next] at ha
    split at ha
    · obtain ⟨l, hl, rfl⟩ := Option.map_eq_some_iff.mp ha
      exact .exec ‹_› ‹_› hl
    · cases ha
  | resume r wr => exact step_of_resume ha
  | ret =>
    simp only [next] at ha
    split at ha
    · cases ha
      exact .ret ‹_›
    · cases ha
  | setCallbacks c callbacks =>
    simp only [next] at ha
    split at ha
    · rename_i hguard
      cases ha
      exact .user rfl hguard.1 hguard.2
    · cases ha
  | setHighWaterMark c size =>
    simp only [next] at ha
    split at ha
    · rename_i hguard
      cases ha
      exact .user rfl hguard.1 hguard.2
    · cases ha
  | retrieve c size =>
    simp only [next] at ha
    split at ha
    · rename_i hguard
      cases ha
      exact .user rfl hguard.1 hguard.2
    · cases ha
  | call call spurious =>
    simp only [next] at ha
    split at ha
    · rename_i hguard
      split at ha
      · rename_i hcheck
        cases ha
        exact .call hguard.1 hguard.2 hcheck
      · cases ha
        exact .callIgnored
    · cases ha
  | threadCall t call spurious =>
    simp only [next] at ha
    split at ha
    · rename_i hguard
      split at ha
      · rename_i hcheck
        cases ha
        exact .threadCall (Option.isNone_iff_eq_none.mp hguard.1) hguard.2.2 hcheck
          (Option.isNone_iff_eq_none.mp hguard.2.1)
      · cases ha
        exact .threadCallIgnored
    · cases ha
  | threadPush t =>
    simp only [next] at ha
    split at ha
    · cases ha
      exact .threadPush ‹_›
    · cases ha

namespace World

section Settle

variable {β : Type*} (w : World) (c : ConnId)

/-- What none of the calls of a method changes. -/
theorem foldl_perform_eq (g : World → β) (effects : List Effect)
    (hg : ∀ w, ∀ e ∈ effects, g (perform c w e) = g w) :
    g (effects.foldl (perform c) w) = g w := by
  induction effects generalizing w with
  | nil => rfl
  | cons e rest ih =>
    rw [List.foldl_cons, ih _ fun w e he => hg w e (List.mem_cons_of_mem _ he)]
    exact hg w e List.mem_cons_self

@[simp] theorem settle_conns (out : TcpConnection.Outcome) :
    (w.settle c out).conns = Function.update w.conns c out.1 :=
  foldl_perform_eq _ c World.conns out.2 fun _ e _ => by cases e <;> rfl

@[simp] theorem settle_created (out : TcpConnection.Outcome) :
    (w.settle c out).created = w.created :=
  foldl_perform_eq _ c World.created out.2 fun _ e _ => by cases e <;> rfl

@[simp] theorem settle_running (out : TcpConnection.Outcome) :
    (w.settle c out).running = w.running :=
  foldl_perform_eq _ c World.running out.2 fun _ e _ => by cases e <;> rfl

@[simp] theorem settle_calls (out : TcpConnection.Outcome) :
    (w.settle c out).calls = w.calls :=
  foldl_perform_eq _ c World.calls out.2 fun _ e _ => by cases e <;> rfl

@[simp] theorem act_conns (op : TcpConnection.Op) :
    (w.act c op).conns = Function.update w.conns c ((w.conns c).exec op).1 := settle_conns _ _ _

end Settle

section Calls

variable (w : World) (call : Call)

@[simp] theorem closure_conns : (w.closure call).1.conns = w.conns := by cases call <;> rfl

@[simp] theorem closure_created : (w.closure call).1.created = w.created := by cases call <;> rfl

@[simp] theorem enterCall_conns : (w.enterCall call).conns = w.conns := by cases call <;> rfl

@[simp] theorem enterCall_created : (w.enterCall call).created = w.created := by cases call <;> rfl

@[simp] theorem pushCall_conns (t : ThreadId) : (w.pushCall t call).conns = w.conns :=
  closure_conns w call

@[simp] theorem pushCall_created (t : ThreadId) : (w.pushCall t call).created = w.created :=
  closure_created w call

/-- Before its closure a call changes nothing but the state, from connected to
disconnecting. -/
theorem check_cases {w w' : World} {spurious : Bool} {call : Call}
    (h : w.check spurious call = some w') :
    w' = w ∨ ∃ c, call.conn? = some c ∧
      ((w' = w.noteExcused c ∧ call = .forceClose c) ∨
      ((w.conns c).state = .kConnected ∧
        ((call = .shutDown c ∧ w' = (w.setState c .kDisconnecting).noteShutDown c) ∨
          (call = .forceClose c ∧ w' = (w.setState c .kDisconnecting).noteExcused c)))) := by
  cases call with
  | newConnection callbacks =>
    cases h
    exact .inl rfl
  | sendMessage c data =>
    simp only [check] at h
    split at h
    · cases h
      exact .inl rfl
    · cases h
  | shutDown c =>
    simp only [check] at h
    split at h
    · rename_i hguard
      cases h
      exact .inr ⟨c, rfl, .inr ⟨hguard.1, .inl ⟨rfl, rfl⟩⟩⟩
    · cases h
  | forceClose c =>
    simp only [check] at h
    split at h
    · rename_i hguard
      cases h
      exact .inr ⟨c, rfl, .inr ⟨hguard.1, .inr ⟨rfl, rfl⟩⟩⟩
    · split at h
      · cases h
        exact .inr ⟨c, rfl, .inl ⟨rfl, rfl⟩⟩
      · cases h
  | startRead c =>
    cases h
    exact .inl rfl
  | stopRead c =>
    cases h
    exact .inl rfl

end Calls

/-- What `Poll` reports about a connection. -/
theorem report_cases (conns : ConnId → TcpConnection) (events : List (DispatchId Owner × Mask))
    (c : ConnId) : ∃ rv, report conns events c = (conns c).setRevents rv := by
  induction events generalizing conns with
  | nil => exact ⟨(conns c).dispatch.revents, rfl⟩
  | cons event rest ih =>
    obtain ⟨d, rv⟩ := event
    cases d with
    | wakeup => exact ih conns
    | owned o =>
      cases o with
      | other k => exact ih conns
      | conn c' =>
        obtain ⟨rv', hrv'⟩ := ih (Function.update conns c' ((conns c').setRevents rv))
        refine ⟨rv', ?_⟩
        rw [report, hrv']
        by_cases heq : c = c'
        · subst c'
          rw [Function.update_self]
          rfl
        · rw [Function.update_of_ne heq]

end World

end Voyager.ConnectionLoop
