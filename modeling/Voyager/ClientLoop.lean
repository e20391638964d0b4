import Voyager.EventLoop
import Voyager.TcpConnector

/-!
One `TcpClient` of core/tcp_client.h and core/tcp_client.cc with its connector, in the
loop it belongs to. `Connect` and `Close` are called by code of users on the loop thread,
which runs in callbacks, and by other threads, for which reading the flag, pushing the
closure and writing the flag are separate steps. Labels carry what the code does not
decide: the answers of connect(2), of the socket and of `Poll`, when a retry timer is due,
when a connection closes and when its last owner lets go of it, the callers' next call and
whether `compare_exchange_weak` fails without a reason.
-/
namespace Voyager.ClientLoop

open Lib.Runs EventLoop

abbrev ConnId := ℕ

/-- The dispatches of the connector in the order of their creation, and all others. -/
inductive Owner
  | connector (n : ℕ)
  | other (k : ℕ)
deriving DecidableEq, Repr

/-- The closures in `funcs_`; `user` is any that does not hold the connector. -/
inductive Func
  | start (retry : Bool)
  | stop
  | resetDispatch
  | user
deriving DecidableEq, Repr

def Func.isStart : Func → Bool
  | .start _ => true
  | _ => false

/-- `Connect` and `Close` of the client; `start` and `stop` are those of the connector,
without the client's check. -/
inductive Call
  | connect (retry : Bool)
  | close
  | start (retry : Bool)
  | stop
deriving DecidableEq, Repr

/-- What a call has the connector do in the loop. -/
def Call.func : Call → Func
  | .connect retry | .start retry => .start retry
  | .close | .stop => .stop

/-- What a call writes to `connect_` of the client in the end. -/
def Call.sets : Call → Option Bool
  | .connect _ => some true
  | .close => some false
  | .start _ | .stop => none

/-- What another thread still has to do for its call. -/
inductive Pending
  | push (call : Call)
  | set (value : Bool)
deriving DecidableEq, Repr

/-- A call of the loop thread that has not returned: a callback of a user, the branches
left of `HandleEventWithGuard`, `NewConnection` after `StartWorking`, or a call of the
client after that of the connector. -/
inductive Frame
  | callback
  | handleEvent (branches : ℕ)
  | newConnection (c : ConnId)
  | set (value : Bool)
deriving DecidableEq, Repr

/-- `TcpClient`; `weak` is the connection `weak_ptr_` was made from, `alive` says that the
destructor has not run. -/
structure Client where
  connect : Bool
  weak : Option ConnId
  alive : Bool
deriving DecidableEq, Repr

/-- The history, which influences nothing: failed assertions of `StartInLoop`, entries of
`Connect` while an attempt was in progress, dispatches that `dispatch_.reset` destroyed in
the poller, new-connection callbacks after the destructor of the client. -/
structure Log where
  failed : ℕ
  overlapping : ℕ
  destroyed : List ℕ
  late : ℕ
deriving DecidableEq, Repr

/-- `timers` counts the retry timers in the loop. Connections are numbered in the order of
`NewConnection`; those in `closed` have been closed and still have an owner. -/
structure World where
  loop : State Func Owner
  client : Client
  connector : TcpConnector
  timers : ℕ
  created : ℕ
  opened : List ConnId
  closed : List ConnId
  stack : List Frame
  calls : List (ThreadId × Pending)
  log : Log

namespace World

def create : World where
  loop := .create
  client := ⟨false, none, true⟩
  connector := .create
  timers := 0
  created := 0
  opened := []
  closed := []
  stack := []
  calls := []
  log := ⟨0, 0, [], 0⟩

variable (w : World)

/-- The dispatch of the connector is in the poller. -/
def registered (n : ℕ) : Bool := w.loop.registered (.owned (.connector n))

def queued : List Func := w.loop.funcs.map Task.func
def batched : List Func := w.loop.batch.map Task.func

/-- The closures that wait for the loop thread. -/
def waiting : List Func := w.batched ++ w.queued

/-- When a handler is called: somebody owns the connector, which is the client, a retry
timer or a closure. -/
def held : Bool := w.client.alive || decide (0 < w.timers) || w.waiting.any (· ≠ .user)

/-- The handlers of the connector's dispatches that are running, by the branches they have
left. -/
def handling : List ℕ :=
  w.stack.filterMap fun
    | .handleEvent n => some n
    | _ => none

/-- An attempt is in progress. -/
def attempting (state : TcpConnector.ConnectState) : Bool :=
  state = .kConnecting || decide (0 < w.timers)

def noteFailed : World := { w with log := { w.log with failed := w.log.failed + 1 } }

def noteEntered (state : TcpConnector.ConnectState) : World :=
  { w with
    log := { w.log with
      overlapping := if w.attempting state then w.log.overlapping + 1 else w.log.overlapping } }

def destroyDispatch (n : ℕ) : World :=
  { w with
    loop := w.loop.destroy (.owned (.connector n))
    log := { w.log with
      destroyed := if w.registered n then n :: w.log.destroyed else w.log.destroyed } }

/-- `NewConnection` up to the connection callback of `StartWorking`. -/
def newConnection : World :=
  { w with
    created := w.created + 1
    opened := w.created :: w.opened
    stack := .callback :: .newConnection w.created :: w.stack
    log := { w.log with late := if w.client.alive then w.log.late else w.log.late + 1 } }

def perform : TcpConnector.Effect → World
  | .assertFailed => w.noteFailed
  | .enterConnect state => w.noteEntered state
  | .destroyDispatch n => w.destroyDispatch n
  | .updateEvents n => { w with loop := w.loop.updateDispatch (.owned (.connector n)) }
  | .removeEvents n => { w with loop := w.loop.removeDispatch (.owned (.connector n)) }
  | .queueReset => { w with loop := w.loop.queueInLoop .resetDispatch }
  | .runAfter _ => { w with timers := w.timers + 1 }
  | .connectFailure => { w with stack := .callback :: w.stack }
  | .newConnection => w.newConnection

/-- A method's outcome: the new fields, then its calls one after the other. -/
def settle (out : TcpConnector.Outcome) : World :=
  out.2.foldl perform { w with connector := out.1 }

def act (op : TcpConnector.Op) : World := w.settle (w.connector.exec op)

/-- Runs a closure. -/
def runFunc (err : TcpConnector.Err) : Func → World
  | .start retry => w.act (.start retry err)
  | .stop => w.act .stopInLoop
  | .resetDispatch => w.act .dispatchReset
  | .user => { w with stack := .callback :: w.stack }

/-- The loop thread has no call of its own to finish. -/
def idle : Bool := w.stack.isEmpty

/-- The loop thread executes code of a user: in a callback, in a timer callback, in the
destructor of what an executed closure holds, or before and after `Loop`. -/
def userTurn : Bool :=
  w.loop.loopWaking.isNone &&
    match w.stack with
    | .callback :: _ => true
    | [] =>
      match w.loop.phase with
      | .outside | .timers _ | .release => true
      | _ => false
    | _ => false

def calling (t : ThreadId) : Bool := w.calls.any fun p => p.1 = t

def setConnect (value : Bool) : World := { w with client := { w.client with connect := value } }

/-- `weak_ptr_.lock()` -/
def lock : Bool := w.client.weak.any fun c => c ∈ w.opened ∨ c ∈ w.closed

/-- What the client does before it calls the connector; `none` if it does not. `spurious`
makes the weak compare-and-exchange fail. -/
def check (spurious : Bool) : Call → Option World
  | .connect _ =>
    if w.client.connect ∧ (w.lock ∨ spurious) then none else some (w.setConnect false)
  | .close => if w.client.connect then some w else none
  | .start _ | .stop => some w

/-- On the loop thread, which runs the closure of the connector at once. -/
def enterCall (call : Call) (err : TcpConnector.Err) : World :=
  { w with stack := call.sets.toList.map Frame.set ++ w.stack }.runFunc err call.func

/-- On another thread, up to `WakeUp`. -/
def pushCall (i : ℕ) (t : ThreadId) (call : Call) : World :=
  { w with
    loop := w.loop.threadQueueInLoop t call.func
    calls :=
      match call.sets with
      | some value => w.calls.set i (t, .set value)
      | none => w.calls.eraseIdx i }

/-- The steps of the loop that do not concern the connector, and the user's own functions
and dispatches. -/
def allows : EventLoop.Label Func Owner → Bool
  | .enter | .leave | .iterate | .timersDone | .runFuncs | .swap | .funcsDone | .released =>
    w.idle
  | .wakeUp | .threadWakeUp _ => true
  | .threadExit t | .threadQueueInLoop t .user => !w.calling t
  | .exit | .queueInLoop .user => w.userTurn
  | .updateDispatch (.owned (.other _)) | .removeDispatch (.owned (.other _))
  | .destroy (.owned (.other _)) => w.userTurn
  | _ => false

/-- `SetRevents` on the reported dispatch of the connector. -/
def report (k : TcpConnector) : List (DispatchId Owner × Mask) → TcpConnector
  | [] => k
  | (.owned (.connector n), rv) :: rest => report (k.setRevents n rv) rest
  | _ :: rest => report k rest

/-- `Dispatch::HandleEvent` up to the guard. A dispatch that has been destroyed, by itself
or with the connector, does nothing. -/
def handleEvent : DispatchId Owner → List Frame
  | .owned (.connector n) =>
    if w.held ∧ w.connector.current = some n then [.handleEvent w.connector.branches] else []
  | .owned (.other _) => [.callback]
  | .wakeup => []

end World

inductive Label
  | loop (a : EventLoop.Label Func Owner)
  | poll (events : List (DispatchId Owner × Mask))
  | handleEvent (reads : Bool)
  | exec (err : TcpConnector.Err)
  | fireRetry (err : TcpConnector.Err)
  | resume (r : TcpConnector.SocketResult)
  | ret
  | call (call : Call) (spurious : Bool) (err : TcpConnector.Err)
  | threadCall (t : ThreadId) (call : Call) (spurious : Bool)
  | threadStep (i : ℕ)
  | destroy
  | closeConnection (c : ConnId)
  | release (c : ConnId)

open World in
def next (w : World) : Label → Option World
  | .loop a =>
    if w.allows a then (EventLoop.next w.loop a).map fun l => { w with loop := l } else none
  | .poll events =>
    if w.idle then
      (EventLoop.next w.loop (.poll (events.map Prod.fst))).map fun l =>
        { w with loop := l, connector := report w.connector events }
    else none
  | .handleEvent reads =>
    match w.idle, w.loop.phase with
    | true, .dispatch (d :: _) =>
      (EventLoop.next w.loop (.handleEvent reads)).map fun l =>
        { w with loop := l, stack := w.handleEvent d }
    | _, _ => none
  | .exec err =>
    match w.idle, w.loop.phase with
    | true, .funcs (task :: _) =>
      (EventLoop.next w.loop .exec).map fun l => { w with loop := l }.runFunc err task.func
    | _, _ => none
  | .fireRetry err =>
    match w.idle, w.loop.phase, w.loop.loopWaking, w.timers with
    | true, .timers _, none, n + 1 => some ({ w with timers := n }.act (.startInLoop err))
    | _, _, _, _ => none
  | .resume r =>
    match w.loop.loopWaking, w.stack with
    | none, .handleEvent 0 :: rest => some { w with stack := rest }
    | none, .handleEvent (n + 1) :: rest =>
      some ({ w with stack := .handleEvent n :: rest }.act (.handleEvent r))
    | none, .newConnection c :: rest =>
      some { w with
        stack := rest
        client := { w.client with weak := some c }
        connector := w.connector.newConnectionDone }
    | none, .set value :: rest => some ({ w with stack := rest }.setConnect value)
    | _, _ => none
  | .ret =>
    match w.userTurn, w.stack with
    | true, .callback :: rest => some { w with stack := rest }
    | _, _ => none
  | .call call spurious err =>
    if w.userTurn ∧ w.client.alive then
      match w.check spurious call with
      | some w => some (w.enterCall call err)
      | none => some w
    else none
  | .threadCall t call spurious =>
    if !w.calling t ∧ (w.loop.waking t).isNone ∧ w.client.alive then
      match w.check spurious call with
      | some w => some { w with calls := w.calls ++ [(t, .push call)] }
      | none => some w
    else none
  | .threadStep i =>
    match w.calls[i]? with
    | some (t, .push call) => some (w.pushCall i t call)
    | some (t, .set value) =>
      if (w.loop.waking t).isNone then
        some ({ w with calls := w.calls.eraseIdx i }.setConnect value)
      else none
    | none => none
  | .destroy =>
    if w.client.alive ∧ w.calls = [] then
      some { w with client := { w.client with alive := false } }
    else none
  | .closeConnection c =>
    if c ∈ w.opened then some { w with opened := w.opened.erase c, closed := c :: w.closed }
    else none
  | .release c =>
    if c ∈ w.closed then some { w with closed := w.closed.erase c } else none

def machine : Machine World Label := ⟨World.create, next⟩

/-- The step executes the closure of `Start`. -/
def World.starts (w : World) : Label → Bool
  | .exec _ => w.loop.batch.head?.any fun task => task.func.isStart
  | .call call spurious _ => (w.check spurious call).isSome && call.func.isStart
  | _ => false

/-- All that a step can do, with its guards. -/
inductive Step : World → Label → World → Prop
  | loop {w : World} {a : EventLoop.Label Func Owner} {l : State Func Owner}
      (hallows : w.allows a = true) (hl : EventLoop.next w.loop a = some l) :
      Step w (.loop a) { w with loop := l }
  | poll {w : World} {events : List (DispatchId Owner × Mask)} {l : State Func Owner}
      (hidle : w.stack = []) (hl : EventLoop.next w.loop (.poll (events.map Prod.fst)) = some l) :
      Step w (.poll events) { w with loop := l, connector := World.report w.connector events }
  | handleEvent {w : World} {reads : Bool} {d : DispatchId Owner} {rest : List (DispatchId Owner)}
      {l : State Func Owner} (hidle : w.stack = []) (hphase : w.loop.phase = .dispatch (d :: rest))
      (hl : EventLoop.next w.loop (.handleEvent reads) = some l) :
      Step w (.handleEvent reads) { w with loop := l, stack := w.handleEvent d }
  | exec {w : World} {err : TcpConnector.Err} {task : EventLoop.Task Func}
      {rest : List (EventLoop.Task Func)} {l : State Func Owner} (hidle : w.stack = [])
      (hphase : w.loop.phase = .funcs (task :: rest))
      (hl : EventLoop.next w.loop .exec = some l) :
      Step w (.exec err) ({ w with loop := l }.runFunc err task.func)
  | fireRetry {w : World} {err : TcpConnector.Err} {ds : List (DispatchId Owner)} {n : ℕ}
      (hidle : w.stack = []) (hphase : w.loop.phase = .timers ds) (htimers : w.timers = n + 1) :
      Step w (.fireRetry err) ({ w with timers := n }.act (.startInLoop err))
  | handled {w : World} {r : TcpConnector.SocketResult} {rest : List Frame}
      (hstack : w.stack = .handleEvent 0 :: rest) : Step w (.resume r) { w with stack := rest }
  | branch {w : World} {r : TcpConnector.SocketResult} {n : ℕ} {rest : List Frame}
      (hstack : w.stack = .handleEvent (n + 1) :: rest) :
      Step w (.resume r) ({ w with stack := .handleEvent n :: rest }.act (.handleEvent r))
  | connected {w : World} {r : TcpConnector.SocketResult} {c : ConnId} {rest : List Frame}
      (hstack : w.stack = .newConnection c :: rest) :
      Step w (.resume r) { w with
        stack := rest
        client := { w.client with weak := some c }
        connector := w.connector.newConnectionDone }
  | set {w : World} {r : TcpConnector.SocketResult} {value : Bool} {rest : List Frame}
      (hstack : w.stack = .set value :: rest) :
      Step w (.resume r) ({ w with stack := rest }.setConnect value)
  | ret {w : World} {rest : List Frame} (hstack : w.stack = .callback :: rest) :
      Step w .ret { w with stack := rest }
  | callIgnored {w : World} {call : Call} {spurious : Bool} {err : TcpConnector.Err}
      (hcheck : w.check spurious call = none) : Step w (.call call spurious err) w
  | call {w w' : World} {call : Call} {spurious : Bool} {err : TcpConnector.Err}
      (huser : w.userTurn = true) (halive : w.client.alive = true)
      (hcheck : w.check spurious call = some w') :
      Step w (.call call spurious err) (w'.enterCall call err)
  | threadCallIgnored {w : World} {t : ThreadId} {call : Call} {spurious : Bool} :
      Step w (.threadCall t call spurious) w
  | threadCall {w w' : World} {t : ThreadId} {call : Call} {spurious : Bool}
      (halive : w.client.alive = true) (hcheck : w.check spurious call = some w') :
      Step w (.threadCall t call spurious) { w' with calls := w'.calls ++ [(t, .push call)] }
  | threadPush {w : World} {i : ℕ} {t : ThreadId} {call : Call}
      (hcall : w.calls[i]? = some (t, .push call)) : Step w (.threadStep i) (w.pushCall i t call)
  | threadSet {w : World} {i : ℕ} {t : ThreadId} {value : Bool}
      (hcall : w.calls[i]? = some (t, .set value)) :
      Step w (.threadStep i) ({ w with calls := w.calls.eraseIdx i }.setConnect value)
  | destroy {w : World} (halive : w.client.alive = true) (hcalls : w.calls = []) :
      Step w .destroy { w with client := { w.client with alive := false } }
  | closeConnection {w : World} {c : ConnId} (hc : c ∈ w.opened) :
      Step w (.closeConnection c) { w with opened := w.opened.erase c, closed := c :: w.closed }
  | release {w : World} {c : ConnId} :
      Step w (.release c) { w with closed := w.closed.erase c }

theorem World.stack_of_idle {w : World} (hidle : w.idle = true) : w.stack = [] :=
  List.isEmpty_iff.mp hidle

theorem step_of_resume {w w' : World} {r : TcpConnector.SocketResult}
    (ha : next w (.resume r) = some w') : Step w (.resume r) w' := by
  simp only [next] at ha
  split at ha
  · cases ha
    exact .handled ‹_›
  · cases ha
    exact .branch ‹_›
  · cases ha
    exact .connected ‹_›
  · cases ha
    exact .set ‹_›
  · cases ha

theorem step_of_next {w w' : World} {a : Label} (ha : next w a = some w') : Step w a w' := by
  cases a with
  | loop a =>
    simp only [next] at ha
    split at ha
    · obtain ⟨l, hl, rfl⟩ := Option.map_eq_some_iff.mp ha
      exact .loop ‹_› hl
    · cases ha
  | poll events =>
    simp only [next] at ha
    split at ha
    · obtain ⟨l, hl, rfl⟩ := Option.map_eq_some_iff.mp ha
      exact .poll (World.stack_of_idle ‹_›) hl
    · cases ha
  | handleEvent reads =>
    simp only [next] at ha
    split at ha
    · obtain ⟨l, hl, rfl⟩ := Option.map_eq_some_iff.mp ha
      exact .handleEvent (World.stack_of_idle ‹_›) ‹_› hl
    · cases ha
  | exec err =>
    simp only [next] at ha
    split at ha
    · obtain ⟨l, hl, rfl⟩ := Option.map_eq_some_iff.mp ha
      exact .exec (World.stack_of_idle ‹_›) ‹_› hl
    · cases ha
  | fireRetry err =>
    simp only [next] at ha
    split at ha
    · cases ha
      exact .fireRetry (World.stack_of_idle ‹_›) ‹_› ‹_›
    · cases ha
  | resume r => exact step_of_resume ha
  | ret =>
    simp only [next] at ha
    split at ha
    · cases ha
      exact .ret ‹_›
    · cases ha
  | call call spurious err =>
    simp only [next] at ha
    split at ha
    · rename_i hguard
      split at ha
      · rename_i hcheck
        cases ha
        exact .call hguard.1 hguard.2 hcheck
      · rename_i hcheck
        cases ha
        exact .callIgnored hcheck
    · cases ha
  | threadCall t call spurious =>
    simp only [next] at ha
    split at ha
    · rename_i hguard
      split at ha
      · rename_i hcheck
        cases ha
        exact .threadCall hguard.2.2 hcheck
      · cases ha
        exact .threadCallIgnored
    · cases ha
  | threadStep i =>
    simp only [next] at ha
    split at ha
    · cases ha
      exact .threadPush ‹_›
    · split at ha
      · cases ha
        exact .threadSet ‹_›
      · cases ha
    · cases ha
  | destroy =>
    simp only [next] at ha
    split at ha
    · rename_i hguard
      cases ha
      exact .destroy hguard.1 hguard.2
    · cases ha
  | closeConnection c =>
    simp only [next] at ha
    split at ha
    · cases ha
      exact .closeConnection ‹_›
    · cases ha
  | release c =>
    simp only [next] at ha
    split at ha
    · cases ha
      exact .release
    · cases ha

end Voyager.ClientLoop
