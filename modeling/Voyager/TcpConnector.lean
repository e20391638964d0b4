import Voyager.Dispatch
import Mathlib.Logic.Function.Basic

/-!
`TcpConnector` of core/tcp_connector.h and core/tcp_connector.cc: one attempt to
connect after the other, each with a socket and a dispatch of its own. The
outcome of a method is the new fields and the calls it makes, in their order;
what connect(2) and the socket answer is an argument. A failure callback that is
not set is one that does nothing.
-/
namespace Voyager

namespace TcpConnector

inductive ConnectState
  | kDisConnected
  | kConnected
  | kConnecting
deriving DecidableEq, Repr

/-- `err` in `Connect`: zero or the `errno` of connect(2). -/
inductive Err
  | zero
  | einprogress
  | eintr
  | eisconn
  | eagain
  | eaddrinuse
  | eaddrnotavail
  | econnrefused
  | enetunreach
  | eacces
  | eperm
  | eafnosupport
  | ealready
  | ebadf
  | efault
  | enotsock
  | enametoolong
  | other
deriving DecidableEq, Repr

/-- What `CheckSocketError` and `IsSelfConnect` say about the socket. -/
inductive SocketResult
  | error
  | selfConnect
  | connected
deriving DecidableEq, Repr

def kMaxRetryTime : ℕ := 30000
def kInitRetryTime : ℕ := 1000

/-- The calls of a method: the poller, the loop's queue and timers, the two
callbacks, and `dispatch_.reset` on the dispatch numbered `n`. `enterConnect`
stands where `Connect` begins, with `state_` there. -/
inductive Effect
  | assertFailed
  | enterConnect (state : ConnectState)
  | destroyDispatch (n : ℕ)
  | updateEvents (n : ℕ)
  | removeEvents (n : ℕ)
  | queueReset
  | runAfter (delay : ℕ)
  | connectFailure
  | newConnection
deriving DecidableEq, Repr

/-- Which dispatches are in the poller after a call. -/
def Effect.registers (registered : ℕ → Bool) : Effect → ℕ → Bool
  | .updateEvents n => Function.update registered n true
  | .removeEvents n => Function.update registered n false
  | _ => registered

/-- It neither enters `Connect` nor destroys a dispatch. -/
def Effect.isQuiet : Effect → Bool
  | .enterConnect _ | .destroyDispatch _ => false
  | _ => true

def Effect.isRunAfter : Effect → Bool
  | .runAfter _ => true
  | _ => false

end TcpConnector

/-- `dispatch_` with its number; `dispatches` counts those created so far. -/
structure TcpConnector where
  state : TcpConnector.ConnectState
  connect_ : Bool
  retry_ : Bool
  retryTime : ℕ
  dispatch : Option (ℕ × Dispatch)
  dispatches : ℕ
deriving DecidableEq, Repr

namespace TcpConnector

abbrev Outcome := TcpConnector × List Effect

def create : TcpConnector where
  state := .kDisConnected
  connect_ := false
  retry_ := true
  retryTime := kInitRetryTime
  dispatch := none
  dispatches := 0

variable (k : TcpConnector)

/-- The number of the current dispatch. -/
def current : Option ℕ := k.dispatch.map Prod.fst

/-- `dispatch_.reset` destroys the dispatch that is current then. -/
def destroys : List Effect := k.current.toList.map .destroyDispatch

/-- `Connecting`. The new dispatch exists before `reset` destroys the old one. -/
def connecting : Outcome :=
  ({ k with
      state := .kConnecting
      dispatch := some (k.dispatches, Dispatch.create.tie.enableWrite)
      dispatches := k.dispatches + 1 },
    k.destroys ++ [.updateEvents k.dispatches])

/-- `Retry`. -/
def retry : Outcome :=
  let k := { k with state := .kDisConnected }
  if !k.retry_ then (k, [.connectFailure])
  else if k.connect_ then
    ({ k with
        retryTime := if k.retryTime * 2 < kMaxRetryTime then k.retryTime * 2 else kMaxRetryTime },
      [.runAfter k.retryTime])
  else (k, [])

/-- `Connect`. -/
def connect (err : Err) : Outcome :=
  let out : Outcome :=
    match err with
    | .zero | .einprogress | .eintr | .eisconn => k.connecting
    | .eagain | .eaddrinuse | .eaddrnotavail | .econnrefused | .enetunreach => k.retry
    | _ => (k, [.connectFailure])
  (out.1, .enterConnect k.state :: out.2)

/-- `StartInLoop`, also the callback of a retry timer. The code goes on after a failed
assertion, as a release build does. -/
def startInLoop (err : Err) : Outcome :=
  let failed : List Effect := if k.state = .kDisConnected then [] else [.assertFailed]
  if k.connect_ then ((k.connect err).1, failed ++ (k.connect err).2) else (k, failed)

/-- The closure of `Start`. -/
def start (retry : Bool) (err : Err) : Outcome :=
  { k with retry_ := retry, connect_ := true }.startInLoop err

/-- `ResetDispatch`. -/
def resetDispatch : Outcome :=
  match k.dispatch with
  | none => (k, [])
  | some (n, d) =>
    let (d, calls) := d.disableAll
    ({ k with dispatch := some (n, d) },
      (if calls then [.updateEvents n] else []) ++ [.removeEvents n, .queueReset])

/-- The closure of `ResetDispatch`. -/
def dispatchReset : Outcome := ({ k with dispatch := none }, k.destroys)

/-- `StopInLoop`. -/
def stopInLoop : Outcome :=
  let k := { k with connect_ := false }
  if k.state = .kConnecting then { k with state := .kDisConnected }.resetDispatch else (k, [])

/-- `HandleEvent`, up to the new-connection callback. -/
def handleEvent (r : SocketResult) : Outcome :=
  if k.state = .kConnecting then
    let (k, effects) := k.resetDispatch
    match r with
    | .error | .selfConnect => (k.retry.1, effects ++ k.retry.2)
    | .connected =>
      ({ k with state := .kConnected }, effects ++ if k.connect_ then [.newConnection] else [])
  else (k, [])

/-- `HandleEvent` after the new-connection callback. -/
def newConnectionDone : TcpConnector := { k with retryTime := kInitRetryTime }

/-- `Poll` reports `rv` for the dispatch numbered `n`. -/
def setRevents (n : ℕ) (rv : Mask) : TcpConnector :=
  { k with
    dispatch := k.dispatch.map fun (m, d) => (m, if m = n then d.setRevents rv else d) }

/-- How many branches of `HandleEventWithGuard` call `HandleEvent`. The read callback is
not set. -/
def branches : ℕ :=
  match k.dispatch with
  | none => 0
  | some (_, d) => [d.closes, d.errors, d.writes].count true

/-- What the loop thread executes on a connector. -/
inductive Op
  | start (retry : Bool) (err : Err)
  | startInLoop (err : Err)
  | stopInLoop
  | dispatchReset
  | handleEvent (r : SocketResult)

/-- It may enter `Connect`. -/
def Op.starts : Op → Bool
  | .start _ _ | .startInLoop _ => true
  | _ => false

def exec : Op → Outcome
  | .start retry err => k.start retry err
  | .startInLoop err => k.startInLoop err
  | .stopInLoop => k.stopInLoop
  | .dispatchReset => k.dispatchReset
  | .handleEvent r => k.handleEvent r

section Fields

variable (n : ℕ) (rv : Mask)

@[simp] theorem setRevents_state : (k.setRevents n rv).state = k.state := rfl
@[simp] theorem setRevents_connect : (k.setRevents n rv).connect_ = k.connect_ := rfl
@[simp] theorem setRevents_dispatches : (k.setRevents n rv).dispatches = k.dispatches := rfl

@[simp] theorem setRevents_current : (k.setRevents n rv).current = k.current := by
  simp [setRevents, current, Function.comp_def]

end Fields

/-- All that `ResetDispatch` can do. -/
inductive Reset : Outcome → Prop
  | none (hnone : k.dispatch = none) : Reset (k, [])
  | some {n : ℕ} {d : Dispatch} (d' : Dispatch) (calls : Bool) (hsome : k.dispatch = some (n, d)) :
      Reset ({ k with dispatch := some (n, d') },
        (if calls then [.updateEvents n] else []) ++ [.removeEvents n, .queueReset])

theorem reset_resetDispatch : k.Reset k.resetDispatch := by
  unfold resetDispatch
  split
  · exact .none ‹_›
  · exact .some _ _ ‹_›

/-- What `ResetDispatch` leaves alone. -/
structure Kept (k' : TcpConnector) : Prop where
  state : k'.state = k.state
  connect : k'.connect_ = k.connect_
  current : k'.current = k.current
  dispatches : k'.dispatches = k.dispatches

theorem Reset.kept {k : TcpConnector} {out : Outcome} (hreset : k.Reset out) : k.Kept out.1 := by
  cases hreset with
  | none _ => exact ⟨rfl, rfl, rfl, rfl⟩
  | some d' calls hsome => exact ⟨rfl, rfl, by simp [TcpConnector.current, hsome], rfl⟩

/-- All that `Retry` can do. -/
inductive Retried : Outcome → Prop
  | retrying (time delay : ℕ) :
      Retried ({ k with state := .kDisConnected, retryTime := time }, [.runAfter delay])
  | failed : Retried ({ k with state := .kDisConnected }, [.connectFailure])
  | stopped : Retried ({ k with state := .kDisConnected }, [])

theorem retried_retry : k.Retried k.retry := by
  unfold retry
  dsimp only
  split
  · exact .failed
  · split
    · exact .retrying _ _
    · exact .stopped

/-- What follows `ResetDispatch` when an attempt ends. -/
inductive Ending : Outcome → Prop
  | stopped (hstate : k.state ≠ .kConnecting) : Ending (k, [])
  | retried {out : Outcome} (hretried : k.Retried out) : Ending out
  | connected (calls : Bool) :
      Ending ({ k with state := .kConnected }, if calls then [.newConnection] else [])

/-- What `StopInLoop` resets. -/
def stopped : TcpConnector := { k with connect_ := false, state := .kDisConnected }

theorem stopInLoop_of_connecting (hstate : k.state = .kConnecting) :
    k.stopInLoop = k.stopped.resetDispatch := by
  simp [stopInLoop, hstate, stopped]

theorem stopInLoop_of_ne (hstate : k.state ≠ .kConnecting) :
    k.stopInLoop = ({ k with connect_ := false }, []) := by
  simp [stopInLoop, hstate]

theorem ending_stopped : k.stopped.resetDispatch.1.Ending (k.stopped.resetDispatch.1, []) := by
  refine .stopped fun hc => ?_
  rw [k.stopped.reset_resetDispatch.kept.state] at hc
  cases hc

theorem ending_handleEvent (hstate : k.state = .kConnecting) (r : SocketResult) :
    ∃ out, k.resetDispatch.1.Ending out ∧
      k.handleEvent r = (out.1, k.resetDispatch.2 ++ out.2) := by
  simp only [handleEvent, hstate, if_true]
  cases r with
  | error => exact ⟨_, .retried k.resetDispatch.1.retried_retry, rfl⟩
  | selfConnect => exact ⟨_, .retried k.resetDispatch.1.retried_retry, rfl⟩
  | connected => exact ⟨_, .connected k.resetDispatch.1.connect_, rfl⟩

theorem handleEvent_of_ne (hstate : k.state ≠ .kConnecting) (r : SocketResult) :
    k.handleEvent r = (k, []) := by
  simp [handleEvent, hstate]

/-- All that `Connect` can do. -/
inductive Attempt : Outcome → Prop
  | connecting : Attempt (k.connecting.1, .enterConnect k.state :: k.connecting.2)
  | retried {out : Outcome} (hretried : k.Retried out) :
      Attempt (out.1, .enterConnect k.state :: out.2)
  | failed : Attempt (k, [.enterConnect k.state, .connectFailure])

/-- Destroying a dispatch is all that `dispatch_.reset` calls. -/
theorem countP_destroys {p : Effect → Bool} (hp : ∀ n, p (.destroyDispatch n) = false) :
    k.destroys.countP p = 0 := by
  unfold destroys
  cases k.current with
  | none => rfl
  | some n => simp [hp]

theorem attempt_connect (err : Err) : k.Attempt (k.connect err) := by
  cases err with
  | zero | einprogress | eintr | eisconn => exact .connecting
  | eagain | eaddrinuse | eaddrnotavail | econnrefused | enetunreach =>
    exact .retried k.retried_retry
  | _ => exact .failed

variable {k}

/-- An attempt sets at most one retry timer, and none while the socket connects; it leaves
nothing to the queue. -/
theorem attempt_counts {out : Outcome} (hattempt : k.Attempt out) :
    out.2.countP Effect.isRunAfter ≤ 1 ∧ out.2.countP (· = .queueReset) = 0 ∧
      (0 < out.2.countP Effect.isRunAfter → out.1.state ≠ .kConnecting) := by
  cases hattempt with
  | connecting =>
    unfold connecting destroys
    cases k.current with
    | none => exact ⟨Nat.zero_le 1, rfl, fun h => by cases h⟩
    | some n => exact ⟨Nat.zero_le 1, rfl, fun h => by cases h⟩
  | retried hretried =>
    cases hretried with
    | retrying time delay => exact ⟨Nat.le_refl 1, rfl, fun _ => by simp⟩
    | failed => exact ⟨Nat.zero_le 1, rfl, fun h => by cases h⟩
    | stopped => exact ⟨Nat.zero_le 1, rfl, fun h => by cases h⟩
  | failed => exact ⟨Nat.zero_le 1, rfl, fun h => by cases h⟩

section Registers

variable {registered : ℕ → Bool}

theorem registers_destroys : k.destroys.foldl Effect.registers registered = registered := by
  unfold destroys
  cases k.current <;> rfl

/-- A socket that connects has its dispatch in the poller. -/
theorem registers_connecting :
    (Effect.enterConnect k.state :: k.connecting.2).foldl Effect.registers registered =
      Function.update registered k.dispatches true := by
  simp only [connecting, List.foldl_cons, List.foldl_append, List.foldl_nil, Effect.registers,
    registers_destroys]

end Registers

end TcpConnector

end Voyager
