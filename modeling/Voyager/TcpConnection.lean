import Voyager.Lib.Framing
import Voyager.Buffer
import Voyager.Dispatch

/-!
`TcpConnection` of core/tcp_connection.h and core/tcp_connection.cc, as far as
one connection is concerned: each method computes the new fields and the list
of calls it makes on its event loop, its socket and its callbacks. A method is
cut where a user callback runs before its last statement. `sent` and `written`
record the messages `SendInLoop` took on and the bytes `write` accepted.
-/
namespace Voyager

inductive ConnectState
  | kDisconnected
  | kDisconnecting
  | kConnected
  | kConnecting
deriving DecidableEq, Repr

/-- The values of `errno` that are told apart; `eagain` is also `EWOULDBLOCK`. -/
inductive Errno
  | eagain
  | epipe
  | econnreset
  | other
deriving DecidableEq, Repr

/-- `errno == EPIPE || errno == ECONNRESET` -/
def Errno.broken : Errno → Bool
  | .epipe | .econnreset => true
  | .eagain | .other => false

/-- What `write` returns; it takes no more bytes than it was given. -/
inductive WriteResult
  | wrote (n : ℕ)
  | failed (errno : Errno)
deriving DecidableEq, Repr

/-- What `readv` returns; no bytes are the end of the stream. -/
inductive ReadResult
  | bytes (data : List Byte)
  | failed (errno : Errno)
deriving DecidableEq, Repr

/-- End of the stream or a broken connection: `HandleRead` closes. -/
def ReadResult.ends : ReadResult → Bool
  | .bytes data => data.isEmpty
  | .failed errno => errno.broken

/-- The data of one `SendMessage`, numbered in the order of acceptance. -/
structure Message where
  id : ℕ
  data : List Byte
deriving DecidableEq, Repr

/-- Which of the callbacks are set. -/
structure Callbacks where
  connection : Bool
  close : Bool
  writecomplete : Bool
  message : Bool
  highWaterMark : Bool
deriving DecidableEq, Repr

/-- The callbacks that are called directly. -/
inductive Callback
  | connection
  | close
  | writecomplete
  | message
deriving DecidableEq, Repr

/-- A call a method makes on something else than its own fields. `resumeHandleWrite`
stands for the statements of `HandleWrite` after `writecomplete_cb_`, and
`closed` only marks `HandleClose`: whether the peer, a broken write or
`ForceClose` brought it about. -/
inductive Effect
  | updateEvents
  | removeEvents
  | addConnection
  | removeConnection
  | queueHighWaterMark (size : ℕ)
  | shutDownWrite
  | resumeHandleWrite
  | callback (cb : Callback)
  | closed (excused : Bool)
  | assertFailed
deriving DecidableEq, Repr

/-- Neither opens nor closes anything: the loop's connections, the assertions,
the close callback and the write side of the socket are left alone. -/
def Effect.isQuiet : Effect → Bool
  | .updateEvents | .queueHighWaterMark _ | .resumeHandleWrite => true
  | .callback cb => cb != .close
  | .removeEvents | .addConnection | .removeConnection | .shutDownWrite | .closed _
  | .assertFailed => false

structure TcpConnection where
  state : ConnectState
  dispatch : Dispatch
  readbuf : Buffer
  writebuf : Buffer
  highWaterMark : ℕ
  callbacks : Callbacks
  sent : List Message
  written : List Byte
deriving DecidableEq, Repr

namespace TcpConnection

/-- A method's effect on the connection and the calls it makes. -/
abbrev Outcome := TcpConnection × List Effect

def create (callbacks : Callbacks) : TcpConnection where
  state := .kConnecting
  dispatch := .create
  readbuf := .ofSize Buffer.kInitBufferSize
  writebuf := .ofSize Buffer.kInitBufferSize
  highWaterMark := 64 * 1024 * 1024
  callbacks := callbacks
  sent := []
  written := []

/-- `if (cb) cb(shared_from_this())` -/
def invoke (k : TcpConnection) (cb : Callback) : List Effect :=
  let isSet := match cb with
    | .connection => k.callbacks.connection
    | .close => k.callbacks.close
    | .writecomplete => k.callbacks.writecomplete
    | .message => k.callbacks.message
  if isSet then [.callback cb] else []

def assert (holds : Bool) : List Effect := if holds then [] else [.assertFailed]

def updateEvents (called : Bool) : List Effect := if called then [.updateEvents] else []

def startWorking (k : TcpConnection) : Outcome :=
  ({ k with state := .kConnected, dispatch := k.dispatch.tie.enableRead },
    assert (k.state = .kConnecting) ++ [.updateEvents, .addConnection] ++ k.invoke .connection)

def isOpen (k : TcpConnection) : Bool := k.state = .kConnected ∨ k.state = .kDisconnecting

def handleClose (k : TcpConnection) (excused : Bool) : Outcome :=
  ({ k with state := .kDisconnected, dispatch := k.dispatch.disableAll.1 },
    assert k.isOpen ++ updateEvents k.dispatch.disableAll.2 ++
      [.removeEvents, .removeConnection, .closed excused] ++ k.invoke .close)

def handleRead (k : TcpConnection) (r : ReadResult) : Outcome :=
  match r with
  | .bytes data =>
    let k := { k with readbuf := k.readbuf.readV (some data) }
    if 0 < data.length then (k, k.invoke .message) else k.handleClose true
  | .failed errno =>
    let k := { k with readbuf := k.readbuf.readV none }
    if errno.broken then k.handleClose true else (k, [])

def handleWrite (k : TcpConnection) (r : WriteResult) : Outcome :=
  if k.dispatch.isWriting then
    match r with
    | .wrote n =>
      let n := min n k.writebuf.readableSize
      let k := { k with
        written := k.written ++ k.writebuf.readable.take n
        writebuf := k.writebuf.retrieve n }
      if k.writebuf.readableSize = 0 then
        ({ k with dispatch := k.dispatch.disableWrite.1 },
          updateEvents k.dispatch.disableWrite.2 ++ [.resumeHandleWrite] ++ k.invoke .writecomplete)
      else (k, [])
    | .failed errno => if errno.broken then k.handleClose true else (k, [])
  else (k, [])

/-- `HandleWrite` once the buffer is drained and `writecomplete_cb_` has returned. -/
def resumeHandleWrite (k : TcpConnection) : Outcome :=
  if k.state = .kDisconnecting then k.handleClose false else (k, [])

/-- The last part of `SendInLoop`, for the bytes that `write` did not take. -/
def sendRemaining (k : TcpConnection) (remaining : List Byte) : Outcome :=
  if 0 < remaining.length then
    let old := k.writebuf.readableSize
    let queued := if k.callbacks.highWaterMark && decide (old < k.highWaterMark) &&
        decide (k.highWaterMark ≤ old + remaining.length) then
      [.queueHighWaterMark (old + remaining.length)] else []
    let k := { k with writebuf := k.writebuf.append remaining }
    if k.dispatch.isWriting then (k, queued)
    else ({ k with dispatch := k.dispatch.enableWrite }, queued ++ [.updateEvents])
  else (k, [])

def sendInLoop (k : TcpConnection) (m : Message) (r : WriteResult) : Outcome :=
  if k.state = .kDisconnected then (k, [])
  else
    let k := { k with sent := k.sent ++ [m] }
    if !k.dispatch.isWriting && decide (k.writebuf.readableSize = 0) then
      match r with
      | .wrote n =>
        let n := min n m.data.length
        let k := { k with written := k.written ++ m.data.take n }
        if m.data.length - n = 0 then (k, k.invoke .writecomplete)
        else k.sendRemaining (m.data.drop n)
      | .failed errno => if errno.broken then k.handleClose true else k.sendRemaining m.data
    else k.sendRemaining m.data

/-- The closure of `ShutDown`. -/
def shutDownInLoop (k : TcpConnection) : Outcome :=
  if !k.dispatch.isWriting then (k, [.shutDownWrite]) else (k, [])

/-- The closure of `ForceClose`. -/
def forceCloseInLoop (k : TcpConnection) : Outcome :=
  if k.isOpen then k.handleClose true else (k, [])

/-- The closures of `StartRead` and `StopRead`. -/
def startReadInLoop (k : TcpConnection) : Outcome :=
  if !k.dispatch.isReading then ({ k with dispatch := k.dispatch.enableRead }, [.updateEvents])
  else (k, [])

def stopReadInLoop (k : TcpConnection) : Outcome :=
  if k.dispatch.isReading then ({ k with dispatch := k.dispatch.disableRead }, [.updateEvents])
  else (k, [])

/-- The branches of `Dispatch::HandleEventWithGuard`; `HandleError` only writes
to the log. -/
def handleEventClose (k : TcpConnection) : Outcome :=
  if k.dispatch.closes then k.handleClose true else (k, [])

def handleEventRead (k : TcpConnection) (r : ReadResult) : Outcome :=
  if k.dispatch.reads then k.handleRead r else (k, [])

def handleEventWrite (k : TcpConnection) (r : WriteResult) : Outcome :=
  if k.dispatch.writes then k.handleWrite r else (k, [])

def setRevents (k : TcpConnection) (rv : Mask) : TcpConnection :=
  { k with dispatch := k.dispatch.setRevents rv }

/-- What the loop thread can execute on a connection after `StartWorking`. The
last three are for its users: the setters, and taking bytes out of the buffer
that `message_cb_` is given. -/
inductive Op
  | handleEventClose
  | handleEventRead (r : ReadResult)
  | handleEventWrite (r : WriteResult)
  | handleEventDone
  | resumeHandleWrite
  | sendInLoop (m : Message) (r : WriteResult)
  | shutDownInLoop
  | forceCloseInLoop
  | startReadInLoop
  | stopReadInLoop
  | setCallbacks (callbacks : Callbacks)
  | setHighWaterMark (size : ℕ)
  | retrieve (size : ℕ)
deriving DecidableEq, Repr

def exec (k : TcpConnection) : Op → Outcome
  | .handleEventClose => k.handleEventClose
  | .handleEventRead r => k.handleEventRead r
  | .handleEventWrite r => k.handleEventWrite r
  | .handleEventDone => (k.setRevents 0#32, [])
  | .resumeHandleWrite => k.resumeHandleWrite
  | .sendInLoop m r => k.sendInLoop m r
  | .shutDownInLoop => k.shutDownInLoop
  | .forceCloseInLoop => k.forceCloseInLoop
  | .startReadInLoop => k.startReadInLoop
  | .stopReadInLoop => k.stopReadInLoop
  | .setCallbacks callbacks => ({ k with callbacks := callbacks }, [])
  | .setHighWaterMark size => ({ k with highWaterMark := size }, [])
  | .retrieve size => ({ k with readbuf := k.readbuf.retrieve size }, [])

/-- When `HandleClose` is called, and whether it is excused. -/
inductive Closes (k : TcpConnection) : Op → Bool → Prop
  | event (hcloses : k.dispatch.closes = true) : Closes k .handleEventClose true
  | read {r : ReadResult} (hreads : k.dispatch.reads = true) (hends : r.ends = true) :
      Closes k (.handleEventRead r) true
  | write {r : WriteResult} (hwriting : k.dispatch.isWriting = true) :
      Closes k (.handleEventWrite r) true
  | drained (hstate : k.state = .kDisconnecting) : Closes k .resumeHandleWrite false
  | send {m : Message} {r : WriteResult} (hstate : k.state ≠ .kDisconnected) :
      Closes k (.sendInLoop m r) true
  | force (hopen : k.isOpen = true) : Closes k .forceCloseInLoop true

/-- A method either leaves the state alone and does nothing but quiet calls, or
shuts the write side down, or is a call of `HandleClose`. -/
inductive Does (k : TcpConnection) (op : Op) : Outcome → Prop
  | quiet {out : Outcome} (hquiet : ∀ e ∈ out.2, e.isQuiet = true)
      (hstate : out.1.state = k.state) : Does k op out
  | shutDownWrite (hop : op = .shutDownInLoop) (hwriting : k.dispatch.isWriting = false) :
      Does k op (k, [.shutDownWrite])
  | close {k' : TcpConnection} {excused : Bool} (hcloses : Closes k op excused)
      (hstate : k'.state = k.state) (hdrained : excused = false → k' = k) :
      Does k op (k'.handleClose excused)

theorem isQuiet_invoke (k : TcpConnection) (cb : Callback) (hcb : cb ≠ .close) :
    ∀ e ∈ k.invoke cb, e.isQuiet = true := by
  intro e he
  have hcases : k.invoke cb = [.callback cb] ∨ k.invoke cb = [] := by
    unfold invoke
    cases cb <;> split <;> simp
  rcases hcases with heq | heq <;> rw [heq] at he
  · rw [List.mem_singleton] at he
    subst e
    simpa [Effect.isQuiet] using hcb
  · cases he

theorem isQuiet_updateEvents (called : Bool) : ∀ e ∈ updateEvents called, e.isQuiet = true := by
  intro e he
  cases called with
  | false => cases he
  | true =>
    rw [updateEvents, if_pos rfl, List.mem_singleton] at he
    subst e
    rfl

theorem Does.none (k : TcpConnection) (op : Op) : Does k op (k, []) :=
  .quiet (fun _ he => by cases he) rfl

theorem does_sendRemaining (k k' : TcpConnection) (op : Op) (hstate : k'.state = k.state)
    (remaining : List Byte) : Does k op (k'.sendRemaining remaining) := by
  unfold sendRemaining
  split
  · dsimp only
    split
    · refine .quiet (fun e he => ?_) hstate
      simp only at he
      split at he
      · rw [List.mem_singleton] at he
        subst e
        rfl
      · cases he
    · refine .quiet (fun e he => ?_) hstate
      rcases List.mem_append.mp he with he | he
      · split at he
        · rw [List.mem_singleton] at he
          subst e
          rfl
        · cases he
      · rw [List.mem_singleton] at he
        subst e
        rfl
  · exact .quiet (fun _ he => by cases he) hstate

theorem does_sendInLoop (k : TcpConnection) (m : Message) (r : WriteResult) :
    Does k (.sendInLoop m r) (k.sendInLoop m r) := by
  unfold sendInLoop
  split
  · exact .none k _
  rename_i hopen
  dsimp only
  split
  · cases r with
    | wrote n =>
      dsimp only
      split
      · exact .quiet (isQuiet_invoke _ .writecomplete (by decide)) rfl
      · apply does_sendRemaining
        rfl
    | failed errno =>
      dsimp only
      split
      · exact .close (.send hopen) rfl (by simp)
      · apply does_sendRemaining
        rfl
  · apply does_sendRemaining
    rfl

theorem does_handleRead (k : TcpConnection) (r : ReadResult) (hreads : k.dispatch.reads = true) :
    Does k (.handleEventRead r) (k.handleRead r) := by
  cases r with
  | bytes data =>
    simp only [handleRead]
    split
    · exact .quiet (isQuiet_invoke _ .message (by decide)) rfl
    · rename_i hlen
      refine .close (.read hreads ?_) rfl (by simp)
      rw [ReadResult.ends, List.isEmpty_iff_length_eq_zero]
      omega
  | failed errno =>
    simp only [handleRead]
    split
    · rename_i hbroken
      exact .close (.read hreads hbroken) rfl (by simp)
    · exact .quiet (fun _ he => by cases he) rfl

theorem does_handleWrite (k : TcpConnection) (r : WriteResult) :
    Does k (.handleEventWrite r) (k.handleWrite r) := by
  unfold handleWrite
  split
  · rename_i hwriting
    cases r with
    | wrote n =>
      dsimp only
      split
      · refine .quiet (fun e he => ?_) rfl
        rcases List.mem_append.mp he with he | he
        · rcases List.mem_append.mp he with he | he
          · exact isQuiet_updateEvents _ e he
          · rw [List.mem_singleton] at he
            subst e
            rfl
        · exact isQuiet_invoke _ .writecomplete (by decide) e he
      · exact .quiet (fun _ he => by cases he) rfl
    | failed errno =>
      dsimp only
      split
      · exact .close (.write hwriting) rfl (by simp)
      · exact .none k _
  · exact .none k _

theorem does_exec (k : TcpConnection) (op : Op) : Does k op (k.exec op) := by
  cases op with
  | handleEventClose =>
    simp only [exec, handleEventClose]
    split
    · exact .close (.event ‹_›) rfl (by simp)
    · exact .none k _
  | handleEventRead r =>
    simp only [exec, handleEventRead]
    split
    · exact does_handleRead k r ‹_›
    · exact .none k _
  | handleEventWrite r =>
    simp only [exec, handleEventWrite]
    split
    · exact does_handleWrite k r
    · exact .none k _
  | handleEventDone => exact .quiet (fun _ he => by cases he) rfl
  | resumeHandleWrite =>
    simp only [exec, resumeHandleWrite]
    split
    · exact .close (.drained ‹_›) rfl (fun _ => rfl)
    · exact .none k _
  | sendInLoop m r => exact does_sendInLoop k m r
  | shutDownInLoop =>
    simp only [exec, shutDownInLoop]
    split
    · rename_i hwriting
      exact .shutDownWrite rfl (by simpa using hwriting)
    · exact .none k _
  | forceCloseInLoop =>
    simp only [exec, forceCloseInLoop]
    split
    · exact .close (.force ‹_›) rfl (by simp)
    · exact .none k _
  | startReadInLoop =>
    simp only [exec, startReadInLoop]
    split
    · exact .quiet (isQuiet_updateEvents true) rfl
    · exact .none k _
  | stopReadInLoop =>
    simp only [exec, stopReadInLoop]
    split
    · exact .quiet (isQuiet_updateEvents true) rfl
    · exact .none k _
  | setCallbacks callbacks => exact .quiet (fun _ he => by cases he) rfl
  | setHighWaterMark size => exact .quiet (fun _ he => by cases he) rfl
  | retrieve size => exact .quiet (fun _ he => by cases he) rfl

end TcpConnection

end Voyager
