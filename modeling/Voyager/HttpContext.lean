import Voyager.HttpServer
import Voyager.SendOrder

/-!
The life of the context that `HttpServer` hangs on a connection. `OnConnection`
creates it if the monitor admits the connection, `OnClose` deletes it, and
`OnMessage` uses it. One connection is followed through its events: a refused
one is closed by a queued closure only, and a `SendMessage` inside of
`OnMessage` can run into `OnClose`. Each use of the context is recorded with
whether it existed.
-/
namespace Voyager.HttpServer

open Lib.Runs HttpParser

/-- `context_` of the connection. -/
inductive Context
  | null
  | live (parser : HttpParser HttpRequest)
  | deleted
deriving DecidableEq, Repr

def Context.isLive : Context → Bool
  | .live _ => true
  | .null | .deleted => false

/-- The branch of `HandleEventWithGuard` that comes next. -/
inductive Stage
  | close
  | read
  | write
  | done
deriving DecidableEq, Repr

/-- A call of the loop thread that has not returned. `enterMessage` is
`OnMessage` at its first statement, `onMessage` what it has yet to do. -/
inductive Frame
  | handleEvent (stage : Stage)
  | handleWrite
  | enterMessage
  | onMessage (todo : List Act)
deriving DecidableEq, Repr

/-- `admitted` is the verdict of the monitor, `forceCloses` the number of queued
closures of `ForceClose`, and `accesses` tells for each use of the context by
`OnMessage` whether it was live. -/
structure Link where
  conn : TcpConnection
  registered : Bool
  admitted : Option Bool
  context : Context
  forceCloses : ℕ
  stack : List Frame
  accesses : List Bool
deriving DecidableEq, Repr

namespace Link

/-- The callbacks that `HttpServer` and its `TcpServer` set. -/
def callbacks : Callbacks := ⟨true, true, false, true, false⟩

def create : Link := ⟨.create callbacks, false, none, .null, 0, [], []⟩

/-- On the loop thread; `spurious` makes the weak compare-and-exchange fail. -/
def forceClose (l : Link) (spurious : Bool) : Link :=
  if l.conn.state = .kConnected ∧ spurious = false then
    { l with conn := { l.conn with state := .kDisconnecting }, forceCloses := l.forceCloses + 1 }
  else if l.conn.state = .kDisconnecting then { l with forceCloses := l.forceCloses + 1 }
  else l

/-- `OnConnection`; `verdict` is what `TcpMonitor::OnConnection` returns, which
calls `ForceClose` for a refused connection. -/
def onConnection (l : Link) (verdict spurious : Bool) : Link :=
  if verdict then { l with admitted := some true, context := .live HttpRequestParser.create }
  else { l with admitted := some false }.forceClose spurious

def onClose (l : Link) : Link :=
  { l with context := match l.context with
      | .null => .null
      | .live _ | .deleted => .deleted }

/-- The calls a method of the connection makes, apart from `connection_cb_`,
which is the last act of `StartWorking` and stands there. -/
def perform (l : Link) : Effect → Link
  | .updateEvents => { l with registered := true }
  | .removeEvents => { l with registered := false }
  | .resumeHandleWrite => { l with stack := .handleWrite :: l.stack }
  | .callback .close => l.onClose
  | .callback .message => { l with stack := .enterMessage :: l.stack }
  | .callback .connection | .callback .writecomplete | .addConnection | .removeConnection
  | .queueHighWaterMark _ | .shutDownWrite | .closed _ | .assertFailed => l

def settle (l : Link) (out : TcpConnection.Outcome) : Link :=
  out.2.foldl perform { l with conn := out.1 }

def startWorking (l : Link) (verdict spurious : Bool) : Link :=
  (l.settle l.conn.startWorking).onConnection verdict spurious

def exec (l : Link) (op : TcpConnection.Op) : Link := l.settle (l.conn.exec op)

/-- `SendMessage` on the loop thread. -/
def sendMessage (l : Link) (text : List Byte) (wr : WriteResult) : Link :=
  if l.conn.state = .kConnected then l.exec (.sendInLoop ⟨l.conn.sent.length, text⟩ wr) else l

def shutDown (l : Link) (spurious : Bool) : Link :=
  if l.conn.state = .kConnected ∧ spurious = false then
    { l with conn := { l.conn with state := .kDisconnecting } }.exec .shutDownInLoop
  else l

/-- A use of the context. Nothing is said about `OnMessage` behind one that no
longer exists, so its frame is dropped. -/
def access (l : Link) (todo : List Act) (rest : List Frame) : Link :=
  if l.context.isLive then
    { l with accesses := l.accesses ++ [true], stack := .onMessage todo :: rest }
  else { l with accesses := l.accesses ++ [false], stack := rest }

/-- The next act of `OnMessage`. `text` is the printed response. -/
def act (l : Link) (todo : List Act) (rest : List Frame) (text : List Byte) (wr : WriteResult)
    (spurious : Bool) : Act → Link
  | .parseBuffer _ | .finishParse _ | .getRequest _ | .reset => l.access todo rest
  | .sendMessage message => { l with stack := .onMessage todo :: rest }.sendMessage message wr
  | .sendResponse _ => { l with stack := .onMessage todo :: rest }.sendMessage text wr
  | .shutDown => { l with stack := .onMessage todo :: rest }.shutDown spurious
  | .callback _ => { l with stack := .onMessage todo :: rest }
  | .refresh =>
    if l.conn.state = .kConnected then l.access todo rest
    else { l with stack := .onMessage todo :: rest }

end Link

/-- What the code does not decide: the monitor's verdict, what `Poll` reports,
the results of `readv` and `write`, what `http_cb_` does. `idleShutDown` is the
end of an `Entry` in `OnTimer`. -/
inductive LinkLabel
  | startWorking (verdict spurious : Bool)
  | poll (rv : Mask)
  | resume (r : ReadResult) (wr : WriteResult)
  | enterMessage (httpCb : Option HttpCallback) (fuel : ℕ)
  | act (text : List Byte) (wr : WriteResult) (spurious : Bool)
  | runForceClose
  | idleShutDown (spurious : Bool)

open Link in
def linkNext (l : Link) : LinkLabel → Option Link
  | .startWorking verdict spurious =>
    if l.conn.state = .kConnecting then some (l.startWorking verdict spurious) else none
  | .poll rv =>
    if l.stack = [] ∧ l.registered = true then
      some { l with conn := l.conn.setRevents rv, stack := [.handleEvent .close] }
    else none
  | .resume r wr =>
    match l.stack with
    | .handleEvent .close :: rest =>
      some ({ l with stack := .handleEvent .read :: rest }.exec .handleEventClose)
    | .handleEvent .read :: rest =>
      some ({ l with stack := .handleEvent .write :: rest }.exec (.handleEventRead r))
    | .handleEvent .write :: rest =>
      some ({ l with stack := .handleEvent .done :: rest }.exec (.handleEventWrite wr))
    | .handleEvent .done :: rest => some ({ l with stack := rest }.exec .handleEventDone)
    | .handleWrite :: rest => some ({ l with stack := rest }.exec .resumeHandleWrite)
    | _ => none
  | .enterMessage httpCb fuel =>
    match l.stack, l.context with
    | .enterMessage :: rest, .live parser =>
      (onMessage httpCb fuel parser l.conn.readbuf).map fun r =>
        { l with
          context := .live r.1
          conn := { l.conn with readbuf := r.2.1 }
          stack := .onMessage r.2.2 :: rest }
    | .enterMessage :: rest, _ => some { l with accesses := l.accesses ++ [false], stack := rest }
    | _, _ => none
  | .act text wr spurious =>
    match l.stack with
    | .onMessage (a :: todo) :: rest => some (l.act todo rest text wr spurious a)
    | .onMessage [] :: rest => some { l with stack := rest }
    | _ => none
  | .runForceClose =>
    if l.stack = [] ∧ 0 < l.forceCloses then
      some ({ l with forceCloses := l.forceCloses - 1 }.exec .forceCloseInLoop)
    else none
  | .idleShutDown spurious =>
    if l.stack = [] ∧ l.admitted = some true then some (l.shutDown spurious) else none

def link : Machine Link LinkLabel := ⟨Link.create, linkNext⟩

/-- Bytes were read. -/
def receives : ReadResult → Bool
  | .bytes data => !data.isEmpty
  | .failed _ => false

/-- The write failed with `EPIPE` or `ECONNRESET`. -/
def meetsBroken : WriteResult → Bool
  | .wrote _ => false
  | .failed errno => errno.broken

/-- `OnMessage` is about to send the 400 response. -/
def sends400 : List Frame → Bool
  | .onMessage (.sendMessage _ :: _) :: _ => true
  | _ => false

/-- The conditions on what happens to the connection: bytes are read from an
admitted connection only, and not after the close branch of the same event; the
400 response does not meet a broken connection. -/
def Safe (l : Link) : LinkLabel → Prop
  | .resume r _ =>
    l.stack.head? = some (.handleEvent .read) → l.conn.dispatch.reads = true → receives r = true →
      l.admitted = some true ∧ l.conn.dispatch.closes = false
  | .act _ wr _ => sends400 l.stack = true → meetsBroken wr = false
  | .startWorking _ _ | .poll _ | .enterMessage _ _ | .runForceClose | .idleShutDown _ => True

instance decidableSafe (l : Link) : (a : LinkLabel) → Decidable (Safe l a)
  | .resume r _ => inferInstanceAs (Decidable
      (l.stack.head? = some (.handleEvent .read) → l.conn.dispatch.reads = true →
        receives r = true → l.admitted = some true ∧ l.conn.dispatch.closes = false))
  | .act _ wr _ => inferInstanceAs (Decidable (sends400 l.stack = true → meetsBroken wr = false))
  | .startWorking _ _ | .poll _ | .enterMessage _ _ | .runForceClose | .idleShutDown _ =>
    .isTrue trivial

namespace Link

/-- `HandleClose` with the callbacks of the server. -/
def closed (l : Link) (k : TcpConnection) (excused : Bool) : Link :=
  { l with conn := (k.handleClose excused).1, registered := false }.onClose

theorem settle_handleClose (l : Link) {k : TcpConnection} (hcb : k.callbacks = callbacks)
    (excused : Bool) : l.settle (k.handleClose excused) = l.closed k excused := by
  have hclose : k.invoke .close = [.callback .close] := by
    simp [TcpConnection.invoke, hcb, callbacks]
  have heffects : (k.handleClose excused).2 =
      TcpConnection.assert k.isOpen ++ TcpConnection.updateEvents k.dispatch.disableAll.2 ++
        [.removeEvents, .removeConnection, .closed excused] ++ [.callback .close] := by
    rw [← hclose]
    rfl
  unfold settle closed
  rw [heffects]
  unfold TcpConnection.assert TcpConnection.updateEvents
  cases k.isOpen <;> cases k.dispatch.disableAll.2 <;> rfl

theorem settle_drained (l : Link) (k : TcpConnection) (updates : Bool) :
    l.settle (k, TcpConnection.updateEvents updates ++ [Effect.resumeHandleWrite] ++ []) =
      { l with
        conn := k
        registered := l.registered || updates
        stack := .handleWrite :: l.stack } := by
  unfold TcpConnection.updateEvents
  cases updates <;> simp [settle, perform]

/-- What a method of an established connection comes to. `keep` may register
the dispatch, but not that of a closed connection. -/
inductive Moves (l : Link) : Link → Prop
  | keep {k : TcpConnection} {registered : Bool} (hstate : k.state = l.conn.state)
      (hcb : k.callbacks = l.conn.callbacks) (hrev : k.dispatch.revents = l.conn.dispatch.revents)
      (hreg : registered = true → l.registered = true ∨ k.state ≠ .kDisconnected) :
      Moves l { l with conn := k, registered := registered }
  | close {k : TcpConnection} (excused : Bool) (hstate : k.state = l.conn.state)
      (hcb : k.callbacks = l.conn.callbacks)
      (hrev : k.dispatch.revents = l.conn.dispatch.revents) : Moves l (l.closed k excused)

theorem Moves.refl (l : Link) : Moves l l := .keep rfl rfl rfl fun h => .inl h

section Methods

variable {l : Link} (hcb : l.conn.callbacks = callbacks)
include hcb

theorem moves_sendRemaining {k : TcpConnection} (hstate : k.state = l.conn.state)
    (hk : k.callbacks = l.conn.callbacks) (hrev : k.dispatch.revents = l.conn.dispatch.revents)
    (hopen : k.state ≠ .kDisconnected) (remaining : List Byte) :
    Moves l (l.settle (k.sendRemaining remaining)) := by
  have hmark : k.callbacks.highWaterMark = false := by
    rw [hk, hcb]
    rfl
  unfold TcpConnection.sendRemaining
  simp only [hmark, Bool.false_and, Bool.false_eq_true, if_false]
  split
  · split
    · exact .keep hstate hk hrev fun h => .inl h
    · refine .keep hstate hk ?_ fun _ => .inr hopen
      simpa using hrev
  · exact .keep hstate hk hrev fun h => .inl h

theorem invoke_writecomplete {k : TcpConnection} (hk : k.callbacks = l.conn.callbacks) :
    k.invoke .writecomplete = [] := by
  simp [TcpConnection.invoke, hk, hcb, callbacks]

theorem moves_sendInLoop (m : Message) (wr : WriteResult) :
    Moves l (l.exec (.sendInLoop m wr)) := by
  unfold exec
  simp only [TcpConnection.exec, TcpConnection.sendInLoop]
  split
  · exact .refl l
  · rename_i hopen
    split
    · cases wr with
      | wrote n =>
        simp only
        split
        · rw [invoke_writecomplete hcb (by rfl)]
          exact .keep rfl rfl rfl fun h => .inl h
        · apply moves_sendRemaining hcb <;> first | rfl | exact hopen
      | failed errno =>
        simp only
        split
        · rw [settle_handleClose l (by exact hcb)]
          exact .close true rfl rfl rfl
        · apply moves_sendRemaining hcb <;> first | rfl | exact hopen
    · apply moves_sendRemaining hcb <;> first | rfl | exact hopen

theorem moves_handleEventClose : Moves l (l.exec .handleEventClose) ∧
    (l.conn.dispatch.closes = false → l.exec .handleEventClose = l) := by
  unfold exec
  simp only [TcpConnection.exec, TcpConnection.handleEventClose]
  split
  · rename_i hcloses
    rw [settle_handleClose _ hcb]
    exact ⟨.close true rfl rfl rfl, fun h => by rw [h] at hcloses; cases hcloses⟩
  · exact ⟨.refl l, fun _ => rfl⟩

theorem moves_handleEventWrite (hordered : l.conn.Ordered) (wr : WriteResult) :
    Moves l (l.exec (.handleEventWrite wr)) ∨
      ∃ k registered, Moves l { l with conn := k, registered := registered } ∧
        l.exec (.handleEventWrite wr) =
          { l with conn := k, registered := registered, stack := .handleWrite :: l.stack } := by
  unfold exec
  simp only [TcpConnection.exec, TcpConnection.handleEventWrite, TcpConnection.handleWrite]
  split
  · split
    · rename_i hwriting
      have hopen : l.conn.state ≠ .kDisconnected := by
        intro hclosed
        rw [hordered.closed hclosed] at hwriting
        cases hwriting
      cases wr with
      | wrote n =>
        simp only
        split
        · right
          rw [invoke_writecomplete hcb (by rfl)]
          rw [settle_drained]
          refine ⟨_, _, ?_, rfl⟩
          exact .keep rfl rfl (Dispatch.revents_disableWrite _) fun _ => .inr hopen
        · exact .inl (.keep rfl rfl rfl fun h => .inl h)
      | failed errno =>
        simp only
        split
        · rw [settle_handleClose l hcb]
          exact .inl (.close true rfl rfl rfl)
        · exact .inl (.refl l)
    · exact .inl (.refl l)
  · exact .inl (.refl l)

theorem moves_resumeHandleWrite : Moves l (l.exec .resumeHandleWrite) := by
  unfold exec
  simp only [TcpConnection.exec, TcpConnection.resumeHandleWrite]
  split
  · rw [settle_handleClose l hcb]
    exact .close false rfl rfl rfl
  · exact .refl l

theorem moves_forceCloseInLoop : Moves l (l.exec .forceCloseInLoop) := by
  unfold exec
  simp only [TcpConnection.exec, TcpConnection.forceCloseInLoop]
  split
  · rw [settle_handleClose l hcb]
    exact .close true rfl rfl rfl
  · exact .refl l

theorem moves_handleEventRead (r : ReadResult) :
    Moves l (l.exec (.handleEventRead r)) ∨
      ∃ data k, r = .bytes data ∧ data ≠ [] ∧ l.conn.dispatch.reads = true ∧
        k = { l.conn with readbuf := l.conn.readbuf.readV (some data) } ∧
        l.exec (.handleEventRead r) = { l with conn := k, stack := .enterMessage :: l.stack } := by
  unfold exec
  simp only [TcpConnection.exec, TcpConnection.handleEventRead]
  split
  · rename_i hreads
    cases r with
    | bytes data =>
      simp only [TcpConnection.handleRead]
      split
      · rename_i hlen
        refine .inr ⟨data, _, rfl, List.length_pos_iff.mp hlen, hreads, rfl, ?_⟩
        have hmessage : TcpConnection.invoke
            { l.conn with readbuf := l.conn.readbuf.readV (some data) } .message =
              [.callback .message] := by
          simp [TcpConnection.invoke, hcb, callbacks]
        rw [hmessage]
        rfl
      · rw [settle_handleClose l (by exact hcb)]
        exact .inl (.close true rfl rfl rfl)
    | failed errno =>
      simp only [TcpConnection.handleRead]
      split
      · rw [settle_handleClose l (by exact hcb)]
        exact .inl (.close true rfl rfl rfl)
      · exact .inl (.keep rfl rfl rfl fun h => .inl h)
  · exact .inl (.refl l)

end Methods

theorem conn_settle (l : Link) (out : TcpConnection.Outcome) : (l.settle out).conn = out.1 := by
  have hperform : ∀ (es : List Effect) (l : Link), (es.foldl perform l).conn = l.conn := by
    intro es
    induction es with
    | nil => exact fun l => rfl
    | cons e es ih =>
      intro l
      rw [List.foldl_cons, ih]
      cases e with
      | callback cb => cases cb <;> rfl
      | _ => rfl
  exact hperform _ _

theorem conn_exec (l : Link) (op : TcpConnection.Op) : (l.exec op).conn = (l.conn.exec op).1 :=
  conn_settle _ _

theorem exec_shutDownInLoop (l : Link) : l.exec .shutDownInLoop = l := by
  unfold exec
  simp only [TcpConnection.exec, TcpConnection.shutDownInLoop]
  split <;> rfl

/-- Acts that do not need the context of a closed connection. -/
def harmless : Act → Bool
  | .shutDown | .refresh => true
  | _ => false

/-- Behind a response the context is used by `refresh` only. -/
def ResponseLast : List Act → Prop
  | [] => True
  | .sendResponse _ :: todo => ∀ a ∈ todo, harmless a = true
  | _ :: todo => ResponseLast todo

theorem responseLast_afterParse (httpCb : Option HttpCallback) (ok : Bool)
    (parser : HttpParser HttpRequest) : ResponseLast (afterParse httpCb ok parser).2 := by
  have hend : ∀ c : Bool, ∀ a ∈ (if c then [Act.shutDown] else []) ++ [Act.refresh],
      harmless a = true := by
    intro c
    cases c <;> simp [harmless]
  unfold afterParse answer
  cases ok <;> cases parser.finishParse <;> cases httpCb <;>
    cases hclose : closes parser.message <;> simp [ResponseLast, hclose] <;>
    first | trivial | exact fun a ha => hend _ a (by simpa using ha)

/-- The facts about a connection that do not depend on the running calls. -/
structure Core (l : Link) : Prop where
  ordered : l.conn.Ordered
  callbacks : l.conn.callbacks = Link.callbacks
  registered : l.registered = true → l.conn.isOpen = true
  context : l.context.isLive = true ↔ l.admitted = some true ∧ l.conn.state ≠ .kDisconnected
  starting : l.conn.state = .kConnecting → l.admitted = none ∧ l.forceCloses = 0
  clean : ∀ b ∈ l.accesses, b = true

/-- The shapes of the stack, and what a running call relies on. -/
def StackOk (l : Link) : Prop :=
  match l.stack with
  | [] => True
  | [.handleEvent .close] => l.conn.isOpen = true
  | [.handleEvent .read] => l.conn.isOpen = true ∨
      l.conn.dispatch.closes = true ∧ l.conn.state ≠ .kConnecting
  | [.handleEvent .write] | [.handleEvent .done] | [.handleWrite, .handleEvent .done] =>
    l.conn.state ≠ .kConnecting
  | [.enterMessage, .handleEvent .write] => l.context.isLive = true
  | [.onMessage todo, .handleEvent .write] => l.admitted = some true ∧
      ((∀ a ∈ todo, harmless a = true) ∨ l.context.isLive = true ∧ ResponseLast todo)
  | _ => False

/-- A method keeps these facts. If it does not close the connection, the state
and the context stay as they are. -/
theorem Core.moves {l l' : Link} (h : Core l) (hstate : l.conn.state ≠ .kConnecting)
    (hordered : l'.conn.Ordered) (hm : Moves l l') :
    Core l' ∧ l'.stack = l.stack ∧ l'.admitted = l.admitted ∧
      l'.conn.dispatch.revents = l.conn.dispatch.revents ∧ l'.conn.state ≠ .kConnecting := by
  cases hm with
  | @keep k registered hk hcb hrev hreg =>
    have hopen : k.state ≠ .kDisconnected → k.isOpen = true := by
      intro hne
      rw [← hk] at hstate
      unfold TcpConnection.isOpen
      cases hks : k.state <;> simp_all
    refine ⟨⟨hordered, hcb.trans h.callbacks, ?_, ?_, ?_, h.clean⟩, rfl, rfl, hrev, by rwa [hk]⟩
    · intro hr
      rcases hreg hr with hl | hne
      · have := h.registered hl
        simpa [TcpConnection.isOpen, hk] using this
      · exact hopen hne
    · simpa [hk] using h.context
    · intro hks
      exact absurd (hk ▸ hks) hstate
  | @close k excused hk hcb hrev =>
    refine ⟨⟨hordered, hcb.trans h.callbacks, by simp [closed, onClose], ?_, ?_, h.clean⟩, rfl, rfl,
      ?_, by simp [closed, onClose, TcpConnection.handleClose]⟩
    · cases hc : l.context <;> simp [closed, onClose, hc, Context.isLive, TcpConnection.handleClose]
    · intro hks
      cases hks
    · rw [← hrev]
      exact Dispatch.revents_disableAll _

theorem Core.exec {l : Link} {op : TcpConnection.Op} (h : Core l)
    (hstate : l.conn.state ≠ .kConnecting) (hm : Moves l (l.exec op)) :
    Core (l.exec op) ∧ (l.exec op).stack = l.stack ∧ (l.exec op).admitted = l.admitted ∧
      (l.exec op).conn.dispatch.revents = l.conn.dispatch.revents ∧
      (l.exec op).conn.state ≠ .kConnecting := by
  refine h.moves hstate ?_ hm
  rw [conn_exec]
  exact h.ordered.exec op

theorem Core.withStack {l : Link} (h : Core l) (stack : List Frame) :
    Core { l with stack := stack } :=
  ⟨h.ordered, h.callbacks, h.registered, h.context, h.starting, h.clean⟩

theorem isOpen_ne {k : TcpConnection} (h : k.isOpen = true) :
    k.state ≠ .kConnecting ∧ k.state ≠ .kDisconnected := by
  unfold TcpConnection.isOpen at h
  cases hks : k.state <;> simp_all

theorem StackOk.ne_kConnecting {l : Link} (h : StackOk l) (hcore : Core l) (hstack : l.stack ≠ []) :
    l.conn.state ≠ .kConnecting := by
  have hadmitted : l.admitted = some true → l.conn.state ≠ .kConnecting := by
    intro ha hks
    rw [(hcore.starting hks).1] at ha
    cases ha
  unfold StackOk at h
  split at h
  · exact absurd ‹_› hstack
  · exact (isOpen_ne h).1
  · rcases h with hopen | ⟨_, hne⟩
    · exact (isOpen_ne hopen).1
    · exact hne
  · exact h
  · exact h
  · exact h
  · exact hadmitted (hcore.context.mp h).1
  · exact hadmitted h.1
  · exact h.elim

/-- The invariant of all runs. -/
structure Inv (l : Link) : Prop where
  core : Core l
  stack : StackOk l

theorem inv_create : Inv Link.create where
  core := ⟨TcpConnection.ordered_create _, rfl, by simp [create], by simp [create, Context.isLive],
    fun _ => ⟨rfl, rfl⟩, by simp [create]⟩
  stack := trivial

theorem Inv.startWorking {l : Link} (h : Inv l) (hstate : l.conn.state = .kConnecting)
    (verdict spurious : Bool) : Inv (l.startWorking verdict spurious) := by
  have hempty : l.stack = [] := by
    by_contra hne
    exact h.stack.ne_kConnecting h.core hne hstate
  have hsettle : l.settle l.conn.startWorking =
      { l with conn := l.conn.startWorking.1, registered := true } := by
    have hassert : TcpConnection.assert (decide (l.conn.state = .kConnecting)) = [] := by
      simp [TcpConnection.assert, hstate]
    have hconnection : l.conn.invoke .connection = [.callback .connection] := by
      simp [TcpConnection.invoke, h.core.callbacks, Link.callbacks]
    simp only [settle, TcpConnection.startWorking, hassert, hconnection]
    rfl
  have hordered := h.core.ordered.startWorking hstate
  obtain ⟨hadmitted, hforce⟩ := h.core.starting hstate
  have hnull : l.context.isLive = false := by
    cases hlive : l.context.isLive with
    | false => rfl
    | true =>
      rw [(h.core.context.mp hlive).1] at hadmitted
      cases hadmitted
  unfold Link.startWorking
  rw [hsettle]
  cases verdict with
  | true =>
    refine ⟨⟨hordered, h.core.callbacks, fun _ => rfl, by simp [onConnection, Context.isLive,
      TcpConnection.startWorking], ?_, h.core.clean⟩, by simp [StackOk, onConnection, hempty]⟩
    intro hconnecting
    cases hconnecting
  | false =>
    cases spurious with
    | true =>
      refine ⟨⟨hordered, h.core.callbacks, fun _ => rfl,
        by simp [onConnection, forceClose, TcpConnection.startWorking, hnull], ?_, h.core.clean⟩,
        by simp [StackOk, onConnection, forceClose, TcpConnection.startWorking, hempty]⟩
      intro hconnecting
      cases hconnecting
    | false =>
      refine ⟨⟨?_, h.core.callbacks, fun _ => rfl,
        by simp [onConnection, forceClose, TcpConnection.startWorking, hnull], ?_, h.core.clean⟩,
        by simp [StackOk, onConnection, forceClose, TcpConnection.startWorking, hempty]⟩
      · exact hordered.frame rfl rfl rfl (by simp [onConnection, forceClose,
          TcpConnection.startWorking]) rfl rfl
      · intro hconnecting
        cases hconnecting

theorem Inv.poll {l : Link} (h : Inv l) (hreg : l.registered = true) (rv : Mask) :
    Inv { l with conn := l.conn.setRevents rv, stack := [.handleEvent .close] } :=
  ⟨⟨h.core.ordered.frame rfl rfl rfl Iff.rfl rfl rfl, h.core.callbacks, h.core.registered,
    h.core.context, h.core.starting, h.core.clean⟩, h.core.registered hreg⟩

/-- A method after which only the later branches of the event are left. -/
theorem Inv.exec {l : Link} {op : TcpConnection.Op} {stage : Stage} (h : Core l)
    (hstate : l.conn.state ≠ .kConnecting) (hlate : stage = .write ∨ stage = .done)
    (hm : Moves { l with stack := [.handleEvent stage] }
      ({ l with stack := [.handleEvent stage] }.exec op)) :
    Inv ({ l with stack := [.handleEvent stage] }.exec op) := by
  obtain ⟨hcore, hstack, _, _, hne⟩ := (h.withStack [.handleEvent stage]).exec hstate hm
  refine ⟨hcore, ?_⟩
  rcases hlate with rfl | rfl
  · simp only [StackOk, hstack]
    exact hne
  · simp only [StackOk, hstack]
    exact hne

theorem Inv.handleEventClose {l : Link} (h : Core l) (hopen : l.conn.isOpen = true) :
    Inv ({ l with stack := [.handleEvent .read] }.exec .handleEventClose) := by
  obtain ⟨hm, hsame⟩ := moves_handleEventClose (l := { l with stack := [.handleEvent .read] })
    h.callbacks
  obtain ⟨hcore, hstack, _, hrev, hne⟩ :=
    (h.withStack [.handleEvent .read]).exec (isOpen_ne hopen).1 hm
  refine ⟨hcore, ?_⟩
  simp only [StackOk, hstack]
  cases hcloses : l.conn.dispatch.closes with
  | false =>
    rw [hsame hcloses]
    exact .inl hopen
  | true =>
    refine .inr ⟨?_, hne⟩
    rw [← hcloses]
    simp only [Dispatch.closes, hrev]

/-- Bytes come in only where the context is alive. -/
theorem Inv.handleEventRead {l : Link} (h : Core l) (hne : l.conn.state ≠ .kConnecting)
    (hok : l.conn.isOpen = true ∨ l.conn.dispatch.closes = true ∧ l.conn.state ≠ .kConnecting)
    {r : ReadResult} (hsafe : l.conn.dispatch.reads = true → receives r = true →
      l.admitted = some true ∧ l.conn.dispatch.closes = false) :
    Inv ({ l with stack := [.handleEvent .write] }.exec (.handleEventRead r)) := by
  rcases moves_handleEventRead (l := { l with stack := [.handleEvent .write] }) h.callbacks r with
    hm | ⟨data, k, rfl, hdata, hreads, rfl, heq⟩
  · exact .exec h hne (.inl rfl) hm
  · obtain ⟨hadmitted, hcloses⟩ := hsafe hreads (by simpa [receives] using hdata)
    rcases hok with hopen | ⟨hcloses', _⟩
    · rw [heq]
      refine ⟨⟨h.ordered.frame rfl rfl rfl Iff.rfl rfl rfl, h.callbacks, h.registered, h.context,
        h.starting, h.clean⟩, ?_⟩
      exact h.context.mpr ⟨hadmitted, (isOpen_ne hopen).2⟩
    · rw [hcloses] at hcloses'
      cases hcloses'

theorem Inv.handleEventWrite {l : Link} (h : Core l) (hne : l.conn.state ≠ .kConnecting)
    (wr : WriteResult) :
    Inv ({ l with stack := [.handleEvent .done] }.exec (.handleEventWrite wr)) := by
  rcases moves_handleEventWrite (l := { l with stack := [.handleEvent .done] }) h.callbacks
      h.ordered wr with hm | ⟨k, registered, hm, heq⟩
  · exact .exec h hne (.inr rfl) hm
  · have hconn := conn_exec { l with stack := [.handleEvent .done] } (.handleEventWrite wr)
    rw [heq] at hconn
    have hordered : k.Ordered := by
      rw [show k = _ from hconn]
      exact h.ordered.exec _
    obtain ⟨hcore, _, _, _, hstate⟩ := (h.withStack [.handleEvent .done]).moves hne
      (by exact hordered) hm
    rw [heq]
    exact ⟨hcore.withStack _, hstate⟩

/-- A branch of `HandleEventWithGuard`, or the end of `HandleWrite`. -/
theorem Inv.resume {l l' : Link} (h : Inv l) {r : ReadResult} {wr : WriteResult}
    (hsafe : Safe l (.resume r wr)) (hstep : linkNext l (.resume r wr) = some l') : Inv l' := by
  have hne : l.stack ≠ [] → l.conn.state ≠ .kConnecting := h.stack.ne_kConnecting h.core
  have hcb := h.core.callbacks
  simp only [linkNext] at hstep
  have hok := h.stack
  unfold StackOk at hok
  split at hok
  · rename_i hstack
    simp [hstack] at hstep
  · rename_i hstack
    simp only [hstack, Option.some.injEq] at hstep
    subst hstep
    exact .handleEventClose h.core hok
  · rename_i hstack
    simp only [hstack, Option.some.injEq] at hstep
    subst hstep
    exact .handleEventRead h.core (hne (by simp [hstack])) hok (hsafe (by simp [hstack]))
  · rename_i hstack
    simp only [hstack, Option.some.injEq] at hstep
    subst hstep
    exact .handleEventWrite h.core hok wr
  · -- the end of the event
    rename_i hstack
    simp only [hstack, Option.some.injEq] at hstep
    subst hstep
    exact ⟨⟨h.core.ordered.frame rfl rfl rfl Iff.rfl rfl rfl, hcb, h.core.registered,
      h.core.context, h.core.starting, h.core.clean⟩, trivial⟩
  · rename_i hstack
    simp only [hstack, Option.some.injEq] at hstep
    subst hstep
    exact .exec h.core hok (.inr rfl)
      (moves_resumeHandleWrite (l := { l with stack := [.handleEvent .done] }) hcb)
  · rename_i hstack
    simp [hstack] at hstep
  · rename_i hstack
    simp [hstack] at hstep
  · exact hok.elim

theorem StackOk.of_empty {l : Link} (h : l.stack = []) : StackOk l := by
  unfold StackOk
  rw [h]
  trivial

theorem StackOk.enterMessage {l : Link} {rest : List Frame} (h : StackOk l)
    (hstack : l.stack = .enterMessage :: rest) :
    rest = [.handleEvent .write] ∧ l.context.isLive = true := by
  unfold StackOk at h
  split at h <;> simp_all

theorem StackOk.onMessage {l : Link} {todo : List Act} {rest : List Frame} (h : StackOk l)
    (hstack : l.stack = .onMessage todo :: rest) :
    rest = [.handleEvent .write] ∧ l.admitted = some true ∧
      ((∀ a ∈ todo, harmless a = true) ∨ l.context.isLive = true ∧ ResponseLast todo) := by
  unfold StackOk at h
  split at h <;> simp_all

theorem Inv.enterMessage {l l' : Link} (h : Inv l) {httpCb : Option HttpCallback} {fuel : ℕ}
    (hstep : linkNext l (.enterMessage httpCb fuel) = some l') : Inv l' := by
  simp only [linkNext] at hstep
  split at hstep
  · rename_i rest parser hstack hctx
    obtain ⟨rfl, hlive⟩ := h.stack.enterMessage hstack
    rw [onMessage, Option.map_map, Option.map_eq_some_iff] at hstep
    obtain ⟨parsed, _, rfl⟩ := hstep
    have hcontext := h.core.context.mp hlive
    refine ⟨⟨h.core.ordered.frame rfl rfl rfl Iff.rfl rfl rfl, h.core.callbacks,
      h.core.registered, ?_, h.core.starting, h.core.clean⟩, hcontext.1, .inr ⟨rfl, ?_⟩⟩
    · exact iff_of_true rfl hcontext
    · exact responseLast_afterParse _ _ _
  · rename_i rest hstack hdead
    obtain ⟨_, hlive⟩ := h.stack.enterMessage hstack
    cases hctx : l.context with
    | live parser => exact absurd hctx (hdead parser)
    | null => simp [hctx, Context.isLive] at hlive
    | deleted => simp [hctx, Context.isLive] at hlive
  · cases hstep

/-- A use of a live context. -/
theorem Inv.access {l : Link} {todo : List Act} (h : Core l) (hadmitted : l.admitted = some true)
    (hlive : l.context.isLive = true)
    (htodo : (∀ a ∈ todo, harmless a = true) ∨ ResponseLast todo) :
    Inv (l.access todo [.handleEvent .write]) := by
  unfold Link.access
  rw [if_pos hlive]
  refine ⟨⟨h.ordered, h.callbacks, h.registered, h.context, h.starting, ?_⟩, hadmitted, ?_⟩
  · intro b hb
    rcases List.mem_append.mp hb with hb | hb
    · exact h.clean b hb
    · simpa using hb
  · exact htodo.imp id fun hlast => ⟨hlive, hlast⟩

/-- `SendMessage` with the rest of `OnMessage` on the stack. -/
theorem Core.sendMessage {l : Link} (h : Core l) (text : List Byte) (wr : WriteResult) :
    Core (l.sendMessage text wr) ∧ (l.sendMessage text wr).stack = l.stack ∧
      (l.sendMessage text wr).admitted = l.admitted := by
  unfold Link.sendMessage
  split
  · rename_i hstate
    obtain ⟨hcore, hs, hadm, _⟩ := h.exec (by simp [hstate])
      (moves_sendInLoop h.callbacks ⟨l.conn.sent.length, text⟩ wr)
    exact ⟨hcore, hs, hadm⟩
  · exact ⟨h, rfl, rfl⟩

/-- A write that does not find the connection broken leaves it open. -/
theorem state_sendMessage {l : Link} {wr : WriteResult}
    (hwr : ∀ errno, wr = .failed errno → errno.broken = false) (text : List Byte) :
    (l.sendMessage text wr).conn.state = l.conn.state := by
  have hremaining : ∀ (k : TcpConnection) (bytes : List Byte),
      (k.sendRemaining bytes).1.state = k.state := by
    intro k bytes
    unfold TcpConnection.sendRemaining
    split
    · dsimp only
      split <;> rfl
    · rfl
  unfold Link.sendMessage
  split
  · rw [conn_exec]
    simp only [TcpConnection.exec, TcpConnection.sendInLoop]
    split
    · rfl
    · split
      · cases wr with
        | wrote n =>
          dsimp only
          split
          · rfl
          · exact hremaining _ _
        | failed errno =>
          dsimp only
          rw [hwr errno rfl]
          exact hremaining _ _
      · exact hremaining _ _
  · rfl

theorem Core.shutDown {l : Link} (h : Core l) (spurious : Bool) :
    Core (l.shutDown spurious) ∧ (l.shutDown spurious).stack = l.stack ∧
      (l.shutDown spurious).admitted = l.admitted ∧
      (l.shutDown spurious).context = l.context := by
  unfold Link.shutDown
  split
  · rename_i hstate
    rw [exec_shutDownInLoop]
    refine ⟨⟨?_, h.callbacks, fun _ => rfl, ?_, nofun, h.clean⟩, rfl, rfl, rfl⟩
    · exact h.ordered.frame rfl rfl rfl (by simp [hstate.1]) rfl rfl
    · simpa [hstate.1] using h.context
  · exact ⟨h, rfl, rfl, rfl⟩

theorem Inv.act {l l' : Link} (h : Inv l) {text : List Byte} {wr : WriteResult} {spurious : Bool}
    (hsafe : Safe l (.act text wr spurious))
    (hstep : linkNext l (.act text wr spurious) = some l') : Inv l' := by
  simp only [linkNext] at hstep
  split at hstep
  · rename_i a todo rest hstack
    obtain ⟨rfl, hadmitted, htodo⟩ := h.stack.onMessage hstack
    cases hstep
    -- the acts that are not harmless come before the response, with a live context
    have hlive : harmless a = false → l.context.isLive = true ∧ ResponseLast (a :: todo) := by
      intro ha
      rcases htodo with hall | hlast
      · rw [hall a (by simp)] at ha
        cases ha
      · exact hlast
    have hcore := h.core.withStack [.onMessage todo, .handleEvent .write]
    cases a with
    | parseBuffer | finishParse | getRequest | reset =>
      obtain ⟨hctx, hlast⟩ := hlive rfl
      exact .access h.core hadmitted hctx (.inr hlast)
    | sendMessage message =>
      obtain ⟨hctx, hlast⟩ := hlive rfl
      have hwr : ∀ errno, wr = .failed errno → errno.broken = false := by
        rintro errno rfl
        exact hsafe (by simp [hstack, sends400])
      obtain ⟨hcore', hs, hadm⟩ := hcore.sendMessage message wr
      have hstate := state_sendMessage
        (l := { l with stack := [.onMessage todo, .handleEvent .write] }) hwr message
      refine ⟨hcore', ?_⟩
      simp only [Link.act, StackOk, hs]
      refine ⟨hadm.trans hadmitted, .inr ⟨hcore'.context.mpr ⟨hadm.trans hadmitted, ?_⟩, hlast⟩⟩
      rw [hstate]
      exact (h.core.context.mp hctx).2
    | sendResponse response =>
      obtain ⟨_, hlast⟩ := hlive rfl
      obtain ⟨hcore', hs, hadm⟩ := hcore.sendMessage text wr
      refine ⟨hcore', ?_⟩
      simp only [Link.act, StackOk, hs]
      exact ⟨hadm.trans hadmitted, .inl hlast⟩
    | shutDown =>
      obtain ⟨hcore', hs, hadm, hctx⟩ := hcore.shutDown spurious
      refine ⟨hcore', ?_⟩
      simp only [Link.act, StackOk, hs]
      refine ⟨hadm.trans hadmitted, ?_⟩
      rw [hctx]
      exact htodo.imp (fun hall a ha => hall a (by simp [ha])) id
    | callback request =>
      obtain ⟨hctx, hlast⟩ := hlive rfl
      exact ⟨hcore, hadmitted, .inr ⟨hctx, hlast⟩⟩
    | refresh =>
      have htodo' : (∀ a ∈ todo, harmless a = true) ∨ l.context.isLive = true ∧ ResponseLast todo :=
        htodo.imp (fun hall a ha => hall a (by simp [ha])) id
      simp only [Link.act]
      split
      · rename_i hconnected
        have hctx := h.core.context.mpr ⟨hadmitted, by simp [hconnected]⟩
        exact .access h.core hadmitted hctx (htodo'.imp id And.right)
      · exact ⟨hcore, hadmitted, htodo'⟩
  · rename_i rest hstack
    obtain ⟨rfl, hadmitted, _⟩ := h.stack.onMessage hstack
    cases hstep
    refine ⟨h.core.withStack _, ?_⟩
    exact h.stack.ne_kConnecting h.core (by simp [hstack])
  · cases hstep

theorem Inv.step {l l' : Link} {a : LinkLabel} (h : Inv l) (hsafe : Safe l a)
    (hstep : linkNext l a = some l') : Inv l' := by
  cases a with
  | startWorking verdict spurious =>
    simp only [linkNext] at hstep
    split at hstep
    · cases hstep
      exact h.startWorking ‹_› verdict spurious
    · cases hstep
  | poll rv =>
    simp only [linkNext] at hstep
    split at hstep
    · rename_i hguard
      cases hstep
      exact h.poll hguard.2 rv
    · cases hstep
  | resume r wr => exact h.resume hsafe hstep
  | enterMessage httpCb fuel => exact h.enterMessage hstep
  | act text wr spurious => exact h.act hsafe hstep
  | runForceClose =>
    simp only [linkNext] at hstep
    split at hstep
    · rename_i hguard
      cases hstep
      have hstate : l.conn.state ≠ .kConnecting := by
        intro hks
        have := (h.core.starting hks).2
        omega
      have hcore : Core { l with forceCloses := l.forceCloses - 1 } :=
        ⟨h.core.ordered, h.core.callbacks, h.core.registered, h.core.context,
          fun hks => absurd hks hstate, h.core.clean⟩
      obtain ⟨hcore', hs, _⟩ := hcore.exec hstate (moves_forceCloseInLoop h.core.callbacks)
      exact ⟨hcore', .of_empty (hs.trans hguard.1)⟩
    · cases hstep
  | idleShutDown spurious =>
    simp only [linkNext] at hstep
    split at hstep
    · rename_i hguard
      cases hstep
      obtain ⟨hcore, hs, _⟩ := h.core.shutDown spurious
      exact ⟨hcore, .of_empty (hs.trans hguard.1)⟩
    · cases hstep

end Link

/-- Every use of the context by `OnMessage` finds it created and not deleted. -/
theorem context_used_alive (l : Link) (hl : link.ReachableWhen Safe l) :
    ∀ b ∈ l.accesses, b = true := by
  have hinv : l.Inv := by
    refine Machine.ReachableWhen.invariant Link.inv_create ?_ hl
    intro s a t _ hsafe hs hstep
    exact hs.step hsafe hstep
  exact hinv.core.clean

/-- An admitted connection that sends a request. -/
def goodRun : List LinkLabel :=
  [.startWorking true false, .poll pollIn, .resume (.bytes []) (.wrote 0),
    .resume (.bytes (ascii "GET / HTTP/1.1" ++ [13, 10, 13, 10])) (.wrote 0),
    .enterMessage none 10] ++ List.replicate 7 (.act (ascii "HTTP") (.wrote 4) false) ++
    [.resume (.bytes []) (.wrote 0), .resume (.bytes []) (.wrote 0)]

theorem context_used_alive_goodRun :
    ∃ l, link.ReachableWhen Safe l ∧ l.accesses.length = 5 ∧ ∀ b ∈ l.accesses, b = true := by
  obtain ⟨l, hl, hlen⟩ := Machine.exists_reachableWhen_of_run (M := link) Safe goodRun
    (fun l => l.accesses.length = 5) (by decide +kernel)
  exact ⟨l, hl, hlen, context_used_alive l hl⟩

/-- A refused connection is read before its queued `ForceClose` runs: there is
no context. -/
def refusedRun : List LinkLabel :=
  [.startWorking false false, .poll pollIn, .resume (.bytes []) (.wrote 0),
    .resume (.bytes [71]) (.wrote 0), .enterMessage none 10]

/-- The 400 response finds the connection reset, and `OnClose` deletes the
context that `FinishParse` reads next. -/
def resetRun : List LinkLabel :=
  [.startWorking true false, .poll pollIn, .resume (.bytes []) (.wrote 0),
    .resume (.bytes [71, 13, 10]) (.wrote 0), .enterMessage none 10, .act [] (.wrote 0) false,
    .act [] (.failed .econnreset) false, .act [] (.wrote 0) false, .act [] (.wrote 0) false]

theorem context_used_dead :
    (∃ l, link.Reachable l ∧ l.context = .null ∧ l.accesses = [false]) ∧
      ∃ l, link.Reachable l ∧ l.context = .deleted ∧ l.accesses = [true, false] :=
  ⟨Machine.exists_reachable_of_run (M := link) refusedRun _ (by decide +kernel),
    Machine.exists_reachable_of_run (M := link) resetRun _ (by decide +kernel)⟩

end Voyager.HttpServer
