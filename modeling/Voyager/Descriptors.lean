import Voyager.TcpConnector
import Voyager.Lib.Ledger
import Voyager.Lib.Runs

/-!
The descriptors of a process: `TcpAcceptor` (core/tcp_acceptor.cc) with its
`ServerSocket` (core/server_socket.cc) and the descriptor it keeps in reserve, the
`ClientSocket` of a `TcpConnector` (core/tcp_connector.cc), the `BaseSocket`
(core/base_socket.cc) of a `TcpConnection`, and what the rest of the process opens.
A system call that opens or closes a descriptor is a step of its own, and the
threads of the process interleave in any order. A log leaves the process alone
unless its level is `FATAL`.
-/
namespace Voyager

structure BaseSocket where
  fd : ℕ
  needClose : Bool
deriving DecidableEq, Repr

namespace BaseSocket

/-- `BaseSocket(int socketfd)`, and `BaseSocket(int domain, bool nonblocking)` once socket(2)
has returned. -/
def create (fd : ℕ) : BaseSocket := ⟨fd, true⟩

def setNoAutoCloseFd (x : BaseSocket) : BaseSocket := { x with needClose := false }

/-- What `~BaseSocket` closes. -/
def owned (x : BaseSocket) : Option ℕ := if x.needClose then some x.fd else none

end BaseSocket

/-- `errno` of accept(2). -/
inductive AcceptError
  | eagain
  | econnaborted
  | eintr
  | eproto
  | eperm
  | emfile
  | ebadf
  | efault
  | einval
  | enfile
  | enobufs
  | enomem
  | enotsock
  | eopnotsupp
  | other
deriving DecidableEq, Repr

/-- `ServerSocket::Accept` logs the error as `FATAL`. -/
def ServerSocket.isFatal : AcceptError → Bool
  | .eagain | .econnaborted | .eintr | .eproto | .eperm | .emfile => false
  | _ => true

namespace TcpAcceptor

/-- The system call that comes next: in the constructor, in `Accept`, in the destructor. -/
inductive Pc
  | construct
  | idle
  | accepted (connectfd peer : ℕ)
  | closeIdle
  | acceptIdle
  | closeAccepted
  | openIdle
  | closeSocket
deriving DecidableEq, Repr

/-- `idlefd_` has been closed or not been opened yet. -/
def Pc.withoutIdle : Pc → Bool
  | .construct | .acceptIdle | .openIdle | .closeSocket => true
  | _ => false

/-- `Accept` has given its reserve up and not got it back. -/
def Pc.lendsIdle : Pc → Bool
  | .acceptIdle | .closeAccepted | .openIdle => true
  | _ => false

/-- How a call of `Accept` ends for the connection it took, if it took one. -/
inductive Outcome
  | handed (peer : ℕ)
  | closed (peer : ℕ)
  | dropped (peer : ℕ)
  | failed (e : AcceptError)
  | missed (e : AcceptError)
deriving DecidableEq, Repr

def Outcome.peer : Outcome → Option ℕ
  | .handed peer | .closed peer | .dropped peer => some peer
  | .failed _ | .missed _ => none

inductive Role
  | socket
  | connectfd
  | idlefd
deriving DecidableEq, Repr

end TcpAcceptor

/-- `idlefd` is `none` for -1. `queue` are the connections that the kernel holds for the
listening socket, by their peers, and `arrived` all that it ever held. -/
structure TcpAcceptor where
  socket : BaseSocket
  idlefd : Option ℕ
  listenning : Bool
  connCb : Bool
  pc : TcpAcceptor.Pc
  queue : List ℕ
  arrived : List ℕ
  outcomes : List TcpAcceptor.Outcome
deriving DecidableEq, Repr

namespace TcpAcceptor

def create (fd : ℕ) (connCb : Bool) : TcpAcceptor :=
  ⟨BaseSocket.create fd, none, false, connCb, .construct, [], [], []⟩

/-- The connection that `Accept` has in hand. -/
def inHand (x : TcpAcceptor) : List ℕ :=
  match x.pc with
  | .accepted _ peer => [peer]
  | _ => []

/-- The descriptors it has to close. -/
def held (x : TcpAcceptor) : Role → Option ℕ
  | .socket => x.socket.owned
  | .connectfd => match x.pc with
    | .accepted connectfd _ => some connectfd
    | _ => none
  | .idlefd => if x.pc.withoutIdle then none else x.idlefd

end TcpAcceptor

namespace Descriptors

open TcpConnector (Err SocketResult)

/-- Where `Connect` is: `new ClientSocket`, `socket_.reset`, connect(2). -/
inductive ConnectPc
  | idle
  | created (fd : ℕ)
  | installed
deriving DecidableEq, Repr

inductive ConnectorRole
  | socket
  | created
deriving DecidableEq, Repr

/-- A `TcpConnector` with `socket_`. -/
structure Connector where
  self : TcpConnector
  socket : Option BaseSocket
  pc : ConnectPc
deriving DecidableEq, Repr

def Connector.create : Connector := ⟨TcpConnector.create, none, .idle⟩

def Connector.held (x : Connector) : ConnectorRole → Option ℕ
  | .socket => x.socket.bind BaseSocket.owned
  | .created => match x.pc with
    | .created fd => some fd
    | _ => none

/-- The variables of the process that hold a descriptor. -/
inductive Owner
  | acceptor (a : ℕ) (role : TcpAcceptor.Role)
  | connector (c : ℕ) (role : ConnectorRole)
  | connection (k : ℕ)
  | other (n : ℕ)
deriving DecidableEq, Repr

/-- A call of close(2) and what it met in the table. -/
structure Close where
  caller : Owner
  fd : ℕ
  found : Option Owner
deriving DecidableEq, Repr

/-- Why the process goes no further. -/
inductive Stop
  | fatal
  | nullSocket
deriving DecidableEq, Repr

structure State where
  table : Lib.Ledger Owner
  acceptors : ℕ → Option TcpAcceptor
  connectors : ℕ → Option Connector
  connections : ℕ → Option BaseSocket
  others : ℕ → Option ℕ
  closes : List Close
  stopped : Option Stop

namespace State

def create (limit : ℕ) : State where
  table := Lib.Ledger.create limit
  acceptors _ := none
  connectors _ := none
  connections _ := none
  others _ := none
  closes := []
  stopped := none

variable (s : State)

def held : Owner → Option ℕ
  | .acceptor a role => (s.acceptors a).bind (·.held role)
  | .connector c role => (s.connectors c).bind (·.held role)
  | .connection k => (s.connections k).bind BaseSocket.owned
  | .other n => s.others n

def setAcceptor (a : ℕ) (x : Option TcpAcceptor) : State :=
  { s with acceptors := Function.update s.acceptors a x }

def setConnector (c : ℕ) (x : Option Connector) : State :=
  { s with connectors := Function.update s.connectors c x }

def setConnection (k : ℕ) (x : Option BaseSocket) : State :=
  { s with connections := Function.update s.connections k x }

def setOther (n : ℕ) (x : Option ℕ) : State :=
  { s with others := Function.update s.others n x }

def setTable (t : Lib.Ledger Owner) : State := { s with table := t }

def stop (why : Stop) : State := { s with stopped := some why }

/-- `::close`, called for `o`. On -1, the value of an `idlefd_` that was not got back, it
meets nothing and is not recorded. -/
def close (o : Owner) : Option ℕ → State
  | none => s
  | some fd =>
    { s with
      table := s.table.release fd
      closes := s.closes ++ [⟨o, fd, s.table.slot fd⟩] }

end State

/-- What accept(2) does. -/
inductive AcceptResult
  | connection
  | error (e : AcceptError)
deriving DecidableEq, Repr

/-- The kernel has no reason but a full table for `EMFILE`, and none but an empty queue for
`EAGAIN`. -/
def possible (t : Lib.Ledger Owner) (queue : List ℕ) : AcceptError → Bool
  | .emfile => t.free.isNone
  | .eagain => queue.isEmpty
  | _ => true

inductive AcceptorLabel
  | create (connCb : Bool)
  | enableListen
  | arrive (peer : ℕ)
  | withdraw (i : ℕ)
  | accept (r : AcceptResult) (errno : AcceptError)
  | handOff (k : ℕ)
  | closeIdle
  | acceptIdle (r : AcceptResult)
  | closeAccepted
  | openIdle (fails : Bool)
  | delete
  | closeSocket
deriving DecidableEq, Repr

inductive ConnectorLabel
  | create
  | startInLoop (start : Option Bool)
  | resetSocket
  | connect (err : Err)
  | stopInLoop
  | dispatchReset
  | handleEvent (r : SocketResult) (k : ℕ)
  | delete

inductive Label
  | acceptor (a : ℕ) (l : AcceptorLabel)
  | connector (c : ℕ) (l : ConnectorLabel)
  | deleteConnection (k : ℕ)
  | openOther (n : ℕ)
  | closeOther (n : ℕ)

section Acceptor

variable (s : State) (a : ℕ) (x : TcpAcceptor)

/-- `TcpAcceptor::TcpAcceptor`, up to socket(2). -/
def newAcceptor (connCb : Bool) : Option State :=
  match s.acceptors a, s.table.take (.acceptor a .socket) with
  | some _, _ => none
  | none, none => some (s.stop .fatal)
  | none, some (fd, t) =>
    some ((s.setTable t).setAcceptor a (some (TcpAcceptor.create fd connCb)))

/-- `TcpAcceptor::Accept`, up to the test of `errno`. -/
def accept (errno : AcceptError) : AcceptResult → Option State
  | .connection =>
    match x.queue, s.table.take (.acceptor a .connectfd) with
    | peer :: rest, some (fd, t) =>
      some ((s.setTable t).setAcceptor a (some { x with queue := rest, pc := .accepted fd peer }))
    | _, _ => none
  | .error e =>
    if !possible s.table x.queue e then none
    else if ServerSocket.isFatal e then some (s.stop .fatal)
    else if errno = .emfile then some (s.setAcceptor a (some { x with pc := .closeIdle }))
    else some (s.setAcceptor a (some { x with outcomes := x.outcomes ++ [.failed e] }))

/-- `conn_cb_` makes it the socket of a new connection, which gets the number `k`. -/
def handOff (connectfd peer k : ℕ) : Option State :=
  if x.connCb then
    if (s.connections k).isSome then none
    else some (((s.setTable (s.table.transfer connectfd (.connection k))).setConnection k
      (some (BaseSocket.create connectfd))).setAcceptor a
        (some { x with pc := .idle, outcomes := x.outcomes ++ [.handed peer] }))
  else some ((s.close (.acceptor a .connectfd) (some connectfd)).setAcceptor a
    (some { x with pc := .idle, outcomes := x.outcomes ++ [.closed peer] }))

/-- `idlefd_ = ::accept(socket_.SocketFd(), nullptr, nullptr)`. -/
def acceptIdle : AcceptResult → Option State
  | .connection =>
    match x.queue, s.table.take (.acceptor a .idlefd) with
    | peer :: rest, some (fd, t) =>
      some ((s.setTable t).setAcceptor a (some { x with
        queue := rest, idlefd := some fd, pc := .closeAccepted
        outcomes := x.outcomes ++ [.dropped peer] }))
    | _, _ => none
  | .error e =>
    if !possible s.table x.queue e then none
    else some (s.setAcceptor a (some { x with
      idlefd := none, pc := .closeAccepted, outcomes := x.outcomes ++ [.missed e] }))

/-- `idlefd_ = ::open("/dev/null", O_RDONLY | O_CLOEXEC)`. The constructor goes on after a
failed assertion, as a release build does. -/
def openIdle (fails : Bool) : Option State :=
  if fails then some (s.setAcceptor a (some { x with idlefd := none, pc := .idle }))
  else (s.table.take (.acceptor a .idlefd)).map fun (fd, t) =>
    (s.setTable t).setAcceptor a (some { x with idlefd := some fd, pc := .idle })

def nextAcceptor : AcceptorLabel → TcpAcceptor.Pc → Option State
  | .enableListen, .idle => some (s.setAcceptor a (some { x with listenning := true }))
  | .arrive peer, _ =>
    if x.listenning then some (s.setAcceptor a (some { x with
      queue := x.queue ++ [peer], arrived := x.arrived ++ [peer] }))
    else none
  | .withdraw i, _ => some (s.setAcceptor a (some { x with queue := x.queue.eraseIdx i }))
  | .accept r errno, .idle => if x.listenning then accept s a x errno r else none
  | .handOff k, .accepted connectfd peer => handOff s a x connectfd peer k
  | .closeIdle, .closeIdle =>
    some ((s.close (.acceptor a .idlefd) x.idlefd).setAcceptor a
      (some { x with pc := .acceptIdle }))
  | .acceptIdle r, .acceptIdle => acceptIdle s a x r
  | .closeAccepted, .closeAccepted =>
    some ((s.close (.acceptor a .idlefd) x.idlefd).setAcceptor a (some { x with pc := .openIdle }))
  | .openIdle fails, .openIdle | .openIdle fails, .construct => openIdle s a x fails
  -- `~TcpAcceptor`, then the destructor of `socket_`
  | .delete, .idle =>
    some ((s.close (.acceptor a .idlefd) x.idlefd).setAcceptor a
      (some { x with pc := .closeSocket }))
  | .closeSocket, .closeSocket =>
    some ((s.close (.acceptor a .socket) x.socket.owned).setAcceptor a none)
  | _, _ => none

end Acceptor

section Connector

variable (s : State) (c : ℕ) (x : Connector)

/-- What the closure of `Start` sets before `StartInLoop`; a retry timer sets nothing. -/
def Connector.start (x : Connector) : Option Bool → Connector
  | some retry => { x with self := { x.self with retry_ := retry, connect_ := true } }
  | none => x

/-- `StartInLoop` up to `new ClientSocket`. -/
def startInLoop (start : Option Bool) : Option State :=
  if (x.start start).self.connect_ then
    match s.table.take (.connector c .created) with
    | some (fd, t) =>
      some ((s.setTable t).setConnector c (some { x.start start with pc := .created fd }))
    | none => some (s.stop .fatal)
  else some (s.setConnector c (some (x.start start)))

/-- `socket_.reset(new ClientSocket)`. -/
def resetSocket (fd : ℕ) : State :=
  let s := s.close (.connector c .socket) (x.socket.bind BaseSocket.owned)
  (s.setTable (s.table.transfer fd (.connector c .socket))).setConnector c
    (some { x with socket := some (BaseSocket.create fd), pc := .installed })

/-- `Connect` goes to its default case and gives the socket up. -/
def givesUp : Err → Bool
  | .zero | .einprogress | .eintr | .eisconn => false
  | .eagain | .eaddrinuse | .eaddrnotavail | .econnrefused | .enetunreach => false
  | _ => true

/-- `Connect` after connect(2). -/
def connect (err : Err) : State :=
  let x' := { x with self := (x.self.connect err).1, pc := .idle }
  if givesUp err then
    (s.close (.connector c .socket) (x.socket.bind BaseSocket.owned)).setConnector c
      (some { x' with socket := none })
  else s.setConnector c (some x')

/-- `HandleEvent`. The new-connection callback makes the socket that of the connection `k`. -/
def handleEvent (k : ℕ) (r : SocketResult) : Option State :=
  if x.self.state ≠ .kConnecting then some s
  else match x.socket with
    | none => some (s.stop .nullSocket)
    | some socket =>
      let x' := { x with self := (x.self.handleEvent r).1 }
      match r with
      | .error | .selfConnect => some (s.setConnector c (some x'))
      | .connected =>
        if x'.self.connect_ then
          if (s.connections k).isSome then none
          else
            let s := (s.setTable (s.table.transfer socket.fd (.connection k))).setConnection k
              (some (BaseSocket.create socket.fd))
            some ((s.close (.connector c .socket) socket.setNoAutoCloseFd.owned).setConnector c
              (some { x' with self := x'.self.newConnectionDone, socket := none }))
        else some ((s.close (.connector c .socket) socket.owned).setConnector c
          (some { x' with socket := none }))

def nextConnector : ConnectorLabel → ConnectPc → Option State
  | .startInLoop start, .idle => startInLoop s c x start
  | .resetSocket, .created fd => some (resetSocket s c x fd)
  | .connect err, .installed => some (connect s c x err)
  | .stopInLoop, .idle => some (s.setConnector c (some { x with self := x.self.stopInLoop.1 }))
  | .dispatchReset, .idle =>
    some (s.setConnector c (some { x with self := x.self.dispatchReset.1 }))
  | .handleEvent r k, .idle => handleEvent s c x k r
  | .delete, .idle =>
    some ((s.close (.connector c .socket) (x.socket.bind BaseSocket.owned)).setConnector c none)
  | _, _ => none

end Connector

def next (s : State) (l : Label) : Option State :=
  if s.stopped.isSome then none
  else match l with
    | .acceptor a (.create connCb) => newAcceptor s a connCb
    | .acceptor a l => (s.acceptors a).bind fun x => nextAcceptor s a x l x.pc
    | .connector c .create =>
      if (s.connectors c).isSome then none else some (s.setConnector c (some Connector.create))
    | .connector c l => (s.connectors c).bind fun x => nextConnector s c x l x.pc
    | .deleteConnection k => (s.connections k).map fun x =>
      (s.close (.connection k) x.owned).setConnection k none
    | .openOther n =>
      if (s.others n).isSome then none
      else (s.table.take (.other n)).map fun (fd, t) => (s.setTable t).setOther n (some fd)
    | .closeOther n => (s.others n).map fun fd =>
      (s.close (.other n) (some fd)).setOther n none

def machine (limit : ℕ) : Lib.Runs.Machine State Label := ⟨State.create limit, next⟩

/-- The variable that a step may put a new descriptor in. -/
def Label.opens : Label → Option Owner
  | .acceptor a (.create _) => some (.acceptor a .socket)
  | .acceptor a (.accept .connection _) => some (.acceptor a .connectfd)
  | .acceptor a (.acceptIdle .connection) | .acceptor a (.openIdle false) =>
    some (.acceptor a .idlefd)
  | .connector c (.startInLoop _) => some (.connector c .created)
  | .openOther n => some (.other n)
  | _ => none

end Descriptors

end Voyager
