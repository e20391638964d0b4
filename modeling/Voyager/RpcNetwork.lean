import Voyager.MessagePipe
import Voyager.RpcRouting

/-!
Any number of `RpcChannel`s, each on a connection of its own, and one `RpcServer`.
The parties are those of `Voyager.RpcChannel` and `Voyager.RpcServer`; here the
message of a call comes to the server only as bytes that its codec makes a message
of again, and so does the answer on its way back. The threads of the clients, the
loops and the services interleave in any order, bytes arrive in any portions, and
a connection may break at any time.
-/
namespace Voyager.RpcNetwork

open Lib.Runs ProtobufCodec RpcServer

/-- A channel and its connection. `requests` are the messages of its calls, with the
call's number. -/
structure Link where
  channel : RpcChannel.State
  connected : Bool
  requests : List (ℕ × RpcMessage)
  toServer : MessagePipe RpcMessage
  toClient : MessagePipe RpcMessage

/-- `accepted` are the requests behind `server.calls`. -/
structure State where
  server : RpcServer.State
  accepted : List (ConnId × RpcMessage)
  link : ConnId → Link

def Link.create (initSize : ℕ) : Link :=
  ⟨RpcChannel.State.create, true, [], MessagePipe.create initSize, MessagePipe.create initSize⟩

def State.create (initSize : ℕ) : State :=
  ⟨RpcServer.State.create, [], fun _ => Link.create initSize⟩

namespace State

def setLink (s : State) (p : ConnId) (l : Link) : State :=
  { s with link := Function.update s.link p l }

end State

/-- The service, the method and the request of a call, as `CallMethod` serializes them. -/
structure Request where
  serviceName : String
  methodName : String
  data : List Byte
deriving DecidableEq, Repr

/-- The message of `CallMethod`. -/
def Request.message (r : Request) (id : RpcId) : RpcMessage :=
  ⟨id, r.serviceName, r.methodName, r.data, .ok⟩

inductive Label
  | registerService (fullName : String) (service : Service)
  | channel (p : ConnId) (a : RpcChannel.Label)
  | send (p : ConnId) (who : RpcChannel.Caller) (request : Request)
  | readRequests (p : ConnId) (n : ℕ)
  | onRequest (p : ConnId) (addr : Addr)
  | done (k : ℕ) (data : List Byte) (garbage : RpcId)
  | readResponses (p : ConnId) (n : ℕ)
  | onResponse (p : ConnId)
  | close (p : ConnId) (n m : ℕ)

/-- The steps of a channel that have nothing to do with its connection; `send` with
`false` is a call before `SetTcpConnectionPtr`. -/
def isLocal : RpcChannel.Label → Bool
  | .send _ ok => !ok
  | .onResponse _ => false
  | _ => true

variable (P : MessageClass RpcMessage) (kLittleEndian : Bool)

/-- `ProtobufCodec::SendMessage`. On a connection that is not connected any more
`TcpConnection::SendMessage` does nothing. -/
def write (connected : Bool) (d : MessagePipe RpcMessage) (msg : RpcMessage) :
    MessagePipe RpcMessage :=
  match (sendMessage P kLittleEndian true msg).message with
  | some bytes => if connected then d.write msg bytes else d
  | none => d

/-- The answer that the server has added in a step goes out on its connection. -/
def postReply (s : State) (server : RpcServer.State) : State :=
  match server.replies[s.server.replies.length]? with
  | some r =>
    let l := s.link r.conn
    { s with server := server }.setLink r.conn
      { l with toClient := write P kLittleEndian l.connected l.toClient r.msg }
  | none => { s with server := server }

/-- `CallMethod` up to the result of `SendMessage`. -/
def callMethod (s : State) (p : ConnId) (who : RpcChannel.Caller) (request : Request) :
    Option State :=
  let l := s.link p
  match l.channel.callers who with
  | some (ticket, .send) =>
    let msg := request.message ticket.id
    (RpcChannel.next l.channel (.send who (sendMessage P kLittleEndian true msg).res)).map
      fun channel =>
        s.setLink p { l with
          channel := channel
          requests := l.requests ++ [(ticket.call, msg)]
          toServer := write P kLittleEndian l.connected l.toServer msg }
  | _ => none

/-- `RpcServer::OnRequest` with the next message that the codec has delivered. -/
def onRequest (s : State) (p : ConnId) (addr : Addr) : Option State :=
  let l := s.link p
  match l.toServer.pending with
  | some msg =>
    (s.server.onRequest p msg addr).map fun server =>
      let s' := postReply P kLittleEndian
        (s.setLink p { l with toServer := l.toServer.handle }) server
      if s.server.error msg = .ok then { s' with accepted := s.accepted ++ [(p, msg)] } else s'
  | none => none

/-- `RpcChannel::OnResponse` with the next message that the codec has delivered. -/
def onResponse (s : State) (p : ConnId) : Option State :=
  let l := s.link p
  match l.toClient.pending with
  | some msg =>
    (RpcChannel.next l.channel (.onResponse msg)).map fun channel =>
      s.setLink p { l with channel := channel, toClient := l.toClient.handle }
  | none => none

/-- A connection breaks: nothing is sent on it any more, and of what is in flight
only a part arrives. -/
def Link.close (l : Link) (n m : ℕ) : Link :=
  { l with connected := false, toServer := l.toServer.cut n, toClient := l.toClient.cut m }

def next (s : State) : Label → Option State
  | .registerService fullName service =>
    some { s with server := s.server.registerService fullName service }
  | .channel p a =>
    if isLocal a then
      (RpcChannel.next (s.link p).channel a).map fun channel =>
        s.setLink p { s.link p with channel := channel }
    else none
  | .send p who request => callMethod P kLittleEndian s p who request
  | .readRequests p n =>
    ((s.link p).toServer.read P kLittleEndian n).map fun toServer =>
      s.setLink p { s.link p with toServer := toServer }
  | .onRequest p addr => onRequest P kLittleEndian s p addr
  | .done k data garbage =>
    (s.server.done k data garbage).map fun server => postReply P kLittleEndian s server
  | .readResponses p n =>
    ((s.link p).toClient.read P kLittleEndian n).map fun toClient =>
      s.setLink p { s.link p with toClient := toClient }
  | .onResponse p => onResponse s p
  | .close p n m => some (s.setLink p ((s.link p).close n m))

def machine (initSize : ℕ) : Machine State Label := ⟨State.create initSize, next P kLittleEndian⟩

end Voyager.RpcNetwork
