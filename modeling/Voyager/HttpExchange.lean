import Voyager.HttpClient
import Voyager.HttpPackets
import Voyager.HttpServer
import Voyager.Lib.Pipe
import Voyager.Lib.Runs

/-!
One `HttpClient` and one `HttpServer` with a network between them. The client opens
its connections one after the other; the server has a session on each of them, which
may go on when the client has lost the connection already. Bytes arrive in any
portions, connections break at any time, and either end may close.
-/
namespace Voyager.HttpExchange

open Lib Lib.Runs HttpServer

/-- A connection. `sent` are the requests whose text the client has put on it, with their
numbers, `replies` the texts of the server; `state` is that of the server's end. -/
structure Link where
  sent : List (HttpRequest × ℕ)
  toServer : Pipe Byte
  session : Session
  state : ConnectState
  replies : List (List Byte)
  toClient : Pipe Byte

structure State where
  client : HttpClient
  opened : ℕ
  link : ℕ → Link

inductive Label
  | doHttpRequest (request : HttpRequest)
  | connect
  | clientRead (n fuel : ℕ)
  | clientClose
  | handleTimeout
  | serverRead (j n fuel : ℕ)
  | serverClose (j : ℕ)
  | cut (j n m : ℕ)

def Link.create : Link :=
  ⟨[], Pipe.create, Session.start Buffer.kInitBufferSize, .kConnected, [], Pipe.create⟩

def State.create : State := ⟨HttpClient.create, 0, fun _ => Link.create⟩

namespace Link

/-- The client's connection takes the text of a request, or it does not. -/
def takeRequest (l : Link) (request : HttpRequest) (call : ℕ) : Option (List Byte) → Link
  | some text =>
    { l with sent := l.sent ++ [(request, call)], toServer := l.toServer.write text }
  | none => l

/-- `SendMessage` of the server's end. -/
def sendMessage (l : Link) (text : List Byte) : Link :=
  if l.state = .kConnected then
    { l with replies := l.replies ++ [text], toClient := l.toClient.write text }
  else l

/-- What an act of `OnMessage` does to the connection. -/
def perform (l : Link) : Act → Link
  | .sendMessage text => l.sendMessage text
  | .sendResponse response =>
    l.sendMessage (response.responseMessage (.ofSize Buffer.kInitBufferSize)).readable
  | .shutDown => { l with state := l.state.shutDown }
  | _ => l

/-- `HandleRead` of the server's end with up to `n` bytes. -/
def serverRead (httpCb : List Act → HttpCallback) (l : Link) (n fuel : ℕ) : Option Link :=
  if l.toServer.inFlight.take n = [] ∨ l.state = .kDisconnected then none
  else (l.session.read (some httpCb) fuel (l.toServer.inFlight.take n)).map fun t =>
    (t.acts.drop l.session.acts.length).foldl perform
      { l with session := t, toServer := l.toServer.read n }

/-- The network fails: what is written from now on is lost. -/
def cut (l : Link) (n m : ℕ) : Link :=
  { l with toServer := l.toServer.cut n, toClient := l.toClient.cut m }

end Link

namespace State

def setLink (s : State) (j : ℕ) (l : Link) : State :=
  { s with link := Function.update s.link j l }

def doHttpRequest (s : State) (request : HttpRequest) : State :=
  let r := s.client.doHttpRequest request
  match s.client.gaurd with
  | some ptr => { s with client := r.1 }.setLink ptr.id
      ((s.link ptr.id).takeRequest request s.client.requests.length r.2)
  | none => { s with client := r.1 }

/-- The connection is there, and the connection callback runs. -/
def connect (s : State) : Option State :=
  match s.client.client, s.client.onConnection s.opened with
  | some attempt, some r => some
      ({ s with client := r.1, opened := s.opened + 1 }.setLink s.opened
        (Link.create.takeRequest attempt.request attempt.call r.2))
  | _, _ => none

/-- `HandleRead` of the client's end with up to `n` bytes. -/
def clientRead (s : State) (n fuel : ℕ) : Option State :=
  match s.client.gaurd with
  | some ptr =>
    let l := s.link ptr.id
    if l.toClient.inFlight.take n = [] then none
    else (s.client.handleMessage fuel (l.toClient.inFlight.take n)).map fun client =>
      { s with client := client }.setLink ptr.id { l with toClient := l.toClient.read n }
  | none => none

end State

variable (httpCb : List Act → HttpCallback)

def next (s : State) : Label → Option State
  | .doHttpRequest request => some (s.doHttpRequest request)
  | .connect => s.connect
  | .clientRead n fuel => s.clientRead n fuel
  | .clientClose =>
    if s.client.gaurd.isSome then some { s with client := s.client.handleClose } else none
  | .handleTimeout => s.client.handleTimeout.map fun client => { s with client := client }
  | .serverRead j n fuel =>
    if j < s.opened then ((s.link j).serverRead httpCb n fuel).map (s.setLink j) else none
  | .serverClose j => some (s.setLink j { s.link j with state := .kDisconnected })
  | .cut j n m => some (s.setLink j ((s.link j).cut n m))

def machine : Machine State Label := ⟨State.create, next httpCb⟩

/-- The rules for the use of the client: a request is one that can be printed and read back,
and none is made while the client is connecting. Of each direction of a connection fewer
than 2^32 bytes are read in all. -/
def Orderly (s : State) : Label → Prop
  | .doHttpRequest request => request.Printable ∧ s.client.client = none
  | .clientRead n _ => ∀ ptr, s.client.gaurd = some ptr →
    (((s.link ptr.id).toClient.read n).seen).length < 2 ^ 32
  | .serverRead j n _ => (((s.link j).toServer.read n).seen).length < 2 ^ 32
  | _ => True

end Voyager.HttpExchange
