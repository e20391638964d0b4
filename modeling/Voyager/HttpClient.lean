import Voyager.HttpReprint

/-!
`HttpClient` of http/http_client.h and http/http_client.cc, as its loop runs it. The
requests are numbered in the order in which `DoHttpRequestInLoop` is called for them,
and a callback goes by the number of its request. A `TcpClient` is here only an
attempt to connect, from `Connect` until its connection callback or `Close`.
-/
namespace Voyager

open Lib.CString

/-- `ShutDown()`: only a connected connection changes its state. -/
def ConnectState.shutDown : ConnectState → ConnectState
  | .kConnected => .kDisconnecting
  | state => state

theorem ConnectState.shutDown_ne (state : ConnectState) : state.shutDown ≠ .kConnected := by
  cases state <;> decide

namespace HttpClient

/-- What a `RequestCallback` is called with: a response and `Status::OK()`, or no response
and a `Status::NetworkError` with this message. -/
inductive Result
  | ok (response : HttpResponse)
  | networkError (msg : List Byte)
deriving DecidableEq, Repr

/-- The connection that `gaurd_` leads to, with its context. -/
structure Connection where
  id : ℕ
  state : ConnectState
  parser : HttpParser HttpResponse
  readbuf : Buffer
deriving DecidableEq, Repr

/-- A `TcpClient` that is connecting, with the request that its connection callback sends
and the number of this request. -/
structure Attempt where
  host : List Byte
  port : UInt16
  call : ℕ
  request : HttpRequest
deriving DecidableEq, Repr

end HttpClient

/-- `timers` is the number of timers under way that call `HandleTimeout`; the last of them
is `timer_`. `requests` and `calls` are the history: all requests, and the calls of their
callbacks. -/
structure HttpClient where
  queueCb : List ℕ
  gaurd : Option HttpClient.Connection
  client : Option HttpClient.Attempt
  timers : ℕ
  requests : List HttpRequest
  calls : List (ℕ × HttpClient.Result)
deriving DecidableEq, Repr

namespace HttpClient

def create : HttpClient := ⟨[], none, none, 0, [], []⟩

/-- `RequestMessage()` of a request that has not been printed before. -/
def requestMessage (request : HttpRequest) : Buffer :=
  request.requestMessage (.ofSize Buffer.kInitBufferSize)

/-- The host and the port of `FirstRequest`, from the `Host` of the request. -/
def address (request : HttpRequest) : List Byte × UInt16 :=
  let host := request.value HttpMessage.kHost
  match host.findIdx? (· == 58) with
  | some found => (host.take found, UInt16.ofInt (atoi (host.drop (found + 1))))
  | none => (host, 80)

/-- Another attempt takes the place of one that is under way; the timer of that one stays. -/
def firstRequest (c : HttpClient) (call : ℕ) (request : HttpRequest) : HttpClient :=
  { c with
    client := some ⟨(address request).1, (address request).2, call, request⟩
    timers := c.timers + 1 }

/-- `queue_cb_.push_back(cb)` -/
def pushBack (c : HttpClient) (request : HttpRequest) : HttpClient :=
  { c with
    queueCb := c.queueCb ++ [c.requests.length]
    requests := c.requests ++ [request] }

/-- `DoHttpRequestInLoop`, and the text that the connection takes of it. -/
def doHttpRequest (c : HttpClient) (request : HttpRequest) : HttpClient × Option (List Byte) :=
  match c.gaurd with
  | some ptr =>
    (c.pushBack request, (TcpConnection.sendMessage ptr.state true (requestMessage request)).1)
  | none => ((c.pushBack request).firstRequest c.requests.length request, none)

/-- The connection callback that `FirstRequest` sets, and the text that it sends. -/
def onConnection (c : HttpClient) (id : ℕ) : Option (HttpClient × Option (List Byte)) :=
  c.client.map fun attempt =>
    ({ c with
        client := none
        timers := c.timers - 1
        gaurd := some ⟨id, .kConnected, HttpResponseParser.create,
          .ofSize Buffer.kInitBufferSize⟩ },
      (TcpConnection.sendMessage .kConnected true (requestMessage attempt.request)).1)

/-- `HandleMessage` with what was read appended to the buffer; its assertion fails if no
callback waits. -/
def handleMessage (fuel : ℕ) (c : HttpClient) (data : List Byte) : Option HttpClient :=
  match c.gaurd, c.queueCb with
  | some ptr, cb :: rest =>
    (HttpResponseParser.parseBuffer fuel ptr.parser (ptr.readbuf.readV (some data))).map fun r =>
      let state := if r.1 then ptr.state else ptr.state.shutDown
      if r.2.1.finishParse then
        { c with
          queueCb := rest
          gaurd := some ⟨ptr.id, state, HttpResponseParser.reset, r.2.2⟩
          calls := c.calls ++ [(cb, .ok r.2.1.message)] }
      else { c with gaurd := some ⟨ptr.id, state, r.2.1, r.2.2⟩ }
  | _, _ => none

/-- `HandleClose`; with the last pointer to the connection `gaurd_` is lost too. The source
goes through `queue_cb_` and clears it behind the last call, so the callbacks are taken to
make no request of their own here: it would change the queue in the middle of the loop. -/
def handleClose (c : HttpClient) : HttpClient :=
  { c with
    queueCb := []
    gaurd := none
    calls := c.calls ++ c.queueCb.map fun cb => (cb, .networkError (ascii "Unknow error")) }

/-- A timer that calls `HandleTimeout`. -/
def handleTimeout (c : HttpClient) : Option HttpClient :=
  if c.timers = 0 then none
  else
    let c := { c with timers := c.timers - 1 }
    match c.gaurd, c.queueCb with
    | none, cb :: rest => some
        { c with
          client := none
          queueCb := rest
          calls := c.calls ++ [(cb, .networkError (ascii "Connect timeout"))] }
    | _, _ => some c

/-- The texts of a request on a connected connection and on any other. -/
theorem sendMessage_requestMessage (request : HttpRequest) (state : ConnectState) :
    (TcpConnection.sendMessage state true (requestMessage request)).1 =
      if state = .kConnected then some request.serialized else none := by
  have hprint : (requestMessage request).Holds ([] ++ request.serialized) :=
    HttpRequest.holds_requestMessage request (Buffer.holds_ofSize Buffer.kInitBufferSize)
  by_cases hstate : state = .kConnected
  · subst hstate
    rw [if_pos rfl, (TcpConnection.holds_sendMessage hprint.wf true).1, hprint.readable,
      List.nil_append]
  · rw [if_neg hstate, TcpConnection.sendMessage_of_ne hstate]

end HttpClient

end Voyager
