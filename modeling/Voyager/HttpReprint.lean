import Voyager.HttpPrinter
import Voyager.TcpConnection
import Mathlib.Data.List.Induction

/-!
`RequestMessage` and `ResponseMessage` called again and again. Both append to the
buffer `message_` of their message and return it; only `SendMessage`, on a connected
connection, empties it.
-/
namespace Voyager

open Lib.CString

namespace TcpConnection

/-- `SendMessage(Buffer*)`: the bytes for `SendInLoop`, in this thread or in a closure,
and the buffer afterwards. -/
def sendMessage (state : ConnectState) (inMyLoop : Bool) (message : Buffer) :
    Option (List Byte) × Buffer :=
  if state = .kConnected then
    if inMyLoop then (some message.readable, message.retrieveAll)
    else (some message.retrieveAllAsString.1, message.retrieveAllAsString.2)
  else (none, message)

theorem sendMessage_of_ne {state : ConnectState} (h : state ≠ .kConnected) (inMyLoop : Bool)
    (message : Buffer) : sendMessage state inMyLoop message = (none, message) := if_neg h

/-- A connected connection takes all that can be read. -/
theorem holds_sendMessage {message : Buffer} (h : message.Wf) (inMyLoop : Bool) :
    (sendMessage .kConnected inMyLoop message).1 = some message.readable ∧
      (sendMessage .kConnected inMyLoop message).2.Holds [] := by
  cases inMyLoop with
  | true => exact ⟨rfl, message.retrieveAll_spec.1, message.retrieveAll_spec.2⟩
  | false =>
    obtain ⟨hwf, hread, htext⟩ := Buffer.retrieveAllAsString_spec h
    exact ⟨congrArg some htext, hwf, hread⟩

end TcpConnection

/-- The setters of the fields that both messages have. -/
inductive MessageSetter
  | setVersion (v : HttpVersion)
  | setVersionText (text : List Byte)
  | addHeader (field value : List Byte)
  | addHeaderText (field text : List Byte)
  | removeHeader (field : List Byte)
  | setBody (body : List Byte)
deriving DecidableEq, Repr

def HttpMessage.set (m : HttpMessage) : MessageSetter → HttpMessage
  | .setVersion v => { m with version := v }
  | .setVersionText text => (m.setVersion text).getD m
  | .addHeader field value => m.addHeader field value
  | .addHeaderText field text => m.addHeaderText field text
  | .removeHeader field => m.removeHeader field
  | .setBody body => m.setBody body

inductive RequestSetter
  | message (s : MessageSetter)
  | setMethod (m : Method)
  | setMethodText (text : List Byte)
  | setPath (path : List Byte)
  | setQuery (query : List Byte)
deriving DecidableEq, Repr

def HttpRequest.set (r : HttpRequest) : RequestSetter → HttpRequest
  | .message s => { r with toHttpMessage := r.toHttpMessage.set s }
  | .setMethod m => { r with method := some m }
  | .setMethodText text => (r.setMethod text).getD r
  | .setPath path => { r with path := path }
  | .setQuery query => { r with query := query }

inductive ResponseSetter
  | message (s : MessageSetter)
  | setCloseState (close : Bool)
  | setStatusCode (code : List Byte)
  | setReasonParse (s : List Byte)
deriving DecidableEq, Repr

def HttpResponse.set (r : HttpResponse) : ResponseSetter → HttpResponse
  | .message s => { r with toHttpMessage := r.toHttpMessage.set s }
  | .setCloseState close => r.setCloseState close
  | .setStatusCode code => { r with statusCode := code }
  | .setReasonParse s => { r with reasonParse := s }

/-- A kind of message that prints itself: `text` is its one serialization, and `print`
appends it. -/
structure Printer (μ σ : Type*) where
  create : μ
  set : μ → σ → μ
  print : μ → Buffer → Buffer
  text : μ → List Byte
  text_ne_nil : ∀ m, text m ≠ []
  holds_print : ∀ m {message : Buffer} {q : List Byte}, message.Holds q →
    (print m message).Holds (q ++ text m)

namespace HttpRequest

/-- A request as it is written on the wire. -/
def serialized (r : HttpRequest) : List Byte :=
  r.requestLine ++ 13 :: 10 ::
    (HttpMessage.headerLines (ascii ":") r.headerMap ++ 13 :: 10 :: r.body)

def printer : Printer HttpRequest RequestSetter where
  create := .create
  set := set
  print := requestMessage
  text := serialized
  text_ne_nil := by simp [serialized]
  holds_print := holds_requestMessage

end HttpRequest

namespace HttpResponse

/-- A response as it is written on the wire. -/
def serialized (r : HttpResponse) : List Byte :=
  r.statusLine ++ 13 :: 10 ::
    (HttpMessage.headerLines (ascii ": ") r.headerMap ++ 13 :: 10 :: r.body)

def printer : Printer HttpResponse ResponseSetter where
  create := .create
  set := set
  print := responseMessage
  text := serialized
  text_ne_nil := by simp [serialized]
  holds_print := holds_responseMessage

end HttpResponse

/-- What can be done with a message; `SendMessage` finds its connection in some state. -/
inductive PrintOp (σ : Type*)
  | set (s : σ)
  | print
  | sendMessage (state : ConnectState) (inMyLoop : Bool)
deriving DecidableEq, Repr

/-- The fields of a message and its `message_`. -/
structure Printed (μ : Type*) where
  fields : μ
  message : Buffer
deriving DecidableEq, Repr

namespace Printer

variable {μ σ : Type*} (P : Printer μ σ)

def exec (m : Printed μ) : PrintOp σ → Printed μ
  | .set s => { m with fields := P.set m.fields s }
  | .print => { m with message := P.print m.fields m.message }
  | .sendMessage state inMyLoop =>
    { m with message := (TcpConnection.sendMessage state inMyLoop m.message).2 }

/-- A new message after the calls. -/
def afterCalls (ops : List (PrintOp σ)) : Printed μ :=
  ops.foldl P.exec ⟨P.create, .ofSize Buffer.kInitBufferSize⟩

/-- Every call that prints returns a buffer with one serialization of the fields. -/
def PrintsOnce (ops : List (PrintOp σ)) : Prop :=
  ∀ done, done ++ [PrintOp.print] <+: ops →
    (P.afterCalls (done ++ [PrintOp.print])).message.readable = P.text (P.afterCalls done).fields

/-- Something was printed, and no connected connection has taken it since. -/
def pending (ops : List (PrintOp σ)) : Bool :=
  ops.foldl (fun waits op => match op with
    | .set _ => waits
    | .print => true
    | .sendMessage state _ => waits && state ≠ .kConnected) false

/-- What was printed is always sent before the next call that prints. -/
def SentBetween (ops : List (PrintOp σ)) : Prop :=
  ∀ done, done ++ [PrintOp.print] <+: ops → pending done = false

variable {P}

theorem afterCalls_snoc (done : List (PrintOp σ)) (op : PrintOp σ) :
    P.afterCalls (done ++ [op]) = P.exec (P.afterCalls done) op := by
  rw [afterCalls, List.foldl_concat, afterCalls]

/-- What the buffer holds is what is pending. -/
theorem holds_afterCalls (ops : List (PrintOp σ)) :
    ∃ q, (P.afterCalls ops).message.Holds q ∧ (q = [] ↔ pending ops = false) := by
  induction ops using List.reverseRecOn with
  | nil => exact ⟨[], Buffer.holds_ofSize _, iff_of_true rfl rfl⟩
  | append_singleton ops op ih =>
    obtain ⟨q, hq, hpending⟩ := ih
    rw [afterCalls_snoc, pending, List.foldl_concat, ← pending]
    cases op with
    | set s => exact ⟨q, hq, hpending⟩
    | print =>
      refine ⟨q ++ P.text _, P.holds_print _ hq, iff_of_false ?_ (by simp)⟩
      exact List.append_ne_nil_of_right_ne_nil q (P.text_ne_nil _)
    | sendMessage state inMyLoop =>
      by_cases hstate : state = .kConnected
      · subst hstate
        exact ⟨[], (TcpConnection.holds_sendMessage hq.wf inMyLoop).2, iff_of_true rfl (by simp)⟩
      · refine ⟨q, ?_, by simpa [hstate] using hpending⟩
        rw [exec, TcpConnection.sendMessage_of_ne hstate]
        exact hq

/-- The returned buffer is in order exactly if nothing was pending. -/
theorem readable_print_iff (done : List (PrintOp σ)) :
    (P.afterCalls (done ++ [PrintOp.print])).message.readable = P.text (P.afterCalls done).fields ↔
      pending done = false := by
  obtain ⟨q, hq, hpending⟩ := holds_afterCalls (P := P) done
  rw [← hpending, afterCalls_snoc, exec, (P.holds_print _ hq).readable, List.append_left_eq_self]

theorem printsOnce_iff_sentBetween (ops : List (PrintOp σ)) :
    P.PrintsOnce ops ↔ SentBetween ops :=
  forall_congr' fun done => forall_congr' fun _ => readable_print_iff done

end Printer

/-- In runs of setters, prints and sends on a new request or a new response every print
returns one serialization exactly if each print is sent, on a connected connection, before
the next one. -/
theorem messages_printed_once (ops : List (PrintOp RequestSetter))
    (ops' : List (PrintOp ResponseSetter)) :
    (HttpRequest.printer.PrintsOnce ops ↔ Printer.SentBetween ops) ∧
      (HttpResponse.printer.PrintsOnce ops' ↔ Printer.SentBetween ops') :=
  ⟨Printer.printsOnce_iff_sentBetween ops, Printer.printsOnce_iff_sentBetween ops'⟩

/-- A request that was logged, and a response that was sent on a closed connection, is
printed once more behind itself. -/
theorem printed_twice :
    ¬ HttpRequest.printer.PrintsOnce [.print, .print] ∧
      ¬ HttpResponse.printer.PrintsOnce [.print, .sendMessage .kDisconnected true, .print] := by
  refine ⟨fun h => ?_, fun h => ?_⟩
  · exact absurd ((Printer.readable_print_iff _).mp (h [.print] (List.prefix_refl _))) (by decide)
  · exact absurd ((Printer.readable_print_iff _).mp
      (h [.print, .sendMessage .kDisconnected true] (List.prefix_refl _))) (by decide)

end Voyager
