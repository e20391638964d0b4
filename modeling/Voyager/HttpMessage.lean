import Voyager.Buffer
import Voyager.Lib.CString
import Voyager.Lib.OrderedMap

/-!
The messages of http/http_message.h, http/http_request.h and
http/http_response.h, with what the parsers and the server read and write of
them. The buffer that a message is printed into is no field of it here.
-/
namespace Voyager

open Lib.CString Lib.OrderedMap

inductive HttpVersion
  | kHttp10
  | kHttp11
  | kHttp20
deriving DecidableEq, Repr

structure HttpMessage where
  version : HttpVersion
  headerMap : List (List Byte × List Byte)
  body : List Byte
deriving DecidableEq, Repr

namespace HttpMessage

def kConnection : List Byte := ascii "Connection"
def kContentLength : List Byte := ascii "Content-Length"
def kHost : List Byte := ascii "Host"

def create : HttpMessage := ⟨.kHttp10, [], []⟩

/-- The comparison stops at the shorter text: a part of a name is taken for
the first name that begins with it. -/
def setVersion (m : HttpMessage) (text : List Byte) : Option HttpMessage :=
  if strncasecmp text (ascii "HTTP/1.0") text.length = 0 then some { m with version := .kHttp10 }
  else if strncasecmp text (ascii "HTTP/1.1") text.length = 0 then
    some { m with version := .kHttp11 }
  else if strncasecmp text (ascii "HTTP/2") text.length = 0 then
    some { m with version := .kHttp20 }
  else none

def versionToString (m : HttpMessage) : List Byte :=
  match m.version with
  | .kHttp10 => ascii "HTTP/1.0"
  | .kHttp11 => ascii "HTTP/1.1"
  | .kHttp20 => ascii "HTTP/2"

theorem setVersion_versionToString (m m' : HttpMessage) :
    m.setVersion m'.versionToString = some { m with version := m'.version } := by
  unfold versionToString setVersion
  cases m'.version with
  | kHttp10 => rw [if_pos (by decide)]
  | kHttp11 => rw [if_neg (by decide), if_pos (by decide)]
  | kHttp20 => rw [if_neg (by decide), if_neg (by decide), if_pos (by decide)]

theorem isSpace_versionToString (m : HttpMessage) :
    ∀ c ∈ m.versionToString, isSpace c = false := by
  unfold versionToString
  cases m.version <;> decide +kernel

theorem isSome_setVersion (m m' : HttpMessage) (text : List Byte) :
    (m.setVersion text).isSome = (m'.setVersion text).isSome := by
  unfold setVersion
  split_ifs <;> rfl

/-- The three fields that the library reads get one spelling. -/
def transferField (s : List Byte) : List Byte :=
  if strcasecmp s kConnection = 0 then kConnection
  else if strcasecmp s kContentLength = 0 then kContentLength
  else if strcasecmp s kHost = 0 then kHost
  else s

def addHeader (m : HttpMessage) (field value : List Byte) : HttpMessage :=
  if field ≠ [] ∧ value ≠ [] then
    { m with headerMap := insert (transferField field) value m.headerMap }
  else m

/-- The overload on pointers, given the text before the colon and the one
behind it. -/
def addHeaderText (m : HttpMessage) (field text : List Byte) : HttpMessage :=
  m.addHeader field (text.dropWhile (· == 32))

/-- The field is erased as it is spelled. -/
def removeHeader (m : HttpMessage) (field : List Byte) : HttpMessage :=
  { m with headerMap := erase field m.headerMap }

def value (m : HttpMessage) (field : List Byte) : List Byte := (m.headerMap.lookup field).getD []

def setBody (m : HttpMessage) (body : List Byte) : HttpMessage := { m with body := body }

theorem value_addHeader_self (m : HttpMessage) {field v : List Byte} (hfield : field ≠ [])
    (hv : v ≠ []) : (m.addHeader field v).value (transferField field) = v := by
  simp [addHeader, value, hfield, hv]

theorem value_addHeader_of_ne (m : HttpMessage) {field key : List Byte} (v : List Byte)
    (hne : key ≠ transferField field) : (m.addHeader field v).value key = m.value key := by
  unfold addHeader
  split
  · simp only [value, lookup_insert_of_ne hne]
  · rfl

theorem value_removeHeader_self (m : HttpMessage) (field : List Byte) :
    (m.removeHeader field).value field = [] := by
  simp [removeHeader, value]

theorem value_removeHeader_of_ne (m : HttpMessage) {field key : List Byte} (hne : key ≠ field) :
    (m.removeHeader field).value key = m.value key := by
  simp only [removeHeader, value, lookup_erase_of_ne hne]

end HttpMessage

inductive Method
  | kOptions
  | kHead
  | kGet
  | kPost
  | kPut
  | kDelete
  | kTrace
  | kConnect
  | kPatch
deriving DecidableEq, Repr

/-- `method` is `none` until `SetMethod` is called: the constructor leaves
`method_` without a value. -/
structure HttpRequest extends HttpMessage where
  method : Option Method
  path : List Byte
  query : List Byte
deriving DecidableEq, Repr

namespace HttpRequest

def create : HttpRequest := { HttpMessage.create with method := none, path := [], query := [] }

def methodToString : Method → List Byte
  | .kOptions => ascii "OPTIONS"
  | .kHead => ascii "HEAD"
  | .kGet => ascii "GET"
  | .kPost => ascii "POST"
  | .kPut => ascii "PUT"
  | .kDelete => ascii "DELETE"
  | .kTrace => ascii "TRACE"
  | .kConnect => ascii "CONNECT"
  | .kPatch => ascii "PATCH"

/-- The order in which `SetMethod` tries the names. -/
def methods : List Method :=
  [.kOptions, .kHead, .kGet, .kPost, .kPut, .kDelete, .kTrace, .kConnect, .kPatch]

def setMethod (r : HttpRequest) (text : List Byte) : Option HttpRequest :=
  (methods.find? fun m => strncasecmp text (methodToString m) text.length = 0).map
    fun m => { r with method := some m }

def setVersion (r : HttpRequest) (text : List Byte) : Option HttpRequest :=
  (r.toHttpMessage.setVersion text).map fun m => { r with toHttpMessage := m }

def addHeaderText (r : HttpRequest) (field text : List Byte) : HttpRequest :=
  { r with toHttpMessage := r.toHttpMessage.addHeaderText field text }

def setBody (r : HttpRequest) (body : List Byte) : HttpRequest :=
  { r with toHttpMessage := r.toHttpMessage.setBody body }

theorem setMethod_methodToString (r : HttpRequest) (m : Method) :
    r.setMethod (methodToString m) = some { r with method := some m } := by
  have hfind : (methods.find? fun m' =>
      strncasecmp (methodToString m) (methodToString m') (methodToString m).length = 0) =
        some m := by
    cases m <;> decide
  rw [setMethod, hfind]
  rfl

theorem isSpace_methodToString (m : Method) :
    ∀ c ∈ methodToString m, isSpace c = false := by
  cases m <;> decide +kernel

theorem isSome_setMethod (r r' : HttpRequest) (text : List Byte) :
    (r.setMethod text).isSome = (r'.setMethod text).isSome := by
  simp only [setMethod, Option.isSome_map]

theorem isSome_setVersion (r r' : HttpRequest) (text : List Byte) :
    (r.setVersion text).isSome = (r'.setVersion text).isSome := by
  simp only [setVersion, Option.isSome_map]
  exact HttpMessage.isSome_setVersion _ _ _

theorem setVersion_versionToString (r : HttpRequest) (m : HttpMessage) :
    r.setVersion m.versionToString =
      some { r with toHttpMessage := { r.toHttpMessage with version := m.version } } := by
  rw [setVersion, HttpMessage.setVersion_versionToString]
  rfl

theorem setVersion_http11 (r : HttpRequest) :
    r.setVersion (ascii "HTTP/1.1") =
      some { r with toHttpMessage := { r.toHttpMessage with version := .kHttp11 } } :=
  r.setVersion_versionToString { HttpMessage.create with version := .kHttp11 }

end HttpRequest

structure HttpResponse extends HttpMessage where
  close : Bool
  statusCode : List Byte
  reasonParse : List Byte
deriving DecidableEq, Repr

namespace HttpResponse

def create : HttpResponse :=
  { HttpMessage.create with close := false, statusCode := ascii "200", reasonParse := ascii "OK" }

def setCloseState (r : HttpResponse) (close : Bool) : HttpResponse := { r with close := close }

/-- Without a match the version stays as it was; the caller ignores the result. -/
def setVersion (r : HttpResponse) (text : List Byte) : HttpResponse :=
  match r.toHttpMessage.setVersion text with
  | some m => { r with toHttpMessage := m }
  | none => r

def addHeaderText (r : HttpResponse) (field text : List Byte) : HttpResponse :=
  { r with toHttpMessage := r.toHttpMessage.addHeaderText field text }

def setBody (r : HttpResponse) (body : List Byte) : HttpResponse :=
  { r with toHttpMessage := r.toHttpMessage.setBody body }

end HttpResponse

end Voyager
