import Voyager.HttpParser

/-!
`HttpRequestParser` and `HttpResponseParser` as two instances of the common
parser, and when their `ParseBuffer` returns: always, unless it is called on a
parser that has already reached `kEnd`.
-/
namespace Voyager

open Lib.CString

namespace HttpRequestParser

/-- The text before the first white space, and what follows that one byte; no
text follows when the line has no white space. -/
def word (text : List Byte) : List Byte × Option (List Byte) :=
  (text.takeWhile (!isSpace ·), match text.dropWhile (!isSpace ·) with
    | [] => none
    | _ :: rest => some rest)

theorem word_append {text rest : List Byte} {b : Byte} (htext : ∀ c ∈ text, isSpace c = false)
    (hb : isSpace b = true) :
    word (text ++ b :: rest) = (text, some rest) := by
  have htext' : ∀ c ∈ text, (!isSpace c) = true := by simpa using htext
  have hstop : ∀ c ∈ (b :: rest).head?, (!isSpace c) = false := by simp [hb]
  rw [word, takeWhile_append_stop htext' hstop,
    dropWhile_append_stop htext' hstop]

/-- The query begins at the last question mark of the target; without one,
`query_` keeps its value. -/
def setTarget (r : HttpRequest) (target : List Byte) : HttpRequest :=
  match target.reverse.findIdx? (· == 63) with
  | some back =>
    let p := target.length - 1 - back
    { r with path := target.take p, query := target.drop p }
  | none => { r with path := target }

def parseRequestLine (r : HttpRequest) (line : List Byte) : Bool × HttpRequest :=
  match word line with
  | (_, none) => (false, r)
  | (method, some rest) =>
    match r.setMethod method with
    | none => (false, r)
    | some r =>
      match word rest with
      | (_, none) => (false, r)
      | (target, some version) =>
        match (setTarget r target).setVersion version with
        | none => (false, setTarget r target)
        | some r => (true, r)

/-- Whether a request line is accepted does not depend on the request. -/
theorem parseRequestLine_fst (r : HttpRequest) (line : List Byte) :
    (parseRequestLine r line).1 = match word line with
      | (_, none) => false
      | (method, some rest) => (HttpRequest.create.setMethod method).isSome &&
        match word rest with
        | (_, none) => false
        | (_, some version) => (HttpRequest.create.setVersion version).isSome := by
  unfold parseRequestLine
  rcases word line with ⟨method, _ | rest⟩
  · rfl
  · simp only
    rw [HttpRequest.isSome_setMethod .create r]
    cases r.setMethod method with
    | none => rfl
    | some r =>
      rcases word rest with ⟨target, _ | version⟩
      · rfl
      · simp only
        rw [HttpRequest.isSome_setVersion .create (setTarget r target)]
        cases (setTarget r target).setVersion version <;> rfl

/-- `ParseRequestBody` reads a body for `POST` with a `Content-Length` only. -/
def bodyLength (r : HttpRequest) : Option (List Byte) :=
  let s := r.value HttpMessage.kContentLength
  if r.method ≠ some .kPost ∨ s = [] then none else some s

def grammar : Grammar HttpRequest where
  create := .create
  parseLine := parseRequestLine
  addHeader := HttpRequest.addHeaderText
  contentLength := bodyLength
  setBody := HttpRequest.setBody

def parseBuffer (fuel : ℕ) (p : HttpParser HttpRequest) (buf : Buffer) :
    Option (Bool × HttpParser HttpRequest × Buffer) :=
  HttpParser.parseBuffer grammar fuel p buf

def create : HttpParser HttpRequest := HttpParser.create grammar

def reset : HttpParser HttpRequest := HttpParser.reset grammar

end HttpRequestParser

namespace HttpResponseParser

def parseResponseLine (r : HttpResponse) (line : List Byte) : Bool × HttpResponse :=
  let version := line.takeWhile (!isSpace ·)
  let rest := (line.dropWhile (!isSpace ·)).dropWhile isSpace
  let statusCode := rest.takeWhile (!isSpace ·)
  let reasonParse := (rest.dropWhile (!isSpace ·)).dropWhile isSpace
  (true, { r.setVersion version with statusCode := statusCode, reasonParse := reasonParse })

/-- `ParseResponseBody` reads a body for every response with a `Content-Length`. -/
def bodyLength (r : HttpResponse) : Option (List Byte) :=
  let s := r.value HttpMessage.kContentLength
  if s = [] then none else some s

def grammar : Grammar HttpResponse where
  create := .create
  parseLine := parseResponseLine
  addHeader := HttpResponse.addHeaderText
  contentLength := bodyLength
  setBody := HttpResponse.setBody

def parseBuffer (fuel : ℕ) (p : HttpParser HttpResponse) (buf : Buffer) :
    Option (Bool × HttpParser HttpResponse × Buffer) :=
  HttpParser.parseBuffer grammar fuel p buf

def create : HttpParser HttpResponse := HttpParser.create grammar

def reset : HttpParser HttpResponse := HttpParser.reset grammar

end HttpResponseParser

namespace HttpParser

variable {μ : Type*} {g : Grammar μ}

/-- `ParseBuffer` returns outside of `kEnd`, and only there. -/
theorem exists_parseBuffer_iff (p : HttpParser μ) {buf : Buffer} (h : buf.Wf) :
    (∃ fuel r, parseBuffer g fuel p buf = some r) ↔ p.state ≠ .kEnd := by
  constructor
  · rintro ⟨fuel, r, hr⟩ hend
    rw [parseBuffer_kEnd g hend] at hr
    cases hr
  · intro hend
    obtain ⟨w, hw, hlast⟩ := View.exists_last (g := g) (view p buf) hend
    have hparse := View.parse_of_advances hw hlast hend (Nat.le_refl _)
    have hspec := (parseBuffer_spec g (view p buf).turns p h).1
    rw [hparse, Option.map_eq_some_iff] at hspec
    obtain ⟨r, hr, _⟩ := hspec
    exact ⟨_, r, hr⟩

end HttpParser

end Voyager
