import Voyager.HttpRequestParser

/-!
`RequestMessage` and `ResponseMessage` of http/http_request.cc and
http/http_response.cc, which print a message behind what the buffer `message_`
holds, and what `AddHeader` makes of a header map: its fields are in order, and
they have the spelling that `TransferField` gives them.
-/
namespace Voyager

open Lib.CString Lib.OrderedMap

namespace HttpMessage

/-- The loop over `header_map_`; the two messages write different texts between a field
and its value. -/
def appendHeaders (colon : List Byte) : List (List Byte × List Byte) → Buffer → Buffer
  | [], message => message
  | h :: rest, message =>
    let message := message.append h.1
    let message := message.append colon
    let message := message.append h.2
    appendHeaders colon rest (message.append [13, 10])

end HttpMessage

namespace HttpRequest

/-- `MethodToString`; a method without a value falls under its default. -/
def methodText (r : HttpRequest) : List Byte :=
  match r.method with
  | some m => methodToString m
  | none => ascii "UNKNOWN"

def requestMessage (r : HttpRequest) (message : Buffer) : Buffer :=
  let message := message.append r.methodText
  let message := message.append (ascii " ")
  let message := message.append r.path
  let message := if r.query ≠ [] then (message.append (ascii "?")).append r.query else message
  let message := message.append (ascii " ")
  let message := message.append r.versionToString
  let message := message.append [13, 10]
  let message := HttpMessage.appendHeaders (ascii ":") r.headerMap message
  let message := message.append [13, 10]
  message.append r.body

end HttpRequest

namespace HttpResponse

def responseMessage (r : HttpResponse) (message : Buffer) : Buffer :=
  let message := message.append r.versionToString
  let message := message.append (ascii " ")
  let message := message.append r.statusCode
  let message := message.append (ascii " ")
  let message := message.append r.reasonParse
  let message := message.append [13, 10]
  let message := HttpMessage.appendHeaders (ascii ": ") r.headerMap message
  let message := message.append [13, 10]
  message.append r.body

end HttpResponse

/-! The texts. -/

/-- A buffer in order, with what can be read of it. -/
structure Buffer.Holds (b : Buffer) (q : List Byte) : Prop where
  wf : b.Wf
  readable : b.readable = q

theorem Buffer.holds_ofSize (initSize : ℕ) : (Buffer.ofSize initSize).Holds [] :=
  ⟨Buffer.wf_ofSize initSize, Buffer.readable_ofSize initSize⟩

theorem Buffer.Holds.append {b : Buffer} {q : List Byte} (h : b.Holds q) (data : List Byte) :
    (b.append data).Holds (q ++ data) := by
  obtain ⟨hwf, hread⟩ := Buffer.append_spec h.wf data
  exact ⟨hwf, by rw [hread, h.readable]⟩

namespace HttpMessage

/-- The lines of the headers, each with its line end. -/
def headerLines (colon : List Byte) (headers : List (List Byte × List Byte)) : List Byte :=
  headers.flatMap fun h => h.1 ++ colon ++ h.2 ++ [13, 10]

theorem holds_appendHeaders (colon : List Byte) (headers : List (List Byte × List Byte))
    {message : Buffer} {q : List Byte} (h : message.Holds q) :
    (appendHeaders colon headers message).Holds (q ++ headerLines colon headers) := by
  induction headers generalizing message q with
  | nil => simpa [appendHeaders, headerLines] using h
  | cons e rest ih =>
    have hline := (((h.append e.1).append colon).append e.2).append [13, 10]
    have hrest := ih hline
    simpa [appendHeaders, headerLines] using hrest

end HttpMessage

namespace HttpRequest

/-- The target of the request line. -/
def target (r : HttpRequest) : List Byte := if r.query ≠ [] then r.path ++ 63 :: r.query else r.path

def requestLine (r : HttpRequest) : List Byte :=
  r.methodText ++ 32 :: (r.target ++ 32 :: r.versionToString)

theorem holds_requestMessage (r : HttpRequest) {message : Buffer} {q : List Byte}
    (h : message.Holds q) :
    (r.requestMessage message).Holds (q ++ (r.requestLine ++ 13 :: 10 ::
      (HttpMessage.headerLines (ascii ":") r.headerMap ++ 13 :: 10 :: r.body))) := by
  have hpath := ((h.append r.methodText).append (ascii " ")).append r.path
  have hrest {message : Buffer} {q : List Byte} (h : message.Holds q) :=
    ((HttpMessage.holds_appendHeaders (ascii ":") r.headerMap
      (((h.append (ascii " ")).append r.versionToString).append [13, 10])).append
        [13, 10]).append r.body
  have hspace : ascii " " = [32] := rfl
  have hmark : ascii "?" = [63] := rfl
  unfold requestMessage requestLine target
  by_cases hquery : r.query = []
  · have hall := hrest hpath
    simp only [hspace, List.append_assoc, List.cons_append, List.nil_append] at hall
    simpa [hquery, hspace] using hall
  · have hall := hrest ((hpath.append (ascii "?")).append r.query)
    simp only [hspace, hmark, List.append_assoc, List.cons_append, List.nil_append] at hall
    simpa [hquery, hspace, hmark] using hall

end HttpRequest

namespace HttpResponse

def statusLine (r : HttpResponse) : List Byte :=
  r.versionToString ++ 32 :: (r.statusCode ++ 32 :: r.reasonParse)

theorem holds_responseMessage (r : HttpResponse) {message : Buffer} {q : List Byte}
    (h : message.Holds q) :
    (r.responseMessage message).Holds (q ++ (r.statusLine ++ 13 :: 10 ::
      (HttpMessage.headerLines (ascii ": ") r.headerMap ++ 13 :: 10 :: r.body))) := by
  have hline := (((((h.append r.versionToString).append (ascii " ")).append r.statusCode).append
    (ascii " ")).append r.reasonParse).append [13, 10]
  have hall := ((HttpMessage.holds_appendHeaders (ascii ": ") r.headerMap hline).append
    [13, 10]).append r.body
  have hspace : ascii " " = [32] := rfl
  unfold responseMessage statusLine
  simpa [hspace] using hall

end HttpResponse

/-! The header map. -/

namespace HttpMessage

/-- A header whose two parts can stand in a line, and come back from it. -/
structure Legible (h : List Byte × List Byte) : Prop where
  field_ne : h.1 ≠ []
  field : 58 ∉ h.1 ∧ 13 ∉ h.1 ∧ 10 ∉ h.1 ∧ 0 ∉ h.1
  value_ne : h.2 ≠ []
  value : 13 ∉ h.2 ∧ 10 ∉ h.2 ∧ h.2.head? ≠ some 32

/-- The pairs are given to `AddHeader` one after the other. -/
def addHeaders (m : HttpMessage) (headers : List (List Byte × List Byte)) : HttpMessage :=
  headers.foldl (fun m h => m.addHeader h.1 h.2) m

theorem transferField_cases (s : List Byte) :
    transferField s = kConnection ∨ transferField s = kContentLength ∨ transferField s = kHost ∨
      transferField s = s := by
  unfold transferField
  split_ifs <;> simp

/-- The spelling is a final one. -/
theorem transferField_idem (s : List Byte) : transferField (transferField s) = transferField s := by
  rcases transferField_cases s with h | h | h | h
  · rw [h]
    decide
  · rw [h]
    decide
  · rw [h]
    decide
  · rw [h, h]

theorem Legible.transferField {h : List Byte × List Byte} (hlegible : Legible h) :
    Legible (HttpMessage.transferField h.1, h.2) := by
  have hconst : ∀ s ∈ [kConnection, kContentLength, kHost],
      s ≠ [] ∧ 58 ∉ s ∧ 13 ∉ s ∧ 10 ∉ s ∧ 0 ∉ s := by decide
  have hfield (s : List Byte) (hs : s ∈ [kConnection, kContentLength, kHost]) :
      Legible (s, h.2) :=
    ⟨(hconst s hs).1, (hconst s hs).2, hlegible.value_ne, hlegible.value⟩
  rcases transferField_cases h.1 with heq | heq | heq | heq
  · rw [heq]
    exact hfield _ (by simp)
  · rw [heq]
    exact hfield _ (by simp)
  · rw [heq]
    exact hfield _ (by simp)
  · rw [heq]
    exact hlegible

/-- What holds of a header map that legible headers were added to. -/
structure Orderly (headers : List (List Byte × List Byte)) : Prop where
  sorted : (headers.map Prod.fst).Pairwise (· < ·)
  legible : ∀ h ∈ headers, Legible h
  spelled : ∀ h ∈ headers, transferField h.1 = h.1

theorem orderly_nil : Orderly [] := ⟨List.Pairwise.nil, by simp, by simp⟩

theorem Orderly.addHeader {m : HttpMessage} (hm : Orderly m.headerMap)
    {h : List Byte × List Byte} (hlegible : Legible h) :
    Orderly (m.addHeader h.1 h.2).headerMap := by
  rw [HttpMessage.addHeader, if_pos ⟨hlegible.field_ne, hlegible.value_ne⟩]
  refine ⟨pairwise_insert _ _ hm.sorted, ?_, ?_⟩
  · intro e he
    rcases mem_insert he with rfl | he
    · exact hlegible.transferField
    · exact hm.legible e he
  · intro e he
    rcases mem_insert he with rfl | he
    · exact transferField_idem h.1
    · exact hm.spelled e he

theorem Orderly.addHeaders {m : HttpMessage} (hm : Orderly m.headerMap)
    {headers : List (List Byte × List Byte)} (hlegible : ∀ h ∈ headers, Legible h) :
    Orderly (m.addHeaders headers).headerMap := by
  induction headers generalizing m with
  | nil => exact hm
  | cons h rest ih =>
    exact ih (hm.addHeader (hlegible h (by simp))) fun e he => hlegible e (by simp [he])

/-- Such a map is what its own lines make of an empty one; `blanks` are behind the colon. -/
theorem foldl_addHeaderText {headers : List (List Byte × List Byte)} (h : Orderly headers)
    {blanks : List Byte} (hblanks : ∀ b ∈ blanks, b = 32) {m : HttpMessage}
    (hm : m.headerMap = []) :
    (headers.map fun h => (h.1, blanks ++ h.2)).foldl (fun m h => m.addHeaderText h.1 h.2) m =
      { m with headerMap := headers } := by
  have hall (m : HttpMessage) (es : List (List Byte × List Byte))
      (hlegible : ∀ e ∈ es, Legible e) (hspelled : ∀ e ∈ es, transferField e.1 = e.1) :
      (es.map fun h => (h.1, blanks ++ h.2)).foldl (fun m h => m.addHeaderText h.1 h.2) m =
        { m with headerMap := insertAll m.headerMap es } := by
    induction es generalizing m with
    | nil => rfl
    | cons e rest ih =>
      have he := hlegible e (by simp)
      have hdrop : (blanks ++ e.2).dropWhile (· == 32) = e.2 := by
        apply dropWhile_append_stop
        · intro b hb
          rw [hblanks b hb]
          rfl
        · intro b hb
          rw [beq_eq_false_iff_ne]
          rintro rfl
          exact he.value.2.2 hb
      have hadd : m.addHeaderText e.1 (blanks ++ e.2) =
          { m with headerMap := insert e.1 e.2 m.headerMap } := by
        rw [addHeaderText, hdrop, HttpMessage.addHeader, if_pos ⟨he.field_ne, he.value_ne⟩,
          hspelled e (by simp)]
      rw [List.map_cons, List.foldl_cons, hadd, ih _ (fun e he => hlegible e (by simp [he]))
        fun e he => hspelled e (by simp [he])]
      rfl
  rw [hall m headers h.legible h.spelled, hm, insertAll_sorted h.sorted (by simp)]
  rfl

end HttpMessage

end Voyager
