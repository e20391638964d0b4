import Voyager.HttpMessage

/-!
The loop of `HttpRequestParser::ParseBuffer` and `HttpResponseParser::ParseBuffer`,
which are the same code over two kinds of messages. The loop runs on fuel: it
has no result when the fuel is used up before the flags end it. Over the buffer
stands a view of the parser with the readable bytes as a list, where one turn of
the loop is a function and waiting for more bytes commutes with appending them.
-/
namespace Voyager

open Lib.CString

inductive ParserState
  | kLine
  | kHeaders
  | kBody
  | kEnd
deriving DecidableEq, Repr

/-- What the two parsers do differently. `contentLength` is the text that the
body's size is compared with, `none` where no body is read. -/
structure Grammar (μ : Type*) where
  create : μ
  parseLine : μ → List Byte → Bool × μ
  addHeader : μ → List Byte → List Byte → μ
  contentLength : μ → Option (List Byte)
  setBody : μ → List Byte → μ

structure HttpParser (μ : Type*) where
  state : ParserState
  message : μ
deriving DecidableEq, Repr

namespace HttpParser

variable {μ : Type*}

def finishParse (p : HttpParser μ) : Bool := p.state = .kEnd

/-- The variables of `ParseBuffer`. -/
structure Frame (μ : Type*) where
  parser : HttpParser μ
  buf : Buffer
  ok : Bool
  flag : Bool

/-- The part of a header line before its first colon. -/
def fieldText (line : List Byte) : List Byte := line.takeWhile (· != 58)

section Loop

variable (g : Grammar μ)

def create : HttpParser μ := ⟨.kLine, g.create⟩

/-- `static_cast<int>` of a size. -/
def toInt (n : ℕ) : Int := (n : Int).bmod (2 ^ 32)

def parseBody (m : μ) (buf : Buffer) : Bool × μ × Buffer :=
  match g.contentLength m with
  | none => (true, m, buf)
  | some s =>
    if toInt buf.readableSize = atoi s then
      (true, g.setBody m buf.retrieveAllAsString.1, buf.retrieveAllAsString.2)
    else (false, m, buf)

/-- The body of the loop. -/
def turn (f : Frame μ) : Frame μ :=
  match f.parser.state with
  | .kLine =>
    match f.buf.findCRLF with
    | some crlf =>
      let r := g.parseLine f.parser.message (f.buf.readable.take crlf)
      if r.1 then
        { f with
          parser := ⟨.kHeaders, r.2⟩
          buf := f.buf.retrieveUntil (f.buf.readIndex + (crlf + 2)) }
      else { f with parser := ⟨.kLine, r.2⟩, ok := false, flag := false }
    | none => { f with flag := false }
  | .kHeaders =>
    match f.buf.findCRLF with
    | some crlf =>
      let line := f.buf.readable.take crlf
      let buf := f.buf.retrieveUntil (f.buf.readIndex + (crlf + 2))
      let colon := (fieldText line).length
      if crlf = 0 then { f with parser := ⟨.kBody, f.parser.message⟩, buf := buf }
      else if colon = 0 ∨ colon = crlf then { f with buf := buf, ok := false }
      else
        { f with
          parser := ⟨.kHeaders, g.addHeader f.parser.message (line.take colon)
            (line.drop (colon + 1))⟩
          buf := buf }
    | none => { f with flag := false }
  | .kBody =>
    let r := parseBody g f.parser.message f.buf
    { f with
      parser := ⟨if r.1 then .kEnd else .kBody, r.2.1⟩
      buf := r.2.2
      ok := r.1
      flag := false }
  | .kEnd => f

def loop : ℕ → Frame μ → Option (Frame μ)
  | 0, _ => none
  | fuel + 1, f => if f.flag && f.ok then loop fuel (turn g f) else some f

/-- The value returned, with the parser and the buffer it leaves. -/
def parseBuffer (fuel : ℕ) (p : HttpParser μ) (buf : Buffer) :
    Option (Bool × HttpParser μ × Buffer) :=
  (loop g fuel ⟨p, buf, true, true⟩).map fun f => (f.ok, f.parser, f.buf)

def reset : HttpParser μ := ⟨.kLine, g.create⟩

end Loop

/-- The parser together with the bytes it can read. -/
structure View (μ : Type*) where
  state : ParserState
  message : μ
  bytes : List Byte
deriving DecidableEq, Repr

def view (p : HttpParser μ) (buf : Buffer) : View μ := ⟨p.state, p.message, buf.readable⟩

/-- How one turn of the loop leaves its flags: on to the next turn, out of the
loop with `true`, out of it with `false`. -/
inductive Verdict
  | more
  | stop
  | fail
deriving DecidableEq, Repr

namespace View

section Turn

variable (g : Grammar μ)

def turn (v : View μ) : Verdict × View μ :=
  match v.state with
  | .kLine =>
    match ByteQueue.firstCRLF v.bytes with
    | some crlf =>
      let r := g.parseLine v.message (v.bytes.take crlf)
      if r.1 then (.more, ⟨.kHeaders, r.2, v.bytes.drop (crlf + 2)⟩)
      else (.fail, ⟨.kLine, r.2, v.bytes⟩)
    | none => (.stop, v)
  | .kHeaders =>
    match ByteQueue.firstCRLF v.bytes with
    | some crlf =>
      let line := v.bytes.take crlf
      let rest := v.bytes.drop (crlf + 2)
      let colon := (fieldText line).length
      if crlf = 0 then (.more, ⟨.kBody, v.message, rest⟩)
      else if colon = 0 ∨ colon = crlf then (.fail, ⟨.kHeaders, v.message, rest⟩)
      else (.more, ⟨.kHeaders, g.addHeader v.message (line.take colon) (line.drop (colon + 1)),
        rest⟩)
    | none => (.stop, v)
  | .kBody =>
    match g.contentLength v.message with
    | none => (.stop, ⟨.kEnd, v.message, v.bytes⟩)
    | some s =>
      if toInt v.bytes.length = atoi s then (.stop, ⟨.kEnd, g.setBody v.message v.bytes, []⟩)
      else (.fail, v)
  | .kEnd => (.more, v)

def parse : ℕ → View μ → Option (Bool × View μ)
  | 0, _ => none
  | fuel + 1, v =>
    match turn g v with
    | (.more, w) => parse fuel w
    | (.stop, w) => some (true, w)
    | (.fail, w) => some (false, w)

end Turn

/-- The view once more bytes have been read. -/
def feed (v : View μ) (data : List Byte) : View μ := { v with bytes := v.bytes ++ data }

@[simp] theorem feed_nil (v : View μ) : v.feed [] = v := by simp [feed]

@[simp] theorem feed_feed (v : View μ) (a b : List Byte) : (v.feed a).feed b = v.feed (a ++ b) := by
  simp [feed]

variable {g : Grammar μ} {v w : View μ}

/-- A turn that consumes a line does the same when more bytes follow. -/
theorem turn_feed_of_crlf {crlf : ℕ} (hcrlf : ByteQueue.firstCRLF v.bytes = some crlf)
    (hstate : v.state = .kLine ∨ v.state = .kHeaders) (data : List Byte) :
    turn g (v.feed data) = ((turn g v).1, (turn g v).2.feed data) := by
  have hlen := (ByteQueue.firstCRLF_eq_some.mp hcrlf).1.lt_length
  have hcrlf' := ByteQueue.firstCRLF_append hcrlf data
  have htake : (v.bytes ++ data).take crlf = v.bytes.take crlf :=
    List.take_append_of_le_length (by omega)
  have hdrop : (v.bytes ++ data).drop (crlf + 2) = v.bytes.drop (crlf + 2) ++ data :=
    List.drop_append_of_le_length (by omega)
  obtain ⟨state, message, bytes⟩ := v
  simp only at hcrlf hstate hlen hcrlf' htake hdrop
  rcases hstate with rfl | rfl
  · simp only [turn, feed, hcrlf, hcrlf', htake, hdrop]
    split <;> rfl
  · simp only [turn, feed, hcrlf, hcrlf', htake, hdrop]
    split
    · rfl
    · split <;> rfl

/-- A line that is not accepted stays where it is. -/
theorem turn_kLine_fail (hstate : v.state = .kLine) (hfail : turn g v = (.fail, w)) :
    w.state = .kLine ∧ w.bytes = v.bytes := by
  cases hcrlf : ByteQueue.firstCRLF v.bytes with
  | none => simp [turn, hstate, hcrlf] at hfail
  | some crlf =>
    simp only [turn, hstate, hcrlf] at hfail
    split at hfail
    · simp at hfail
    · simp only [Prod.mk.injEq, true_and] at hfail
      subst hfail
      exact ⟨rfl, rfl⟩

/-- How the loop ends among the headers: it waits, or it has dropped a line. -/
theorem turn_kHeaders_last (hstate : v.state = .kHeaders) (hlast : (turn g v).1 ≠ .more) :
    (ByteQueue.firstCRLF v.bytes = none ∧ turn g v = (.stop, v)) ∨
      ∃ crlf, ByteQueue.firstCRLF v.bytes = some crlf ∧ 0 < crlf ∧
        turn g v = (.fail, ⟨.kHeaders, v.message, v.bytes.drop (crlf + 2)⟩) := by
  cases hcrlf : ByteQueue.firstCRLF v.bytes with
  | none => simp [turn, hstate, hcrlf]
  | some crlf =>
    right
    refine ⟨crlf, rfl, ?_⟩
    simp only [turn, hstate, hcrlf] at hlast ⊢
    split at hlast
    · simp at hlast
    · rename_i hblank
      split at hlast
      · rename_i hcolon
        rw [if_neg hblank, if_pos hcolon]
        exact ⟨Nat.pos_of_ne_zero hblank, rfl⟩
      · simp at hlast

/-- Waiting for the rest of a line changes nothing. -/
theorem turn_stop (hstop : (turn g v).1 = .stop) (hbody : v.state ≠ .kBody) :
    (turn g v).2 = v := by
  cases hstate : v.state with
  | kLine =>
    cases hcrlf : ByteQueue.firstCRLF v.bytes with
    | none => simp [turn, hstate, hcrlf]
    | some crlf =>
      simp only [turn, hstate, hcrlf] at hstop
      split at hstop <;> simp at hstop
  | kHeaders =>
    rcases turn_kHeaders_last (g := g) hstate (by simp [hstop]) with ⟨_, hturn⟩ | ⟨_, _, _, hturn⟩
    · rw [hturn]
    · rw [hturn] at hstop
      cases hstop
  | kBody => exact absurd hstate hbody
  | kEnd => simp [turn, hstate] at hstop

theorem turn_kBody (hstate : v.state = .kBody) :
    ((turn g v).1 = .stop ∧ (turn g v).2.state = .kEnd) ∨ turn g v = (.fail, v) := by
  simp only [turn, hstate]
  split
  · simp
  · split <;> simp

theorem turn_kBody_ne_more (hstate : v.state = .kBody) : (turn g v).1 ≠ .more := by
  rcases turn_kBody (g := g) hstate with ⟨hstop, _⟩ | hfail
  · simp [hstop]
  · simp [hfail]

/-- Before the body, bytes that arrive later change nothing but a wait. -/
theorem turn_feed (hstop : (turn g v).1 ≠ .stop) (hbody : v.state ≠ .kBody) (data : List Byte) :
    turn g (v.feed data) = ((turn g v).1, (turn g v).2.feed data) := by
  cases hstate : v.state with
  | kLine =>
    cases hcrlf : ByteQueue.firstCRLF v.bytes with
    | none => simp [turn, hstate, hcrlf] at hstop
    | some crlf => exact turn_feed_of_crlf hcrlf (.inl hstate) data
  | kHeaders =>
    cases hcrlf : ByteQueue.firstCRLF v.bytes with
    | none => simp [turn, hstate, hcrlf] at hstop
    | some crlf => exact turn_feed_of_crlf hcrlf (.inr hstate) data
  | kBody => exact absurd hstate hbody
  | kEnd => simp [turn, feed, hstate]

theorem turn_more_feed (h : turn g v = (.more, w)) (data : List Byte) :
    turn g (v.feed data) = (.more, w.feed data) := by
  have hbody : v.state ≠ .kBody := by
    intro hstate
    exact turn_kBody_ne_more hstate (by rw [h])
  rw [turn_feed (by simp [h]) hbody, h]

theorem turn_fail_feed (h : turn g v = (.fail, w)) (hbody : v.state ≠ .kBody) (data : List Byte) :
    turn g (v.feed data) = (.fail, w.feed data) := by
  rw [turn_feed (by simp [h]) hbody, h]

/-- What a turn that goes on has done: a line is gone, and the next state is
neither the last one nor the first. -/
theorem turn_more_progress (h : turn g v = (.more, w)) (hend : v.state ≠ .kEnd) :
    w.state ≠ .kEnd ∧ w.state ≠ .kLine ∧
      ∃ crlf, ByteQueue.firstCRLF v.bytes = some crlf ∧ w.bytes = v.bytes.drop (crlf + 2) := by
  cases hstate : v.state with
  | kLine =>
    cases hcrlf : ByteQueue.firstCRLF v.bytes with
    | none => simp [turn, hstate, hcrlf] at h
    | some crlf =>
      simp only [turn, hstate, hcrlf] at h
      split at h
      · simp only [Prod.mk.injEq, true_and] at h
        subst h
        exact ⟨by simp, by simp, crlf, rfl, rfl⟩
      · simp at h
  | kHeaders =>
    cases hcrlf : ByteQueue.firstCRLF v.bytes with
    | none => simp [turn, hstate, hcrlf] at h
    | some crlf =>
      simp only [turn, hstate, hcrlf] at h
      split at h
      · simp only [Prod.mk.injEq, true_and] at h
        subst h
        exact ⟨by simp, by simp, crlf, rfl, rfl⟩
      · split at h
        · simp at h
        · simp only [Prod.mk.injEq, true_and] at h
          subst h
          exact ⟨by simp, by simp, crlf, rfl, rfl⟩
  | kBody => exact absurd (by rw [h]) (turn_kBody_ne_more (g := g) hstate)
  | kEnd => exact absurd hstate hend

theorem length_lt_of_turn_more (h : turn g v = (.more, w)) (hend : v.state ≠ .kEnd) :
    w.bytes.length < v.bytes.length := by
  obtain ⟨_, _, crlf, hcrlf, hbytes⟩ := turn_more_progress h hend
  have hlen := (ByteQueue.firstCRLF_eq_some.mp hcrlf).1.lt_length
  rw [hbytes, List.length_drop]
  omega

/-- Turns that go on, one after the other. -/
inductive Advances (g : Grammar μ) : View μ → View μ → Prop
  | refl (v : View μ) : Advances g v v
  | step {u v w : View μ} : turn g u = (.more, v) → Advances g v w → Advances g u w

theorem Advances.feed (h : Advances g v w) (data : List Byte) :
    Advances g (v.feed data) (w.feed data) := by
  induction h with
  | refl v => exact .refl _
  | step hturn _ ih => exact .step (turn_more_feed hturn data) ih

theorem Advances.trans {u : View μ} (huv : Advances g u v) (hvw : Advances g v w) :
    Advances g u w := by
  induction huv with
  | refl _ => exact hvw
  | step hturn _ ih => exact .step hturn (ih hvw)

/-- The loop is deterministic: a view that does not go on comes after every
other one on the way to it. -/
theorem Advances.to_last {u : View μ} (huw : Advances g u w) (huv : Advances g u v)
    (hlast : (turn g w).1 ≠ .more) : Advances g v w := by
  induction huv with
  | refl _ => exact huw
  | step hturn _ ih =>
    cases huw with
    | refl _ => exact absurd (by rw [hturn]) hlast
    | step hturn' hrest =>
      rw [hturn] at hturn'
      simp only [Prod.mk.injEq, true_and] at hturn'
      exact ih (hturn' ▸ hrest)

theorem Advances.last_unique (h : Advances g v w) (hlast : (turn g v).1 ≠ .more) : v = w := by
  cases h with
  | refl _ => rfl
  | step hturn _ => exact absurd (by rw [hturn]) hlast

/-- The first line is read in the first turn, if at all. -/
theorem Advances.state_cases (h : Advances g v w) (hend : v.state ≠ .kEnd) :
    w.state ≠ .kEnd ∧ (w.state = .kLine → v = w) := by
  induction h with
  | refl v => exact ⟨hend, fun _ => rfl⟩
  | step hturn _ ih =>
    obtain ⟨hend', hline, _⟩ := turn_more_progress hturn hend
    obtain ⟨hwend, heq⟩ := ih hend'
    refine ⟨hwend, ?_⟩
    intro hw
    exact absurd (heq hw ▸ hw) hline

theorem Advances.length_le (h : Advances g v w) (hend : v.state ≠ .kEnd) :
    w.bytes.length ≤ v.bytes.length := by
  induction h with
  | refl v => exact Nat.le_refl _
  | step hturn _ ih =>
    have hlt := length_lt_of_turn_more hturn hend
    have hle := ih (turn_more_progress hturn hend).1
    omega

/-- A field name and the text behind its colon, which together are one line. -/
def IsHeader (h : List Byte × List Byte) : Prop := h.1 ≠ [] ∧ 58 ∉ h.1 ∧ 13 ∉ h.1 ∧ 13 ∉ h.2

theorem fieldText_header {h : List Byte × List Byte} (hcolon : 58 ∉ h.1) :
    fieldText (h.1 ++ 58 :: h.2) = h.1 := by
  apply takeWhile_append_stop
  · intro c hc
    have hne : c ≠ 58 := by
      rintro rfl
      exact hcolon hc
    simpa using hne
  · simp

/-- A header line is one turn of the loop. -/
theorem turn_header {h : List Byte × List Byte} (hheader : IsHeader h) (m : μ)
    (rest : List Byte) :
    turn g ⟨.kHeaders, m, h.1 ++ 58 :: h.2 ++ 13 :: 10 :: rest⟩ =
      (.more, ⟨.kHeaders, g.addHeader m h.1 h.2, rest⟩) := by
  obtain ⟨hne, hcolon, hcr, hcr'⟩ := hheader
  generalize hline : h.1 ++ 58 :: h.2 = line
  have hmem : (13 : Byte) ∉ line := by
    rw [← hline]
    simp only [List.mem_append, List.mem_cons, not_or]
    exact ⟨hcr, by decide, hcr'⟩
  have hfirst := ByteQueue.firstCRLF_line hmem rest
  have htake : (line ++ 13 :: 10 :: rest).take line.length = line := List.take_left
  have hdrop : (line ++ 13 :: 10 :: rest).drop (line.length + 2) = rest := by
    rw [List.drop_append]
    simp
  have hfield : fieldText line = h.1 := by
    rw [← hline, fieldText_header hcolon]
  have hlen : line.length = h.1.length + (h.2.length + 1) := by simp [← hline]
  have hpos : 0 < h.1.length := List.length_pos_iff.mpr hne
  have hblank : line.length ≠ 0 := by omega
  have hbad : ¬ (h.1.length = 0 ∨ h.1.length = line.length) := by omega
  have hname : line.take h.1.length = h.1 := by
    rw [← hline]
    exact List.take_left
  have htext : line.drop (h.1.length + 1) = h.2 := by
    rw [← hline, List.drop_append]
    simp
  simp only [turn, hfirst, htake, hdrop, hfield, hblank, hbad, if_false, hname, htext]

/-- The headers and the blank line behind them. -/
theorem advances_headers {headers : List (List Byte × List Byte)}
    (hheaders : ∀ h ∈ headers, IsHeader h) (m : μ) (rest : List Byte) :
    Advances g
      ⟨.kHeaders, m, headers.flatMap (fun h => h.1 ++ 58 :: h.2 ++ [13, 10]) ++ 13 :: 10 :: rest⟩
      ⟨.kBody, headers.foldl (fun m h => g.addHeader m h.1 h.2) m, rest⟩ := by
  induction headers generalizing m with
  | nil =>
    have hfirst := ByteQueue.firstCRLF_line (List.not_mem_nil (a := (13 : Byte))) rest
    refine .step ?_ (.refl _)
    simp only [List.flatMap_nil, List.nil_append, List.length_nil, List.foldl_nil] at hfirst ⊢
    simp [turn, hfirst]
  | cons h headers ih =>
    have hturn := turn_header (g := g) (hheaders h (by simp)) m
      (headers.flatMap (fun h => h.1 ++ 58 :: h.2 ++ [13, 10]) ++ 13 :: 10 :: rest)
    refine .step ?_ (ih (fun h hh => hheaders h (by simp [hh])) (g.addHeader m h.1 h.2))
    rw [← hturn]
    simp

/-- The first line is one turn as well, if it is accepted. -/
theorem turn_line {line : List Byte} {m m' : μ} (hcr : (13 : Byte) ∉ line)
    (hline : g.parseLine m line = (true, m')) (rest : List Byte) :
    turn g ⟨.kLine, m, line ++ 13 :: 10 :: rest⟩ = (.more, ⟨.kHeaders, m', rest⟩) := by
  have hfirst := ByteQueue.firstCRLF_line hcr rest
  simp only [turn, hfirst, List.take_left, hline, if_true]
  rw [List.drop_append]
  simp

/-- Outside of `kEnd` the loop comes to a turn that ends it. -/
theorem exists_last (v : View μ) (hend : v.state ≠ .kEnd) :
    ∃ w, Advances g v w ∧ (turn g w).1 ≠ .more := by
  generalize hn : v.bytes.length = n
  induction n using Nat.strong_induction_on generalizing v with
  | _ n ih =>
    by_cases hlast : (turn g v).1 = .more
    · have hturn : turn g v = (.more, (turn g v).2) := by rw [← hlast]
      have hend' := (turn_more_progress hturn hend).1
      have hlt := length_lt_of_turn_more hturn hend
      obtain ⟨w, hw, hwlast⟩ := ih _ (hn ▸ hlt) _ hend' rfl
      exact ⟨w, .step hturn hw, hwlast⟩
    · exact ⟨v, .refl v, hlast⟩

/-- The number of turns that the loop can need. -/
def turns (v : View μ) : ℕ := v.bytes.length + 1

theorem parse_of_advances {fuel : ℕ} (h : Advances g v w) (hlast : (turn g w).1 ≠ .more)
    (hend : v.state ≠ .kEnd) (hfuel : v.turns ≤ fuel) :
    parse g fuel v = some (decide ((turn g w).1 = .stop), (turn g w).2) := by
  induction h generalizing fuel with
  | refl v =>
    obtain ⟨fuel, rfl⟩ : ∃ k, fuel = k + 1 := ⟨fuel - 1, by unfold turns at hfuel; omega⟩
    rw [parse]
    rcases hturn : turn g v with ⟨verdict, u⟩
    rw [hturn] at hlast
    cases verdict with
    | more => exact absurd rfl hlast
    | stop => rfl
    | fail => rfl
  | step hturn _ ih =>
    have hend' := (turn_more_progress hturn hend).1
    have hlt := length_lt_of_turn_more hturn hend
    obtain ⟨fuel, rfl⟩ : ∃ k, fuel = k + 1 := ⟨fuel - 1, by unfold turns at hfuel; omega⟩
    rw [parse, hturn]
    exact ih hlast hend' (by unfold turns at *; omega)

/-- Every result of the loop is that of a last turn. -/
theorem exists_advances_of_parse {fuel : ℕ} {r : Bool × View μ} (h : parse g fuel v = some r) :
    ∃ w, Advances g v w ∧ (turn g w).1 ≠ .more ∧
      r = (decide ((turn g w).1 = .stop), (turn g w).2) := by
  induction fuel generalizing v with
  | zero => simp [parse] at h
  | succ fuel ih =>
    rw [parse] at h
    rcases hturn : turn g v with ⟨verdict, u⟩
    rw [hturn] at h
    cases verdict with
    | more =>
      obtain ⟨w, hw, hlast, hr⟩ := ih h
      exact ⟨w, .step hturn hw, hlast, hr⟩
    | stop => exact ⟨v, .refl v, by simp [hturn], by simpa [hturn] using h.symm⟩
    | fail => exact ⟨v, .refl v, by simp [hturn], by simpa [hturn] using h.symm⟩

end View

section Refinement

variable (g : Grammar μ)

theorem parseBody_spec (m : μ) {buf : Buffer} (h : buf.Wf) :
    (parseBody g m buf).2.2.Wf ∧
      View.turn g ⟨.kBody, m, buf.readable⟩ =
        (if (parseBody g m buf).1 then .stop else .fail,
          ⟨if (parseBody g m buf).1 then .kEnd else .kBody, (parseBody g m buf).2.1,
            (parseBody g m buf).2.2.readable⟩) := by
  obtain ⟨hwf, hrest, htext⟩ := Buffer.retrieveAllAsString_spec h
  unfold parseBody View.turn
  simp only [Buffer.length_readable h]
  cases g.contentLength m with
  | none => exact ⟨h, rfl⟩
  | some s =>
    by_cases heq : toInt buf.readableSize = atoi s
    · simp [heq, hwf, hrest, htext]
    · simp [heq, h]

/-- One turn of the loop on a buffer is the turn of the view, and its flags are
those that the verdict stands for. -/
theorem turn_spec {f : Frame μ} (h : f.buf.Wf) (hok : f.ok = true) (hflag : f.flag = true) :
    (turn g f).buf.Wf ∧
      view (turn g f).parser (turn g f).buf = (View.turn g (view f.parser f.buf)).2 ∧
      (turn g f).ok = decide ((View.turn g (view f.parser f.buf)).1 ≠ .fail) ∧
      ((turn g f).flag && (turn g f).ok) =
        decide ((View.turn g (view f.parser f.buf)).1 = .more) := by
  obtain ⟨⟨state, message⟩, buf, ok, flag⟩ := f
  simp only at h hok hflag
  subst hok hflag
  have hfind := Buffer.findCRLF_spec h
  cases state with
  | kLine =>
    cases hcrlf : ByteQueue.firstCRLF buf.readable with
    | none => simp [turn, View.turn, view, hfind, hcrlf, h]
    | some crlf =>
      obtain ⟨hwf, hrest⟩ := Buffer.retrieveUntil_spec h (crlf + 2)
      by_cases hline : (g.parseLine message (buf.readable.take crlf)).1 = true
      · simp [turn, View.turn, view, hfind, hcrlf, hline, hwf, hrest]
      · simp [turn, View.turn, view, hfind, hcrlf, hline, h]
  | kHeaders =>
    cases hcrlf : ByteQueue.firstCRLF buf.readable with
    | none => simp [turn, View.turn, view, hfind, hcrlf, h]
    | some crlf =>
      obtain ⟨hwf, hrest⟩ := Buffer.retrieveUntil_spec h (crlf + 2)
      by_cases hblank : crlf = 0
      · subst hblank
        simp [turn, View.turn, view, hfind, hcrlf, hwf, hrest]
      · by_cases hcolon : (fieldText (buf.readable.take crlf)).length = 0 ∨
            (fieldText (buf.readable.take crlf)).length = crlf
        · simp only [turn, View.turn, view, hfind, hcrlf, hblank, hcolon, if_true, if_false]
          simp [hwf, hrest]
        · simp only [turn, View.turn, view, hfind, hcrlf, hblank, hcolon, if_false]
          simp [hwf, hrest]
  | kBody =>
    obtain ⟨hwf, hbody⟩ := parseBody_spec g message h
    simp only [turn, view, hbody, hwf, true_and]
    cases (parseBody g message buf).1 <;> simp
  | kEnd => simp [turn, View.turn, view, h]

/-- The loop computes what the view's loop computes, which tests its flags one
turn earlier. -/
theorem loop_spec (fuel : ℕ) {f : Frame μ} (h : f.buf.Wf) (hok : f.ok = true)
    (hflag : f.flag = true) :
    (loop g (fuel + 1) f).map (fun f => (f.ok, view f.parser f.buf)) =
        View.parse g fuel (view f.parser f.buf) ∧
      ∀ f' ∈ loop g (fuel + 1) f, f'.buf.Wf := by
  induction fuel generalizing f with
  | zero => simp [loop, hok, hflag, View.parse]
  | succ fuel ih =>
    obtain ⟨hwf, hview, hok', hflag'⟩ := turn_spec g h hok hflag
    rw [loop, hok, hflag]
    simp only [Bool.and_self, if_true, View.parse]
    rcases hturn : View.turn g (view f.parser f.buf) with ⟨verdict, w⟩
    rw [hturn] at hview hok' hflag'
    simp only at hview hok' hflag' ⊢
    cases verdict with
    | more =>
      simp only [decide_true, Bool.and_eq_true] at hflag'
      simpa [hview] using ih hwf hflag'.2 hflag'.1
    | stop =>
      rw [loop, hflag']
      simp [hok', hview, hwf]
    | fail =>
      rw [loop, hflag']
      simp [hok', hview, hwf]

theorem loop_mono {fuel fuel' : ℕ} {f f' : Frame μ} (h : loop g fuel f = some f')
    (hle : fuel ≤ fuel') : loop g fuel' f = some f' := by
  induction fuel generalizing fuel' f with
  | zero => simp [loop] at h
  | succ fuel ih =>
    obtain ⟨k, rfl⟩ : ∃ k, fuel' = k + 1 := ⟨fuel' - 1, by omega⟩
    rw [loop] at h ⊢
    split
    · rename_i hcond
      rw [if_pos hcond] at h
      exact ih h (by omega)
    · rename_i hcond
      rwa [if_neg hcond] at h

theorem parseBuffer_mono {fuel fuel' : ℕ} {p : HttpParser μ} {buf : Buffer}
    {r : Bool × HttpParser μ × Buffer} (h : parseBuffer g fuel p buf = some r)
    (hle : fuel ≤ fuel') : parseBuffer g fuel' p buf = some r := by
  rw [parseBuffer, Option.map_eq_some_iff] at h
  obtain ⟨f', hf', rfl⟩ := h
  rw [parseBuffer, loop_mono g hf' hle]
  rfl

/-- In `kEnd` the loop changes nothing, not even its flags. -/
theorem parseBuffer_kEnd {p : HttpParser μ} (hend : p.state = .kEnd) (fuel : ℕ) (buf : Buffer) :
    parseBuffer g fuel p buf = none := by
  rw [parseBuffer, Option.map_eq_none_iff]
  induction fuel with
  | zero => rfl
  | succ fuel ih =>
    rw [loop]
    simpa [turn, hend] using ih

/-- `ParseBuffer` as a function of the view. -/
theorem parseBuffer_spec (fuel : ℕ) (p : HttpParser μ) {buf : Buffer} (h : buf.Wf) :
    (parseBuffer g (fuel + 1) p buf).map (fun r => (r.1, view r.2.1 r.2.2)) =
        View.parse g fuel (view p buf) ∧
      ∀ r ∈ parseBuffer g (fuel + 1) p buf, r.2.2.Wf := by
  obtain ⟨hparse, hwf⟩ := loop_spec g fuel (f := ⟨p, buf, true, true⟩) h rfl rfl
  refine ⟨?_, ?_⟩
  · rw [parseBuffer, Option.map_map]
    exact hparse
  · intro r hr
    rw [parseBuffer, Option.mem_def, Option.map_eq_some_iff] at hr
    obtain ⟨f', hf', rfl⟩ := hr
    exact hwf f' hf'

end Refinement

/-- The call ends with the last turn of the loop. -/
theorem exists_parseBuffer {g : Grammar μ} {p : HttpParser μ} {buf : Buffer} {w : View μ}
    (hwf : buf.Wf) (hadv : View.Advances g (view p buf) w)
    (hlast : (View.turn g w).1 ≠ .more) (hend : p.state ≠ .kEnd) :
    ∃ fuel p' buf', parseBuffer g fuel p buf =
        some (decide ((View.turn g w).1 = .stop), p', buf') ∧
      buf'.Wf ∧ view p' buf' = (View.turn g w).2 := by
  obtain ⟨hspec, hbuf⟩ := parseBuffer_spec g (view p buf).turns p hwf
  rw [View.parse_of_advances hadv hlast hend (Nat.le_refl _), Option.map_eq_some_iff] at hspec
  obtain ⟨⟨ok, p', buf'⟩, hparse, hresult⟩ := hspec
  rw [Prod.mk.injEq] at hresult
  obtain ⟨rfl, hview⟩ := hresult
  exact ⟨_, p', buf', hparse, hbuf _ hparse, hview⟩

end HttpParser

end Voyager
