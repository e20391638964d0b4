import Voyager.SudokuSearch
import Voyager.StringSplit
import Voyager.Lib.Framing

/-!
`SudukuServer` of examples/sudoku: lines that come in reads of any size, each a
puzzle with or without a name in front of it, and one line in answer to each.
-/
namespace Voyager.SudokuServer

open Lib.Framing Lib.Pieces StringUtil SudokuSolver

def kCells : ℕ := 81

inductive Act
  | sendMessage (text : List Byte)
  | shutDown
deriving DecidableEq, Repr

def badRequest : List Byte := ascii "Bad Request!" ++ [13, 10]

/-- `Slove`, with the message that it sends; the outer `none` is a puzzle at which the
solver reads outside of its tables. -/
def slove (s : List Byte) : Option (Option (List Byte)) :=
  let v := splitStringUsing s (ascii ":") []
  let id := if 1 < v.length then v.getD 0 [] else []
  let puzzle := if 1 < v.length then v.getD 1 [] else s
  if puzzle.length ≠ kCells then some none
  else
    ((create puzzle).bind solve).map fun res =>
      some (if id = [] then res ++ [13, 10] else id ++ ascii ":" ++ res ++ [13, 10])

theorem readableSize_retrieveUntil_lt {b : Buffer} (crlf : ℕ) (h : kCells + 2 ≤ b.readableSize) :
    (b.retrieveUntil (b.readIndex + crlf + 2)).readableSize < b.readableSize := by
  have hsize : b.readIndex + crlf + 2 - b.readIndex = crlf + 2 := by omega
  rw [Buffer.retrieveUntil, hsize, Buffer.retrieve]
  split
  · simp only [Buffer.readableSize, kCells] at *
    omega
  · simp only [Buffer.readableSize, Buffer.retrieveAll, kCells] at *
    omega

/-- The loop of `MessageCallback`. -/
def messageCallback (b : Buffer) : Option (Buffer × List Act) :=
  if h : kCells + 2 ≤ b.readableSize then
    match b.findCRLF with
    | none => some (b, [])
    | some crlf =>
      have := readableSize_retrieveUntil_lt crlf h
      (slove (b.readable.take crlf)).bind fun
        | some text =>
          (messageCallback (b.retrieveUntil (b.readIndex + crlf + 2))).map fun r =>
            (r.1, .sendMessage text :: r.2)
        | none =>
          some (b.retrieveUntil (b.readIndex + crlf + 2), [.sendMessage badRequest, .shutDown])
  else some (b, [])
termination_by b.readableSize

/-- The buffer of a connection, and all that was done on it. -/
structure Session where
  readbuf : Buffer
  acts : List Act
deriving DecidableEq, Repr

namespace Session

def start (initSize : ℕ) : Session := ⟨.ofSize initSize, []⟩

def read (s : Session) (data : List Byte) : Option Session :=
  (messageCallback (s.readbuf.readV (some data))).map fun r => ⟨r.1, s.acts ++ r.2⟩

def readAll : Session → List (List Byte) → Option Session
  | s, [] => some s
  | s, data :: rest => (s.read data).bind fun t => t.readAll rest

end Session

/-! What a client sends. -/

structure Request where
  id : List Byte
  puzzle : List Byte

namespace Request

/-- The name and what separates it, in a request and in its answer. -/
def label (r : Request) : List Byte := if r.id = [] then [] else r.id ++ ascii ":"

def line (r : Request) : List Byte := r.label ++ r.puzzle

def bytes (r : Request) : List Byte := r.line ++ [13, 10]

structure WellFormed (r : Request) : Prop where
  id : ∀ c ∈ r.id, c ≠ 58 ∧ c ≠ 13
  length : r.puzzle.length = kCells
  symbols : ∀ c ∈ r.puzzle, Symbol c

end Request

/-- The request has been answered by what the puzzle asks for. -/
def Answered (r : Request) (a : Act) : Prop :=
  ∃ answer, Answers (cluesOf r.puzzle) answer ∧ a = .sendMessage (r.label ++ answer ++ [13, 10])

section

variable {r : Request}

theorem symbol_cases {c : Byte} (h : Symbol c) : c ≠ 58 ∧ c ≠ 13 := by
  constructor
  · rintro rfl
    revert h
    decide
  · rintro rfl
    revert h
    decide

theorem isDelimiter_colon (c : Byte) : isDelimiter (ascii ":") c = true ↔ c = 58 :=
  isDelimiter_iff (by decide) c

theorem pieces_puzzle (hr : r.WellFormed) :
    pieces (isDelimiter (ascii ":")) r.puzzle = [r.puzzle] := by
  have hlen := hr.length
  apply pieces_eq_singleton
  · rintro hnil
    rw [hnil] at hlen
    cases hlen
  · intro c hc
    rw [← Bool.not_eq_true, isDelimiter_colon]
    exact (symbol_cases (hr.symbols c hc)).1

theorem pieces_line (hr : r.WellFormed) :
    pieces (isDelimiter (ascii ":")) r.line =
      if r.id = [] then [r.puzzle] else [r.id, r.puzzle] := by
  unfold Request.line Request.label
  split
  · exact pieces_puzzle hr
  · rename_i hid
    have hcolon : isDelimiter (ascii ":") 58 = true := (isDelimiter_colon 58).mpr rfl
    have happend : r.id ++ ascii ":" ++ r.puzzle = r.id ++ 58 :: r.puzzle := by
      rw [List.append_assoc]
      rfl
    rw [happend, pieces_append_cons _ _ _ hcolon, pieces_puzzle hr, pieces_eq_singleton _ hid]
    · rfl
    · intro c hc
      rw [← Bool.not_eq_true, isDelimiter_colon]
      exact (hr.id c hc).1

theorem slove_line (hr : r.WellFormed) :
    ∃ answer, Answers (cluesOf r.puzzle) answer ∧
      slove r.line = some (some (r.label ++ answer ++ [13, 10])) := by
  obtain ⟨s, answer, hs, hsolve, hanswer⟩ := solve_spec hr.length hr.symbols
  refine ⟨answer, hanswer, ?_⟩
  have hpuzzle : ((create r.puzzle).bind solve) = some answer := by
    rw [hs, Option.bind_some, hsolve]
  have hsize : ¬ r.puzzle.length ≠ kCells := not_not.mpr hr.length
  rw [slove, splitStringUsing_eq, List.nil_append, pieces_line hr]
  by_cases hid : r.id = []
  · have hline : r.line = r.puzzle := by simp [Request.line, Request.label, hid]
    rw [if_pos hid, hline]
    simp [hsize, hpuzzle, Request.label, hid]
  · rw [if_neg hid]
    simp [hsize, hpuzzle, Request.label, hid]

theorem not_mem_line (hr : r.WellFormed) : (13 : Byte) ∉ r.line := by
  have hlabel : (13 : Byte) ∉ r.label := by
    unfold Request.label
    split
    · exact List.not_mem_nil
    · rw [List.mem_append, not_or]
      exact ⟨fun hmem => (hr.id 13 hmem).2 rfl, by decide⟩
  rw [Request.line, List.mem_append, not_or]
  exact ⟨hlabel, fun hmem => (symbol_cases (hr.symbols 13 hmem)).2 rfl⟩

theorem length_bytes (hr : r.WellFormed) : kCells + 2 ≤ r.bytes.length := by
  simp only [Request.bytes, Request.line, List.length_append, hr.length, List.length_cons,
    List.length_nil]
  omega

end

section

variable {b : Buffer} {r : Request}

/-- A line that has not ended yet is left in the buffer. -/
theorem messageCallback_wait (hwf : b.Wf) (hr : r.WellFormed) (hpre : b.readable <+: r.bytes)
    (hlen : b.readable.length < r.bytes.length) : messageCallback b = some (b, []) := by
  have hnone : b.findCRLF = none := by
    rw [Buffer.findCRLF_spec hwf, ByteQueue.firstCRLF_eq_none]
    intro i hi
    -- the line end would be the one of `r.bytes`, whose last byte is missing
    obtain ⟨rest, hrest⟩ := hpre
    have hline := ByteQueue.firstCRLF_line (not_mem_line hr) []
    have hcr := (ByteQueue.crlfAt_append hi.lt_length rest).mpr hi
    rw [hrest] at hcr
    have hle : r.line.length ≤ i := by
      by_contra hlt
      exact (ByteQueue.firstCRLF_eq_some.mp hline).2 i (by omega) hcr
    have hlt := hi.lt_length
    simp only [Request.bytes, List.length_append, List.length_cons, List.length_nil] at hlen
    omega
  rw [messageCallback]
  split
  · rw [hnone]
  · rfl

theorem messageCallback_line (hwf : b.Wf) (hr : r.WellFormed) {rest : List Byte}
    (hbytes : b.readable = r.bytes ++ rest) {text : List Byte}
    (hslove : slove r.line = some (some text)) :
    ∃ b', b'.Wf ∧ b'.readable = rest ∧ messageCallback b =
      (messageCallback b').map fun p => (p.1, .sendMessage text :: p.2) := by
  have hsize : kCells + 2 ≤ b.readableSize := by
    have hle := length_bytes hr
    rw [← Buffer.length_readable hwf, hbytes, List.length_append]
    omega
  have happend : b.readable = r.line ++ 13 :: 10 :: rest := by
    rw [hbytes, Request.bytes, List.append_assoc]
    rfl
  have hfind : b.findCRLF = some r.line.length := by
    rw [Buffer.findCRLF_spec hwf, happend]
    exact ByteQueue.firstCRLF_line (not_mem_line hr) rest
  obtain ⟨hwf', hrest⟩ := Buffer.retrieveUntil_spec hwf (r.line.length + 2)
  refine ⟨_, hwf', ?_, ?_⟩
  · rw [hrest, hbytes]
    exact List.drop_left' (by simp [Request.bytes])
  · have htake : b.readable.take r.line.length = r.line := by
      rw [happend]
      exact List.take_left
    rw [messageCallback, dif_pos hsize, hfind]
    simp only [htake, hslove, Option.bind_some, Nat.add_assoc]

end

/-- One call, with the requests that are still to come. -/
theorem messageCallback_spec {todo : List Request} (hall : ∀ r ∈ todo, r.WellFormed) {b : Buffer}
    (hwf : b.Wf) (hpre : b.readable <+: stream Request.bytes todo) :
    ∃ b' acts done, messageCallback b = some (b', acts) ∧ b'.Wf ∧
      Received Request.bytes todo b.readable done b'.readable ∧
      List.Forall₂ Answered done acts := by
  induction todo generalizing b with
  | nil =>
    have hnil : b.readable = [] := List.prefix_nil.mp hpre
    have hsize : ¬ kCells + 2 ≤ b.readableSize := by
      rw [(Buffer.readableSize_eq_zero hwf).mpr hnil]
      decide
    refine ⟨b, [], [], ?_, hwf, ?_, .nil⟩
    · rw [messageCallback, dif_neg hsize]
    · rw [hnil]
      exact .start [] (by simp)
  | cons r todo ih =>
    obtain ⟨hr, hall⟩ := List.forall_mem_cons.mp hall
    rcases prefix_stream_cons hpre with ⟨hpre, hlen⟩ | ⟨rest, hbytes, hpre⟩
    · exact ⟨b, [], [], messageCallback_wait hwf hr hpre hlen, hwf, .wait hlen, .nil⟩
    · obtain ⟨answer, hanswer, hslove⟩ := slove_line hr
      obtain ⟨b₁, hwf₁, hrest, hstep⟩ := messageCallback_line hwf hr hbytes hslove
      obtain ⟨b', acts, done, hmore, hwf', hreceived, hanswered⟩ :=
        ih hall hwf₁ (by rw [hrest]; exact hpre)
      refine ⟨b', _, r :: done, by rw [hstep, hmore, Option.map_some], hwf', ?_,
        .cons ⟨answer, hanswer, rfl⟩ hanswered⟩
      rw [hbytes, ← hrest]
      exact hreceived.cons

/-- A session after `seen`, and what it has answered. -/
def Served (rs : List Request) (seen : List Byte) (s : Session) : Prop :=
  s.readbuf.Wf ∧ ∃ done, Received Request.bytes rs seen done s.readbuf.readable ∧
    List.Forall₂ Answered done s.acts

section

variable {rs : List Request} {seen data : List Byte} {s : Session}

theorem Served.read (hall : ∀ r ∈ rs, r.WellFormed) (h : Served rs seen s)
    (hseen : seen ++ data <+: stream Request.bytes rs) :
    ∃ t, s.read data = some t ∧ Served rs (seen ++ data) t := by
  obtain ⟨hwf, done, hreceived, hanswered⟩ := h
  obtain ⟨todo, rfl⟩ := hreceived.done_prefix
  obtain ⟨hwf', hreadable⟩ := Buffer.readV_spec hwf data
  have hpre := hreceived.rest_append_prefix hseen
  rw [← hreadable] at hpre
  obtain ⟨b', acts, more, hcall, hwf'', hmore, hacts⟩ :=
    messageCallback_spec (fun r hr => hall r (by simp [hr])) hwf' hpre
  rw [hreadable] at hmore
  refine ⟨⟨b', s.acts ++ acts⟩, by rw [Session.read, hcall, Option.map_some], hwf'', done ++ more,
    hreceived.trans hmore, ?_⟩
  exact List.rel_append hanswered hacts

theorem Served.readAll (hall : ∀ r ∈ rs, r.WellFormed) {chunks : List (List Byte)}
    (h : Served rs seen s) (hseen : seen ++ chunks.flatten <+: stream Request.bytes rs) :
    ∃ t, s.readAll chunks = some t ∧ Served rs (seen ++ chunks.flatten) t := by
  induction chunks generalizing seen s with
  | nil => exact ⟨s, rfl, by simpa using h⟩
  | cons data rest ih =>
    rw [List.flatten_cons, ← List.append_assoc] at hseen ⊢
    obtain ⟨u, hu, hserved⟩ := h.read hall ((List.prefix_append _ _).trans hseen)
    obtain ⟨t, ht, hserved'⟩ := ih hserved hseen
    exact ⟨t, by rw [Session.readAll, hu, Option.bind_some, ht], hserved'⟩

end

/-- Puzzles in reads of any size: each has been answered as soon as its line is
complete, in order and with the name it came with. -/
theorem session_answers (rs : List Request) (hall : ∀ r ∈ rs, r.WellFormed)
    (chunks : List (List Byte)) (hpre : chunks.flatten <+: stream Request.bytes rs)
    (initSize : ℕ) :
    ∃ t done, (Session.start initSize).readAll chunks = some t ∧
      Received Request.bytes rs chunks.flatten done t.readbuf.readable ∧
      List.Forall₂ Answered done t.acts := by
  have hstart : Served rs [] (Session.start initSize) := by
    refine ⟨Buffer.wf_ofSize initSize, [], ?_, .nil⟩
    rw [Session.start, Buffer.readable_ofSize]
    refine .start rs fun r hr => ?_
    have hle := length_bytes (hall r hr)
    omega
  obtain ⟨t, ht, -, done, hreceived, hanswered⟩ := hstart.readAll hall hpre
  exact ⟨t, done, ht, hreceived, hanswered⟩

def exampleRequest : Request := ⟨ascii "7", examplePuzzle⟩

theorem session_answers_exampleRequest :
    ∃ t, (Session.start 0).readAll
        [exampleRequest.bytes.take 40, exampleRequest.bytes.drop 40] = some t ∧
      List.Forall₂ Answered [exampleRequest] t.acts := by
  have hall : ∀ r ∈ [exampleRequest], r.WellFormed := by
    intro r hr
    rw [List.mem_singleton.mp hr]
    exact ⟨by decide +kernel, by decide, by decide +kernel⟩
  have hflatten : [exampleRequest.bytes.take 40, exampleRequest.bytes.drop 40].flatten =
      stream Request.bytes [exampleRequest] := by
    simp
  obtain ⟨t, done, ht, hreceived, hanswered⟩ := session_answers [exampleRequest] hall
    [exampleRequest.bytes.take 40, exampleRequest.bytes.drop 40]
    (by rw [hflatten]) 0
  rw [hflatten] at hreceived
  rw [hreceived.complete.1] at hanswered
  exact ⟨t, ht, hanswered⟩

end Voyager.SudokuServer
