import Voyager.Lib.Splices

/-!
`Buffer` of core/buffer.h and core/buffer.cc: a byte vector with a read and a
write index. Appending writes in place, compacts or grows; reading from a
socket fills the tail and spills into a backup array. The readable region is
shown to be a plain first-in first-out list of bytes under every sequence of
operations.
-/
namespace Voyager

open Lib.Splices

abbrev Byte := UInt8

/-- The bytes of a string literal of the source. -/
def ascii (s : String) : List Byte := s.toList.map fun c => UInt8.ofNat c.toNat

structure Buffer where
  buf : List Byte
  readIndex : ℕ
  writeIndex : ℕ
deriving DecidableEq, Repr

namespace Buffer

def kInitBufferSize : ℕ := 1024
def kBackupBufferSize : ℕ := 65536
def kCRLF : List Byte := [13, 10]

/-- The constructor: `init_size` zero bytes, both indices at the front. -/
def ofSize (initSize : ℕ) : Buffer := ⟨List.replicate initSize 0, 0, 0⟩

def readableSize (b : Buffer) : ℕ := b.writeIndex - b.readIndex

/-- The source wraps around where the write index is behind the end, here the value is 0.
No valid buffer is such (`Wf`). -/
def writableSize (b : Buffer) : ℕ := b.buf.length - b.writeIndex

/-- The `readableSize` bytes that `Peek` points to. -/
def readable (b : Buffer) : List Byte := slice b.buf b.readIndex b.writeIndex

/-- `std::vector::resize`: cuts the tail off or pads with zero bytes. -/
def resize (buf : List Byte) (n : ℕ) : List Byte :=
  buf.take n ++ List.replicate (n - buf.length) 0

def makeSpace (b : Buffer) (size : ℕ) : Buffer :=
  if b.writableSize + b.readIndex < size then
    { b with buf := resize b.buf (b.writeIndex + size) }
  else
    { buf := copyForward b.buf b.readIndex 0 b.readableSize
      readIndex := 0
      writeIndex := 0 + b.readableSize }

def append (b : Buffer) (data : List Byte) : Buffer :=
  let b := if b.writableSize < data.length then b.makeSpace data.length else b
  { b with
    buf := overwrite b.buf b.writeIndex data
    writeIndex := b.writeIndex + data.length }

/-- What `readv` returned: `none` for -1, else the bytes it scattered. -/
abbrev ReadvResult := Option (List Byte)

/-- The tail of the vector is filled first, the rest lands in the backup array
and is appended from there. -/
def readV (b : Buffer) (result : ReadvResult) : Buffer :=
  match result with
  | none => b
  | some data =>
    let writableSize := b.writableSize
    let filled := { b with buf := overwrite b.buf b.writeIndex (data.take writableSize) }
    if data.length ≤ writableSize then
      { filled with writeIndex := b.writeIndex + data.length }
    else
      { filled with writeIndex := filled.buf.length }.append (data.drop writableSize)

/-- `std::search`: the offset of the first occurrence, the length without one. -/
def search (pat : List Byte) : List Byte → ℕ
  | [] => 0
  | x :: rest => if pat.isPrefixOf (x :: rest) then 0 else search pat rest + 1

/-- Offset from `Peek`; `none` is the null pointer. -/
def findCRLF (b : Buffer) : Option ℕ :=
  let crlf := search kCRLF b.readable
  if crlf = b.readableSize then none else some crlf

def retrieveAll (b : Buffer) : Buffer := { b with readIndex := 0, writeIndex := 0 }

def retrieve (b : Buffer) (size : ℕ) : Buffer :=
  if size < b.readableSize then { b with readIndex := b.readIndex + size } else b.retrieveAll

/-- `end` is an index of the vector, as the pointer of the source is. -/
def retrieveUntil (b : Buffer) (stop : ℕ) : Buffer := b.retrieve (stop - b.readIndex)

def retrieveAsString (b : Buffer) (size : ℕ) : List Byte × Buffer :=
  (slice b.buf b.readIndex (b.readIndex + size), b.retrieve size)

def retrieveAllAsString (b : Buffer) : List Byte × Buffer := b.retrieveAsString b.readableSize

/-- The index invariant of the class. -/
structure Wf (b : Buffer) : Prop where
  read_le : b.readIndex ≤ b.writeIndex
  write_le : b.writeIndex ≤ b.buf.length

theorem wf_ofSize (n : ℕ) : (ofSize n).Wf := ⟨Nat.le_refl 0, Nat.zero_le _⟩

@[simp] theorem readable_ofSize (n : ℕ) : (ofSize n).readable = [] := slice_self _ _

theorem length_readable {b : Buffer} (h : b.Wf) : b.readable.length = b.readableSize :=
  length_slice _ _ _ h.write_le

theorem readableSize_eq_zero {b : Buffer} (h : b.Wf) : b.readableSize = 0 ↔ b.readable = [] := by
  rw [← length_readable h, List.length_eq_zero_iff]

theorem length_resize (buf : List Byte) (n : ℕ) : (resize buf n).length = n := by
  simp only [resize, List.length_append, List.length_take, List.length_replicate]
  omega

theorem slice_resize (buf : List Byte) (i j n : ℕ) (hj : j ≤ buf.length) (hn : buf.length ≤ n) :
    slice (resize buf n) i j = slice buf i j := by
  rw [resize, List.take_of_length_le hn, slice_append_left _ _ _ _ hj]

/-- Making room for `size` bytes keeps the contents and provides the room. -/
theorem makeSpace_spec {b : Buffer} (h : b.Wf) (size : ℕ) (hsize : b.writableSize < size) :
    (b.makeSpace size).Wf ∧ (b.makeSpace size).readable = b.readable ∧
      size ≤ (b.makeSpace size).writableSize := by
  have hread := h.read_le
  have hwrite := h.write_le
  simp only [writableSize] at hsize
  by_cases hgrow : b.writableSize + b.readIndex < size
  · have hspace : b.makeSpace size = { b with buf := resize b.buf (b.writeIndex + size) } := by
      rw [makeSpace, if_pos hgrow]
    have hlen := length_resize b.buf (b.writeIndex + size)
    rw [hspace]
    refine ⟨⟨hread, ?_⟩, ?_, ?_⟩
    · simp only [hlen]
      omega
    · exact slice_resize _ _ _ _ hwrite (by omega)
    · simp only [writableSize, hlen]
      omega
  · have hspace : b.makeSpace size =
        ⟨copyForward b.buf b.readIndex 0 b.readableSize, 0, b.readableSize⟩ := by
      rw [makeSpace, if_neg hgrow, Nat.zero_add]
    have hstop : b.readIndex + b.readableSize = b.writeIndex := by
      simp only [readableSize]
      omega
    have hcopy := copyForward_eq_overwrite b.readableSize b.buf b.readIndex 0
      (Nat.zero_le _) (by omega)
    have hcontents := slice_overwrite b.buf 0 0 b.readable (Nat.le_refl 0) (Nat.zero_le _)
    rw [slice_self, List.nil_append, Nat.zero_add, length_readable h] at hcontents
    rw [hstop] at hcopy
    rw [hspace]
    have hlen := length_copyForward b.readableSize b.buf b.readIndex 0
    simp only [writableSize] at hgrow
    refine ⟨⟨Nat.zero_le _, ?_⟩, ?_, ?_⟩
    · simp only [hlen]
      omega
    · simp only [readable, hcopy]
      exact hcontents
    · simp only [writableSize, hlen]
      omega

theorem append_in_place {b : Buffer} (h : b.Wf) (data : List Byte)
    (hroom : data.length ≤ b.writableSize) :
    let b' : Buffer := { b with
      buf := overwrite b.buf b.writeIndex data
      writeIndex := b.writeIndex + data.length }
    b'.Wf ∧ b'.readable = b.readable ++ data := by
  have hread := h.read_le
  have hwrite := h.write_le
  simp only [writableSize] at hroom
  have hlen := length_overwrite b.buf b.writeIndex data (by omega)
  refine ⟨⟨?_, ?_⟩, ?_⟩
  · simp only
    omega
  · simp only [hlen]
    omega
  · exact slice_overwrite _ _ _ _ hread hwrite

/-- In place, after compaction or after growth: the data joins the queue. -/
theorem append_spec {b : Buffer} (h : b.Wf) (data : List Byte) :
    (b.append data).Wf ∧ (b.append data).readable = b.readable ++ data := by
  unfold append
  split
  · rename_i hfull
    obtain ⟨hwf, hcontents, hroom⟩ := makeSpace_spec h data.length hfull
    have happ := append_in_place hwf data hroom
    rw [hcontents] at happ
    exact happ
  · rename_i hroom
    exact append_in_place h data (by omega)

theorem readV_spec {b : Buffer} (h : b.Wf) (data : List Byte) :
    (b.readV (some data)).Wf ∧ (b.readV (some data)).readable = b.readable ++ data := by
  have hread := h.read_le
  have hwrite := h.write_le
  simp only [readV]
  split
  · rename_i hfit
    rw [List.take_of_length_le hfit]
    exact append_in_place h data hfit
  · rename_i hspill
    have htake : (data.take b.writableSize).length = b.writableSize := by
      simp only [List.length_take]
      omega
    have hfilled := append_in_place h (data.take b.writableSize) (by omega)
    have hfull : b.writeIndex + (data.take b.writableSize).length =
        (overwrite b.buf b.writeIndex (data.take b.writableSize)).length := by
      have hroom : b.writeIndex + b.writableSize = b.buf.length := by
        simp only [writableSize]
        omega
      rw [length_overwrite _ _ _ (by omega), htake, hroom]
    simp only [hfull] at hfilled
    have hspilled := append_spec hfilled.1 (data.drop b.writableSize)
    rw [hfilled.2, List.append_assoc, List.take_append_drop] at hspilled
    exact hspilled

theorem retrieveAll_spec (b : Buffer) : b.retrieveAll.Wf ∧ b.retrieveAll.readable = [] :=
  ⟨⟨Nat.le_refl 0, Nat.zero_le _⟩, slice_self _ _⟩

theorem retrieve_spec {b : Buffer} (h : b.Wf) (size : ℕ) :
    (b.retrieve size).Wf ∧ (b.retrieve size).readable = b.readable.drop size := by
  unfold retrieve
  split
  · rename_i hsize
    have hwrite := h.write_le
    simp only [readableSize] at hsize
    refine ⟨⟨?_, hwrite⟩, (drop_slice _ _ _ _).symm⟩
    simp only
    omega
  · rename_i hsize
    have hnil : b.readable.drop size = [] := by
      apply List.drop_eq_nil_of_le
      rw [length_readable h]
      omega
    rw [hnil]
    exact retrieveAll_spec b

theorem retrieveUntil_spec {b : Buffer} (h : b.Wf) (n : ℕ) :
    (b.retrieveUntil (b.readIndex + n)).Wf ∧
      (b.retrieveUntil (b.readIndex + n)).readable = b.readable.drop n := by
  rw [retrieveUntil, Nat.add_sub_cancel_left]
  exact retrieve_spec h n

theorem retrieveAsString_fst {b : Buffer} (size : ℕ) (hsize : size ≤ b.readableSize) :
    (b.retrieveAsString size).1 = b.readable.take size := by
  by_cases hzero : size = 0
  · subst size
    simp [retrieveAsString, slice]
  · refine (take_slice _ _ _ _ ?_).symm
    simp only [readableSize] at hsize
    omega

theorem retrieveAllAsString_spec {b : Buffer} (h : b.Wf) :
    b.retrieveAllAsString.2.Wf ∧ b.retrieveAllAsString.2.readable = [] ∧
      b.retrieveAllAsString.1 = b.readable := by
  have hlen := length_readable h
  obtain ⟨hwf, hrest⟩ := retrieve_spec h b.readableSize
  have hfst := retrieveAsString_fst (b := b) b.readableSize (Nat.le_refl _)
  rw [← hlen, List.take_length] at hfst
  refine ⟨hwf, ?_, ?_⟩
  · rw [List.drop_eq_nil_of_le (Nat.le_of_eq hlen)] at hrest
    exact hrest
  · rw [retrieveAllAsString, ← hlen]
    exact hfst

end Buffer

/-- What a buffer is for: a first-in first-out queue of bytes. -/
abbrev ByteQueue := List Byte

namespace ByteQueue

/-- A carriage return at position `i`, followed by a newline. -/
def CRLFAt (q : ByteQueue) (i : ℕ) : Prop := q[i]? = some (13 : Byte) ∧ q[i + 1]? = some (10 : Byte)

instance (q : ByteQueue) (i : ℕ) : Decidable (CRLFAt q i) := by
  unfold CRLFAt
  infer_instance

def firstCRLF (q : ByteQueue) : Option ℕ := (List.range q.length).find? fun i => CRLFAt q i

/-- The position is that of a line end, and none comes before it. -/
theorem firstCRLF_eq_some {q : ByteQueue} {i : ℕ} :
    firstCRLF q = some i ↔ CRLFAt q i ∧ ∀ j < i, ¬ CRLFAt q j := by
  simp only [firstCRLF, List.find?_range_eq_some, List.mem_range, decide_eq_true_eq,
    Bool.not_eq_true', decide_eq_false_iff_not]
  constructor
  · rintro ⟨hi, _, hj⟩
    exact ⟨hi, hj⟩
  · rintro ⟨hi, hj⟩
    exact ⟨hi, (List.getElem?_eq_some_iff.mp hi.1).1, hj⟩

theorem firstCRLF_eq_none {q : ByteQueue} : firstCRLF q = none ↔ ∀ i, ¬ CRLFAt q i := by
  simp only [firstCRLF, List.find?_eq_none, List.mem_range, decide_eq_true_eq]
  constructor
  · intro h i hi
    exact h i (List.getElem?_eq_some_iff.mp hi.1).1 hi
  · intro h i _
    exact h i

theorem CRLFAt.lt_length {q : ByteQueue} {i : ℕ} (h : CRLFAt q i) : i + 1 < q.length :=
  (List.getElem?_eq_some_iff.mp h.2).1

theorem crlfAt_append {q : ByteQueue} {i : ℕ} (hi : i + 1 < q.length) (more : ByteQueue) :
    CRLFAt (q ++ more) i ↔ CRLFAt q i := by
  unfold CRLFAt
  rw [List.getElem?_append_left (by omega), List.getElem?_append_left hi]

/-- Bytes behind the first line end do not move it. -/
theorem firstCRLF_append {q : ByteQueue} {i : ℕ} (h : firstCRLF q = some i) (more : ByteQueue) :
    firstCRLF (q ++ more) = some i := by
  obtain ⟨hi, hbefore⟩ := firstCRLF_eq_some.mp h
  have hlen := hi.lt_length
  refine firstCRLF_eq_some.mpr ⟨(crlfAt_append hlen more).mpr hi, ?_⟩
  intro j hj hcr
  exact hbefore j hj ((crlfAt_append (by omega) more).mp hcr)

/-- A line without CR, ended by CRLF. -/
theorem firstCRLF_line {line : ByteQueue} (hline : (13 : Byte) ∉ line) (rest : ByteQueue) :
    firstCRLF (line ++ 13 :: 10 :: rest) = some line.length := by
  refine firstCRLF_eq_some.mpr ⟨⟨by simp, by simp⟩, ?_⟩
  intro j hj hcr
  have hbyte := hcr.1
  rw [List.getElem?_append_left hj] at hbyte
  exact hline (List.mem_of_getElem? hbyte)

end ByteQueue

namespace Buffer

theorem isPrefixOf_kCRLF (q : ByteQueue) : kCRLF.isPrefixOf q = true ↔ q.CRLFAt 0 := by
  simp only [kCRLF, List.isPrefixOf_iff_prefix, ByteQueue.CRLFAt]
  rcases q with _ | ⟨a, _ | ⟨b, rest⟩⟩
  · simp
  · simp
  · simp only [List.cons_prefix_cons, List.nil_prefix, and_true, List.getElem?_cons_zero,
      List.getElem?_cons_succ, Option.some.injEq]
    exact and_congr eq_comm eq_comm

theorem search_le (q : ByteQueue) : search kCRLF q ≤ q.length := by
  induction q with
  | nil => exact Nat.le_refl 0
  | cons x rest ih =>
    simp only [search, List.length_cons]
    split <;> omega

theorem not_crlfAt_of_lt_search (q : ByteQueue) (j : ℕ) (hj : j < search kCRLF q) :
    ¬ q.CRLFAt j := by
  induction q generalizing j with
  | nil => simp [search] at hj
  | cons x rest ih =>
    simp only [search] at hj
    split at hj
    · omega
    · rename_i hhead
      cases j with
      | zero => exact fun h => hhead ((isPrefixOf_kCRLF _).mpr h)
      | succ j => exact ih j (by omega)

theorem crlfAt_search (q : ByteQueue) (h : search kCRLF q < q.length) :
    q.CRLFAt (search kCRLF q) := by
  induction q with
  | nil => simp at h
  | cons x rest ih =>
    simp only [search, List.length_cons] at h ⊢
    split at h
    · rename_i hhead
      rw [if_pos hhead]
      exact (isPrefixOf_kCRLF _).mp hhead
    · rename_i hhead
      rw [if_neg hhead]
      exact ih (by omega)

theorem findCRLF_spec {b : Buffer} (h : b.Wf) : b.findCRLF = ByteQueue.firstCRLF b.readable := by
  have hlen := length_readable h
  have hle := search_le b.readable
  simp only [findCRLF]
  split
  · rename_i hmiss
    refine (ByteQueue.firstCRLF_eq_none.mpr ?_).symm
    intro i hi
    have hi' := (List.getElem?_eq_some_iff.mp hi.1).1
    exact not_crlfAt_of_lt_search b.readable i (by omega) hi
  · rename_i hfound
    refine (ByteQueue.firstCRLF_eq_some.mpr ⟨?_, ?_⟩).symm
    · exact crlfAt_search b.readable (by omega)
    · exact not_crlfAt_of_lt_search b.readable

end Buffer

/-- One call of a public operation of the class. The argument of
`retrieveUntil` is its pointer's distance from `Peek`. -/
inductive BufferOp
  | append (data : List Byte)
  | readV (result : Buffer.ReadvResult)
  | retrieve (size : ℕ)
  | retrieveUntil (size : ℕ)
  | retrieveAll
  | retrieveAsString (size : ℕ)
  | retrieveAllAsString
  | findCRLF
deriving DecidableEq, Repr

inductive BufferOutput
  | void
  | string (s : List Byte)
  | position (p : Option ℕ)
  | ssize (n : Int)
deriving DecidableEq, Repr

/-- The value that `readv`, and with it `ReadV`, returns. -/
def Buffer.ReadvResult.count : Buffer.ReadvResult → Int
  | none => -1
  | some data => data.length

namespace Buffer

/-- The asserted preconditions; `readv` delivers at most what the tail and the
backup array can take. -/
def Pre (b : Buffer) : BufferOp → Prop
  | .readV (some data) => data.length ≤ b.writableSize + kBackupBufferSize
  | .retrieve size | .retrieveUntil size | .retrieveAsString size => size ≤ b.readableSize
  | _ => True

instance (b : Buffer) (op : BufferOp) : Decidable (b.Pre op) := by
  unfold Pre
  split <;> infer_instance

def exec (b : Buffer) : BufferOp → Buffer × BufferOutput
  | .append data => (b.append data, .void)
  | .readV result => (b.readV result, .ssize result.count)
  | .retrieve size => (b.retrieve size, .void)
  | .retrieveUntil size => (b.retrieveUntil (b.readIndex + size), .void)
  | .retrieveAll => (b.retrieveAll, .void)
  | .retrieveAsString size =>
    ((b.retrieveAsString size).2, .string (b.retrieveAsString size).1)
  | .retrieveAllAsString => (b.retrieveAllAsString.2, .string b.retrieveAllAsString.1)
  | .findCRLF => (b, .position b.findCRLF)

/-- Executes the calls in order; `none` once a precondition is violated. -/
def run (b : Buffer) : List BufferOp → Option (Buffer × List BufferOutput)
  | [] => some (b, [])
  | op :: ops =>
    if b.Pre op then
      ((b.exec op).1.run ops).map fun r => (r.1, (b.exec op).2 :: r.2)
    else none

end Buffer

namespace ByteQueue

/-- The same call on a plain list. -/
def exec (q : ByteQueue) : BufferOp → ByteQueue × BufferOutput
  | .append data => (q ++ data, .void)
  | .readV result => (q ++ result.getD [], .ssize result.count)
  | .retrieve size | .retrieveUntil size => (q.drop size, .void)
  | .retrieveAll => ([], .void)
  | .retrieveAsString size => (q.drop size, .string (q.take size))
  | .retrieveAllAsString => ([], .string q)
  | .findCRLF => (q, .position q.firstCRLF)

def run (q : ByteQueue) : List BufferOp → ByteQueue × List BufferOutput
  | [] => (q, [])
  | op :: ops => ((run (exec q op).1 ops).1, (exec q op).2 :: (run (exec q op).1 ops).2)

end ByteQueue

namespace Buffer

/-- One call keeps the index invariant and does on the readable region what
the queue does on its list. -/
theorem exec_refines {b : Buffer} (h : b.Wf) (op : BufferOp) (hpre : b.Pre op) :
    (b.exec op).1.Wf ∧ (b.exec op).1.readable = (ByteQueue.exec b.readable op).1 ∧
      (b.exec op).2 = (ByteQueue.exec b.readable op).2 := by
  cases op with
  | append data => exact ⟨(append_spec h data).1, (append_spec h data).2, rfl⟩
  | readV result =>
    cases result with
    | none => exact ⟨h, (List.append_nil _).symm, rfl⟩
    | some data => exact ⟨(readV_spec h data).1, (readV_spec h data).2, rfl⟩
  | retrieve size => exact ⟨(retrieve_spec h size).1, (retrieve_spec h size).2, rfl⟩
  | retrieveUntil size =>
    exact ⟨(retrieveUntil_spec h size).1, (retrieveUntil_spec h size).2, rfl⟩
  | retrieveAll => exact ⟨(retrieveAll_spec b).1, (retrieveAll_spec b).2, rfl⟩
  | retrieveAsString size =>
    refine ⟨(retrieve_spec h size).1, (retrieve_spec h size).2, ?_⟩
    exact congrArg BufferOutput.string (retrieveAsString_fst size hpre)
  | retrieveAllAsString =>
    obtain ⟨hwf, hrest, hstring⟩ := retrieveAllAsString_spec h
    exact ⟨hwf, hrest, congrArg BufferOutput.string hstring⟩
  | findCRLF => exact ⟨h, rfl, congrArg BufferOutput.position (findCRLF_spec h)⟩

theorem run_refines {b b' : Buffer} (h : b.Wf) (ops : List BufferOp) (outs : List BufferOutput)
    (hrun : b.run ops = some (b', outs)) :
    b'.Wf ∧ b'.readable = (ByteQueue.run b.readable ops).1 ∧
      outs = (ByteQueue.run b.readable ops).2 := by
  induction ops generalizing b outs with
  | nil =>
    simp only [run, Option.some.injEq, Prod.mk.injEq] at hrun
    obtain ⟨rfl, rfl⟩ := hrun
    exact ⟨h, rfl, rfl⟩
  | cons op ops ih =>
    simp only [run] at hrun
    split at hrun
    · rename_i hpre
      obtain ⟨hwf, hcontents, hout⟩ := exec_refines h op hpre
      obtain ⟨⟨b₁, outs₁⟩, hrest, heq⟩ := Option.map_eq_some_iff.mp hrun
      simp only [Prod.mk.injEq] at heq
      obtain ⟨rfl, rfl⟩ := heq
      have hih := ih hwf outs₁ hrest
      rw [hcontents] at hih
      refine ⟨hih.1, hih.2.1, ?_⟩
      rw [ByteQueue.run, hout, hih.2.2]
    · simp at hrun

/-- From a buffer of any initial size, every sequence of calls within the
asserted preconditions keeps the indices in order and answers as the queue. -/
theorem run_ofSize_refines_queue (initSize : ℕ) (ops : List BufferOp) (b : Buffer)
    (outs : List BufferOutput) (hrun : (ofSize initSize).run ops = some (b, outs)) :
    b.readIndex ≤ b.writeIndex ∧ b.writeIndex ≤ b.buf.length ∧
      slice b.buf b.readIndex b.writeIndex = (ByteQueue.run [] ops).1 ∧
      outs = (ByteQueue.run [] ops).2 := by
  obtain ⟨hwf, hcontents, houts⟩ := run_refines (wf_ofSize initSize) ops outs hrun
  rw [readable_ofSize] at hcontents houts
  exact ⟨hwf.read_le, hwf.write_le, hcontents, houts⟩

/-- The socket read fills the last free byte and spills into a compaction. -/
def spillingOps : List BufferOp :=
  [.append [1, 2, 3], .retrieve 2, .readV (some [13, 10, 7]), .findCRLF, .retrieveAsString 3]

theorem run_ofSize_refines_queue_spilling :
    (ofSize 4).run spillingOps = some (⟨[3, 13, 10, 7], 3, 4⟩,
        [.void, .void, .ssize 3, .position (some 1), .string [3, 13, 10]]) ∧
      3 ≤ 4 ∧ 4 ≤ 4 ∧ slice [3, 13, 10, 7] 3 4 = (ByteQueue.run [] spillingOps).1 ∧
      [.void, .void, .ssize 3, .position (some 1), .string [3, 13, 10]] =
        (ByteQueue.run [] spillingOps).2 :=
  ⟨by decide, run_ofSize_refines_queue 4 spillingOps ⟨[3, 13, 10, 7], 3, 4⟩ _ (by decide)⟩

end Buffer

end Voyager
