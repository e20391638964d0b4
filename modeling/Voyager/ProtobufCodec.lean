import Voyager.Coding
import Voyager.Lib.Framing

/-!
`ProtobufCodec` of protobuf/protobuf_codec.h: messages travel behind a
four-byte length that counts itself. `OnMessage` takes whole frames out of the
connection's read buffer until the next one is incomplete. However the bytes
are cut into reads, the messages come out as they went in.
-/
namespace Voyager.ProtobufCodec

open Coding Lib.Framing

inductive ProtoCodecError
  | kSerializeError
  | kParseError
deriving DecidableEq, Repr

/-- The operations of the generated message class that the codec calls.
`parseFromArray` gets the memory behind its pointer and the `int` size. -/
structure MessageClass (μ : Type*) where
  byteSizeLong : μ → ℕ
  appendToString : μ → Option (List Byte)
  parseFromArray : List Byte → Int → Option μ

def kHeaderSize : UInt32 := 4

/-- What a call of `SendMessage` did: its result, the string handed to the
connection and the errors reported. -/
structure Sent where
  res : Bool
  message : Option (List Byte)
  errors : List ProtoCodecError

variable {μ : Type*} (P : MessageClass μ) (kLittleEndian : Bool)

def sendMessage (p : Bool) (message : μ) : Sent :=
  if p then
    let size : UInt32 := UInt32.ofNat (kHeaderSize.toNat + P.byteSizeLong message)
    let s := putFixed32 kLittleEndian [] size
    match P.appendToString message with
    | some bytes => ⟨true, some (s ++ bytes), []⟩
    | none => ⟨false, none, [.kSerializeError]⟩
  else ⟨false, none, []⟩

/-- The read buffer and what the callbacks have been given so far. -/
structure Delivery (μ : Type*) where
  buffer : Buffer
  messages : List μ
  errors : List ProtoCodecError

/-- The loop of `OnMessage`; `none` when it still runs after `fuel` rounds.
The callback's answer may depend on the messages it was given before. -/
def onMessage (messageCb : List μ → μ → Bool) : ℕ → Delivery μ → Option (Delivery μ)
  | 0, _ => none
  | fuel + 1, d =>
    if kHeaderSize.toNat ≤ d.buffer.readableSize then
      let size := decodeFixed32 kLittleEndian d.buffer.readable
      if size.toNat ≤ d.buffer.readableSize then
        match P.parseFromArray (d.buffer.readable.drop kHeaderSize.toNat)
            (size - kHeaderSize).toBitVec.toInt with
        | some message =>
          let res := messageCb d.messages message
          let d' : Delivery μ :=
            { d with messages := d.messages ++ [message], buffer := d.buffer.retrieve size.toNat }
          if res then onMessage messageCb fuel d' else some d'
        | none => some { d with errors := d.errors ++ [.kParseError] }
      else some d
    else some d

/-- One read: the bytes are appended, then `OnMessage` is called. -/
def receive (messageCb : List μ → μ → Bool) (fuel : ℕ) (d : Delivery μ) (chunk : List Byte) :
    Option (Delivery μ) :=
  onMessage P kLittleEndian messageCb fuel { d with buffer := d.buffer.append chunk }

def receiveAll (messageCb : List μ → μ → Bool) (fuel : ℕ) (d : Delivery μ)
    (chunks : List (List Byte)) : Option (Delivery μ) :=
  chunks.foldlM (receive P kLittleEndian messageCb fuel) d

def start (initSize : ℕ) : Delivery μ := ⟨Buffer.ofSize initSize, [], []⟩

/-- What protobuf documents of a message that fits: serialization appends
`ByteSizeLong` bytes, and parsing just these bytes gives the message back. -/
structure MessageClass.Inverts (message : μ) : Prop where
  appends : ∃ bytes, P.appendToString message = some bytes ∧
    bytes.length = P.byteSizeLong message
  parses : ∀ bytes rest, P.appendToString message = some bytes →
    P.parseFromArray (bytes ++ rest) bytes.length = some message

def Fits (message : μ) : Prop := 4 + P.byteSizeLong message < 2 ^ 31

/-- The string `SendMessage` hands to the connection. -/
def frame (message : μ) : List Byte := ((sendMessage P kLittleEndian true message).message).getD []

variable {P}

/-- The layout of a frame: its own length, header included, then the message. -/
theorem exists_frame_eq {m : μ} (hfit : Fits P m) (hinv : P.Inverts m) :
    ∃ (size : UInt32) (bytes : List Byte), P.appendToString m = some bytes ∧
      size.toNat = 4 + bytes.length ∧ 4 + bytes.length < 2 ^ 31 ∧
      frame P kLittleEndian m = encodeFixed32 kLittleEndian size ++ bytes := by
  obtain ⟨bytes, hbytes, hlen⟩ := hinv.appends
  have hfit' : 4 + P.byteSizeLong m < 2 ^ 31 := hfit
  refine ⟨UInt32.ofNat (4 + P.byteSizeLong m), bytes, hbytes, ?_, by omega, ?_⟩
  · rw [UInt32.toNat_ofNat', hlen]
    omega
  · simp only [frame, sendMessage, if_true, hbytes, Option.getD_some, putFixed32, List.nil_append]
    rfl

theorem length_frame_pos {m : μ} (hfit : Fits P m) (hinv : P.Inverts m) :
    0 < (frame P kLittleEndian m).length := by
  obtain ⟨size, bytes, _, _, _, hframe⟩ := exists_frame_eq kLittleEndian hfit hinv
  rw [hframe, List.length_append, length_encodeFixed32]
  omega

theorem toInt_body_size {size : UInt32} {n : ℕ} (hsize : size.toNat = 4 + n)
    (hn : 4 + n < 2 ^ 31) : (size - kHeaderSize).toBitVec.toInt = n := by
  have hsub : (size - kHeaderSize).toNat = n := by
    rw [UInt32.toNat_sub_of_le]
    · rw [hsize]
      exact Nat.add_sub_cancel_left 4 n
    · rw [UInt32.le_iff_toNat_le, hsize]
      exact Nat.le_add_right 4 n
  have hbv : (size - kHeaderSize).toBitVec.toNat = n := hsub
  rw [BitVec.toInt_eq_toNat_of_lt (by omega), hbv]

/-- A buffer that holds at least the next frame: one round delivers it. -/
theorem onMessage_frame (fuel : ℕ) {d : Delivery μ} {m : μ} {rest : List Byte}
    (hwf : d.buffer.Wf) (hfit : Fits P m) (hinv : P.Inverts m)
    (hbuf : d.buffer.readable = frame P kLittleEndian m ++ rest) :
    ∃ b : Buffer, b.Wf ∧ b.readable = rest ∧
      onMessage P kLittleEndian (fun _ _ => true) (fuel + 1) d =
        onMessage P kLittleEndian (fun _ _ => true) fuel ⟨b, d.messages ++ [m], d.errors⟩ := by
  obtain ⟨size, bytes, hbytes, hsize, hbound, hframe⟩ :=
    exists_frame_eq kLittleEndian hfit hinv
  rw [hframe, List.append_assoc] at hbuf
  have hheader : (encodeFixed32 kLittleEndian size).length = 4 := length_encodeFixed32 _ _
  have hlen : d.buffer.readableSize = 4 + bytes.length + rest.length := by
    rw [← Buffer.length_readable hwf, hbuf, List.length_append, List.length_append, hheader]
    omega
  have hdecode : decodeFixed32 kLittleEndian d.buffer.readable = size := by
    rw [hbuf, decodeFixed32_encodeFixed32]
  have hbody : d.buffer.readable.drop kHeaderSize.toNat = bytes ++ rest := by
    rw [hbuf]
    exact List.drop_left' hheader
  have hparse : P.parseFromArray (d.buffer.readable.drop kHeaderSize.toNat)
      (size - kHeaderSize).toBitVec.toInt = some m := by
    rw [hbody, toInt_body_size hsize hbound]
    exact hinv.parses bytes rest hbytes
  obtain ⟨hwf', hrest⟩ := Buffer.retrieve_spec hwf size.toNat
  refine ⟨d.buffer.retrieve size.toNat, hwf', ?_, ?_⟩
  · rw [hrest, hbuf, ← List.append_assoc]
    exact List.drop_left' (by rw [List.length_append, hheader, hsize])
  · have h1 : kHeaderSize.toNat ≤ d.buffer.readableSize := by
      rw [hlen]
      exact Nat.le_trans (Nat.le_add_right 4 _) (Nat.le_add_right _ _)
    have h2 : size.toNat ≤ d.buffer.readableSize := by omega
    simp only [onMessage, hdecode, hparse, if_pos h1, if_pos h2, if_true]

/-- A buffer that ends inside the next frame: the loop stops without effect. -/
theorem onMessage_incomplete {fuel : ℕ} {d : Delivery μ} {m : μ}
    {messageCb : List μ → μ → Bool} (hwf : d.buffer.Wf) (hfit : Fits P m) (hinv : P.Inverts m)
    (hpre : d.buffer.readable <+: frame P kLittleEndian m)
    (hlt : d.buffer.readable.length < (frame P kLittleEndian m).length) :
    onMessage P kLittleEndian messageCb (fuel + 1) d = some d := by
  have hlen := Buffer.length_readable hwf
  rw [onMessage]
  split
  · rename_i hheader
    have hheader' : 4 ≤ d.buffer.readable.length := by
      rw [hlen]
      exact hheader
    obtain ⟨size, bytes, _, hsize, _, hframe⟩ :=
      exists_frame_eq kLittleEndian hfit hinv
    obtain ⟨tail, htail⟩ := hpre
    have hdecode : decodeFixed32 kLittleEndian d.buffer.readable = size := by
      rw [← decodeFixed32_append kLittleEndian _ tail hheader', htail, hframe,
        decodeFixed32_encodeFixed32]
    rw [hframe, List.length_append, length_encodeFixed32] at hlt
    simp only [hdecode]
    rw [if_neg (by omega)]
  · rfl

/-- `OnMessage` on a prefix of a stream takes out all that has arrived. -/
theorem onMessage_stream {ms : List μ} {fuel : ℕ} {d : Delivery μ} (hwf : d.buffer.Wf)
    (hfit : ∀ m ∈ ms, Fits P m) (hinv : ∀ m ∈ ms, P.Inverts m)
    (hpre : d.buffer.readable <+: stream (frame P kLittleEndian) ms)
    (hfuel : ms.length < fuel) :
    ∃ done b, Received (frame P kLittleEndian) ms d.buffer.readable done b.readable ∧ b.Wf ∧
      onMessage P kLittleEndian (fun _ _ => true) fuel d =
        some ⟨b, d.messages ++ done, d.errors⟩ := by
  induction ms generalizing d fuel with
  | nil =>
    obtain ⟨fuel, rfl⟩ : ∃ n, fuel = n + 1 := ⟨fuel - 1, by simp at hfuel; omega⟩
    have hempty : d.buffer.readable = [] := List.prefix_nil.mp hpre
    have hsize : d.buffer.readableSize = 0 := (Buffer.readableSize_eq_zero hwf).mpr hempty
    refine ⟨[], d.buffer, ⟨List.prefix_rfl, rfl, by simp⟩, hwf, ?_⟩
    rw [onMessage, if_neg (by rw [hsize]; decide), List.append_nil]
  | cons m ms ih =>
    obtain ⟨fuel, rfl⟩ : ∃ n, fuel = n + 1 := ⟨fuel - 1, by simp at hfuel; omega⟩
    have hfit_m := hfit m List.mem_cons_self
    have hinv_m := hinv m List.mem_cons_self
    rcases prefix_stream_cons hpre with ⟨hinside, hlt⟩ | ⟨q, hq, hqs⟩
    · refine ⟨[], d.buffer, Received.wait hlt, hwf, ?_⟩
      rw [onMessage_incomplete kLittleEndian hwf hfit_m hinv_m hinside hlt, List.append_nil]
    · obtain ⟨b, hb, hbq, hround⟩ := onMessage_frame kLittleEndian fuel hwf hfit_m hinv_m hq
      obtain ⟨done, b', hdone, hb', hloop⟩ := ih (d := ⟨b, d.messages ++ [m], d.errors⟩)
        hb (fun m' h => hfit m' (List.mem_cons_of_mem m h))
        (fun m' h => hinv m' (List.mem_cons_of_mem m h)) (by rw [hbq]; exact hqs)
        (Nat.lt_of_succ_lt_succ hfuel)
      refine ⟨m :: done, b', ?_, hb', ?_⟩
      · rw [hq, ← hbq]
        exact hdone.cons
      · rw [hround, hloop, List.append_assoc, List.cons_append, List.nil_append]

/-- One read in the middle of a stream, with everything complete before it
already delivered. -/
theorem receive_stream {ms : List μ} {fuel : ℕ} {d : Delivery μ} {seen chunk : List Byte}
    (hwf : d.buffer.Wf) (hfit : ∀ m ∈ ms, Fits P m) (hinv : ∀ m ∈ ms, P.Inverts m)
    (hseen : Received (frame P kLittleEndian) ms seen d.messages d.buffer.readable)
    (hpre : seen ++ chunk <+: stream (frame P kLittleEndian) ms) (hfuel : ms.length < fuel) :
    ∃ d', receive P kLittleEndian (fun _ _ => true) fuel d chunk = some d' ∧ d'.buffer.Wf ∧
      d'.errors = d.errors ∧
      Received (frame P kLittleEndian) ms (seen ++ chunk) d'.messages d'.buffer.readable := by
  obtain ⟨todo, htodo⟩ := hseen.done_prefix
  subst ms
  obtain ⟨hwf', happend⟩ := Buffer.append_spec hwf chunk
  have hnext := hseen.rest_append_prefix hpre
  rw [← happend] at hnext
  have hlen : todo.length < fuel := by
    rw [List.length_append] at hfuel
    omega
  obtain ⟨more, b, hmore, hb, hloop⟩ := onMessage_stream kLittleEndian
    (d := { d with buffer := d.buffer.append chunk }) hwf'
    (fun m h => hfit m (List.mem_append_right _ h))
    (fun m h => hinv m (List.mem_append_right _ h)) hnext hlen
  refine ⟨_, hloop, hb, rfl, ?_⟩
  simp only [happend] at hmore
  exact hseen.trans hmore

theorem receiveAll_stream {ms : List μ} {fuel : ℕ} {d : Delivery μ} {seen : List Byte}
    {chunks : List (List Byte)} (hwf : d.buffer.Wf) (hfit : ∀ m ∈ ms, Fits P m)
    (hinv : ∀ m ∈ ms, P.Inverts m)
    (hseen : Received (frame P kLittleEndian) ms seen d.messages d.buffer.readable)
    (hpre : seen ++ chunks.flatten <+: stream (frame P kLittleEndian) ms)
    (hfuel : ms.length < fuel) :
    ∃ d', receiveAll P kLittleEndian (fun _ _ => true) fuel d chunks = some d' ∧
      d'.errors = d.errors ∧ Received (frame P kLittleEndian) ms (seen ++ chunks.flatten)
        d'.messages d'.buffer.readable := by
  induction chunks generalizing d seen with
  | nil =>
    refine ⟨d, rfl, rfl, ?_⟩
    rwa [List.flatten_nil, List.append_nil]
  | cons chunk chunks ih =>
    rw [List.flatten_cons, ← List.append_assoc] at hpre ⊢
    have hchunk := (List.prefix_append (seen ++ chunk) chunks.flatten).trans hpre
    obtain ⟨d₁, hread, hwf₁, herr₁, hseen₁⟩ :=
      receive_stream kLittleEndian hwf hfit hinv hseen hchunk hfuel
    obtain ⟨d₂, hrest, herr₂, hseen₂⟩ := ih hwf₁ hseen₁ hpre
    refine ⟨d₂, ?_, herr₂.trans herr₁, hseen₂⟩
    rw [receiveAll, List.foldlM_cons, hread]
    exact hrest

/-- Framing is faithful under any segmentation. After every read the messages
delivered are the ones that have arrived completely, in order; the bytes of the
incomplete frame behind them are in the buffer; the error callback was never
called. After the last read all messages are delivered and the buffer is empty. -/
theorem receiveAll_delivers_stream (initSize : ℕ) (ms : List μ) (chunks : List (List Byte))
    (hfit : ∀ m ∈ ms, Fits P m) (hinv : ∀ m ∈ ms, P.Inverts m)
    (hsplit : chunks.flatten = stream (frame P kLittleEndian) ms) (k fuel : ℕ)
    (hfuel : ms.length < fuel) :
    ∃ d, receiveAll P kLittleEndian (fun _ _ => true) fuel (start initSize) (chunks.take k) =
        some d ∧ d.errors = [] ∧ d.messages <+: ms ∧
      (chunks.take k).flatten =
        stream (frame P kLittleEndian) d.messages ++ d.buffer.readable ∧
      (∀ m, ms[d.messages.length]? = some m →
        d.buffer.readable.length < (frame P kLittleEndian m).length) ∧
      (chunks.length ≤ k → d.messages = ms ∧ d.buffer.readable = []) := by
  have hstart : Received (frame P kLittleEndian) ms []
      (start initSize : Delivery μ).messages (start initSize : Delivery μ).buffer.readable := by
    have hnil : (start initSize : Delivery μ).buffer.readable = [] :=
      Buffer.readable_ofSize initSize
    rw [hnil]
    exact Received.start ms fun m hm => length_frame_pos kLittleEndian (hfit m hm) (hinv m hm)
  have hpre : [] ++ (chunks.take k).flatten <+: stream (frame P kLittleEndian) ms := by
    rw [List.nil_append, ← hsplit]
    conv_rhs => rw [← List.take_append_drop k chunks, List.flatten_append]
    exact List.prefix_append _ _
  obtain ⟨d, hrun, herr, hrec⟩ := receiveAll_stream kLittleEndian
    (d := start initSize) (Buffer.wf_ofSize initSize) hfit hinv hstart hpre hfuel
  rw [List.nil_append] at hrec
  refine ⟨d, hrun, herr, hrec.done_prefix, hrec.seen_eq, hrec.incomplete, ?_⟩
  intro hk
  rw [List.take_of_length_le hk, hsplit] at hrec
  exact hrec.complete

/-- Messages with one integer field, as protobuf serializes its values below
128: tag and value, and nothing at all for the default 0. -/
def oneField : MessageClass UInt8 where
  byteSizeLong id := if id = 0 then 0 else 2
  appendToString id := some (if id = 0 then [] else [8, id])
  parseFromArray
    | _, 0 => some 0
    | 8 :: id :: _, 2 => some id
    | _, _ => none

theorem oneField_inverts (id : UInt8) : oneField.Inverts id := by
  by_cases hid : id = 0
  · subst id
    refine ⟨⟨[], rfl, rfl⟩, ?_⟩
    rintro bytes rest ⟨⟩
    cases rest <;> rfl
  · have hsome : oneField.appendToString id = some [8, id] := by
      simp only [oneField, if_neg hid]
    refine ⟨⟨[8, id], hsome, by simp only [oneField, if_neg hid]; rfl⟩, ?_⟩
    intro bytes rest hbytes
    rw [hsome, Option.some.injEq] at hbytes
    subst bytes
    rfl

/-- Three messages, cut inside a header, across two frames and inside a body. -/
theorem receiveAll_delivers_three :
    ∃ d, receiveAll oneField true (fun _ _ => true) 4 (start 0)
        ([[6, 0], [0, 0, 8, 5, 4, 0], [0, 0, 6, 0, 0, 0, 8], [7]].take 3) = some d ∧
      d.errors = [] ∧ d.messages <+: [5, 0, 7] ∧
      ([[6, 0], [0, 0, 8, 5, 4, 0], [0, 0, 6, 0, 0, 0, 8], [7]].take 3).flatten =
        stream (frame oneField true) d.messages ++ d.buffer.readable ∧
      (∀ m, [(5 : UInt8), 0, 7][d.messages.length]? = some m →
        d.buffer.readable.length < (frame oneField true m).length) ∧
      (4 ≤ 3 → d.messages = [5, 0, 7] ∧ d.buffer.readable = []) := by
  refine receiveAll_delivers_stream true 0 [5, 0, 7]
    [[6, 0], [0, 0, 8, 5, 4, 0], [0, 0, 6, 0, 0, 0, 8], [7]] ?_ ?_ (by decide) 3 4 (by decide)
  · intro m _
    simp only [Fits, oneField]
    split <;> decide
  · intro m _
    exact oneField_inverts m

end Voyager.ProtobufCodec
