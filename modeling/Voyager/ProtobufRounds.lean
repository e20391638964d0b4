import Voyager.ProtobufCodec

/-!
`OnMessage` of protobuf/protobuf_codec.h on input that nobody vouches for: which range
each round hands to `ParseFromArray` and what it takes from the buffer, whatever the
parser and the message callback answer. All of it is fine as long as the length fields
that are reached count their own four bytes.
-/
namespace Voyager.ProtobufCodec

open Coding

/-- A round that calls `ParseFromArray`: the readable bytes behind its pointer, its
size, and what `Retrieve` took after it. -/
structure Round where
  memory : List Byte
  size : Int
  retrieved : Option ℕ
deriving DecidableEq, Repr

/-- The range has a length and lies inside of the readable bytes, and a round that
succeeds takes the header at least. -/
def Round.Safe (r : Round) : Prop :=
  0 ≤ r.size ∧ r.size ≤ r.memory.length ∧ ∀ n ∈ r.retrieved, kHeaderSize.toNat ≤ n

/-- What `ParseFromArray` and the message callback return in a round, given the rounds
before it. -/
abbrev Answers := List Round → List Byte → Int → Bool × Bool

/-- How far `OnMessage` has got. -/
structure Rounds where
  buffer : Buffer
  rounds : List Round
  finished : Bool

variable (kLittleEndian : Bool)

/-- The length of a frame as `OnMessage` reads it. -/
def lengthField (q : List Byte) : ℕ := (decodeFixed32 kLittleEndian q).toNat

/-- The size for `ParseFromArray`, an `int`. -/
def sizeArgument (q : List Byte) : Int :=
  (decodeFixed32 kLittleEndian q - kHeaderSize).toBitVec.toInt

/-- The round on the readable bytes `q`, by what `ParseFromArray` returns. -/
def roundOf (q : List Byte) (parsed : Bool) : Round :=
  ⟨q.drop kHeaderSize.toNat, sizeArgument kLittleEndian q,
    if parsed then some (lengthField kLittleEndian q) else none⟩

/-- The loop of `OnMessage`, for `fuel` rounds. -/
def run (answers : Answers) : ℕ → List Round → Buffer → Rounds
  | 0, _, b => ⟨b, [], false⟩
  | fuel + 1, past, b =>
    if kHeaderSize.toNat ≤ b.readableSize ∧
        lengthField kLittleEndian b.readable ≤ b.readableSize then
      let res :=
        answers past (b.readable.drop kHeaderSize.toNat) (sizeArgument kLittleEndian b.readable)
      let round := roundOf kLittleEndian b.readable res.1
      if res.1 then
        let b' := b.retrieve (lengthField kLittleEndian b.readable)
        if res.2 then
          let rest := run answers fuel (past ++ [round]) b'
          ⟨rest.buffer, round :: rest.rounds, rest.finished⟩
        else ⟨b', [round], true⟩
      else ⟨b, [round], true⟩
    else ⟨b, [], true⟩

/-- The answers of a message class and of a callback that has been given `start`. -/
def answersOf {μ : Type*} (P : MessageClass μ) (messageCb : List μ → μ → Bool) (start : List μ) :
    Answers := fun past memory size =>
  match P.parseFromArray memory size with
  | some message =>
    (true, messageCb (start ++ past.filterMap fun r => P.parseFromArray r.memory r.size) message)
  | none => (false, false)

/-- `OnMessage` runs these rounds. -/
theorem onMessage_eq_run {μ : Type*} (P : MessageClass μ) (messageCb : List μ → μ → Bool)
    (start : List μ) (fuel : ℕ) (past : List Round) (d : Delivery μ)
    (hpast : d.messages = start ++ past.filterMap fun r => P.parseFromArray r.memory r.size) :
    let r := run kLittleEndian (answersOf P messageCb start) fuel past d.buffer
    (onMessage P kLittleEndian messageCb fuel d).map Delivery.buffer =
      if r.finished then some r.buffer else none := by
  induction fuel generalizing past d with
  | zero => rfl
  | succ fuel ih =>
    rw [onMessage, run]
    by_cases hheader : kHeaderSize.toNat ≤ d.buffer.readableSize
    swap
    · simp [hheader]
    by_cases hsize : lengthField kLittleEndian d.buffer.readable ≤ d.buffer.readableSize
    swap
    · have hsize' : ¬ (decodeFixed32 kLittleEndian d.buffer.readable).toNat ≤
          d.buffer.readableSize := hsize
      simp [hsize, hsize']
    have hsize' : (decodeFixed32 kLittleEndian d.buffer.readable).toNat ≤ d.buffer.readableSize :=
      hsize
    rw [if_pos hheader, if_pos ⟨hheader, hsize⟩]
    dsimp only
    rw [if_pos hsize']
    have hargument : (decodeFixed32 kLittleEndian d.buffer.readable - kHeaderSize).toBitVec.toInt =
        sizeArgument kLittleEndian d.buffer.readable := rfl
    rw [hargument]
    cases hparse : P.parseFromArray (d.buffer.readable.drop kHeaderSize.toNat)
        (sizeArgument kLittleEndian d.buffer.readable) with
    | none => simp [answersOf, hparse]
    | some message =>
      have hanswer : answersOf P messageCb start past (d.buffer.readable.drop kHeaderSize.toNat)
          (sizeArgument kLittleEndian d.buffer.readable) =
            (true, messageCb d.messages message) := by
        rw [answersOf, hparse, hpast]
      simp only [hanswer, if_true]
      cases hcb : messageCb d.messages message with
      | false => simp [lengthField]
      | true =>
        refine ih _ ⟨_, d.messages ++ [message], d.errors⟩ ?_
        simp [hpast, roundOf, hparse]

/-! The length fields. -/

/-- What becomes of the subtraction. -/
theorem toInt_sub_header (size : UInt32) :
    (4 ≤ size.toNat ∧ size.toNat < 2 ^ 31 + 4 ∧
      (size - kHeaderSize).toBitVec.toInt = (size.toNat - 4 : ℕ)) ∨
    (¬ (4 ≤ size.toNat ∧ size.toNat < 2 ^ 31 + 4) ∧ (size - kHeaderSize).toBitVec.toInt < 0) := by
  have hsub : (size - kHeaderSize).toBitVec.toNat = (2 ^ 32 - 4 + size.toNat) % 2 ^ 32 :=
    UInt32.toNat_sub size kHeaderSize
  have hlt : size.toNat < 2 ^ 32 := size.toNat_lt
  rw [BitVec.toInt_eq_toNat_cond, hsub]
  split_ifs <;> omega

/-- Following the length fields from the first byte on, as long as whole frames are
there, each one counts its own four bytes and leaves a size that is an `int`. -/
inductive WellSized : List Byte → Prop
  | stop {q} : q.length < 4 ∨ q.length < lengthField kLittleEndian q → WellSized q
  | frame {q} : 4 ≤ q.length → lengthField kLittleEndian q ≤ q.length →
      4 ≤ lengthField kLittleEndian q → lengthField kLittleEndian q < 2 ^ 31 + 4 →
      WellSized (q.drop (lengthField kLittleEndian q)) → WellSized q

/-- Whatever is answered: every round is safe, and the loop ends. -/
def Safe (b : Buffer) : Prop :=
  ∀ answers : Answers, (∀ fuel, ∀ r ∈ (run kLittleEndian answers fuel [] b).rounds, r.Safe) ∧
    ∃ fuel, (run kLittleEndian answers fuel [] b).finished = true

section

variable {kLittleEndian} {b : Buffer}

/-- No whole frame: the loop stops without a round. -/
theorem run_stop (h : b.Wf) (answers : Answers) (fuel : ℕ) (past : List Round)
    (hstop : b.readable.length < 4 ∨ b.readable.length < lengthField kLittleEndian b.readable) :
    run kLittleEndian answers (fuel + 1) past b = ⟨b, [], true⟩ := by
  have hheader : kHeaderSize.toNat = 4 := rfl
  rw [Buffer.length_readable h] at hstop
  rw [run, if_neg (by omega)]

/-- A whole frame: one round, and the next one if both answers are yes. -/
theorem run_frame (h : b.Wf) (answers : Answers) (fuel : ℕ) (past : List Round)
    (hfour : 4 ≤ b.readable.length)
    (hframe : lengthField kLittleEndian b.readable ≤ b.readable.length) :
    run kLittleEndian answers (fuel + 1) past b =
      let res :=
        answers past (b.readable.drop kHeaderSize.toNat) (sizeArgument kLittleEndian b.readable)
      let round := roundOf kLittleEndian b.readable res.1
      if res.1 then
        let b' := b.retrieve (lengthField kLittleEndian b.readable)
        if res.2 then
          let rest := run kLittleEndian answers fuel (past ++ [round]) b'
          ⟨rest.buffer, round :: rest.rounds, rest.finished⟩
        else ⟨b', [round], true⟩
      else ⟨b, [round], true⟩ := by
  rw [Buffer.length_readable h] at hfour hframe
  rw [run, if_pos ⟨hfour, hframe⟩]

/-- Safe or not is a matter of the length field. -/
theorem roundOf_safe {q : List Byte} (hfour : 4 ≤ q.length)
    (hframe : lengthField kLittleEndian q ≤ q.length) (hlow : 4 ≤ lengthField kLittleEndian q)
    (hhigh : lengthField kLittleEndian q < 2 ^ 31 + 4) (parsed : Bool) :
    (roundOf kLittleEndian q parsed).Safe := by
  have hheader : kHeaderSize.toNat = 4 := rfl
  rcases toInt_sub_header (decodeFixed32 kLittleEndian q) with ⟨-, -, hint⟩ | ⟨hbad, -⟩
  · have hsize : (roundOf kLittleEndian q parsed).size =
        (lengthField kLittleEndian q - 4 : ℕ) := hint
    have hmemory : (roundOf kLittleEndian q parsed).memory.length = q.length - 4 := by
      rw [roundOf, List.length_drop, hheader]
    refine ⟨by omega, by omega, ?_⟩
    intro n hn
    cases parsed with
    | false => cases hn
    | true =>
      obtain rfl : lengthField kLittleEndian q = n := Option.some.inj hn
      exact hlow
  · exact absurd ⟨hlow, hhigh⟩ hbad

theorem length_of_safe {q : List Byte} {parsed : Bool}
    (h : (roundOf kLittleEndian q parsed).Safe) :
    4 ≤ lengthField kLittleEndian q ∧ lengthField kLittleEndian q < 2 ^ 31 + 4 := by
  rcases toInt_sub_header (decodeFixed32 kLittleEndian q) with ⟨hlow, hhigh, -⟩ | ⟨-, hneg⟩
  · exact ⟨hlow, hhigh⟩
  · have hsize : 0 ≤ sizeArgument kLittleEndian q := h.1
    exact absurd hsize (Int.not_le.mpr hneg)

/-- On well-sized input every round is safe and the loop ends, by induction on the
frames. -/
theorem safe_of_wellSized {q : List Byte} (hq : WellSized kLittleEndian q) {b : Buffer} (h : b.Wf)
    (hb : b.readable = q) (answers : Answers) (past : List Round) :
    (∀ fuel, ∀ r ∈ (run kLittleEndian answers fuel past b).rounds, r.Safe) ∧
    ∃ fuel, (run kLittleEndian answers fuel past b).finished = true := by
  induction hq generalizing b past with
  | @stop q hstop =>
    subst hb
    refine ⟨fun fuel r hr => ?_, 1, by rw [run_stop h answers 0 past hstop]⟩
    cases fuel with
    | zero => simp [run] at hr
    | succ fuel =>
      rw [run_stop h answers fuel past hstop] at hr
      simp at hr
  | @frame q hfour hframe hlow hhigh _ ih =>
    subst hb
    obtain ⟨hwf, hrest⟩ := Buffer.retrieve_spec h (lengthField kLittleEndian b.readable)
    have hround (parsed : Bool) := roundOf_safe hfour hframe hlow hhigh parsed
    have hrun (fuel : ℕ) := run_frame h answers fuel past hfour hframe
    rcases hanswer : answers past (b.readable.drop kHeaderSize.toNat)
      (sizeArgument kLittleEndian b.readable) with ⟨parsed, again⟩
    simp only [hanswer] at hrun
    have hone {r₀ : Round} (h₀ : r₀.Safe) : ∀ r ∈ [r₀], r.Safe := by
      intro r hr
      rwa [List.mem_singleton.mp hr]
    cases parsed with
    | false =>
      refine ⟨fun fuel => ?_, 1, by rw [hrun]; rfl⟩
      cases fuel with
      | zero => simp [run]
      | succ fuel =>
        rw [hrun]
        exact hone (hround false)
    | true =>
      cases again with
      | false =>
        refine ⟨fun fuel => ?_, 1, by rw [hrun]; rfl⟩
        cases fuel with
        | zero => simp [run]
        | succ fuel =>
          rw [hrun]
          exact hone (hround true)
      | true =>
        obtain ⟨hsafe, fuel, hfinished⟩ :=
          ih hwf hrest (past ++ [roundOf kLittleEndian b.readable true])
        refine ⟨fun fuel => ?_, fuel + 1, by rw [hrun]; exact hfinished⟩
        cases fuel with
        | zero => simp [run]
        | succ fuel =>
          rw [hrun]
          exact List.forall_mem_cons.mpr ⟨hround true, hsafe fuel⟩

/-- The other way round a parser and a callback that say yes are enough. -/
theorem wellSized_of_run (fuel : ℕ) {b : Buffer} (h : b.Wf) (past : List Round)
    (hfinished : (run kLittleEndian (fun _ _ _ => (true, true)) fuel past b).finished = true)
    (hsafe : ∀ r ∈ (run kLittleEndian (fun _ _ _ => (true, true)) fuel past b).rounds, r.Safe) :
    WellSized kLittleEndian b.readable := by
  induction fuel generalizing b past with
  | zero => cases hfinished
  | succ fuel ih =>
    by_cases hstop : b.readable.length < 4 ∨
        b.readable.length < lengthField kLittleEndian b.readable
    · exact .stop hstop
    · have hfour : 4 ≤ b.readable.length := by omega
      have hframe : lengthField kLittleEndian b.readable ≤ b.readable.length := by omega
      rw [run_frame h _ fuel past hfour hframe] at hfinished hsafe
      obtain ⟨hfirst, hrest⟩ := List.forall_mem_cons.mp hsafe
      obtain ⟨hlow, hhigh⟩ := length_of_safe hfirst
      obtain ⟨hwf, hreadable⟩ := Buffer.retrieve_spec h (lengthField kLittleEndian b.readable)
      refine .frame hfour hframe hlow hhigh ?_
      rw [← hreadable]
      exact ih hwf _ hfinished hrest

/-- A length field of zero takes nothing: while it is accepted the loop goes on. -/
theorem run_zero (fuel : ℕ) {b : Buffer} (h : b.Wf) (past : List Round)
    (hfour : 4 ≤ b.readable.length) (hzero : lengthField kLittleEndian b.readable = 0) :
    (run kLittleEndian (fun _ _ _ => (true, true)) fuel past b).finished = false := by
  induction fuel generalizing past with
  | zero => rfl
  | succ fuel ih =>
    have hsame : b.retrieve 0 = b := by
      rw [Buffer.length_readable h] at hfour
      rw [Buffer.retrieve, if_pos (by omega)]
      rfl
    rw [run_frame h _ fuel past hfour (by omega), hzero, hsame]
    exact ih _

end

/-- `OnMessage` is safe on the bytes in its buffer, whatever the parser and the callback
answer, just when the length fields that it reaches are in order. -/
theorem onMessage_safe_iff {b : Buffer} (h : b.Wf) :
    Safe kLittleEndian b ↔ WellSized kLittleEndian b.readable := by
  constructor
  · intro hsafe
    obtain ⟨hrounds, fuel, hfinished⟩ := hsafe fun _ _ _ => (true, true)
    exact wellSized_of_run fuel h [] hfinished (hrounds fuel)
  · exact fun hq answers => safe_of_wellSized hq h rfl answers []

/-- An empty message and a byte of the next frame. -/
theorem onMessage_safe_five : Safe true ⟨[4, 0, 0, 0, 9], 0, 5⟩ := by
  rw [onMessage_safe_iff true ⟨by decide, by decide⟩]
  exact .frame (by decide) (by decide) (by decide) (by decide) (.stop (.inl (by decide)))

/-- A length field of zero: `ParseFromArray` gets a size of minus four, and if it
accepts that the loop never ends. -/
theorem onMessage_not_safe : ¬ Safe true ⟨[0, 0, 0, 0], 0, 4⟩ ∧
    ¬ ∃ fuel,
      (run true (fun _ _ _ => (true, true)) fuel [] ⟨[0, 0, 0, 0], 0, 4⟩).finished = true := by
  have hwf : (⟨[0, 0, 0, 0], 0, 4⟩ : Buffer).Wf := ⟨by decide, by decide⟩
  constructor
  · intro hsafe
    obtain ⟨hrounds, -⟩ := hsafe fun _ _ _ => (true, true)
    have hfirst : (run true (fun _ _ _ => (true, true)) 1 [] ⟨[0, 0, 0, 0], 0, 4⟩).rounds =
        [⟨[], -4, some 0⟩] := by decide
    have hround : (⟨[], -4, some 0⟩ : Round).Safe := hrounds 1 _ (by simp [hfirst])
    exact absurd hround.1 (by decide)
  · rintro ⟨fuel, hfinished⟩
    rw [run_zero fuel hwf [] (by decide) (by decide)] at hfinished
    cases hfinished

end Voyager.ProtobufCodec
