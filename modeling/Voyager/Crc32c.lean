import Voyager.Coding
import Voyager.Crc32cTables
import Voyager.Lib.Memory

/-!
util/crc32c.cc and util/crc32c_accelerate.cc. Both paths take single bytes up
to an aligned address, then words as long as enough bytes are left, then single
bytes again, and compute the bit-by-bit remainder of the bytes in between.
-/
namespace Voyager.Crc32c

open Lib Lib.ReflectedCrc Crc32cTables

/-- The bit-by-bit CRC-32C, started from the checksum of what came before. -/
def crc32c (crc : BitVec 32) (bytes : List Byte) : BitVec 32 :=
  bytes.foldl (byteStep poly) (crc ^^^ 0xffffffff) ^^^ 0xffffffff

/-! ## The loops of both paths -/

section Loops

variable {σ : Type} (mem : ℕ → Byte)

/-- `while (p != x)`, one byte a round; the loop is entered below `x`. -/
def bytesUpTo (step : σ → Byte → σ) (x p : ℕ) (hp : p ≤ x) (l : σ) : σ :=
  if h : p ≠ x then bytesUpTo step x (p + 1) (by omega) (step l (mem p)) else l
termination_by x - p

/-- `while (p < e)`, one byte a round. -/
def bytesBelow (step : σ → Byte → σ) (e p : ℕ) (l : σ) : σ :=
  if p < e then bytesBelow step e (p + 1) (step l (mem p)) else l
termination_by e - p

/-- `while ((e - p) >= n)`, so many bytes a round. -/
def wordsUpTo (n : ℕ) (hn : 0 < n) (body : ℕ → σ → σ) (e p : ℕ) (l : σ) : ℕ × σ :=
  if n ≤ e - p then wordsUpTo n hn body e (p + n) (body p l) else (p, l)
termination_by e - p

end Loops

/-- The first address from `p` on that is a multiple of `2 ^ k`. -/
def alignUp (k p : ℕ) : ℕ := (p + (2 ^ k - 1)) >>> k <<< k

theorem le_alignUp (k p : ℕ) : p ≤ alignUp k p := by
  have hpos := Nat.two_pow_pos k
  have hmod := Nat.div_add_mod (p + (2 ^ k - 1)) (2 ^ k)
  have hlt := Nat.mod_lt (p + (2 ^ k - 1)) hpos
  rw [alignUp, Nat.shiftRight_eq_div_pow, Nat.shiftLeft_eq, Nat.mul_comm]
  omega

/-- `if (x <= e)`, the bytes up to the aligned address `x`; where that is past the
end, nothing. -/
def alignedStart {σ : Type} (mem : ℕ → Byte) (step : σ → Byte → σ) (k e p : ℕ) (l : σ) : ℕ × σ :=
  if alignUp k p ≤ e then
    (alignUp k p, bytesUpTo mem step (alignUp k p) p (le_alignUp k p) l)
  else
    (p, l)

/-! ## What the loops compute -/

section LoopSpecs

variable {σ τ : Type} {mem : ℕ → Byte} {step : σ → Byte → σ} {e : ℕ}

/-- From the address `p` and the value `l`, the bytes up to another address have been taken. -/
structure Advances (mem : ℕ → Byte) (step : σ → Byte → σ) (e p : ℕ) (l : σ) (r : ℕ × σ) :
    Prop where
  le_fst : p ≤ r.1
  fst_le : r.1 ≤ e
  snd_eq : r.2 = (Memory.read mem p (r.1 - p)).foldl step l

theorem Advances.refl {p : ℕ} (hp : p ≤ e) (l : σ) : Advances mem step e p l (p, l) where
  le_fst := Nat.le_refl p
  fst_le := hp
  snd_eq := by rw [Nat.sub_self]; rfl

theorem Advances.trans {p : ℕ} {l : σ} {r s : ℕ × σ} (h : Advances mem step e p l r)
    (h' : Advances mem step e r.1 r.2 s) : Advances mem step e p l s where
  le_fst := Nat.le_trans h.le_fst h'.le_fst
  fst_le := h'.fst_le
  snd_eq := by
    have hle := h.le_fst
    have hle' := h'.le_fst
    rw [h'.snd_eq, h.snd_eq, ← List.foldl_append]
    congr 1
    rw [show s.1 - p = (r.1 - p) + (s.1 - r.1) by omega, Memory.read_add,
      Nat.add_sub_cancel' hle]

/-- The bytes that are left, taken one by one, complete the range. -/
theorem Advances.finish {p : ℕ} {l : σ} {r : ℕ × σ} (h : Advances mem step e p l r) :
    (Memory.read mem r.1 (e - r.1)).foldl step r.2 = (Memory.read mem p (e - p)).foldl step l := by
  have hrest : Advances mem step e r.1 r.2 (e, (Memory.read mem r.1 (e - r.1)).foldl step r.2) :=
    ⟨h.fst_le, Nat.le_refl e, rfl⟩
  exact (h.trans hrest).snd_eq

theorem bytesUpTo_eq {x p : ℕ} (hp : p ≤ x) (l : σ) :
    bytesUpTo mem step x p hp l = (Memory.read mem p (x - p)).foldl step l := by
  induction hk : x - p generalizing p l with
  | zero =>
    have hend : ¬ p ≠ x := by omega
    rw [bytesUpTo, dif_neg hend]
    rfl
  | succ k ih =>
    have hmore : p ≠ x := by omega
    rw [bytesUpTo, dif_pos hmore, ih (by omega) _ (by omega), Memory.read, List.foldl_cons]

theorem bytesBelow_eq (p : ℕ) (l : σ) :
    bytesBelow mem step e p l = (Memory.read mem p (e - p)).foldl step l := by
  induction hk : e - p generalizing p l with
  | zero =>
    have hend : ¬ p < e := by omega
    rw [bytesBelow, if_neg hend]
    rfl
  | succ k ih =>
    have hmore : p < e := by omega
    rw [bytesBelow, if_pos hmore, ih _ _ (by omega), Memory.read, List.foldl_cons]

theorem alignedStart_advances {p : ℕ} (hp : p ≤ e) (k : ℕ) (l : σ) :
    Advances mem step e p l (alignedStart mem step k e p l) := by
  rw [alignedStart]
  split
  · exact ⟨le_alignUp k p, ‹_›, bytesUpTo_eq (le_alignUp k p) l⟩
  · exact Advances.refl hp l

/-- A body that takes `n` bytes as single steps would is run as long as there are `n`. -/
theorem wordsUpTo_advances {n : ℕ} (hn : 0 < n) {body : ℕ → τ → τ} {f : σ → τ}
    (hbody : ∀ p l, body p (f l) = f ((Memory.read mem p n).foldl step l)) {p : ℕ} (hp : p ≤ e)
    (l : σ) :
    ∃ r, wordsUpTo n hn body e p (f l) = (r.1, f r.2) ∧ Advances mem step e p l r := by
  induction hk : e - p using Nat.strongRecOn generalizing p l with
  | ind k ih =>
    rw [wordsUpTo]
    by_cases hmore : n ≤ e - p
    · have hword : Advances mem step e p l (p + n, (Memory.read mem p n).foldl step l) :=
        ⟨by omega, by omega, by rw [Nat.add_sub_cancel_left]⟩
      obtain ⟨r, hr, hadv⟩ := ih (e - (p + n)) (by omega) (p := p + n) (by omega)
        ((Memory.read mem p n).foldl step l) rfl
      refine ⟨r, ?_, hword.trans hadv⟩
      rw [if_pos hmore, hbody, hr]
    · exact ⟨(p, l), by rw [if_neg hmore], Advances.refl hp l⟩

end LoopSpecs

/-! ## The portable path -/

def step1 (l : BitVec 32) (b : Byte) : BitVec 32 :=
  let c := (l &&& 0xff) ^^^ BitVec.ofNat 32 b.toNat
  table0.getD c.toNat 0 ^^^ (l >>> 8)

/-- `LE_LOAD32` reads a word in little-endian order on any machine. -/
def leLoad32 (kLittleEndian : Bool) (mem : ℕ → Byte) (p : ℕ) : BitVec 32 :=
  (Coding.decodeFixed32 kLittleEndian (Memory.read mem p 4)).toBitVec

def step4 (kLittleEndian : Bool) (mem : ℕ → Byte) (p : ℕ) (l : BitVec 32) : BitVec 32 :=
  let c := l ^^^ leLoad32 kLittleEndian mem p
  table3.getD (c &&& 0xff).toNat 0 ^^^ table2.getD ((c >>> 8) &&& 0xff).toNat 0 ^^^
    table1.getD ((c >>> 16) &&& 0xff).toNat 0 ^^^ table0.getD (c >>> 24).toNat 0

/-- Four words in a row. -/
def step16 (kLittleEndian : Bool) (mem : ℕ → Byte) (p : ℕ) (l : BitVec 32) : BitVec 32 :=
  let l := step4 kLittleEndian mem p l
  let l := step4 kLittleEndian mem (p + 4) l
  let l := step4 kLittleEndian mem (p + 8) l
  step4 kLittleEndian mem (p + 12) l

theorem and_0xff (c : BitVec 32) : c &&& 0xff = low 8 c := rfl

theorem toNat_low_lt (c : BitVec 32) : (low 8 c).toNat < 256 := by
  rw [toNat_low (by decide)]
  exact Nat.mod_lt _ (by decide)

/-- One table entry stands for the eight bits of a byte. -/
theorem step1_eq (l : BitVec 32) (b : Byte) : step1 l b = byteStep poly l b := by
  have hb := b.toNat_lt
  have hsmall : (BitVec.ofNat 32 b.toNat).toNat < 2 ^ 8 := by
    rw [BitVec.toNat_ofNat]
    omega
  have hindex : low 8 l ^^^ BitVec.ofNat 32 b.toNat = low 8 (l ^^^ BitVec.ofNat 32 b.toNat) := by
    rw [low_xor, low_of_lt (by decide) hsmall]
  have hhigh : BitVec.ofNat 32 b.toNat >>> 8 = 0#32 := by
    apply BitVec.eq_of_toNat_eq
    rw [BitVec.toNat_ushiftRight, Nat.shiftRight_eq_div_pow]
    exact Nat.div_eq_of_lt hsmall
  have hsplit := bits_split poly 8 0 (l ^^^ BitVec.ofNat 32 b.toNat)
  rw [step1]
  simp only [and_0xff, hindex]
  rw [holds_table0.getD_toNat (toNat_low_lt _), byteStep, hsplit, BitVec.ushiftRight_xor_distrib,
    hhigh, BitVec.xor_zero]
  rfl

theorem leLoad32_eq (kLittleEndian : Bool) (mem : ℕ → Byte) (p : ℕ) :
    leLoad32 kLittleEndian mem p =
      BitVec.ofNat 32 (LittleEndian.ofBytes (Memory.read mem p 4)) := by
  apply BitVec.eq_of_toNat_eq
  have hlt := LittleEndian.ofBytes_lt (Memory.read mem p 4)
  rw [Memory.length_read] at hlt
  rw [BitVec.toNat_ofNat, Nat.mod_eq_of_lt (by omega)]
  exact Coding.decodeFixed32_eq kLittleEndian _ _ _ _ []

/-- Four table entries stand for the bits of a word. -/
theorem step4_eq (kLittleEndian : Bool) (mem : ℕ → Byte) (p : ℕ) (l : BitVec 32) :
    step4 kLittleEndian mem p l = (Memory.read mem p 4).foldl (byteStep poly) l := by
  have hlen : (Memory.read mem p 4).length = 4 := Memory.length_read p 4
  rw [foldl_byteStep poly (by omega), hlen, ← leLoad32_eq kLittleEndian, step4]
  simp only [and_0xff]
  generalize l ^^^ leLoad32 kLittleEndian mem p = c
  have h32 := bits_split poly 8 24 c
  have h24 := bits_split poly 8 16 (c >>> 8)
  have h16 := bits_split poly 8 8 (c >>> 16)
  have htop : (c >>> 24).toNat < 256 := by
    have hc := c.isLt
    rw [BitVec.toNat_ushiftRight, Nat.shiftRight_eq_div_pow]
    omega
  rw [holds_table3.getD_toNat (toNat_low_lt _), holds_table2.getD_toNat (toNat_low_lt _),
    holds_table1.getD_toNat (toNat_low_lt _), holds_table0.getD_toNat htop]
  rw [← BitVec.shiftRight_add] at h24 h16
  rw [show 8 * 4 = 8 + 24 from rfl, h32, h24, h16]
  simp only [BitVec.xor_assoc]

theorem step16_eq (kLittleEndian : Bool) (mem : ℕ → Byte) (p : ℕ) (l : BitVec 32) :
    step16 kLittleEndian mem p l = (Memory.read mem p 16).foldl (byteStep poly) l := by
  have h16 : Memory.read mem p 16 = Memory.read mem p 4 ++ Memory.read mem (p + 4) 4 ++
      Memory.read mem (p + 8) 4 ++ Memory.read mem (p + 12) 4 := by
    rw [← Memory.read_add, ← Memory.read_add, ← Memory.read_add]
  rw [h16, List.foldl_append, List.foldl_append, List.foldl_append]
  simp only [step16, step4_eq]

theorem wordsUpTo_fst_le {σ : Type} {n : ℕ} (hn : 0 < n) (body : ℕ → σ → σ) {e p : ℕ} (hp : p ≤ e)
    (l : σ) : (wordsUpTo n hn body e p l).1 ≤ e := by
  induction hk : e - p using Nat.strongRecOn generalizing p l with
  | ind k ih =>
    rw [wordsUpTo]
    split
    · exact ih (e - (p + n)) (by omega) (by omega) (body p l) rfl
    · exact hp

theorem alignedStart_fst_le {σ : Type} (mem : ℕ → Byte) (step : σ → Byte → σ) (k : ℕ) {e p : ℕ}
    (hp : p ≤ e) (l : σ) : (alignedStart mem step k e p l).1 ≤ e := by
  rw [alignedStart]
  split
  · assumption
  · exact hp

/-- The path of `Extend` without hardware support. -/
def extendPortable (kLittleEndian : Bool) (mem : ℕ → Byte) (crc : BitVec 32) (buf size : ℕ) :
    BitVec 32 :=
  let e := buf + size
  let s := alignedStart mem step1 2 e buf (crc ^^^ 0xffffffff)
  let t := wordsUpTo 16 (by decide) (step16 kLittleEndian mem) e s.1 s.2
  let u := wordsUpTo 4 (by decide) (step4 kLittleEndian mem) e t.1 t.2
  have hs : s.1 ≤ e := alignedStart_fst_le mem step1 2 (Nat.le_add_right buf size) _
  have ht : t.1 ≤ e := wordsUpTo_fst_le _ _ hs _
  bytesUpTo mem step1 e u.1 (wordsUpTo_fst_le _ _ ht _) u.2 ^^^ 0xffffffff

/-! ## The path with hardware support -/

section Accelerated

variable (mmCrc32U8 : BitVec 32 → Byte → BitVec 32) (mmCrc32U64 : BitVec 64 → BitVec 64 → BitVec 64)

/-- The machine that has the instructions is little-endian. -/
def load64 (mem : ℕ → Byte) (p : ℕ) : BitVec 64 :=
  BitVec.ofNat 64 (LittleEndian.ofBytes (Memory.read mem p 8))

theorem toBytes_load64 (mem : ℕ → Byte) (p : ℕ) :
    LittleEndian.toBytes 8 (load64 mem p).toNat = Memory.read mem p 8 := by
  have hlen : (Memory.read mem p 8).length = 8 := Memory.length_read p 8
  have hlt := LittleEndian.ofBytes_lt (Memory.read mem p 8)
  have hround := LittleEndian.toBytes_ofBytes (Memory.read mem p 8)
  rw [hlen] at hlt hround
  rw [load64, BitVec.toNat_ofNat, Nat.mod_eq_of_lt (by omega), hround]

def accelerated16 (mem : ℕ → Byte) (p : ℕ) (l64 : BitVec 64) : BitVec 64 :=
  let l64 := mmCrc32U64 l64 (load64 mem p)
  mmCrc32U64 l64 (load64 mem (p + 8))

def acceleratedExtend (mem : ℕ → Byte) (crc : BitVec 32) (buf size : ℕ) : BitVec 32 :=
  let e := buf + size
  let s := alignedStart mem mmCrc32U8 3 e buf (crc ^^^ 0xffffffff)
  let t := wordsUpTo 16 (by decide) (accelerated16 mmCrc32U64 mem) e s.1 (s.2.setWidth 64)
  bytesBelow mem mmCrc32U8 e t.1 (t.2.setWidth 32) ^^^ 0xffffffff

/-- `canAccelerate` is what `CanAccelerate` answered at the first call. -/
def extend (canAccelerate kLittleEndian : Bool) (mem : ℕ → Byte) (crc : BitVec 32)
    (buf size : ℕ) : BitVec 32 :=
  if canAccelerate then
    acceleratedExtend mmCrc32U8 mmCrc32U64 mem crc buf size
  else
    extendPortable kLittleEndian mem crc buf size

end Accelerated

/-! ## Both paths compute the checksum -/

/-- The portable path computes the bit-by-bit checksum at any alignment. -/
theorem extendPortable_eq (kLittleEndian : Bool) (mem : ℕ → Byte) (crc : BitVec 32)
    (buf size : ℕ) :
    extendPortable kLittleEndian mem crc buf size = crc32c crc (Memory.read mem buf size) := by
  have hstep : step1 = byteStep poly := by
    funext l b
    exact step1_eq l b
  have hs : Advances mem step1 (buf + size) buf (crc ^^^ 0xffffffff)
      (alignedStart mem step1 2 (buf + size) buf (crc ^^^ 0xffffffff)) :=
    alignedStart_advances (Nat.le_add_right buf size) 2 _
  have h16 : ∀ p l, step16 kLittleEndian mem p (id l) =
      id ((Memory.read mem p 16).foldl step1 l) := by
    intro p l
    rw [id, id, hstep, step16_eq]
  have h4 : ∀ p l, step4 kLittleEndian mem p (id l) =
      id ((Memory.read mem p 4).foldl step1 l) := by
    intro p l
    rw [id, id, hstep, step4_eq]
  obtain ⟨t, ht, hst⟩ := wordsUpTo_advances (by decide) h16 hs.fst_le _
  obtain ⟨u, hu, htu⟩ := wordsUpTo_advances (by decide) h4 hst.fst_le t.2
  have hall := ((hs.trans hst).trans htu).finish
  simp only [id] at ht hu
  rw [Nat.add_sub_cancel_left] at hall
  simp only [extendPortable, bytesUpTo_eq, ht, hu, hall]
  rw [hstep, crc32c]

/-- With the instructions of the processor the same checksum is computed. -/
theorem acceleratedExtend_eq {mmCrc32U8 : BitVec 32 → Byte → BitVec 32}
    {mmCrc32U64 : BitVec 64 → BitVec 64 → BitVec 64}
    (hU8 : ∀ l b, mmCrc32U8 l b = byteStep poly l b)
    (hU64 : ∀ l v, mmCrc32U64 l v =
      ((LittleEndian.toBytes 8 v.toNat).foldl (byteStep poly) (l.setWidth 32)).setWidth 64)
    (mem : ℕ → Byte) (crc : BitVec 32) (buf size : ℕ) :
    acceleratedExtend mmCrc32U8 mmCrc32U64 mem crc buf size =
      crc32c crc (Memory.read mem buf size) := by
  have hstep : mmCrc32U8 = byteStep poly := by
    funext l b
    exact hU8 l b
  have hs : Advances mem mmCrc32U8 (buf + size) buf (crc ^^^ 0xffffffff)
      (alignedStart mem mmCrc32U8 3 (buf + size) buf (crc ^^^ 0xffffffff)) :=
    alignedStart_advances (Nat.le_add_right buf size) 3 _
  have hnarrow : ∀ l : BitVec 32, (l.setWidth 64).setWidth 32 = l := by
    intro l
    apply BitVec.eq_of_toNat_eq
    have hl := l.isLt
    rw [BitVec.toNat_setWidth, BitVec.toNat_setWidth]
    omega
  have h8 : ∀ (p : ℕ) (l : BitVec 32), mmCrc32U64 (l.setWidth 64) (load64 mem p) =
      ((Memory.read mem p 8).foldl mmCrc32U8 l).setWidth 64 := by
    intro p l
    rw [hU64, hnarrow, toBytes_load64, hstep]
  have h16 : ∀ (p : ℕ) (l : BitVec 32), accelerated16 mmCrc32U64 mem p (l.setWidth 64) =
      ((Memory.read mem p 16).foldl mmCrc32U8 l).setWidth 64 := by
    intro p l
    rw [accelerated16]
    simp only [h8]
    rw [← List.foldl_append, ← Memory.read_add]
  obtain ⟨t, ht, hst⟩ := wordsUpTo_advances (by decide) h16 hs.fst_le _
  have hall := (hs.trans hst).finish
  rw [Nat.add_sub_cancel_left] at hall
  simp only [acceleratedExtend, bytesBelow_eq, ht, hnarrow, hall]
  rw [hstep, crc32c]

/-- A checksum is continued by the bytes that follow. -/
theorem crc32c_append (crc : BitVec 32) (a b : List Byte) :
    crc32c (crc32c crc a) b = crc32c crc (a ++ b) := by
  have hinvert : ∀ l : BitVec 32, l ^^^ 0xffffffff ^^^ 0xffffffff = l := by
    intro l
    rw [BitVec.xor_assoc, BitVec.xor_self, BitVec.xor_zero]
  rw [crc32c, crc32c, crc32c, hinvert, List.foldl_append]

/-- Both paths of `Extend` compute the bit-by-bit CRC-32C at any alignment, and
extending twice is extending by the concatenation. -/
theorem extend_crc32c {mmCrc32U8 : BitVec 32 → Byte → BitVec 32}
    {mmCrc32U64 : BitVec 64 → BitVec 64 → BitVec 64}
    (hU8 : ∀ l b, mmCrc32U8 l b = byteStep poly l b)
    (hU64 : ∀ l v, mmCrc32U64 l v =
      ((LittleEndian.toBytes 8 v.toNat).foldl (byteStep poly) (l.setWidth 32)).setWidth 64)
    (kLittleEndian : Bool) :
    (∀ mem crc buf size, extendPortable kLittleEndian mem crc buf size =
      crc32c crc (Memory.read mem buf size)) ∧
    (∀ mem crc buf size, acceleratedExtend mmCrc32U8 mmCrc32U64 mem crc buf size =
      crc32c crc (Memory.read mem buf size)) ∧
    (∀ canAccelerate mem₁ mem₂ mem₃ crc a b ab n k,
      Memory.read mem₃ ab (n + k) = Memory.read mem₁ a n ++ Memory.read mem₂ b k →
      extend mmCrc32U8 mmCrc32U64 canAccelerate kLittleEndian mem₂
          (extend mmCrc32U8 mmCrc32U64 canAccelerate kLittleEndian mem₁ crc a n) b k =
        extend mmCrc32U8 mmCrc32U64 canAccelerate kLittleEndian mem₃ crc ab (n + k)) := by
  have hportable := extendPortable_eq kLittleEndian
  have haccelerated := acceleratedExtend_eq hU8 hU64
  refine ⟨hportable, haccelerated, ?_⟩
  intro canAccelerate mem₁ mem₂ mem₃ crc a b ab n k hconcat
  cases canAccelerate with
  | false =>
    simp only [extend, Bool.false_eq_true, if_false, hportable]
    rw [hconcat, crc32c_append]
  | true =>
    simp only [extend, if_true, haccelerated]
    rw [hconcat, crc32c_append]

/-- Instructions that compute the polynomial step by step. -/
theorem extend_crc32c_bytewise :
    acceleratedExtend (byteStep poly)
        (fun l v => ((LittleEndian.toBytes 8 v.toNat).foldl (byteStep poly)
          (l.setWidth 32)).setWidth 64)
        (fun p => UInt8.ofNat (49 + p)) 0 0 9 = 0xe3069283 ∧
      crc32c 0 [49, 50, 51, 52, 53, 54, 55, 56, 57] = 0xe3069283 := by
  have h := (@extend_crc32c (byteStep poly) _ (fun _ _ => rfl) (fun _ _ => rfl) true).2.1
    (fun p => UInt8.ofNat (49 + p)) 0 0 9
  have hvalue : crc32c 0 [49, 50, 51, 52, 53, 54, 55, 56, 57] = 0xe3069283 := by decide +kernel
  exact ⟨h.trans hvalue, hvalue⟩

end Voyager.Crc32c
