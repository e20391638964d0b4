import Voyager.Buffer
import Voyager.Lib.LittleEndian

/-!
The fixed-width part of util/coding.h and util/coding.cc. The bytes written do
not depend on the byte order of the machine: a little-endian machine copies
the memory of the value, any other shifts its bytes out one by one.
-/
namespace Voyager.Coding

open Lib.LittleEndian

/-- `0xff` is in case char is signed. -/
def byteAsUint32 (c : Byte) : UInt32 := c.toUInt32 &&& 0xff

def uint32AsByte (i : UInt32) : Byte := (i &&& 0xff).toUInt8

/-- The memory of a value on a little-endian machine, as `memcpy` copies it. -/
def memory32 (value : UInt32) : List Byte := toBytes 4 value.toNat

def encodeFixed32 (kLittleEndian : Bool) (value : UInt32) : List Byte :=
  if kLittleEndian then
    memory32 value
  else
    [uint32AsByte value, uint32AsByte (value >>> 8), uint32AsByte (value >>> 16),
      uint32AsByte (value >>> 24)]

def putFixed32 (kLittleEndian : Bool) (dst : List Byte) (value : UInt32) : List Byte :=
  dst ++ encodeFixed32 kLittleEndian value

/-- Reads the first four bytes at `ptr` without any bounds checking. -/
def decodeFixed32 (kLittleEndian : Bool) (ptr : List Byte) : UInt32 :=
  if kLittleEndian then
    UInt32.ofNat (ofBytes (ptr.take 4))
  else
    byteAsUint32 (ptr.getD 0 0) ||| byteAsUint32 (ptr.getD 1 0) <<< 8 |||
      byteAsUint32 (ptr.getD 2 0) <<< 16 ||| byteAsUint32 (ptr.getD 3 0) <<< 24

theorem uint32AsByte_shiftRight (value k : UInt32) (hk : k.toNat < 32) :
    uint32AsByte (value >>> k) = UInt8.ofNat (value.toNat / 2 ^ k.toNat) := by
  apply UInt8.toNat.inj
  have hmod : k.toNat % 32 = k.toNat := Nat.mod_eq_of_lt hk
  simp only [uint32AsByte, UInt32.toNat_toUInt8, UInt32.toNat_and, UInt32.toNat_shiftRight,
    UInt8.toNat_ofNat', hmod, Nat.shiftRight_eq_div_pow]
  rw [show (UInt32.toNat 255) = 2 ^ 8 - 1 from rfl, Nat.and_two_pow_sub_one_eq_mod]
  omega

/-- Both byte orders write the same four bytes. -/
theorem encodeFixed32_eq (kLittleEndian : Bool) (value : UInt32) :
    encodeFixed32 kLittleEndian value = toBytes 4 value.toNat := by
  cases kLittleEndian with
  | true => rfl
  | false =>
    have h0 : uint32AsByte value = UInt8.ofNat value.toNat := by
      have h := uint32AsByte_shiftRight value 0 (by decide)
      simpa using h
    have h8 := uint32AsByte_shiftRight value 8 (by decide)
    have h16 := uint32AsByte_shiftRight value 16 (by decide)
    have h24 := uint32AsByte_shiftRight value 24 (by decide)
    simp only [encodeFixed32, Bool.false_eq_true, if_false, toBytes, h0, h8, h16, h24,
      Nat.div_div_eq_div_mul]
    rfl

@[simp] theorem length_encodeFixed32 (kLittleEndian : Bool) (value : UInt32) :
    (encodeFixed32 kLittleEndian value).length = 4 := by
  rw [encodeFixed32_eq, length_toBytes]

theorem toNat_byteAsUint32 (c : Byte) : (byteAsUint32 c).toNat = c.toNat := by
  have hc := c.toNat_lt
  simp only [byteAsUint32, UInt32.toNat_and, UInt8.toNat_toUInt32]
  rw [show (UInt32.toNat 255) = 2 ^ 8 - 1 from rfl, Nat.and_two_pow_sub_one_eq_mod]
  omega

/-- Both byte orders read the same value from four bytes. -/
theorem decodeFixed32_eq (kLittleEndian : Bool) (b₀ b₁ b₂ b₃ : Byte) (rest : List Byte) :
    (decodeFixed32 kLittleEndian (b₀ :: b₁ :: b₂ :: b₃ :: rest)).toNat =
      ofBytes [b₀, b₁, b₂, b₃] := by
  have hlt : ofBytes [b₀, b₁, b₂, b₃] < 4294967296 := by
    simpa only [List.length_cons, List.length_nil, Nat.reduceAdd, Nat.reducePow] using
      ofBytes_lt [b₀, b₁, b₂, b₃]
  cases kLittleEndian with
  | true =>
    simp only [decodeFixed32, if_true, List.take_succ_cons, List.take_zero, UInt32.toNat_ofNat']
    omega
  | false =>
    have h0 := b₀.toNat_lt
    have h1 := b₁.toNat_lt
    have h2 := b₂.toNat_lt
    have h3 := b₃.toNat_lt
    have e1 : (b₁.toNat <<< 8) % 2 ^ 32 = b₁.toNat <<< 8 :=
      Nat.mod_eq_of_lt (by rw [Nat.shiftLeft_eq]; omega)
    have e2 : (b₂.toNat <<< 16) % 2 ^ 32 = b₂.toNat <<< 16 :=
      Nat.mod_eq_of_lt (by rw [Nat.shiftLeft_eq]; omega)
    have e3 : (b₃.toNat <<< 24) % 2 ^ 32 = b₃.toNat <<< 24 :=
      Nat.mod_eq_of_lt (by rw [Nat.shiftLeft_eq]; omega)
    simp only [decodeFixed32, Bool.false_eq_true, if_false, List.getD_cons_zero,
      List.getD_cons_succ, UInt32.toNat_or, UInt32.toNat_shiftLeft, toNat_byteAsUint32,
      UInt32.reduceToNat, Nat.reduceMod, e1, e2, e3, ofBytes]
    rw [or_shiftLeft _ _ 8 (by omega), or_shiftLeft _ _ 16 (by omega),
      or_shiftLeft _ _ 24 (by omega)]
    omega

/-- A value written on any machine is read back on any machine. -/
theorem decodeFixed32_encodeFixed32 (writer reader : Bool) (value : UInt32) (rest : List Byte) :
    decodeFixed32 reader (encodeFixed32 writer value ++ rest) = value := by
  apply UInt32.toNat.inj
  have hvalue := value.toNat_lt
  have hround := ofBytes_toBytes 4 value.toNat (by omega)
  rw [encodeFixed32_eq]
  simp only [toBytes, List.cons_append, List.nil_append] at hround ⊢
  rw [decodeFixed32_eq, hround]

/-- Only the first four bytes matter. -/
theorem decodeFixed32_append (kLittleEndian : Bool) (ptr rest : List Byte) (h : 4 ≤ ptr.length) :
    decodeFixed32 kLittleEndian (ptr ++ rest) = decodeFixed32 kLittleEndian ptr := by
  rcases ptr with _ | ⟨b₀, _ | ⟨b₁, _ | ⟨b₂, _ | ⟨b₃, tail⟩⟩⟩⟩
  all_goals try (simp at h)
  apply UInt32.toNat.inj
  simp only [List.cons_append]
  rw [decodeFixed32_eq, decodeFixed32_eq]

end Voyager.Coding
