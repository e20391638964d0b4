import Mathlib.Data.List.Basic
import Mathlib.Logic.Function.Iterate
import Voyager.Lib.LittleEndian

/-!
Reflected cyclic redundancy checks. The remainder moves down one bit at a time
and the polynomial is added whenever a one falls out. A step is linear, so the
steps of the low bits can be taken from a table and the high bits moved down.
-/
namespace Voyager.Lib.ReflectedCrc

variable {w : ℕ} (poly : BitVec w)

def bitStep (c : BitVec w) : BitVec w :=
  if c.getLsbD 0 then c >>> 1 ^^^ poly else c >>> 1

/-- The remainder after `n` bits. -/
def bits (n : ℕ) (c : BitVec w) : BitVec w := (bitStep poly)^[n] c

def byteStep (c : BitVec w) (b : UInt8) : BitVec w := bits poly 8 (c ^^^ BitVec.ofNat w b.toNat)

theorem bitStep_xor (a b : BitVec w) :
    bitStep poly (a ^^^ b) = bitStep poly a ^^^ bitStep poly b := by
  simp only [bitStep, BitVec.getLsbD_xor, BitVec.ushiftRight_xor_distrib]
  have hcancel : a >>> 1 ^^^ poly ^^^ (b >>> 1 ^^^ poly) = a >>> 1 ^^^ b >>> 1 := by
    rw [BitVec.xor_assoc, ← BitVec.xor_assoc poly, BitVec.xor_comm poly (b >>> 1),
      BitVec.xor_assoc, BitVec.xor_self, BitVec.xor_zero]
  cases a.getLsbD 0 <;> cases b.getLsbD 0 <;> simp [hcancel] <;> ac_rfl

theorem bits_xor (n : ℕ) (a b : BitVec w) :
    bits poly n (a ^^^ b) = bits poly n a ^^^ bits poly n b := by
  induction n generalizing a b with
  | zero => rfl
  | succ n ih =>
    simp only [bits, Function.iterate_succ_apply] at *
    rw [bitStep_xor, ih]

theorem bits_add (n m : ℕ) (c : BitVec w) : bits poly (n + m) c = bits poly m (bits poly n c) := by
  rw [bits, bits, bits, Nat.add_comm, Function.iterate_add_apply]

/-- Zeros fall out without a trace. -/
theorem bits_of_low_zero {n : ℕ} {c : BitVec w} (h : ∀ i < n, c.getLsbD i = false) :
    bits poly n c = c >>> n := by
  induction n generalizing c with
  | zero =>
    rw [BitVec.ushiftRight_zero]
    rfl
  | succ n ih =>
    have hstep : bitStep poly c = c >>> 1 := by
      rw [bitStep, h 0 (by omega)]
      rfl
    have hrest : ∀ i < n, (c >>> 1).getLsbD i = false := by
      intro i hi
      rw [BitVec.getLsbD_ushiftRight]
      exact h (1 + i) (by omega)
    calc bits poly (n + 1) c
        = bits poly n (bitStep poly c) := rfl
      _ = c >>> 1 >>> n := by rw [hstep, ih hrest]
      _ = c >>> (n + 1) := by rw [← BitVec.shiftRight_add, Nat.add_comm]

/-- The low `n` bits of a word. -/
def low (n : ℕ) (c : BitVec w) : BitVec w := c &&& BitVec.ofNat w (2 ^ n - 1)

theorem getLsbD_mask (n i : ℕ) :
    (BitVec.ofNat w (2 ^ n - 1)).getLsbD i = (decide (i < w) && decide (i < n)) := by
  rw [BitVec.getLsbD_ofNat, Nat.testBit_two_pow_sub_one]

theorem toNat_low {n : ℕ} (hn : n ≤ w) (c : BitVec w) : (low n c).toNat = c.toNat % 2 ^ n := by
  have hpow : 2 ^ n ≤ 2 ^ w := Nat.pow_le_pow_right (by decide) hn
  have hpos := Nat.two_pow_pos n
  rw [low, BitVec.toNat_and, BitVec.toNat_ofNat, Nat.mod_eq_of_lt (by omega),
    Nat.and_two_pow_sub_one_eq_mod]

theorem low_xor (n : ℕ) (a b : BitVec w) : low n (a ^^^ b) = low n a ^^^ low n b := by
  rw [low, low, low]
  ext i
  simp only [BitVec.getElem_xor, BitVec.getElem_and, Bool.and_xor_distrib_right]

theorem low_of_lt {n : ℕ} (hn : n ≤ w) {c : BitVec w} (hc : c.toNat < 2 ^ n) : low n c = c := by
  apply BitVec.eq_of_toNat_eq
  rw [toNat_low hn, Nat.mod_eq_of_lt hc]

/-- The low bits and the others fall out independently. -/
theorem bits_split (n m : ℕ) (c : BitVec w) :
    bits poly (n + m) c = bits poly (n + m) (low n c) ^^^ bits poly m (c >>> n) := by
  have hsplit : c = low n c ^^^ (c &&& ~~~BitVec.ofNat w (2 ^ n - 1)) := by
    have hbit : ∀ x m : Bool, x = ((x && m) ^^ (x && !m)) := by decide
    rw [low]
    ext i
    simp only [BitVec.getElem_xor, BitVec.getElem_and, BitVec.getElem_not]
    exact hbit _ _
  have hzero : ∀ i < n, (c &&& ~~~BitVec.ofNat w (2 ^ n - 1)).getLsbD i = false := by
    intro i hi
    simp only [BitVec.getLsbD_and, BitVec.getLsbD_not, getLsbD_mask, hi]
    simp
  have hshift : (c &&& ~~~BitVec.ofNat w (2 ^ n - 1)) >>> n = c >>> n := by
    apply BitVec.eq_of_getLsbD_eq
    intro i _
    simp only [BitVec.getLsbD_ushiftRight, BitVec.getLsbD_and, BitVec.getLsbD_not, getLsbD_mask]
    by_cases hi : n + i < w
    · simp [hi]
    · simp [BitVec.getLsbD_of_ge c (n + i) (by omega)]
  conv => lhs; rw [hsplit]
  rw [bits_xor, bits_add poly n m (c &&& _), bits_of_low_zero poly hzero, hshift]

/-- A number moved up as far as it falls down again. -/
theorem bits_shiftLeft {n x : ℕ} (hn : n ≤ w) (hx : x < 2 ^ (w - n)) :
    bits poly n (BitVec.ofNat w x <<< n) = BitVec.ofNat w x := by
  have hzero : ∀ i < n, (BitVec.ofNat w x <<< n).getLsbD i = false := by
    intro i hi
    rw [BitVec.getLsbD_shiftLeft, decide_eq_true hi]
    simp
  have hpow : 2 ^ w = 2 ^ (w - n) * 2 ^ n := by rw [← Nat.pow_add, Nat.sub_add_cancel hn]
  have hfits : x * 2 ^ n < 2 ^ w := by
    rw [hpow]
    exact Nat.mul_lt_mul_of_pos_right hx (Nat.two_pow_pos n)
  have hxw : x < 2 ^ w := Nat.lt_of_lt_of_le hx (Nat.pow_le_pow_right (by decide) (by omega))
  rw [bits_of_low_zero poly hzero]
  apply BitVec.eq_of_toNat_eq
  rw [BitVec.toNat_ushiftRight, BitVec.toNat_shiftLeft, BitVec.toNat_ofNat, Nat.mod_eq_of_lt hxw,
    Nat.shiftLeft_eq, Nat.mod_eq_of_lt hfits, Nat.shiftRight_eq_div_pow,
    Nat.mul_div_cancel _ (Nat.two_pow_pos n)]

theorem ofNat_ofBytes_cons (b : UInt8) (rest : List UInt8) :
    BitVec.ofNat w (LittleEndian.ofBytes (b :: rest)) =
      BitVec.ofNat w b.toNat ^^^ BitVec.ofNat w (LittleEndian.ofBytes rest) <<< 8 := by
  have hb : b.toNat < 2 ^ 8 := b.toNat_lt
  apply BitVec.eq_of_getLsbD_eq
  intro i hi
  rw [LittleEndian.ofBytes, Nat.add_comm, show 256 = 2 ^ 8 from rfl, BitVec.getLsbD_xor,
    BitVec.getLsbD_shiftLeft, BitVec.getLsbD_ofNat, BitVec.getLsbD_ofNat, BitVec.getLsbD_ofNat,
    Nat.testBit_two_pow_mul_add _ hb]
  by_cases hlow : i < 8
  · simp [hlow]
  · have hfalse : b.toNat.testBit i = false := by
      apply Nat.testBit_lt_two_pow
      exact Nat.lt_of_lt_of_le hb (Nat.pow_le_pow_right (by decide) (by omega))
    have hi' : i - 8 < w := by omega
    simp [hlow, hi, hi', hfalse]

/-- Bytes that fit the remainder together may be added to it at once. -/
theorem foldl_byteStep {bytes : List UInt8} (h : 8 * bytes.length ≤ w) (c : BitVec w) :
    bytes.foldl (byteStep poly) c =
      bits poly (8 * bytes.length) (c ^^^ BitVec.ofNat w (LittleEndian.ofBytes bytes)) := by
  induction bytes generalizing c with
  | nil => simp [bits, LittleEndian.ofBytes]
  | cons b rest ih =>
    rw [List.length_cons] at h
    have hrest : 8 * rest.length ≤ w := by omega
    have hlt : LittleEndian.ofBytes rest < 2 ^ (w - 8) := by
      have hpow : 256 ^ rest.length ≤ 2 ^ (w - 8) := by
        rw [show 256 = 2 ^ 8 from rfl, ← Nat.pow_mul]
        exact Nat.pow_le_pow_right (by decide) (by omega)
      exact Nat.lt_of_lt_of_le (LittleEndian.ofBytes_lt rest) hpow
    rw [List.foldl_cons, ih hrest, byteStep, ofNat_ofBytes_cons, ← BitVec.xor_assoc,
      List.length_cons, Nat.mul_succ, Nat.add_comm, bits_add, bits_xor poly 8 (c ^^^ _),
      bits_shiftLeft poly (by omega) hlt]

end Voyager.Lib.ReflectedCrc
