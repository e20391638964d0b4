import Mathlib.Data.List.Basic
import Mathlib.Algebra.Group.Nat.Defs

/-!
Naturals as little-endian byte strings of a fixed width. Writing truncates to
the width; reading a written string gives the number back when it fits.
-/
namespace Voyager.Lib.LittleEndian

/-- The `width` low bytes of `n`, least significant first. -/
def toBytes : ℕ → ℕ → List UInt8
  | 0, _ => []
  | width + 1, n => UInt8.ofNat n :: toBytes width (n / 256)

def ofBytes : List UInt8 → ℕ
  | [] => 0
  | b :: rest => b.toNat + 256 * ofBytes rest

@[simp] theorem length_toBytes (width n : ℕ) : (toBytes width n).length = width := by
  induction width generalizing n with
  | zero => rfl
  | succ width ih => rw [toBytes, List.length_cons, ih]

theorem ofBytes_toBytes (width n : ℕ) (hn : n < 256 ^ width) : ofBytes (toBytes width n) = n := by
  induction width generalizing n with
  | zero =>
    rw [Nat.pow_zero] at hn
    simp only [toBytes, ofBytes]
    omega
  | succ width ih =>
    have hdiv : n / 256 < 256 ^ width := by
      apply Nat.div_lt_of_lt_mul
      rwa [Nat.mul_comm, ← Nat.pow_succ]
    simp only [toBytes, ofBytes, ih _ hdiv, UInt8.toNat_ofNat']
    omega

theorem ofBytes_lt (bytes : List UInt8) : ofBytes bytes < 256 ^ bytes.length := by
  induction bytes with
  | nil => simp [ofBytes]
  | cons b rest ih =>
    have hb := b.toNat_lt
    rw [ofBytes, List.length_cons, Nat.pow_succ]
    omega

/-- A string that was read is written again. -/
theorem toBytes_ofBytes (bytes : List UInt8) : toBytes bytes.length (ofBytes bytes) = bytes := by
  induction bytes with
  | nil => rfl
  | cons b rest ih =>
    have hb := b.toNat_lt
    have hdiv : (b.toNat + 256 * ofBytes rest) / 256 = ofBytes rest := by omega
    have hbyte : UInt8.ofNat (b.toNat + 256 * ofBytes rest) = b := by
      apply UInt8.toNat.inj
      rw [UInt8.toNat_ofNat']
      omega
    rw [List.length_cons, ofBytes, toBytes, hdiv, hbyte, ih]

/-- Placing a low part below a shifted high part is an addition. -/
theorem or_shiftLeft (low high k : ℕ) (hlow : low < 2 ^ k) :
    low ||| high <<< k = low + 2 ^ k * high := by
  rw [Nat.or_comm, ← Nat.shiftLeft_add_eq_or_of_lt hlow, Nat.shiftLeft_eq, Nat.mul_comm,
    Nat.add_comm]

end Voyager.Lib.LittleEndian
