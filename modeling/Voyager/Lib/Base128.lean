import Mathlib.Data.List.Basic
import Mathlib.Algebra.Group.Nat.Defs

/-!
Naturals in groups of seven bits, least significant first. Every byte but the
last carries the bit 128, so that an encoding shows where it ends. Both
directions take the largest number of groups they may use.
-/
namespace Voyager.Lib.Base128

/-- The groups of `n`; groups beyond the first `k` are not written. -/
def encode : ℕ → ℕ → List UInt8
  | 0, _ => []
  | k + 1, n =>
    if n < 128 then [UInt8.ofNat n] else UInt8.ofNat (n % 128 + 128) :: encode k (n / 128)

/-- The number at the front of `bytes` and what follows it, if it ends within `k` bytes. -/
def decode : ℕ → List UInt8 → Option (ℕ × List UInt8)
  | 0, _ => none
  | _ + 1, [] => none
  | k + 1, b :: rest =>
    if b.toNat < 128 then
      some (b.toNat, rest)
    else
      (decode k rest).map fun (n, tail) => (b.toNat - 128 + 128 * n, tail)

theorem length_encode_le (k n : ℕ) : (encode k n).length ≤ k := by
  induction k generalizing n with
  | zero => simp [encode]
  | succ k ih =>
    rw [encode]
    split
    · simp
    · rw [List.length_cons]
      exact Nat.succ_le_succ (ih (n / 128))

theorem div_lt_of_lt_pow_succ {n k : ℕ} (h : n < 128 ^ (k + 1)) : n / 128 < 128 ^ k := by
  apply Nat.div_lt_of_lt_mul
  rwa [Nat.mul_comm, ← Nat.pow_succ]

/-- A number that needs another group has room for it. -/
theorem pos_of_not_lt {n k : ℕ} (hn : n < 128 ^ (k + 1)) (hlast : ¬ n < 128) : 0 < k := by
  by_contra hzero
  have hk : k = 0 := by omega
  subst hk
  omega

/-- What was encoded is read back, and nothing of what follows is touched. -/
theorem decode_encode {k n : ℕ} (hn : n < 128 ^ k) (hpos : 0 < k) (rest : List UInt8) :
    decode k (encode k n ++ rest) = some (n, rest) := by
  induction k generalizing n with
  | zero => omega
  | succ k ih =>
    rw [encode]
    by_cases hlast : n < 128
    · have hbyte : (UInt8.ofNat n).toNat = n := by
        rw [UInt8.toNat_ofNat']
        omega
      rw [if_pos hlast, List.singleton_append, decode, hbyte, if_pos hlast]
    · have hbyte : (UInt8.ofNat (n % 128 + 128)).toNat = n % 128 + 128 := by
        rw [UInt8.toNat_ofNat']
        omega
      have hk0 := pos_of_not_lt hn hlast
      rw [if_neg hlast, List.cons_append, decode, hbyte, if_neg (by omega),
        ih (div_lt_of_lt_pow_succ hn) hk0, Option.map_some]
      have hsum : n % 128 + 128 - 128 + 128 * (n / 128) = n := by omega
      simp only [hsum]

/-- A decoder takes between one and `k` bytes off the front. -/
theorem decode_eq_some {k n : ℕ} {bytes rest : List UInt8} (h : decode k bytes = some (n, rest)) :
    ∃ front, bytes = front ++ rest ∧ 0 < front.length ∧ front.length ≤ k := by
  induction k generalizing bytes n with
  | zero => simp [decode] at h
  | succ k ih =>
    cases bytes with
    | nil => simp [decode] at h
    | cons b tail =>
      rw [decode] at h
      by_cases hlast : b.toNat < 128
      · rw [if_pos hlast] at h
        injection h with hpair
        injection hpair with _ htail
        exact ⟨[b], by rw [htail, List.singleton_append], by simp, by simp⟩
      · rw [if_neg hlast] at h
        obtain ⟨⟨m, rest'⟩, htail, hpair⟩ := Option.map_eq_some_iff.mp h
        injection hpair with _ hrest
        subst hrest
        obtain ⟨front, hfront, _, hle⟩ := ih htail
        refine ⟨b :: front, by rw [hfront, List.cons_append], by simp, ?_⟩
        rw [List.length_cons]
        omega

end Voyager.Lib.Base128
