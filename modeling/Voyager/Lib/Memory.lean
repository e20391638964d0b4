import Mathlib.Data.List.Basic
import Mathlib.Algebra.Group.Nat.Defs

/-! The bytes at consecutive addresses. -/
namespace Voyager.Lib.Memory

/-- The `n` bytes from the address `p` on. -/
def read (mem : ℕ → UInt8) (p : ℕ) : ℕ → List UInt8
  | 0 => []
  | n + 1 => mem p :: read mem (p + 1) n

variable {mem : ℕ → UInt8}

@[simp] theorem length_read (p n : ℕ) : (read mem p n).length = n := by
  induction n generalizing p with
  | zero => rfl
  | succ n ih => rw [read, List.length_cons, ih]

theorem read_add (p n k : ℕ) : read mem p (n + k) = read mem p n ++ read mem (p + n) k := by
  induction n generalizing p with
  | zero => rw [Nat.zero_add, Nat.add_zero, read, List.nil_append]
  | succ n ih =>
    rw [Nat.add_right_comm, read, read, ih, List.cons_append, Nat.add_right_comm p,
      Nat.add_assoc p]

/-- What follows the first bytes read is read behind them. -/
theorem read_append {p n : ℕ} {front rest : List UInt8} (h : read mem p n = front ++ rest) :
    rest = read mem (p + front.length) (n - front.length) := by
  have hlen := congrArg List.length h
  rw [length_read, List.length_append] at hlen
  have hsplit : read mem p (front.length + rest.length) =
      read mem p front.length ++ read mem (p + front.length) rest.length :=
    read_add p front.length rest.length
  rw [← hlen, h] at hsplit
  obtain ⟨_, hrest⟩ := List.append_inj hsplit (by rw [length_read])
  rw [hrest]
  congr 1
  omega

end Voyager.Lib.Memory
