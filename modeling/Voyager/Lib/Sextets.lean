import Mathlib.Data.List.Basic
import Mathlib.Algebra.Order.Ring.Nat

/-!
Bytes cut into pieces of six bits, from the most significant bit on. The last piece
is filled up with zeros; on the way back the bits that fill no byte are dropped, so
only pieces that end in zeros come back as they were.
-/
namespace Voyager.Lib.Sextets

/-- Six bits. -/
abbrev Sextet := Fin 64

/-- The pieces of three bytes, and the three bytes of four pieces. -/
def piece0 (a : UInt8) : Sextet := ⟨a.toNat / 4, by have := a.toNat_lt; omega⟩

def piece1 (a b : UInt8) : Sextet :=
  ⟨a.toNat % 4 * 16 + b.toNat / 16, by have := b.toNat_lt; omega⟩

def piece2 (b c : UInt8) : Sextet :=
  ⟨b.toNat % 16 * 4 + c.toNat / 64, by have := c.toNat_lt; omega⟩

def piece3 (c : UInt8) : Sextet := ⟨c.toNat % 64, by omega⟩

def byte0 (p q : Sextet) : UInt8 := UInt8.ofNat (p.val * 4 + q.val / 16)

def byte1 (q r : Sextet) : UInt8 := UInt8.ofNat (q.val % 16 * 16 + r.val / 4)

def byte2 (r s : Sextet) : UInt8 := UInt8.ofNat (r.val % 4 * 64 + s.val)

def sextets : List UInt8 → List Sextet
  | [] => []
  | [a] => [piece0 a, piece1 a 0]
  | [a, b] => [piece0 a, piece1 a b, piece2 b 0]
  | a :: b :: c :: rest => piece0 a :: piece1 a b :: piece2 b c :: piece3 c :: sextets rest

/-- A single piece holds no byte. -/
def octets : List Sextet → List UInt8
  | [] => []
  | [_] => []
  | [p, q] => [byte0 p q]
  | [p, q, r] => [byte0 p q, byte1 q r]
  | p :: q :: r :: s :: rest => byte0 p q :: byte1 q r :: byte2 r s :: octets rest

/-- The bits behind the last byte are zero. -/
def Canonical : List Sextet → Prop
  | [] => True
  | [_] => False
  | [_, q] => q.val % 16 = 0
  | [_, _, r] => r.val % 4 = 0
  | _ :: _ :: _ :: _ :: rest => Canonical rest

instance decidableCanonical : (xs : List Sextet) → Decidable (Canonical xs)
  | [] => inferInstanceAs (Decidable True)
  | [_] => inferInstanceAs (Decidable False)
  | [_, q] => inferInstanceAs (Decidable (q.val % 16 = 0))
  | [_, _, r] => inferInstanceAs (Decidable (r.val % 4 = 0))
  | _ :: _ :: _ :: _ :: rest => decidableCanonical rest

section Pieces

variable (a b c : UInt8) (p q r s : Sextet)

theorem byte0_piece : byte0 (piece0 a) (piece1 a b) = a := by
  apply UInt8.toNat.inj
  have ha := a.toNat_lt
  have hb := b.toNat_lt
  simp only [byte0, piece0, piece1, UInt8.toNat_ofNat']
  omega

theorem byte1_piece : byte1 (piece1 a b) (piece2 b c) = b := by
  apply UInt8.toNat.inj
  have hb := b.toNat_lt
  have hc := c.toNat_lt
  simp only [byte1, piece1, piece2, UInt8.toNat_ofNat']
  omega

theorem byte2_piece : byte2 (piece2 b c) (piece3 c) = c := by
  apply UInt8.toNat.inj
  have hc := c.toNat_lt
  simp only [byte2, piece2, piece3, UInt8.toNat_ofNat']
  omega

theorem toNat_byte0 : (byte0 p q).toNat = p.val * 4 + q.val / 16 := by
  rw [byte0, UInt8.toNat_ofNat']
  omega

theorem toNat_byte1 : (byte1 q r).toNat = q.val % 16 * 16 + r.val / 4 := by
  rw [byte1, UInt8.toNat_ofNat']
  omega

theorem toNat_byte2 : (byte2 r s).toNat = r.val % 4 * 64 + s.val := by
  rw [byte2, UInt8.toNat_ofNat']
  omega

theorem piece0_byte : piece0 (byte0 p q) = p := by
  apply Fin.ext
  simp only [piece0, toNat_byte0]
  omega

theorem piece1_byte : piece1 (byte0 p q) (byte1 q r) = q := by
  apply Fin.ext
  simp only [piece1, toNat_byte0, toNat_byte1]
  omega

theorem piece2_byte : piece2 (byte1 q r) (byte2 r s) = r := by
  apply Fin.ext
  simp only [piece2, toNat_byte1, toNat_byte2]
  omega

theorem piece3_byte : piece3 (byte2 r s) = s := by
  apply Fin.ext
  simp only [piece3, toNat_byte2]
  omega

theorem piece1_zero_byte : piece1 (byte0 p q) 0 = q ↔ q.val % 16 = 0 := by
  rw [Fin.ext_iff]
  simp only [piece1, toNat_byte0, UInt8.toNat_zero]
  omega

theorem piece2_zero_byte : piece2 (byte1 q r) 0 = r ↔ r.val % 4 = 0 := by
  rw [Fin.ext_iff]
  simp only [piece2, toNat_byte1, UInt8.toNat_zero]
  omega

end Pieces

theorem octets_sextets (bytes : List UInt8) : octets (sextets bytes) = bytes := by
  induction bytes using sextets.induct with
  | case1 => rfl
  | case2 a => rw [sextets, octets, byte0_piece]
  | case3 a b => rw [sextets, octets, byte0_piece, byte1_piece]
  | case4 a b c rest ih =>
    rw [sextets, octets, byte0_piece, byte1_piece, byte2_piece, ih]

/-- Exactly the canonical pieces are found again. -/
theorem sextets_octets (xs : List Sextet) : sextets (octets xs) = xs ↔ Canonical xs := by
  induction xs using octets.induct with
  | case1 => exact iff_of_true rfl trivial
  | case2 x => exact iff_of_false (fun h => by cases h) id
  | case3 p q =>
    rw [octets, sextets, piece0_byte, Canonical, ← piece1_zero_byte p q]
    simp
  | case4 p q r =>
    rw [octets, sextets, piece0_byte, piece1_byte, Canonical, ← piece2_zero_byte q r]
    simp
  | case5 p q r s rest ih =>
    rw [octets, sextets, piece0_byte, piece1_byte, piece2_byte, piece3_byte,
      List.cons_inj_right, List.cons_inj_right, List.cons_inj_right, List.cons_inj_right, ih]
    exact Iff.rfl

theorem length_sextets (bytes : List UInt8) :
    (sextets bytes).length = (4 * bytes.length + 2) / 3 := by
  induction bytes using sextets.induct with
  | case1 => rfl
  | case2 a => simp [sextets]
  | case3 a b => simp [sextets]
  | case4 a b c rest ih =>
    simp only [sextets, List.length_cons, ih]
    omega

theorem length_octets (xs : List Sextet) : (octets xs).length = 3 * xs.length / 4 := by
  induction xs using octets.induct with
  | case1 => rfl
  | case2 x => simp [octets]
  | case3 p q => simp [octets]
  | case4 p q r => simp [octets]
  | case5 p q r s rest ih =>
    simp only [octets, List.length_cons, ih]
    omega

/-- Groups of four pieces are joined apart from what follows. -/
theorem octets_append {xs ys : List Sextet} (h : xs.length % 4 = 0) :
    octets (xs ++ ys) = octets xs ++ octets ys := by
  induction xs using octets.induct with
  | case1 => rfl
  | case2 p => simp at h
  | case3 p q => simp at h
  | case4 p q r => simp at h
  | case5 p q r s rest ih =>
    have hrest : rest.length % 4 = 0 := by
      simp only [List.length_cons] at h
      omega
    simp only [List.cons_append, octets, ih hrest]

/-- Digits of any base behind `n`, the most significant one first. -/
def ofDigits (base n : ℕ) (digits : List ℕ) : ℕ := digits.foldl (fun n d => n * base + d) n

/-- The pieces are the digits of the number that the bytes are the digits of, once it has
been filled up with zeros. -/
theorem ofDigits_sextets (n : ℕ) (bytes : List UInt8) :
    ofDigits 64 n ((sextets bytes).map Fin.val) =
      ofDigits 256 n (bytes.map UInt8.toNat) *
        2 ^ (6 * (sextets bytes).length - 8 * bytes.length) := by
  induction bytes using sextets.induct generalizing n with
  | case1 => simp [sextets, ofDigits]
  | case2 a =>
    have ha := a.toNat_lt
    simp only [sextets, ofDigits, List.map_cons, List.map_nil, List.foldl_cons, List.foldl_nil,
      piece0, piece1, UInt8.toNat_zero, List.length_cons, List.length_nil]
    omega
  | case3 a b =>
    have ha := a.toNat_lt
    have hb := b.toNat_lt
    simp only [sextets, ofDigits, List.map_cons, List.map_nil, List.foldl_cons, List.foldl_nil,
      piece0, piece1, piece2, UInt8.toNat_zero, List.length_cons, List.length_nil]
    omega
  | case4 a b c rest ih =>
    have ha := a.toNat_lt
    have hb := b.toNat_lt
    have hc := c.toNat_lt
    have hgroup : (((n * 64 + (piece0 a).val) * 64 + (piece1 a b).val) * 64 + (piece2 b c).val) *
        64 + (piece3 c).val = ((n * 256 + a.toNat) * 256 + b.toNat) * 256 + c.toNat := by
      simp only [piece0, piece1, piece2, piece3]
      omega
    have hlen : 6 * (sextets (a :: b :: c :: rest)).length - 8 * (a :: b :: c :: rest).length =
        6 * (sextets rest).length - 8 * rest.length := by
      simp only [sextets, List.length_cons]
      omega
    rw [hlen]
    simp only [sextets, ofDigits, List.map_cons, List.foldl_cons] at ih ⊢
    rw [hgroup, ih]

end Voyager.Lib.Sextets
