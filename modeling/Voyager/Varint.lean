import Voyager.Coding
import Voyager.Lib.Base128
import Voyager.Lib.Memory

/-!
The varints of util/coding.cc: the unrolled 32-bit encoder and the looping
64-bit one write the groups of seven bits of their value, and the decoders,
whose loops are bounded by a shift, read those groups back.
-/
namespace Voyager.Varint

open Lib

/-! ## Encoders -/

/-- The bytes that `EncodeVarint32` writes. Storing into an unsigned char
keeps the low eight bits. -/
def encodeVarint32 (v : UInt32) : List Byte :=
  if v < (1 : UInt32) <<< 7 then
    [v.toUInt8]
  else if v < (1 : UInt32) <<< 14 then
    [(v ||| 128).toUInt8, (v >>> 7).toUInt8]
  else if v < (1 : UInt32) <<< 21 then
    [(v ||| 128).toUInt8, (v >>> 7 ||| 128).toUInt8, (v >>> 14).toUInt8]
  else if v < (1 : UInt32) <<< 28 then
    [(v ||| 128).toUInt8, (v >>> 7 ||| 128).toUInt8, (v >>> 14 ||| 128).toUInt8,
      (v >>> 21).toUInt8]
  else
    [(v ||| 128).toUInt8, (v >>> 7 ||| 128).toUInt8, (v >>> 14 ||| 128).toUInt8,
      (v >>> 21 ||| 128).toUInt8, (v >>> 28).toUInt8]

def putVarint32 (dst : List Byte) (v : UInt32) : List Byte := dst ++ encodeVarint32 v

theorem toNat_shiftRight_seven (v : UInt64) : (v >>> 7).toNat = v.toNat / 128 := by
  rw [UInt64.toNat_shiftRight]
  simp [Nat.shiftRight_eq_div_pow]

/-- The bytes that `EncodeVarint64` writes. -/
def encodeVarint64 (v : UInt64) : List Byte :=
  if 128 ≤ v then
    (v &&& (128 - 1) ||| 128).toUInt8 :: encodeVarint64 (v >>> 7)
  else
    [v.toUInt8]
termination_by v.toNat
decreasing_by
  have hle : 128 ≤ v.toNat := ‹128 ≤ v›
  rw [toNat_shiftRight_seven]
  omega

def putVarint64 (dst : List Byte) (v : UInt64) : List Byte := dst ++ encodeVarint64 v

/-- The loop of `VarintLength`, with the length counted so far. -/
def varintLengthFrom (len : ℕ) (v : UInt64) : ℕ :=
  if 128 ≤ v then varintLengthFrom (len + 1) (v >>> 7) else len
termination_by v.toNat
decreasing_by
  have hle : 128 ≤ v.toNat := ‹128 ≤ v›
  rw [toNat_shiftRight_seven]
  omega

def varintLength (v : UInt64) : ℕ := varintLengthFrom 1 v

/-! ## Decoders -/

/-- A `Slice`: the address of its first byte and its length. -/
structure Slice where
  data : ℕ
  size : ℕ
  deriving DecidableEq, Repr

def Slice.bytes (mem : ℕ → Byte) (s : Slice) : List Byte := Memory.read mem s.data s.size

def Slice.removePrefix (s : Slice) (n : ℕ) : Slice := { data := s.data + n, size := s.size - n }

/-- The loop of both pointer decoders, from the address `p` on; `shift` and
`result` are the values of its variables there. A value too wide for the shift
loses its high bits. `none` is the null pointer. -/
def decodeFrom {w : ℕ} (last : ℕ) (mem : ℕ → Byte) (limit shift p : ℕ) (result : BitVec w) :
    Option (ℕ × BitVec w) :=
  if shift ≤ last ∧ p < limit then
    let byte := BitVec.ofNat w (mem p).toNat
    if byte &&& 128#w ≠ 0#w then
      decodeFrom last mem limit (shift + 7) (p + 1) (result ||| (byte &&& 127#w) <<< shift)
    else
      some (p + 1, result ||| byte <<< shift)
  else
    none
termination_by limit - p

def getVarint32PtrFallback (mem : ℕ → Byte) (p limit : ℕ) : Option (ℕ × UInt32) :=
  (decodeFrom 28 mem limit 0 p 0#32).map fun (q, value) => (q, .ofBitVec value)

def getVarint32Ptr (mem : ℕ → Byte) (p limit : ℕ) : Option (ℕ × UInt32) :=
  if p < limit then
    let result := (mem p).toUInt32
    if result &&& 128 = 0 then some (p + 1, result) else getVarint32PtrFallback mem p limit
  else
    getVarint32PtrFallback mem p limit

def getVarint64Ptr (mem : ℕ → Byte) (p limit : ℕ) : Option (ℕ × UInt64) :=
  (decodeFrom 63 mem limit 0 p 0#64).map fun (q, value) => (q, .ofBitVec value)

/-- The `Slice` form of a pointer decoder: whether it succeeded, the input and
the value after the call. -/
def getVarint {α : Type} (ptr : ℕ → ℕ → Option (ℕ × α)) (input : Slice) (value : α) :
    Bool × Slice × α :=
  let limit := input.data + input.size
  match ptr input.data limit with
  | none => (false, input, value)
  | some (q, v) => (true, { data := q, size := limit - q }, v)

def getVarint32 (mem : ℕ → Byte) : Slice → UInt32 → Bool × Slice × UInt32 :=
  getVarint (getVarint32Ptr mem)

def getVarint64 (mem : ℕ → Byte) : Slice → UInt64 → Bool × Slice × UInt64 :=
  getVarint (getVarint64Ptr mem)

/-! ## The encoders write the groups of the value -/

/-- Setting the bit 128 and storing a byte leaves the low seven bits and that bit. -/
theorem or_128_mod (n : ℕ) : (n ||| 128) % 256 = n % 128 + 128 := by
  have hbyte : ∀ i : Fin 256, i.val ||| 128 = i.val % 128 + 128 := by decide +kernel
  have hlow := hbyte ⟨n % 256, Nat.mod_lt n (by decide)⟩
  have hmod := Nat.or_mod_two_pow (a := n) (b := 128) (n := 8)
  simp only [Nat.reducePow, Nat.reduceMod] at hmod hlow
  rw [hmod, hlow]
  omega

theorem continuedByte32 (v k : UInt32) (hk : k.toNat < 32) :
    (v >>> k ||| 128).toUInt8 = UInt8.ofNat (v.toNat / 2 ^ k.toNat % 128 + 128) := by
  apply UInt8.toNat.inj
  have hmod : k.toNat % 32 = k.toNat := Nat.mod_eq_of_lt hk
  simp only [UInt32.toNat_toUInt8, UInt32.toNat_or, UInt32.toNat_shiftRight, UInt8.toNat_ofNat',
    hmod, Nat.shiftRight_eq_div_pow]
  rw [show UInt32.toNat 128 = 128 from rfl, or_128_mod]
  omega

theorem lastByte32 (v k : UInt32) (hk : k.toNat < 32) :
    (v >>> k).toUInt8 = UInt8.ofNat (v.toNat / 2 ^ k.toNat) := by
  apply UInt8.toNat.inj
  have hmod : k.toNat % 32 = k.toNat := Nat.mod_eq_of_lt hk
  simp only [UInt32.toNat_toUInt8, UInt32.toNat_shiftRight, UInt8.toNat_ofNat', hmod,
    Nat.shiftRight_eq_div_pow]

theorem encodeVarint32_eq (v : UInt32) : encodeVarint32 v = Base128.encode 5 v.toNat := by
  have hv := v.toNat_lt
  have h0 : (v ||| 128).toUInt8 = UInt8.ofNat (v.toNat % 128 + 128) := by
    simpa using continuedByte32 v 0 (by decide)
  have hlast0 : v.toUInt8 = UInt8.ofNat v.toNat := by simp
  have h7 := continuedByte32 v 7 (by decide)
  have h14 := continuedByte32 v 14 (by decide)
  have h21 := continuedByte32 v 21 (by decide)
  have hlast7 := lastByte32 v 7 (by decide)
  have hlast14 := lastByte32 v 14 (by decide)
  have hlast21 := lastByte32 v 21 (by decide)
  have hlast28 := lastByte32 v 28 (by decide)
  have h28 : v.toNat / 128 / 128 / 128 / 128 < 128 := by omega
  simp only [UInt32.reduceToNat, Nat.reducePow] at h7 h14 h21 hlast7 hlast14 hlast21 hlast28
  simp only [encodeVarint32, Base128.encode, UInt32.lt_iff_toNat_lt, h0, h7, h14, h21, hlast0,
    hlast7, hlast14, hlast21, hlast28, if_pos h28]
  simp only [Nat.div_div_eq_div_mul, Nat.reduceMul,
    show ((1 : UInt32) <<< 7).toNat = 128 from rfl,
    show ((1 : UInt32) <<< 14).toNat = 16384 from rfl,
    show ((1 : UInt32) <<< 21).toNat = 2097152 from rfl,
    show ((1 : UInt32) <<< 28).toNat = 268435456 from rfl,
    show v.toNat / 128 < 128 ↔ v.toNat < 16384 by omega,
    show v.toNat / 16384 < 128 ↔ v.toNat < 2097152 by omega,
    show v.toNat / 2097152 < 128 ↔ v.toNat < 268435456 by omega]
  split_ifs <;> rfl

/-- With room for the whole value, the loop writes its groups. -/
theorem encodeVarint64_eq {k : ℕ} {v : UInt64} (hv : v.toNat < 128 ^ k) (hpos : 0 < k) :
    encodeVarint64 v = Base128.encode k v.toNat := by
  induction k generalizing v with
  | zero => omega
  | succ k ih =>
    rw [encodeVarint64, Base128.encode]
    by_cases hmore : 128 ≤ v
    · have hle : 128 ≤ v.toNat := hmore
      have hlast : ¬ v.toNat < 128 := by omega
      have hbyte : (v &&& (128 - 1) ||| 128).toUInt8 = UInt8.ofNat (v.toNat % 128 + 128) := by
        apply UInt8.toNat.inj
        simp only [UInt64.toNat_toUInt8, UInt64.toNat_or, UInt64.toNat_and, UInt8.toNat_ofNat']
        rw [show (128 - 1 : UInt64).toNat = 2 ^ 7 - 1 from rfl,
          show (128 : UInt64).toNat = 128 from rfl, Nat.and_two_pow_sub_one_eq_mod, or_128_mod]
        omega
      have hrest : encodeVarint64 (v >>> 7) = Base128.encode k (v.toNat / 128) := by
        rw [← toNat_shiftRight_seven]
        apply ih
        · rw [toNat_shiftRight_seven]
          exact Base128.div_lt_of_lt_pow_succ hv
        · exact Base128.pos_of_not_lt hv hlast
      rw [if_pos hmore, if_neg hlast, hbyte, hrest]
    · have hlast : v.toNat < 128 := Nat.lt_of_not_le hmore
      rw [if_neg hmore, if_pos hlast]
      rfl

theorem varintLengthFrom_eq {k len : ℕ} {v : UInt64} (hv : v.toNat < 128 ^ k) (hpos : 0 < k) :
    varintLengthFrom (len + 1) v = len + (Base128.encode k v.toNat).length := by
  induction k generalizing v len with
  | zero => omega
  | succ k ih =>
    rw [varintLengthFrom, Base128.encode]
    by_cases hmore : 128 ≤ v
    · have hle : 128 ≤ v.toNat := hmore
      have hlast : ¬ v.toNat < 128 := by omega
      have hrest : (v >>> 7).toNat < 128 ^ k := by
        rw [toNat_shiftRight_seven]
        exact Base128.div_lt_of_lt_pow_succ hv
      rw [if_pos hmore, if_neg hlast, ih hrest (Base128.pos_of_not_lt hv hlast),
        toNat_shiftRight_seven, List.length_cons]
      omega
    · have hlast : v.toNat < 128 := Nat.lt_of_not_le hmore
      rw [if_neg hmore, if_pos hlast, List.length_singleton]

theorem toNat_lt_groups (v : UInt64) : v.toNat < 128 ^ 10 := by
  have h := v.toNat_lt
  omega

theorem length_encodeVarint64 (v : UInt64) :
    (encodeVarint64 v).length = varintLength v ∧ varintLength v ≤ 10 := by
  have hv := toNat_lt_groups v
  rw [varintLength, @varintLengthFrom_eq 10 0 v hv (by decide), Nat.zero_add,
    encodeVarint64_eq hv (by decide)]
  exact ⟨rfl, Base128.length_encode_le 10 v.toNat⟩

/-- The unrolled encoder and the loop write the same bytes. -/
theorem encodeVarint32_eq_encodeVarint64 (v : UInt32) :
    encodeVarint32 v = encodeVarint64 v.toUInt64 := by
  have hv := v.toNat_lt
  have hgroups : v.toUInt64.toNat < 128 ^ 5 := by
    rw [UInt32.toNat_toUInt64]
    omega
  rw [encodeVarint32_eq, encodeVarint64_eq hgroups (by decide), UInt32.toNat_toUInt64]

/-! ## The decoders read groups -/

theorem and_128_eq_zero {w : ℕ} (hw : 8 ≤ w) (b : Byte) :
    BitVec.ofNat w b.toNat &&& 128#w = 0#w ↔ b.toNat < 128 := by
  have hbit : ∀ i : Fin 256, i.val &&& 128 = 0 ↔ i.val < 128 := by decide +kernel
  have hpow : 2 ^ 8 ≤ 2 ^ w := Nat.pow_le_pow_right (by decide) hw
  have hb := b.toNat_lt
  rw [← BitVec.toNat_inj, BitVec.toNat_and, BitVec.toNat_ofNat, BitVec.toNat_ofNat,
    BitVec.toNat_ofNat, Nat.mod_eq_of_lt (by omega), Nat.mod_eq_of_lt (a := 128) (by omega),
    Nat.zero_mod]
  exact hbit ⟨b.toNat, hb⟩

theorem and_127 {w : ℕ} (hw : 8 ≤ w) (b : Byte) :
    BitVec.ofNat w b.toNat &&& 127#w = BitVec.ofNat w (b.toNat % 128) := by
  have hpow : 2 ^ 8 ≤ 2 ^ w := Nat.pow_le_pow_right (by decide) hw
  have hb := b.toNat_lt
  apply BitVec.eq_of_toNat_eq
  rw [BitVec.toNat_and, BitVec.toNat_ofNat, BitVec.toNat_ofNat, BitVec.toNat_ofNat,
    Nat.mod_eq_of_lt (by omega), Nat.mod_eq_of_lt (a := 127) (by omega),
    Nat.mod_eq_of_lt (a := b.toNat % 128) (by omega)]
  exact Nat.and_two_pow_sub_one_eq_mod b.toNat 7

/-- A shifted group is added to the groups below it; bits beyond the width are dropped. -/
theorem or_shiftLeft_group {w s x : ℕ} {result : BitVec w} (hs : s ≤ w)
    (hresult : result.toNat < 2 ^ s) :
    result ||| BitVec.ofNat w x <<< s = BitVec.ofNat w (result.toNat + 2 ^ s * x) := by
  have hsplit : 2 ^ w = 2 ^ s * 2 ^ (w - s) := by rw [← Nat.pow_add, Nat.add_sub_cancel' hs]
  have hshift : (BitVec.ofNat w x <<< s).toNat = (x % 2 ^ (w - s)) <<< s := by
    rw [BitVec.toNat_shiftLeft, BitVec.toNat_ofNat, Nat.shiftLeft_eq, Nat.shiftLeft_eq,
      Nat.mod_mul_mod, Nat.mul_comm x, hsplit, Nat.mul_mod_mul_left, Nat.mul_comm]
  have hx := Nat.mod_lt x (Nat.two_pow_pos (w - s))
  apply BitVec.eq_of_toNat_eq
  rw [BitVec.toNat_or, hshift, LittleEndian.or_shiftLeft _ _ _ hresult, BitVec.toNat_ofNat]
  have hsum : result.toNat + 2 ^ s * x =
      result.toNat + 2 ^ s * (x % 2 ^ (w - s)) + 2 ^ w * (x / 2 ^ (w - s)) := by
    calc result.toNat + 2 ^ s * x
        = result.toNat + 2 ^ s * (x % 2 ^ (w - s) + 2 ^ (w - s) * (x / 2 ^ (w - s))) := by
          rw [Nat.mod_add_div]
      _ = result.toNat + 2 ^ s * (x % 2 ^ (w - s)) + 2 ^ w * (x / 2 ^ (w - s)) := by
          rw [Nat.mul_add, ← Nat.mul_assoc, ← hsplit, Nat.add_assoc]
  have hfits : result.toNat + 2 ^ s * (x % 2 ^ (w - s)) < 2 ^ w := by
    have hle : 2 ^ s * (x % 2 ^ (w - s) + 1) ≤ 2 ^ s * 2 ^ (w - s) := Nat.mul_le_mul_left _ hx
    rw [Nat.mul_add, Nat.mul_one, ← hsplit] at hle
    omega
  rw [hsum, Nat.add_mul_mod_self_left, Nat.mod_eq_of_lt hfits]

theorem ofNat_mod_add (w m n : ℕ) : BitVec.ofNat w (m % 2 ^ w + n) = BitVec.ofNat w (m + n) := by
  apply BitVec.eq_of_toNat_eq
  rw [BitVec.toNat_ofNat, BitVec.toNat_ofNat, Nat.mod_add_mod]

/-- From group `i` on, the loop reads what the groups up to `k` give. -/
theorem decodeFrom_eq {w k last : ℕ} (hw : ∀ i < k, 7 * i ≤ w) (hbyte : 8 ≤ w)
    (hlast : ∀ i, 7 * i ≤ last ↔ i < k) (mem : ℕ → Byte) (limit : ℕ) {i j p : ℕ}
    {result : BitVec w} (hk : i + j = k) (hresult : result.toNat < 2 ^ (7 * i)) :
    decodeFrom last mem limit (7 * i) p result =
      (Base128.decode j (Memory.read mem p (limit - p))).map fun (n, rest) =>
        (limit - rest.length, BitVec.ofNat w (result.toNat + 2 ^ (7 * i) * n)) := by
  induction j generalizing i p result with
  | zero =>
    have hend : ¬ 7 * i ≤ last := by
      rw [hlast]
      omega
    rw [decodeFrom, if_neg (fun h => hend h.1)]
    rfl
  | succ j ih =>
    have hi : i < k := by omega
    rw [decodeFrom]
    by_cases hp : p < limit
    · have hread : Memory.read mem p (limit - p) =
          mem p :: Memory.read mem (p + 1) (limit - (p + 1)) := by
        rw [show limit - p = limit - (p + 1) + 1 by omega, Memory.read]
      rw [if_pos ⟨(hlast i).mpr hi, hp⟩, hread, Base128.decode]
      dsimp only
      by_cases hgroup : (mem p).toNat < 128
      · have hbit := (and_128_eq_zero hbyte (mem p)).mpr hgroup
        rw [if_pos hgroup, if_neg (not_not.mpr hbit), Option.map_some, Memory.length_read,
          or_shiftLeft_group (hw i hi) hresult]
        congr 2
        omega
      · have hbit := mt (and_128_eq_zero hbyte (mem p)).mp hgroup
        have hlow : (mem p).toNat % 128 = (mem p).toNat - 128 := by
          have hb := (mem p).toNat_lt
          omega
        have hstep : result ||| (BitVec.ofNat w (mem p).toNat &&& 127#w) <<< (7 * i) =
            BitVec.ofNat w (result.toNat + 2 ^ (7 * i) * ((mem p).toNat - 128)) := by
          rw [and_127 hbyte, or_shiftLeft_group (hw i hi) hresult, hlow]
        have hpow : 2 ^ (7 * (i + 1)) = 2 ^ (7 * i) * 128 := by
          rw [Nat.mul_add, Nat.pow_add]
        have hnext : (BitVec.ofNat w (result.toNat + 2 ^ (7 * i) * ((mem p).toNat - 128))).toNat <
            2 ^ (7 * (i + 1)) := by
          have hle : 2 ^ (7 * i) * ((mem p).toNat - 128 + 1) ≤ 2 ^ (7 * i) * 128 := by
            have hb := (mem p).toNat_lt
            exact Nat.mul_le_mul_left _ (by omega)
          have hmod := Nat.mod_le (result.toNat + 2 ^ (7 * i) * ((mem p).toNat - 128)) (2 ^ w)
          rw [Nat.mul_add, Nat.mul_one, ← hpow] at hle
          rw [BitVec.toNat_ofNat]
          omega
        rw [if_neg hgroup, if_pos hbit, hstep, ← Nat.mul_succ, ih (by omega) hnext]
        cases Base128.decode j (Memory.read mem (p + 1) (limit - (p + 1))) with
        | none => simp only [Option.map_none]
        | some tail =>
          have hsum : result.toNat + 2 ^ (7 * i) * ((mem p).toNat - 128 + 128 * tail.1) =
              result.toNat + 2 ^ (7 * i) * ((mem p).toNat - 128) + 2 ^ (7 * (i + 1)) * tail.1 := by
            rw [hpow, Nat.mul_add, Nat.mul_assoc, Nat.add_assoc]
          simp only [Option.map_some, BitVec.toNat_ofNat, hsum, ofNat_mod_add]
    · have hnone : Memory.read mem p (limit - p) = [] := by
        rw [show limit - p = 0 by omega, Memory.read]
      rw [if_neg (fun h => hp h.2), hnone]
      rfl

/-- The pointer decoder reads up to `k` groups between its two addresses; `ofNat`
makes the value that it stores of the number read. -/
def ReadsGroups {α : Type} (mem : ℕ → Byte) (k : ℕ) (ofNat : ℕ → α)
    (ptr : ℕ → ℕ → Option (ℕ × α)) : Prop :=
  ∀ p limit, ptr p limit =
    (Base128.decode k (Memory.read mem p (limit - p))).map fun (n, rest) =>
      (limit - rest.length, ofNat n)

theorem readsGroups_getVarint32PtrFallback (mem : ℕ → Byte) :
    ReadsGroups mem 5 UInt32.ofNat (getVarint32PtrFallback mem) := by
  intro p limit
  have hloop := @decodeFrom_eq 32 5 28 (by omega) (by decide) (by omega) mem limit 0 5 p 0#32
    rfl (by decide)
  rw [getVarint32PtrFallback, hloop, Option.map_map]
  congr 1
  funext ⟨n, rest⟩
  have hvalue : (0#32).toNat + 2 ^ (7 * 0) * n = n := by simp
  simp only [Function.comp_apply, hvalue]
  rfl

theorem readsGroups_getVarint64Ptr (mem : ℕ → Byte) :
    ReadsGroups mem 10 UInt64.ofNat (getVarint64Ptr mem) := by
  intro p limit
  have hloop := @decodeFrom_eq 64 10 63 (by omega) (by decide) (by omega) mem limit 0 10 p 0#64
    rfl (by decide)
  rw [getVarint64Ptr, hloop, Option.map_map]
  congr 1
  funext ⟨n, rest⟩
  have hvalue : (0#64).toNat + 2 ^ (7 * 0) * n = n := by simp
  simp only [Function.comp_apply, hvalue]
  rfl

/-- The one-byte fast path answers as the loop does. -/
theorem getVarint32Ptr_eq_fallback (mem : ℕ → Byte) (p limit : ℕ) :
    getVarint32Ptr mem p limit = getVarint32PtrFallback mem p limit := by
  rw [getVarint32Ptr]
  by_cases hp : p < limit
  · rw [if_pos hp]
    dsimp only
    by_cases hbit : (mem p).toUInt32 &&& 128 = 0
    · have hword : (mem p).toUInt32 = UInt32.ofBitVec (BitVec.ofNat 32 (mem p).toNat) := by
        apply UInt32.toNat.inj
        have hb := (mem p).toNat_lt
        rw [UInt8.toNat_toUInt32, UInt32.toNat_ofBitVec, BitVec.toNat_ofNat]
        omega
      have hbyte : BitVec.ofNat 32 (mem p).toNat &&& 128#32 = 0#32 := by
        rw [hword] at hbit
        exact congrArg UInt32.toBitVec hbit
      have hgroup := (and_128_eq_zero (by decide) (mem p)).mp hbyte
      rw [if_pos hbit, getVarint32PtrFallback, decodeFrom, if_pos ⟨by decide, hp⟩]
      dsimp only
      rw [if_neg (not_not.mpr hbyte), Option.map_some, BitVec.shiftLeft_zero, BitVec.zero_or, hword]
    · rw [if_neg hbit]
  · rw [if_neg hp]

section Slices

variable {α : Type} {mem : ℕ → Byte} {k : ℕ} {ofNat : ℕ → α} {ptr : ℕ → ℕ → Option (ℕ × α)}

theorem getVarint_of_decode (hptr : ReadsGroups mem k ofNat ptr) {input : Slice} {n : ℕ}
    {rest : List Byte} (h : Base128.decode k (input.bytes mem) = some (n, rest)) (old : α) :
    ∃ j, 0 < j ∧ j ≤ k ∧ j ≤ input.size ∧
      getVarint ptr input old = (true, input.removePrefix j, ofNat n) ∧
      (input.removePrefix j).bytes mem = rest := by
  rw [Slice.bytes] at h
  obtain ⟨front, hfront, hpos, hle⟩ := Base128.decode_eq_some h
  have hlen := congrArg List.length hfront
  rw [Memory.length_read, List.length_append] at hlen
  refine ⟨front.length, hpos, hle, by omega, ?_, (Memory.read_append hfront).symm⟩
  have hdata : input.data + input.size - rest.length = input.data + front.length := by omega
  have hsize : input.data + input.size - (input.data + front.length) =
      input.size - front.length := by omega
  rw [getVarint, hptr, Nat.add_sub_cancel_left, h]
  simp only [Option.map_some, hdata, hsize, Slice.removePrefix]

theorem getVarint_of_decode_none (hptr : ReadsGroups mem k ofNat ptr) {input : Slice}
    (h : Base128.decode k (input.bytes mem) = none) (old : α) :
    getVarint ptr input old = (false, input, old) := by
  rw [Slice.bytes] at h
  rw [getVarint, hptr, Nat.add_sub_cancel_left, h]
  rfl

/-- A value that was put is taken back, whatever follows it. -/
theorem getVarint_encode (hptr : ReadsGroups mem k ofNat ptr) {input : Slice} {n : ℕ}
    {rest : List Byte} (hn : n < 128 ^ k) (hpos : 0 < k)
    (hinput : input.bytes mem = Base128.encode k n ++ rest) (old : α) :
    ∃ input', getVarint ptr input old = (true, input', ofNat n) ∧ input'.bytes mem = rest := by
  have hdecode : Base128.decode k (input.bytes mem) = some (n, rest) := by
    rw [hinput, Base128.decode_encode hn hpos]
  obtain ⟨j, _, _, _, hget, hrest⟩ := getVarint_of_decode hptr hdecode old
  exact ⟨input.removePrefix j, hget, hrest⟩

/-- A decoder fails and changes nothing, or takes at most `k` bytes off the input. -/
theorem getVarint_cases (hptr : ReadsGroups mem k ofNat ptr) (input : Slice) (old : α) :
    getVarint ptr input old = (false, input, old) ∨
      ∃ n v, 0 < n ∧ n ≤ k ∧ n ≤ input.size ∧
        getVarint ptr input old = (true, input.removePrefix n, v) := by
  cases hdecode : Base128.decode k (input.bytes mem) with
  | none => exact Or.inl (getVarint_of_decode_none hptr hdecode old)
  | some tail =>
    obtain ⟨j, hpos, hle, hsize, hget, _⟩ := getVarint_of_decode hptr hdecode old
    exact Or.inr ⟨j, ofNat tail.1, hpos, hle, hsize, hget⟩

end Slices

theorem readsGroups_getVarint32Ptr (mem : ℕ → Byte) :
    ReadsGroups mem 5 UInt32.ofNat (getVarint32Ptr mem) := by
  intro p limit
  rw [getVarint32Ptr_eq_fallback, readsGroups_getVarint32PtrFallback]

/-- Varints are a prefix code, written alike by both encoders and read alike by
both 32-bit decoders; a decoder that fails leaves its input alone. -/
theorem varint_prefix_code (mem : ℕ → Byte) (input : Slice) :
    (∀ (v old : UInt32) (rest : List Byte), input.bytes mem = putVarint32 [] v ++ rest →
      ∃ input', getVarint32 mem input old = (true, input', v) ∧ input'.bytes mem = rest) ∧
    (∀ (v old : UInt64) (rest : List Byte), input.bytes mem = putVarint64 [] v ++ rest →
      ∃ input', getVarint64 mem input old = (true, input', v) ∧ input'.bytes mem = rest) ∧
    (∀ v : UInt32, encodeVarint32 v = encodeVarint64 v.toUInt64 ∧
      (encodeVarint32 v).length = varintLength v.toUInt64 ∧ (encodeVarint32 v).length ≤ 5) ∧
    (∀ v : UInt64, (encodeVarint64 v).length = varintLength v ∧ (encodeVarint64 v).length ≤ 10) ∧
    (∀ p limit, getVarint32Ptr mem p limit = getVarint32PtrFallback mem p limit) ∧
    (∀ old : UInt32, getVarint32 mem input old = (false, input, old) ∨
      ∃ n v, n ≤ 5 ∧ n ≤ input.size ∧
        getVarint32 mem input old = (true, input.removePrefix n, v)) ∧
    (∀ old : UInt64, getVarint64 mem input old = (false, input, old) ∨
      ∃ n v, n ≤ 10 ∧ n ≤ input.size ∧
        getVarint64 mem input old = (true, input.removePrefix n, v)) := by
  refine ⟨?put32, ?put64, ?same, ?len64, getVarint32Ptr_eq_fallback mem, ?get32, ?get64⟩
  case put32 =>
    intro v old rest hinput
    have hv := v.toNat_lt
    rw [putVarint32, List.nil_append, encodeVarint32_eq] at hinput
    obtain ⟨input', hget, hrest⟩ := getVarint_encode (readsGroups_getVarint32Ptr mem)
      (by omega) (by decide) hinput old
    rw [UInt32.ofNat_toNat] at hget
    exact ⟨input', hget, hrest⟩
  case put64 =>
    intro v old rest hinput
    rw [putVarint64, List.nil_append, encodeVarint64_eq (toNat_lt_groups v) (by decide)] at hinput
    obtain ⟨input', hget, hrest⟩ := getVarint_encode (readsGroups_getVarint64Ptr mem)
      (toNat_lt_groups v) (by decide) hinput old
    rw [UInt64.ofNat_toNat] at hget
    exact ⟨input', hget, hrest⟩
  case same =>
    intro v
    have hsame := encodeVarint32_eq_encodeVarint64 v
    refine ⟨hsame, ?_, ?_⟩
    · rw [hsame, (length_encodeVarint64 v.toUInt64).1]
    · rw [encodeVarint32_eq]
      exact Base128.length_encode_le 5 v.toNat
  case len64 =>
    intro v
    obtain ⟨hlen, hle⟩ := length_encodeVarint64 v
    exact ⟨hlen, hlen ▸ hle⟩
  case get32 =>
    intro old
    rcases getVarint_cases (readsGroups_getVarint32Ptr mem) input old with hfail | hget
    · exact Or.inl hfail
    · obtain ⟨n, v, _, hle, hsize, heq⟩ := hget
      exact Or.inr ⟨n, v, hle, hsize, heq⟩
  case get64 =>
    intro old
    rcases getVarint_cases (readsGroups_getVarint64Ptr mem) input old with hfail | hget
    · exact Or.inl hfail
    · obtain ⟨n, v, _, hle, hsize, heq⟩ := hget
      exact Or.inr ⟨n, v, hle, hsize, heq⟩

end Voyager.Varint
