import Voyager.Varint

/-!
Length-prefixed byte strings in util/coding.cc. The pointer decoder compares
addresses and the `Slice` decoder compares sizes; the two agree, but the second
takes the length off its input before it knows whether the bytes are there.
-/
namespace Voyager.LengthPrefixed

open Lib Varint

/-- The size is converted to 32 bits. -/
def putLengthPrefixedSlice (dst value : List Byte) : List Byte :=
  putVarint32 dst (UInt32.ofNat value.length) ++ value

/-- The decoder that takes an address range: the address behind the string, and the string. -/
def getLengthPrefixedSlicePtr (mem : ℕ → Byte) (p limit : ℕ) : Option (ℕ × Slice) :=
  match getVarint32Ptr mem p limit with
  | none => none
  | some (p, len) =>
    if p + len.toNat > limit then
      none
    else
      some (p + len.toNat, { data := p, size := len.toNat })

/-- The decoder that advances a `Slice`: whether it succeeded, the input and the
result after the call. Its local `len` is read only after it was set. -/
def getLengthPrefixedSlice (mem : ℕ → Byte) (input result : Slice) : Bool × Slice × Slice :=
  let (ok, input, len) := getVarint32 mem input 0
  if ok ∧ input.size ≥ len.toNat then
    (true, input.removePrefix len.toNat, { data := input.data, size := len.toNat })
  else
    (false, input, result)

/-- `n` calls in a row, as far as they succeed. -/
def takeSlices (mem : ℕ → Byte) : ℕ → Slice → Option (List Slice × Slice)
  | 0, input => some ([], input)
  | n + 1, input =>
    match getLengthPrefixedSlice mem input { data := 0, size := 0 } with
    | (true, input, result) =>
      (takeSlices mem n input).map fun (results, input) => (result :: results, input)
    | (false, _, _) => none

/-- The input does not begin with a length that is larger than what follows it. -/
def LengthFits (bytes : List Byte) : Prop :=
  ∀ n rest, Base128.decode 5 bytes = some (n, rest) → n % 2 ^ 32 ≤ rest.length

variable {mem : ℕ → Byte}

@[simp] theorem length_bytes (s : Slice) : (s.bytes mem).length = s.size := Memory.length_read ..

/-- The first `k` bytes of a slice and the rest of it. -/
theorem bytes_split (s : Slice) {k : ℕ} (hk : k ≤ s.size) :
    s.bytes mem =
      Slice.bytes mem { data := s.data, size := k } ++ (s.removePrefix k).bytes mem := by
  rw [Slice.bytes, Slice.bytes, Slice.bytes, Slice.removePrefix, ← Memory.read_add,
    Nat.add_sub_cancel' hk]

/-- The length is missing, or too large for what follows, or the string is there. -/
theorem getLengthPrefixedSlice_cases (mem : ℕ → Byte) (input result : Slice) :
    (Base128.decode 5 (input.bytes mem) = none ∧
      getLengthPrefixedSlice mem input result = (false, input, result)) ∨
    ∃ n rest j, Base128.decode 5 (input.bytes mem) = some (n, rest) ∧ 0 < j ∧ j ≤ input.size ∧
      (input.removePrefix j).bytes mem = rest ∧
      getLengthPrefixedSlice mem input result =
        if n % 2 ^ 32 ≤ rest.length then
          (true, (input.removePrefix j).removePrefix (n % 2 ^ 32),
            { data := (input.removePrefix j).data, size := n % 2 ^ 32 })
        else
          (false, input.removePrefix j, result) := by
  have hptr := readsGroups_getVarint32Ptr mem
  cases hdecode : Base128.decode 5 (input.bytes mem) with
  | none =>
    left
    refine ⟨rfl, ?_⟩
    rw [getLengthPrefixedSlice, getVarint32, getVarint_of_decode_none hptr hdecode]
    rfl
  | some tail =>
    right
    obtain ⟨n, rest⟩ := tail
    obtain ⟨j, hpos, _, hle, hget, hrest⟩ := getVarint_of_decode hptr hdecode 0
    refine ⟨n, rest, j, rfl, hpos, hle, hrest, ?_⟩
    have hsize : (input.removePrefix j).size = rest.length := by
      rw [← hrest, length_bytes]
    rw [getLengthPrefixedSlice, getVarint32, hget]
    simp only [true_and, hsize, UInt32.toNat_ofNat', ge_iff_le]

/-- The two decoders accept the same inputs and give the same answer. -/
theorem getLengthPrefixedSlicePtr_eq (mem : ℕ → Byte) (input result : Slice) :
    (getLengthPrefixedSlicePtr mem input.data (input.data + input.size) = none ∧
      (getLengthPrefixedSlice mem input result).1 = false) ∨
    ∃ q s, getLengthPrefixedSlicePtr mem input.data (input.data + input.size) = some (q, s) ∧
      getLengthPrefixedSlice mem input result =
        (true, { data := q, size := input.data + input.size - q }, s) := by
  have hptr := readsGroups_getVarint32Ptr mem input.data (input.data + input.size)
  rw [Nat.add_sub_cancel_left] at hptr
  rw [getLengthPrefixedSlicePtr, hptr]
  rcases getLengthPrefixedSlice_cases mem input result with ⟨hdecode, hget⟩ | hsome
  · left
    rw [Slice.bytes] at hdecode
    rw [hdecode, hget]
    exact ⟨rfl, rfl⟩
  · obtain ⟨n, rest, j, hdecode, _, hle, hrest, hget⟩ := hsome
    have hlen : input.size - j = rest.length := by
      have h := congrArg List.length hrest
      rwa [length_bytes] at h
    have hq : input.data + input.size - rest.length = input.data + j := by omega
    rw [Slice.bytes] at hdecode
    rw [hdecode, hget]
    simp only [Option.map_some, hq, UInt32.toNat_ofNat']
    by_cases hfits : n % 2 ^ 32 ≤ rest.length
    · right
      rw [if_pos hfits, if_neg (by omega)]
      refine ⟨_, _, rfl, ?_⟩
      simp only [Slice.removePrefix, Prod.mk.injEq, Slice.mk.injEq, true_and, and_true]
      omega
    · left
      rw [if_neg hfits, if_pos (by omega)]
      exact ⟨rfl, rfl⟩

/-- One encoded string is taken off the front. -/
theorem getLengthPrefixedSlice_put {input : Slice} {value rest : List Byte}
    (hvalue : value.length < 2 ^ 32)
    (hinput : input.bytes mem = putLengthPrefixedSlice [] value ++ rest) (result : Slice) :
    ∃ input' s, getLengthPrefixedSlice mem input result = (true, input', s) ∧
      s.bytes mem = value ∧ input'.bytes mem = rest := by
  have hdecode : Base128.decode 5 (input.bytes mem) = some (value.length, value ++ rest) := by
    rw [hinput, putLengthPrefixedSlice, putVarint32, List.nil_append, encodeVarint32_eq,
      UInt32.toNat_ofNat', Nat.mod_eq_of_lt hvalue, List.append_assoc,
      Base128.decode_encode (by omega) (by decide)]
  rcases getLengthPrefixedSlice_cases mem input result with ⟨hnone, _⟩ | hsome
  · rw [hnone] at hdecode
    cases hdecode
  · obtain ⟨n, tail, j, hsome, _, hle, htail, hget⟩ := hsome
    rw [hdecode] at hsome
    injection hsome with hpair
    injection hpair with hn htl
    subst hn htl
    have hfits : value.length ≤ (value ++ rest).length := by
      rw [List.length_append]
      omega
    have hsize : value.length ≤ (input.removePrefix j).size := by
      rw [← @length_bytes mem, htail]
      exact hfits
    have hsplit := @bytes_split mem (input.removePrefix j) _ hsize
    rw [htail] at hsplit
    obtain ⟨hs, hr⟩ := List.append_inj hsplit (by rw [length_bytes])
    rw [Nat.mod_eq_of_lt hvalue, if_pos hfits] at hget
    exact ⟨_, _, hget, hs.symm, hr.symm⟩

theorem putLengthPrefixedSlice_append (dst value : List Byte) :
    putLengthPrefixedSlice dst value = dst ++ putLengthPrefixedSlice [] value := by
  rw [putLengthPrefixedSlice, putLengthPrefixedSlice, putVarint32, putVarint32, List.nil_append,
    List.append_assoc]

theorem foldl_putLengthPrefixedSlice (dst : List Byte) (values : List (List Byte)) :
    values.foldl putLengthPrefixedSlice dst = dst ++ values.foldl putLengthPrefixedSlice [] := by
  induction values generalizing dst with
  | nil => simp
  | cons v values ih =>
    rw [List.foldl_cons, List.foldl_cons, ih, ih (putLengthPrefixedSlice [] v),
      putLengthPrefixedSlice_append dst, List.append_assoc]

/-- Strings written one after the other are taken off one after the other. -/
theorem takeSlices_foldl {values : List (List Byte)} (hvalues : ∀ v ∈ values, v.length < 2 ^ 32)
    {input : Slice} {rest : List Byte}
    (hinput : input.bytes mem = values.foldl putLengthPrefixedSlice [] ++ rest) :
    ∃ results input', takeSlices mem values.length input = some (results, input') ∧
      results.map (Slice.bytes mem) = values ∧ input'.bytes mem = rest := by
  induction values generalizing input with
  | nil => exact ⟨[], input, rfl, rfl, hinput⟩
  | cons v values ih =>
    rw [List.foldl_cons, foldl_putLengthPrefixedSlice, List.append_assoc] at hinput
    obtain ⟨next, s, hget, hs, hnext⟩ :=
      getLengthPrefixedSlice_put (hvalues v List.mem_cons_self) hinput { data := 0, size := 0 }
    obtain ⟨results, input', htake, hmap, hrest⟩ :=
      ih (fun u hu => hvalues u (List.mem_cons_of_mem v hu)) hnext
    refine ⟨s :: results, input', ?_, ?_, hrest⟩
    · rw [List.length_cons, takeSlices, hget]
      dsimp only
      rw [htake, Option.map_some]
    · rw [List.map_cons, hs, hmap]

/-- The `Slice` decoder fails without touching its input exactly where no length
promises more than there is. -/
theorem unchanged_iff_lengthFits (mem : ℕ → Byte) (input result : Slice) :
    ((getLengthPrefixedSlice mem input result).1 = false →
      (getLengthPrefixedSlice mem input result).2.1 = input) ↔ LengthFits (input.bytes mem) := by
  rcases getLengthPrefixedSlice_cases mem input result with ⟨hnone, hget⟩ | hsome
  · rw [hget]
    refine ⟨fun _ n rest hdecode => ?_, fun _ _ => rfl⟩
    rw [hnone] at hdecode
    cases hdecode
  · obtain ⟨n, rest, j, hdecode, hpos, hle, _, hget⟩ := hsome
    rw [hget]
    by_cases hfits : n % 2 ^ 32 ≤ rest.length
    · rw [if_pos hfits]
      refine ⟨fun _ m tail hm => ?_, fun _ hfalse => by cases hfalse⟩
      rw [hdecode] at hm
      injection hm with hpair
      injection hpair with hn htail
      rwa [← hn, ← htail]
    · rw [if_neg hfits]
      constructor
      · intro hsame
        have hdata := congrArg Slice.data (hsame rfl)
        simp only [Slice.removePrefix] at hdata
        omega
      · intro hall
        exact absurd (hall n rest hdecode) hfits

/-- Strings come back in the order they were put and the two decoders agree; the
`Slice` decoder leaves its input alone on failure exactly where the length fits. -/
theorem lengthPrefixed_slices (mem : ℕ → Byte) (input : Slice) :
    (∀ (values : List (List Byte)) (rest : List Byte), (∀ v ∈ values, v.length < 2 ^ 32) →
      input.bytes mem = values.foldl putLengthPrefixedSlice [] ++ rest →
      ∃ results input', takeSlices mem values.length input = some (results, input') ∧
        results.map (Slice.bytes mem) = values ∧ input'.bytes mem = rest) ∧
    (∀ result,
      (getLengthPrefixedSlicePtr mem input.data (input.data + input.size) = none ∧
        (getLengthPrefixedSlice mem input result).1 = false) ∨
      ∃ q s, getLengthPrefixedSlicePtr mem input.data (input.data + input.size) = some (q, s) ∧
        getLengthPrefixedSlice mem input result =
          (true, { data := q, size := input.data + input.size - q }, s)) ∧
    (∀ result, ((getLengthPrefixedSlice mem input result).1 = false →
      (getLengthPrefixedSlice mem input result).2.1 = input) ↔ LengthFits (input.bytes mem)) :=
  ⟨fun _ _ hvalues hinput => takeSlices_foldl hvalues hinput,
    getLengthPrefixedSlicePtr_eq mem input, unchanged_iff_lengthFits mem input⟩

/-- One byte that promises five more: the call fails and has taken it. -/
theorem truncated_length_is_taken :
    getLengthPrefixedSlice (fun _ => 5) { data := 0, size := 1 } { data := 0, size := 0 } =
      (false, { data := 1, size := 0 }, { data := 0, size := 0 }) ∧
    ({ data := 1, size := 0 } : Slice) ≠ { data := 0, size := 1 } := by
  decide

end Voyager.LengthPrefixed
