import Mathlib.Data.List.Basic

/-!
Overwriting a block of a list in place, and the element-by-element forward
copy of a block within one list. A forward copy to a lower index reads every
element before overwriting it, so it equals the simultaneous copy even where
source and target overlap.
-/
namespace Voyager.Lib.Splices

variable {α : Type*}

/-- Replaces the elements from index `i` on by those of `xs`. -/
def overwrite (l : List α) (i : ℕ) (xs : List α) : List α :=
  l.take i ++ xs ++ l.drop (i + xs.length)

/-- The elements with indices from `i` up to but not including `j`. -/
def slice (l : List α) (i j : ℕ) : List α := (l.drop i).take (j - i)

theorem length_overwrite (l : List α) (i : ℕ) (xs : List α) (h : i + xs.length ≤ l.length) :
    (overwrite l i xs).length = l.length := by
  simp only [overwrite, List.length_append, List.length_take, List.length_drop]
  omega

theorem length_slice (l : List α) (i j : ℕ) (h : j ≤ l.length) :
    (slice l i j).length = j - i := by
  simp only [slice, List.length_take, List.length_drop]
  omega

theorem slice_eq_drop_take (l : List α) (i j : ℕ) : slice l i j = (l.take j).drop i := by
  rw [slice, List.drop_take]

theorem slice_self (l : List α) (i : ℕ) : slice l i i = [] := by simp [slice]

theorem take_slice (l : List α) (i j n : ℕ) (h : i + n ≤ j) :
    (slice l i j).take n = slice l i (i + n) := by
  rw [slice, slice, List.take_take]
  congr 1
  omega

theorem drop_slice (l : List α) (i j n : ℕ) : (slice l i j).drop n = slice l (i + n) j := by
  rw [slice, slice, List.drop_take, List.drop_drop, Nat.sub_sub]

theorem take_overwrite (l : List α) (i : ℕ) (xs : List α) (h : i ≤ l.length) :
    (overwrite l i xs).take (i + xs.length) = l.take i ++ xs := by
  have hlen : (l.take i ++ xs).length = i + xs.length := by
    simp only [List.length_append, List.length_take, Nat.min_eq_left h]
  rw [overwrite, ← hlen, List.take_left]

/-- A block written right behind a slice extends that slice. -/
theorem slice_overwrite (l : List α) (i j : ℕ) (xs : List α) (hij : i ≤ j)
    (hj : j ≤ l.length) : slice (overwrite l j xs) i (j + xs.length) = slice l i j ++ xs := by
  rw [slice_eq_drop_take, take_overwrite l j xs hj, List.drop_append_of_le_length]
  · rw [slice_eq_drop_take]
  · simpa only [List.length_take, Nat.min_eq_left hj] using hij

/-- Elements in front of the padding are those of the list itself. -/
theorem slice_append_left (l pad : List α) (i j : ℕ) (hj : j ≤ l.length) :
    slice (l ++ pad) i j = slice l i j := by
  rw [slice_eq_drop_take, slice_eq_drop_take, List.take_append_of_le_length hj]

/-- Copies `n` elements from index `src` on to index `dst` on, one by one and
in ascending order, each read from the list as it stands at that moment. -/
def copyForward (l : List α) (src dst : ℕ) : ℕ → List α
  | 0 => l
  | n + 1 =>
    match l[src]? with
    | none => l
    | some x => copyForward (l.set dst x) (src + 1) (dst + 1) n

theorem take_set_succ (l : List α) (i : ℕ) (x : α) (hi : i < l.length) :
    (l.set i x).take (i + 1) = l.take i ++ [x] := by
  have hlen : (l.take i ++ [x]).length = i + 1 := by
    simp only [List.length_append, List.length_take, Nat.min_eq_left (Nat.le_of_lt hi),
      List.length_singleton]
  have hset : l.set i x = (l.take i ++ [x]) ++ l.drop (i + 1) := by
    rw [List.set_eq_take_append_cons_drop, if_pos hi]
    simp only [List.append_assoc, List.cons_append, List.nil_append]
  rw [hset, ← hlen, List.take_left]

/-- Copying downwards, overlapping or not, moves the block as it was. -/
theorem copyForward_eq_overwrite (n : ℕ) (l : List α) (src dst : ℕ) (hle : dst ≤ src)
    (hsrc : src + n ≤ l.length) :
    copyForward l src dst n = overwrite l dst (slice l src (src + n)) := by
  induction n generalizing l src dst with
  | zero => simp [copyForward, slice, overwrite]
  | succ n ih =>
    have hget : l[src]? = some (l.get ⟨src, by omega⟩) := by simp
    have hdst : dst < l.length := by omega
    simp only [copyForward, hget]
    rw [ih _ (src + 1) (dst + 1) (by omega) (by simp only [List.length_set]; omega)]
    -- the cell just written lies below every cell still to be read
    have hslice : slice (l.set dst (l.get ⟨src, by omega⟩)) (src + 1) (src + 1 + n) =
        slice l (src + 1) (src + 1 + n) := by
      rw [slice, slice, List.drop_set_of_lt (by omega)]
    have hhead : slice l src (src + (n + 1)) =
        l.get ⟨src, by omega⟩ :: slice l (src + 1) (src + 1 + n) := by
      have htake : src + (n + 1) - src = n + 1 := by omega
      rw [slice, slice, htake, List.drop_eq_getElem_cons (by omega), List.take_succ_cons,
        Nat.add_sub_cancel_left]
      rfl
    have hlen : (slice l (src + 1) (src + 1 + n)).length = n := by
      rw [length_slice _ _ _ (by omega)]
      omega
    rw [hslice, hhead, overwrite, overwrite, take_set_succ l dst _ hdst,
      List.drop_set_of_lt (by omega), List.length_cons, hlen]
    simp only [List.append_assoc, List.cons_append, List.nil_append]
    congr 4
    omega

theorem length_copyForward (n : ℕ) (l : List α) (src dst : ℕ) :
    (copyForward l src dst n).length = l.length := by
  induction n generalizing l src dst with
  | zero => rfl
  | succ n ih =>
    simp only [copyForward]
    split
    · rfl
    · rw [ih, List.length_set]

end Voyager.Lib.Splices
