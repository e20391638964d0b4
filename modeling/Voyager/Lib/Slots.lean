import Mathlib.Data.List.Basic
import Mathlib.Logic.Function.Basic

/-!
A partial map kept as an array of slots, with the number of its slot stored
beside each key. A new key takes a slot at the end, and a slot that is given up
is filled from the end. The numbers are signed, as an unset one usually is.
-/
namespace Voyager.Lib.Slots

variable {α κ : Type*}

/-- The slots hold exactly the values of `table`, each where `index` says. -/
structure Represents (index : κ → Int) (slots : List α) (table : κ → Option α) : Prop where
  find : ∀ k a, table k = some a → ∃ i : ℕ, index k = i ∧ slots[i]? = some a
  owner : ∀ (i : ℕ) a, slots[i]? = some a → ∃ k, table k = some a ∧ index k = i
  inj : ∀ k k', (table k).isSome → (table k').isSome → index k = index k' → k = k'

/-- The last slot moves to `i`. -/
def swapRemove (slots : List α) (i : ℕ) (last : α) : List α := (slots.set i last).dropLast

theorem getElem?_swapRemove (slots : List α) (i j : ℕ) (last : α) :
    (swapRemove slots i last)[j]? =
      if j + 1 < slots.length then if i = j then some last else slots[j]? else none := by
  rw [swapRemove, List.getElem?_dropLast, List.length_set, List.getElem?_set]
  split_ifs <;> first | rfl | omega

theorem swapRemove_self {slots : List α} {i : ℕ} {last : α} (h : slots[i]? = some last) :
    swapRemove slots i last = slots.dropLast := by
  obtain ⟨hi, rfl⟩ := List.getElem?_eq_some_iff.mp h
  rw [swapRemove, List.set_getElem_self]

variable {index : κ → Int} {slots : List α} {table : κ → Option α}

theorem represents_empty (index : κ → Int) :
    Represents index ([] : List α) (fun _ => none) :=
  ⟨nofun, nofun, nofun⟩

theorem Represents.index_lt (h : Represents index slots table) {k : κ} {a : α}
    (hk : table k = some a) : ∃ i : ℕ, index k = i ∧ i < slots.length ∧ slots[i]? = some a := by
  obtain ⟨i, hi, ha⟩ := h.find k a hk
  exact ⟨i, hi, (List.getElem?_eq_some_iff.mp ha).1, ha⟩

variable [DecidableEq κ]

theorem Represents.push (h : Represents index slots table) {k : κ} (a : α)
    (hk : table k = none) :
    Represents (Function.update index k slots.length) (slots ++ [a])
      (Function.update table k (some a)) := by
  have hlt {k' : κ} (hk' : k' ≠ k)
      (hsome : (Function.update table k (some a) k').isSome = true) :
      ∃ i : ℕ, index k' = i ∧ i < slots.length := by
    rw [Function.update_of_ne hk'] at hsome
    obtain ⟨b, hb⟩ := Option.isSome_iff_exists.mp hsome
    obtain ⟨i, hi, hlt, -⟩ := h.index_lt hb
    exact ⟨i, hi, hlt⟩
  refine ⟨fun k' b hb => ?_, fun i b hb => ?_, fun k₁ k₂ h₁ h₂ heq => ?_⟩
  · by_cases hk' : k' = k
    · subst hk'
      rw [Function.update_self, Option.some.injEq] at hb
      exact ⟨slots.length, by simp, by simp [hb]⟩
    · rw [Function.update_of_ne hk'] at hb
      obtain ⟨i, hi, hlt, hb'⟩ := h.index_lt hb
      exact ⟨i, by rw [Function.update_of_ne hk', hi], by rw [List.getElem?_append_left hlt, hb']⟩
  · by_cases hi : i < slots.length
    · rw [List.getElem?_append_left hi] at hb
      obtain ⟨k', hk', hindex⟩ := h.owner i b hb
      have hne : k' ≠ k := by
        rintro rfl
        rw [hk] at hk'
        cases hk'
      exact ⟨k', by rw [Function.update_of_ne hne, hk'], by rw [Function.update_of_ne hne, hindex]⟩
    · have hlen := (List.getElem?_eq_some_iff.mp hb).1
      simp only [List.length_append, List.length_singleton] at hlen
      have hi' : i = slots.length := by omega
      subst hi'
      rw [List.getElem?_concat_length, Option.some.injEq] at hb
      exact ⟨k, by simp [hb], by simp⟩
  · by_cases hk₁ : k₁ = k
    · by_cases hk₂ : k₂ = k
      · rw [hk₁, hk₂]
      · obtain ⟨i, hi, hlt⟩ := hlt hk₂ h₂
        rw [hk₁, Function.update_self, Function.update_of_ne hk₂] at heq
        omega
    · obtain ⟨i, hi, hlt⟩ := hlt hk₁ h₁
      by_cases hk₂ : k₂ = k
      · rw [hk₂, Function.update_self, Function.update_of_ne hk₁] at heq
        omega
      · rw [Function.update_of_ne hk₁] at h₁ heq
        rw [Function.update_of_ne hk₂] at h₂ heq
        exact h.inj k₁ k₂ h₁ h₂ heq

/-- Overwriting a slot in place. -/
theorem Represents.set (h : Represents index slots table) {k : κ} {i : ℕ} (a : α)
    (hk : (table k).isSome) (hi : index k = i) :
    Represents index (slots.set i a) (Function.update table k (some a)) := by
  have hsome (k' : κ) : (Function.update table k (some a) k').isSome = (table k').isSome := by
    by_cases hk' : k' = k
    · rw [hk', hk, Function.update_self, Option.isSome_some]
    · rw [Function.update_of_ne hk']
  obtain ⟨b, hb⟩ := Option.isSome_iff_exists.mp hk
  obtain ⟨i', hi', hlt, -⟩ := h.index_lt hb
  have hii : i' = i := by omega
  subst hii
  refine ⟨fun k' c hc => ?_, fun j c hc => ?_, fun k₁ k₂ h₁ h₂ heq => ?_⟩
  · by_cases hk' : k' = k
    · subst hk'
      rw [Function.update_self, Option.some.injEq] at hc
      exact ⟨i', hi, by rw [List.getElem?_set_self hlt, hc]⟩
    · rw [Function.update_of_ne hk'] at hc
      obtain ⟨j, hj, hc'⟩ := h.find k' c hc
      have hne : i' ≠ j := by
        rintro rfl
        exact hk' (h.inj k' k (by rw [hc]; rfl) hk (by rw [hj, hi]))
      exact ⟨j, hj, by rw [List.getElem?_set_ne hne, hc']⟩
  · by_cases hij : i' = j
    · subst hij
      rw [List.getElem?_set_self hlt, Option.some.injEq] at hc
      exact ⟨k, by rw [Function.update_self, hc], hi⟩
    · rw [List.getElem?_set_ne hij] at hc
      obtain ⟨k', hk', hindex⟩ := h.owner j c hc
      have hne : k' ≠ k := by
        rintro rfl
        omega
      exact ⟨k', by rw [Function.update_of_ne hne, hk'], hindex⟩
  · rw [hsome] at h₁ h₂
    exact h.inj k₁ k₂ h₁ h₂ heq

/-- The last slot may be the one that is given up; it is then its own replacement. -/
theorem Represents.swapRemove (h : Represents index slots table) {k l : κ} {i : ℕ} {last : α}
    (hk : (table k).isSome) (hi : index k = i) (hl : table l = some last)
    (hlast : index l = (slots.length - 1 : ℕ)) :
    Represents (Function.update index l i) (swapRemove slots i last)
      (Function.update table k none) := by
  obtain ⟨b, hb⟩ := Option.isSome_iff_exists.mp hk
  obtain ⟨i', hi', hlt, -⟩ := h.index_lt hb
  have hold {k' : κ} (hsome : (Function.update table k none k').isSome = true) :
      k' ≠ k ∧ (table k').isSome = true := by
    by_cases hk' : k' = k
    · rw [hk', Function.update_self] at hsome
      cases hsome
    · rw [Function.update_of_ne hk'] at hsome
      exact ⟨hk', hsome⟩
  refine ⟨fun k' c hc => ?_, fun j c hc => ?_, fun k₁ k₂ h₁ h₂ heq => ?_⟩
  · obtain ⟨hk', -⟩ := hold (by rw [hc]; rfl)
    rw [Function.update_of_ne hk'] at hc
    by_cases hkl : k' = l
    · -- the moved slot
      subst hkl
      have hne : i ≠ slots.length - 1 := by
        rintro rfl
        exact hk' (h.inj k' k (by rw [hc]; rfl) hk (by rw [hi, hlast]))
      refine ⟨i, by simp, ?_⟩
      rw [getElem?_swapRemove, if_pos (by omega), if_pos rfl, ← hl, hc]
    · obtain ⟨j, hj, hjlt, hc'⟩ := h.index_lt hc
      have hne : j ≠ slots.length - 1 := by
        rintro rfl
        exact hkl (h.inj k' l (by rw [hc]; rfl) (by rw [hl]; rfl) (by rw [hj, hlast]))
      have hij : i ≠ j := by
        rintro rfl
        exact hk' (h.inj k' k (by rw [hc]; rfl) hk (by rw [hj, hi]))
      refine ⟨j, by rw [Function.update_of_ne hkl, hj], ?_⟩
      rw [getElem?_swapRemove, if_pos (by omega), if_neg hij, hc']
  · rw [getElem?_swapRemove] at hc
    split_ifs at hc with hj hij
    · subst hij
      rw [Option.some.injEq] at hc
      have hlk : l ≠ k := by
        rintro rfl
        omega
      exact ⟨l, by rw [Function.update_of_ne hlk, hl, hc], by simp⟩
    · obtain ⟨k', hk', hindex⟩ := h.owner j c hc
      have hkk : k' ≠ k := by
        rintro rfl
        omega
      have hkl : k' ≠ l := by
        rintro rfl
        omega
      exact ⟨k', by rw [Function.update_of_ne hkk, hk'], by rw [Function.update_of_ne hkl, hindex]⟩
  · obtain ⟨hk₁, hs₁⟩ := hold h₁
    obtain ⟨hk₂, hs₂⟩ := hold h₂
    by_cases hl₁ : k₁ = l
    · by_cases hl₂ : k₂ = l
      · rw [hl₁, hl₂]
      · rw [hl₁, Function.update_self, Function.update_of_ne hl₂] at heq
        exact absurd (h.inj k₂ k hs₂ hk (by rw [hi, heq])) hk₂
    · by_cases hl₂ : k₂ = l
      · rw [hl₂, Function.update_self, Function.update_of_ne hl₁] at heq
        exact absurd (h.inj k₁ k hs₁ hk (by rw [hi, heq])) hk₁
      · rw [Function.update_of_ne hl₁, Function.update_of_ne hl₂] at heq
        exact h.inj k₁ k₂ hs₁ hs₂ heq

end Voyager.Lib.Slots
