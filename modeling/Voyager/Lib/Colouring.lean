import Mathlib.Data.List.Lex
import Mathlib.Logic.Function.Basic
import Mathlib.Order.Lattice

/-!
Backtracking over colourings. Some places of a graph have a colour, and the others
are coloured one after another, each with the first colour that no neighbour has
and that leads on to the end. What the search finds is the first of all completions,
and when it finds nothing there are none.
-/
namespace Voyager.Lib.Colouring

variable {κ α : Type*}

/-- No two neighbours have the same colour. -/
def Proper (adj : κ → κ → Prop) (b : κ → Option α) : Prop :=
  ∀ k k' a, adj k k' → b k = some a → b k' ≠ some a

/-- `a` can be given to `k`. -/
def Free (adj : κ → κ → Prop) (b : κ → Option α) (k : κ) (a : α) : Prop :=
  ∀ k', adj k k' → b k' ≠ some a

/-- A proper colouring of all places with the given ones among them. -/
structure Completes (adj : κ → κ → Prop) (b : κ → Option α) (g : κ → α) : Prop where
  agrees : ∀ k a, b k = some a → g k = a
  proper : ∀ k k', adj k k' → g k ≠ g k'

theorem Completes.free {adj : κ → κ → Prop} {b : κ → Option α} {g : κ → α}
    (h : Completes adj b g) (k : κ) : Free adj b k (g k) := by
  intro k' hadj hk'
  exact h.proper k k' hadj (h.agrees k' _ hk').symm

variable [DecidableEq κ]

def search (isFree : (κ → Option α) → κ → α → Bool) (colours : List α) :
    List κ → (κ → Option α) → Option (κ → Option α)
  | [], b => some b
  | k :: ks, b =>
    match b k with
    | some _ => search isFree colours ks b
    | none => colours.findSome? fun a =>
      if isFree b k a then search isFree colours ks (Function.update b k (some a)) else none

variable {adj : κ → κ → Prop} {isFree : (κ → Option α) → κ → α → Bool} {colours : List α}
  {b c : κ → Option α} {k : κ} {ks : List κ} {a : α} {g : κ → α}

theorem Proper.update (hsymm : ∀ k k', adj k k' → adj k' k) (hirrefl : ∀ k, ¬ adj k k)
    (h : Proper adj b) (hfree : Free adj b k a) : Proper adj (Function.update b k (some a)) := by
  intro k₁ k₂ a' hadj h₁ h₂
  by_cases hk₁ : k₁ = k
  · subst hk₁
    have hne : k₂ ≠ k₁ := fun heq => hirrefl k₁ (heq ▸ hadj)
    rw [Function.update_self, Option.some.injEq] at h₁
    rw [Function.update_of_ne hne, ← h₁] at h₂
    exact hfree k₂ hadj h₂
  · rw [Function.update_of_ne hk₁] at h₁
    by_cases hk₂ : k₂ = k
    · subst hk₂
      rw [Function.update_self, Option.some.injEq] at h₂
      exact hfree k₁ (hsymm _ _ hadj) (h₂ ▸ h₁)
    · rw [Function.update_of_ne hk₂] at h₂
      exact h k₁ k₂ a' hadj h₁ h₂

theorem Completes.update (h : Completes adj b g) (k : κ) :
    Completes adj (Function.update b k (some (g k))) g := by
  refine ⟨fun k' a hk' => ?_, h.proper⟩
  by_cases hk : k' = k
  · subst hk
    rw [Function.update_self, Option.some.injEq] at hk'
    exact hk'
  · rw [Function.update_of_ne hk] at hk'
    exact h.agrees k' a hk'

section Search

variable (hfree : ∀ b k a, isFree b k a = true ↔ Free adj b k a)

include hfree

/-- What is found is proper, keeps what was given and leaves nothing out. -/
theorem search_sound (hsymm : ∀ k k', adj k k' → adj k' k) (hirrefl : ∀ k, ¬ adj k k)
    (hproper : Proper adj b) (h : search isFree colours ks b = some c) :
    Proper adj c ∧ (∀ k a, b k = some a → c k = some a) ∧ ∀ k ∈ ks, (c k).isSome := by
  induction ks generalizing b with
  | nil =>
    rw [search, Option.some.injEq] at h
    subst h
    exact ⟨hproper, fun _ _ hk => hk, by simp⟩
  | cons k ks ih =>
    rw [search] at h
    cases hk : b k with
    | some a =>
      simp only [hk] at h
      obtain ⟨hc, hkeep, hall⟩ := ih hproper h
      refine ⟨hc, hkeep, List.forall_mem_cons.mpr ⟨?_, hall⟩⟩
      rw [hkeep k a hk]
      rfl
    | none =>
      simp only [hk] at h
      obtain ⟨a, -, ha⟩ := List.exists_of_findSome?_eq_some h
      rw [Option.ite_none_right_eq_some] at ha
      obtain ⟨hc, hkeep, hall⟩ := ih (hproper.update hsymm hirrefl ((hfree b k a).mp ha.1)) ha.2
      refine ⟨hc, fun k' a' hk' => hkeep k' a' ?_, List.forall_mem_cons.mpr ⟨?_, hall⟩⟩
      · have hne : k' ≠ k := by
          rintro rfl
          rw [hk] at hk'
          cases hk'
        rw [Function.update_of_ne hne, hk']
      · rw [hkeep k a (Function.update_self ..)]
        rfl

/-- Nothing that could be completed is given up. -/
theorem search_complete (hcolours : ∀ a, a ∈ colours) (hg : Completes adj b g) :
    ∃ c, search isFree colours ks b = some c := by
  induction ks generalizing b with
  | nil => exact ⟨b, rfl⟩
  | cons k ks ih =>
    rw [search]
    cases hk : b k with
    | some a => exact ih hg
    | none =>
      obtain ⟨c, hc⟩ := ih (hg.update k)
      apply Option.isSome_iff_exists.mp
      rw [List.findSome?_isSome_iff]
      refine ⟨g k, hcolours (g k), ?_⟩
      rw [if_pos ((hfree b k _).mpr (hg.free k)), hc]
      rfl

/-- No completion comes before the one that is found, place by place. -/
theorem search_first [LinearOrder α] (hsorted : colours.Pairwise (· < ·))
    (hcolours : ∀ a, a ∈ colours) (hsymm : ∀ k k', adj k k' → adj k' k)
    (hirrefl : ∀ k, ¬ adj k k) (h : search isFree colours ks b = some c)
    (hproper : Proper adj b) {f : κ → α} (hf : ∀ k ∈ ks, c k = some (f k))
    (hg : Completes adj b g) : ks.map f ≤ ks.map g := by
  induction ks generalizing b with
  | nil => exact le_refl _
  | cons k ks ih =>
    obtain ⟨hfk, hf⟩ := List.forall_mem_cons.mp hf
    rw [List.map_cons, List.map_cons]
    rw [search] at h
    cases hk : b k with
    | some a =>
      simp only [hk] at h
      have hkeep := (search_sound hfree hsymm hirrefl hproper h).2.1 k a hk
      rw [hfk, Option.some.injEq] at hkeep
      rw [hkeep, hg.agrees k a hk]
      exact List.cons_le_cons a (ih h hproper hf hg)
    | none =>
      simp only [hk] at h
      obtain ⟨before, a, after, hsplit, ha, hnone⟩ := List.findSome?_eq_some_iff.mp h
      rw [Option.ite_none_right_eq_some] at ha
      have hproper' := hproper.update hsymm hirrefl ((hfree b k a).mp ha.1)
      have hkeep := (search_sound hfree hsymm hirrefl hproper' ha.2).2.1 k a
        (Function.update_self ..)
      rw [hfk, Option.some.injEq] at hkeep
      rw [hkeep]
      -- the colour of `g` leads on to the end too, so it has not been passed by
      have hlater : g k ∈ a :: after := by
        have hmem := hcolours (g k)
        rw [hsplit, List.mem_append] at hmem
        refine hmem.resolve_left fun hbefore => ?_
        obtain ⟨c', hc'⟩ := search_complete hfree hcolours (hg.update k)
        have hpassed := hnone _ hbefore
        rw [if_pos ((hfree b k _).mpr (hg.free k)), hc'] at hpassed
        cases hpassed
      rcases List.mem_cons.mp hlater with heq | hafter
      · rw [heq]
        refine List.cons_le_cons a (ih ha.2 hproper' hf ?_)
        rw [← heq]
        exact hg.update k
      · rw [hsplit, List.pairwise_append] at hsorted
        exact le_of_lt (List.Lex.rel (List.rel_of_pairwise_cons hsorted.2.1 hafter))

end Search

end Voyager.Lib.Colouring
