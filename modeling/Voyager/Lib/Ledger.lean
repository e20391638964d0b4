import Mathlib.Data.List.Basic
import Mathlib.Logic.Function.Basic

/-!
A table of numbered slots, handed out lowest first as a kernel hands out
descriptors. The table knows to whom each slot was handed; a program knows only
numbers. The two agree when each owner holds exactly the slot that is its own.
-/
namespace Voyager.Lib

structure Ledger (ω : Type*) where
  limit : ℕ
  slot : ℕ → Option ω
  bounded : ∀ f, limit ≤ f → slot f = none

namespace Ledger

variable {ω : Type*}

def create (limit : ℕ) : Ledger ω := ⟨limit, fun _ => none, fun _ _ => rfl⟩

/-- The lowest slot that is free. -/
def free (t : Ledger ω) : Option ℕ := (List.range t.limit).find? fun f => (t.slot f).isNone

def write (t : Ledger ω) (f : ℕ) (o : Option ω) : Ledger ω where
  limit := t.limit
  slot := fun g => if g = f ∧ f < t.limit then o else t.slot g
  bounded g hg := by
    rw [if_neg (by omega)]
    exact t.bounded g hg

def take (t : Ledger ω) (o : ω) : Option (ℕ × Ledger ω) :=
  t.free.map fun f => (f, t.write f (some o))

def release (t : Ledger ω) (f : ℕ) : Ledger ω := t.write f none

/-- The slot changes hands and stays open. -/
def transfer (t : Ledger ω) (f : ℕ) (o : ω) : Ledger ω := t.write f (some o)

variable {t u : Ledger ω} {f g : ℕ} {o o' : ω}

theorem lt_limit (h : t.slot f = some o) : f < t.limit := by
  by_contra hlt
  rw [t.bounded f (by omega)] at h
  cases h

theorem slot_write (hf : f < t.limit) (v : Option ω) :
    (t.write f v).slot = Function.update t.slot f v := by
  funext g
  by_cases hg : g = f
  · simp [write, hg, hf]
  · simp [write, hg]

theorem free_spec (h : t.free = some f) : f < t.limit ∧ t.slot f = none := by
  have hmem := List.mem_of_find?_eq_some h
  have hnone := List.find?_some h
  exact ⟨List.mem_range.mp hmem, by simpa using hnone⟩

/-- A slot is found as long as one is free. -/
theorem isSome_free : t.free.isSome ↔ ∃ f, f < t.limit ∧ t.slot f = none := by
  simp [free, List.find?_isSome]

theorem isSome_free_release (h : t.slot f = some o) : (t.release f).free.isSome := by
  have hf := lt_limit h
  refine isSome_free.mpr ⟨f, hf, ?_⟩
  rw [release, slot_write hf, Function.update_self]

theorem isSome_free_of_release (hfree : t.free.isSome) : (t.release f).free.isSome := by
  obtain ⟨g, hg, hnone⟩ := isSome_free.mp hfree
  refine isSome_free.mpr ⟨g, hg, ?_⟩
  simp only [release, write]
  split
  · rfl
  · exact hnone

theorem isSome_free_of_transfer (h : t.slot f = some o) (hfree : t.free.isSome) :
    (t.transfer f o').free.isSome := by
  obtain ⟨g, hg, hnone⟩ := isSome_free.mp hfree
  refine isSome_free.mpr ⟨g, hg, ?_⟩
  have hne : g ≠ f := by
    intro heq
    rw [heq, h] at hnone
    cases hnone
  rw [transfer, slot_write (lt_limit h), Function.update_of_ne hne, hnone]

/-- The numbers that the owners hold are the slots that are theirs. -/
def Agrees (t : Ledger ω) (held : ω → Option ℕ) : Prop :=
  ∀ o f, held o = some f ↔ t.slot f = some o

variable {held : ω → Option ℕ}

theorem agrees_create (limit : ℕ) : (create limit).Agrees fun _ : ω => none :=
  fun _ _ => ⟨nofun, nofun⟩

/-- No slot has two holders. -/
theorem Agrees.holder_unique (h : t.Agrees held) (ho : held o = some f) (ho' : held o' = some f) :
    o = o' := by
  have hslot := (h o f).mp ho
  rw [(h o' f).mp ho'] at hslot
  exact (Option.some.inj hslot).symm

variable [DecidableEq ω]

theorem Agrees.take (h : t.Agrees held) (hnone : held o = none)
    (htake : t.take o = some (f, u)) : u.Agrees (Function.update held o (some f)) := by
  obtain ⟨g, hfree, heq⟩ := Option.map_eq_some_iff.mp htake
  obtain ⟨rfl, rfl⟩ := Prod.mk.inj heq
  obtain ⟨hlt, hslot⟩ := free_spec hfree
  intro p k
  rw [slot_write hlt]
  by_cases hp : p = o
  · subst hp
    rw [Function.update_self]
    by_cases hk : k = g
    · simp [hk]
    · rw [Function.update_of_ne hk, ← h p k, hnone]
      simp [Ne.symm hk]
  · rw [Function.update_of_ne hp, h p k]
    by_cases hk : k = g
    · simp [hk, hslot, Ne.symm hp]
    · rw [Function.update_of_ne hk]

theorem Agrees.release (h : t.Agrees held) (ho : held o = some f) :
    (t.release f).Agrees (Function.update held o none) := by
  have hslot := (h o f).mp ho
  intro p k
  rw [Ledger.release, slot_write (lt_limit hslot)]
  by_cases hp : p = o
  · subst hp
    rw [Function.update_self]
    by_cases hk : k = f
    · simp [hk]
    · rw [Function.update_of_ne hk, ← h p k, ho]
      simp [Ne.symm hk]
  · rw [Function.update_of_ne hp, h p k]
    by_cases hk : k = f
    · simp [hk, hslot, Ne.symm hp]
    · rw [Function.update_of_ne hk]

theorem Agrees.transfer (h : t.Agrees held) (ho : held o = some f) (hnone : held o' = none) :
    (t.transfer f o').Agrees (Function.update (Function.update held o none) o' (some f)) := by
  have hslot := (h o f).mp ho
  have hne : o ≠ o' := by
    intro heq
    rw [heq, hnone] at ho
    cases ho
  intro p k
  rw [Ledger.transfer, slot_write (lt_limit hslot)]
  by_cases hp' : p = o'
  · subst hp'
    rw [Function.update_self]
    by_cases hk : k = f
    · simp [hk]
    · rw [Function.update_of_ne hk, ← h p k, hnone]
      simp [Ne.symm hk]
  · rw [Function.update_of_ne hp']
    by_cases hk : k = f
    · by_cases hp : p = o
      · simp [hk, hp, hne.symm]
      · rw [Function.update_of_ne hp, h p k, hk, hslot, Function.update_self]
        simp [Ne.symm hp, Ne.symm hp']
    · rw [Function.update_of_ne hk]
      by_cases hp : p = o
      · rw [hp, Function.update_self, ← h o k, ho]
        simp [Ne.symm hk]
      · rw [Function.update_of_ne hp, h p k]

end Ledger

end Voyager.Lib
