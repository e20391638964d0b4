import Mathlib.Order.Lattice
import Mathlib.Data.List.Basic

/-!
Sets kept in strictly ascending order, as `std::set` iterates over them. The order
is a field, so the first element is always the least one.
-/
namespace Voyager.Lib

structure OrderedSet (α : Type*) [LinearOrder α] where
  elems : List α
  sorted : elems.Pairwise (· < ·)

namespace OrderedSet

variable {α : Type*} [LinearOrder α]

def empty : OrderedSet α := ⟨[], List.Pairwise.nil⟩

instance : Membership α (OrderedSet α) := ⟨fun s a => a ∈ s.elems⟩

instance (a : α) (s : OrderedSet α) : Decidable (a ∈ s) :=
  inferInstanceAs (Decidable (a ∈ s.elems))

theorem nodup_elems (s : OrderedSet α) : s.elems.Nodup := s.sorted.imp ne_of_lt

theorem mem_def {a : α} {s : OrderedSet α} : a ∈ s ↔ a ∈ s.elems := Iff.rfl

@[ext] theorem ext {s t : OrderedSet α} (h : ∀ a, a ∈ s ↔ a ∈ t) : s = t := by
  obtain ⟨l, hl⟩ := s
  obtain ⟨m, hm⟩ := t
  have hperm : l.Perm m := by
    apply (List.perm_ext_iff_of_nodup (nodup_elems ⟨l, hl⟩) (nodup_elems ⟨m, hm⟩)).mpr
    exact h
  obtain rfl : l = m :=
    hperm.eq_of_pairwise (fun _ _ _ _ hab hba => absurd hab (lt_asymm hba)) hl hm
  rfl

@[simp] theorem not_mem_empty (a : α) : a ∉ (empty : OrderedSet α) := List.not_mem_nil

/-- An element that is there already stays as it is. -/
def insertElem (a : α) : List α → List α
  | [] => [a]
  | b :: rest =>
    if a < b then a :: b :: rest
    else if a = b then b :: rest
    else b :: insertElem a rest

theorem mem_insertElem {a b : α} {l : List α} : b ∈ insertElem a l ↔ b = a ∨ b ∈ l := by
  induction l with
  | nil => simp [insertElem]
  | cons c rest ih =>
    unfold insertElem
    split_ifs with hlt heq
    · simp
    · subst heq
      simp
    · simp only [List.mem_cons, ih]
      tauto

theorem pairwise_insertElem {a : α} {l : List α} (h : l.Pairwise (· < ·)) :
    (insertElem a l).Pairwise (· < ·) := by
  induction l with
  | nil => simp [insertElem]
  | cons c rest ih =>
    obtain ⟨hc, hrest⟩ := List.pairwise_cons.mp h
    unfold insertElem
    split_ifs with hlt heq
    · refine List.pairwise_cons.mpr ⟨fun b hb => ?_, h⟩
      rcases List.mem_cons.mp hb with rfl | hb
      · exact hlt
      · exact lt_trans hlt (hc b hb)
    · exact h
    · refine List.pairwise_cons.mpr ⟨fun b hb => ?_, ih hrest⟩
      rcases mem_insertElem.mp hb with rfl | hb
      · exact lt_of_le_of_ne (not_lt.mp hlt) (Ne.symm heq)
      · exact hc b hb

def insert (s : OrderedSet α) (a : α) : OrderedSet α :=
  ⟨insertElem a s.elems, pairwise_insertElem s.sorted⟩

def erase (s : OrderedSet α) (a : α) : OrderedSet α :=
  ⟨s.elems.erase a, s.sorted.sublist List.erase_sublist⟩

def filter (p : α → Bool) (s : OrderedSet α) : OrderedSet α :=
  ⟨s.elems.filter p, s.sorted.filter p⟩

/-- `*begin()` -/
def first? (s : OrderedSet α) : Option α := s.elems.head?

@[simp] theorem mem_insert {a b : α} {s : OrderedSet α} : b ∈ s.insert a ↔ b = a ∨ b ∈ s :=
  mem_insertElem

@[simp] theorem mem_erase {a b : α} {s : OrderedSet α} : b ∈ s.erase a ↔ b ≠ a ∧ b ∈ s :=
  s.nodup_elems.mem_erase_iff

@[simp] theorem mem_filter {p : α → Bool} {a : α} {s : OrderedSet α} :
    a ∈ s.filter p ↔ a ∈ s ∧ p a = true :=
  List.mem_filter

theorem mem_of_first? {a : α} {s : OrderedSet α} (h : s.first? = some a) : a ∈ s :=
  List.mem_of_head? h

theorem first?_le {a b : α} {s : OrderedSet α} (h : s.first? = some a) (hb : b ∈ s) : a ≤ b := by
  obtain ⟨l, hl⟩ := s
  cases l with
  | nil => cases h
  | cons c rest =>
    rw [first?, List.head?_cons, Option.some.injEq] at h
    subst h
    rcases List.mem_cons.mp hb with rfl | hb
    · exact le_refl _
    · exact le_of_lt ((List.pairwise_cons.mp hl).1 b hb)

theorem first?_eq_none {s : OrderedSet α} : s.first? = none ↔ s = empty := by
  obtain ⟨l, hl⟩ := s
  cases l <;> simp [first?, empty]

end OrderedSet

end Voyager.Lib
