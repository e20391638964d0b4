import Mathlib.Data.List.Basic
import Mathlib.Data.List.Sort

/-!
Pieces of a list between separators, the elements that satisfy a predicate: searching
from an index on, the maximal runs without a separator, and the pieces of `splitOnP`
that are not empty. These are the texts of the maximal runs, in order.
-/
namespace Voyager.Lib.Pieces

variable {α : Type*}

/-- Where the first element from `pos` on is that satisfies `p`. -/
def findFrom (p : α → Bool) (s : List α) (pos : ℕ) : Option ℕ :=
  ((s.drop pos).findIdx? p).map (pos + ·)

/-- A list without separators, or the part of it in front of the first one. -/
theorem separator_cases (sep : α → Bool) (s : List α) :
    (∀ x ∈ s, sep x = false) ∨
    ∃ w c rest, s = w ++ c :: rest ∧ (∀ x ∈ w, sep x = false) ∧ sep c = true := by
  induction s with
  | nil => exact .inl (by simp)
  | cons x s ih =>
    cases hx : sep x with
    | true => exact .inr ⟨[], x, s, rfl, by simp, hx⟩
    | false =>
      rcases ih with hs | ⟨w, c, rest, rfl, hw, hc⟩
      · exact .inl (by simpa [hx] using hs)
      · exact .inr ⟨x :: w, c, rest, rfl, by simpa [hx] using hw, hc⟩

/-- Induction over the separators of a list. -/
@[elab_as_elim]
theorem separator_induction (sep : α → Bool) {motive : List α → Prop} (s : List α)
    (last : ∀ w, (∀ x ∈ w, sep x = false) → motive w)
    (next : ∀ w c rest, (∀ x ∈ w, sep x = false) → sep c = true → motive rest →
      motive (w ++ c :: rest)) : motive s := by
  obtain ⟨n, hn⟩ : ∃ n, s.length ≤ n := ⟨_, le_rfl⟩
  induction n generalizing s with
  | zero =>
    obtain rfl : s = [] := List.length_eq_zero_iff.mp (by omega)
    exact last [] (by simp)
  | succ n ih =>
    rcases separator_cases sep s with hs | ⟨w, c, rest, rfl, hw, hc⟩
    · exact last s hs
    · simp only [List.length_append, List.length_cons] at hn
      exact next w c rest hw hc (ih rest (by omega))

section

variable {p : α → Bool} {s : List α} {pos : ℕ}

theorem findFrom_none (h : ∀ x ∈ s.drop pos, p x = false) : findFrom p s pos = none := by
  rw [findFrom, List.findIdx?_eq_none_iff.mpr h, Option.map_none]

theorem findFrom_some {w rest : List α} {c : α} (hs : s.drop pos = w ++ c :: rest)
    (hw : ∀ x ∈ w, p x = false) (hc : p c = true) : findFrom p s pos = some (pos + w.length) := by
  have hfirst : (w ++ c :: rest).findIdx? p = some w.length := by
    rw [List.findIdx?_append, List.findIdx?_eq_none_iff.mpr hw]
    simp [List.findIdx?_cons, hc]
  rw [findFrom, hs, hfirst, Option.map_some]

theorem findFrom_cases (p : α → Bool) (s : List α) (pos : ℕ) :
    (∀ x ∈ s.drop pos, p x = false) ∧ findFrom p s pos = none ∨
    ∃ w c rest, s.drop pos = w ++ c :: rest ∧ (∀ x ∈ w, p x = false) ∧ p c = true ∧
      findFrom p s pos = some (pos + w.length) := by
  rcases separator_cases p (s.drop pos) with hs | ⟨w, c, rest, hs, hw, hc⟩
  · exact .inl ⟨hs, findFrom_none hs⟩
  · exact .inr ⟨w, c, rest, hs, hw, hc, findFrom_some hs hw hc⟩

/-- What a search finds lies from `pos` on, in the list, and satisfies `p`. -/
theorem findFrom_bounds {i : ℕ} (h : findFrom p s pos = some i) :
    pos ≤ i ∧ ∃ hi : i < s.length, p s[i] = true := by
  obtain ⟨j, hj, rfl⟩ := Option.map_eq_some_iff.mp h
  obtain ⟨hlt, hp, -⟩ := List.findIdx?_eq_some_iff_getElem.mp hj
  rw [List.length_drop] at hlt
  rw [List.getElem_drop] at hp
  exact ⟨by omega, by omega, hp⟩

end

/-- A run without separators that cannot be extended to either side. -/
@[ext]
structure MaximalRun (sep : α → Bool) (s : List α) where
  before : List α
  text : List α
  behind : List α
  parts : before ++ (text ++ behind) = s
  nonempty : text ≠ []
  inside : ∀ x ∈ text, sep x = false
  left : ∀ x ∈ before.getLast?, sep x = true
  right : ∀ x ∈ behind.head?, sep x = true

/-- Every maximal run once, in the order in which they start. -/
structure ListsRuns {sep : α → Bool} {s : List α} (runs : List (MaximalRun sep s)) : Prop where
  complete : ∀ r, r ∈ runs
  ordered : runs.Pairwise fun r r' => r.before.length < r'.before.length

/-- There is only one such list. -/
theorem ListsRuns.unique {sep : α → Bool} {s : List α} {runs runs' : List (MaximalRun sep s)}
    (h : ListsRuns runs) (h' : ListsRuns runs') : runs = runs' := by
  have hnodup {l : List (MaximalRun sep s)} (hl : ListsRuns l) : l.Nodup :=
    hl.ordered.imp fun hlt heq => by simp [heq] at hlt
  have hperm : runs.Perm runs' :=
    (List.perm_ext_iff_of_nodup (hnodup h) (hnodup h')).mpr
      fun r => ⟨fun _ => h'.complete r, fun _ => h.complete r⟩
  exact hperm.eq_of_pairwise (fun r r' _ _ hlt hgt => by omega) h.ordered h'.ordered

/-- No piece contains a separator. -/
theorem not_separator_of_mem_splitOnP {sep : α → Bool} {s w : List α} (hw : w ∈ s.splitOnP sep) :
    ∀ x ∈ w, sep x = false := by
  induction s using separator_induction sep with
  | last s hs =>
    rw [List.splitOnP_eq_singleton hs, List.mem_singleton] at hw
    exact hw ▸ hs
  | next v c rest hv hc ih =>
    rw [List.splitOnP_append_cons_of_forall_mem hv c hc, List.mem_cons] at hw
    rcases hw with rfl | hw
    · exact hv
    · exact ih hw

section

variable (sep : α → Bool)

/-- The pieces between separators that are not empty. -/
def pieces (s : List α) : List (List α) := (s.splitOnP sep).filter (!·.isEmpty)

@[simp] theorem pieces_nil : pieces sep [] = [] := by simp [pieces]

/-- A separator belongs to no piece. -/
theorem pieces_append_cons (x y : List α) {c : α} (hc : sep c = true) :
    pieces sep (x ++ c :: y) = pieces sep x ++ pieces sep y := by
  rw [pieces, List.splitOnP_append_cons x y hc, List.filter_append, pieces, pieces]

theorem pieces_cons (s : List α) {c : α} (hc : sep c = true) :
    pieces sep (c :: s) = pieces sep s := by
  simpa using pieces_append_cons sep [] s hc

theorem pieces_eq_singleton {w : List α} (hne : w ≠ []) (hw : ∀ x ∈ w, sep x = false) :
    pieces sep w = [w] := by
  rw [pieces, List.splitOnP_eq_singleton hw]
  simpa using hne

theorem pieces_append {w rest : List α} (hne : w ≠ []) (hw : ∀ x ∈ w, sep x = false)
    (hrest : ∀ x ∈ rest.head?, sep x = true) : pieces sep (w ++ rest) = w :: pieces sep rest := by
  cases rest with
  | nil => rw [List.append_nil, pieces_eq_singleton sep hne hw, pieces_nil]
  | cons c rest =>
    have hc : sep c = true := hrest c (by simp)
    rw [pieces_append_cons sep w rest hc, pieces_eq_singleton sep hne hw, pieces_cons sep rest hc,
      List.singleton_append]

/-- Separators in front belong to no piece. -/
theorem pieces_separators_append {w : List α} (hw : ∀ x ∈ w, sep x = true) (s : List α) :
    pieces sep (w ++ s) = pieces sep s := by
  induction w with
  | nil => rfl
  | cons c w ih =>
    rw [List.cons_append, pieces_cons sep _ (hw c (by simp)), ih fun x hx => hw x (by simp [hx])]

end

/-! The pieces are the texts of the maximal runs. -/

section

variable {sep : α → Bool} {w rest : List α} {c : α}

/-- What stands in front of a run is empty where there is no separator to end it. -/
theorem MaximalRun.before_eq_nil {s : List α} (r : MaximalRun sep s)
    (h : ∀ x ∈ r.before, sep x = false) : r.before = [] := by
  rcases List.eq_nil_or_concat r.before with hnil | ⟨b, x, hb⟩
  · exact hnil
  · have hleft : sep x = true := r.left x (by simp [hb])
    rw [h x (by simp [hb])] at hleft
    cases hleft

/-- The run of a list without separators. -/
def onlyRun (hne : w ≠ []) (hw : ∀ x ∈ w, sep x = false) : MaximalRun sep w where
  before := []
  text := w
  behind := []
  parts := by simp
  nonempty := hne
  inside := hw
  left := by simp
  right := by simp

/-- The run in front of the first separator. -/
def firstRun (hne : w ≠ []) (hw : ∀ x ∈ w, sep x = false) (hc : sep c = true) :
    MaximalRun sep (w ++ c :: rest) where
  before := []
  text := w
  behind := c :: rest
  parts := rfl
  nonempty := hne
  inside := hw
  left := by simp
  right := by simpa using hc

/-- A run behind the first separator. -/
def MaximalRun.shift (w : List α) (hc : sep c = true) (r : MaximalRun sep rest) :
    MaximalRun sep (w ++ c :: rest) where
  before := w ++ c :: r.before
  text := r.text
  behind := r.behind
  parts := by simp [r.parts]
  nonempty := r.nonempty
  inside := r.inside
  left x hx := by
    rw [List.getLast?_append_cons, List.getLast?_cons, Option.mem_some_iff] at hx
    cases hlast : r.before.getLast? with
    | none => simpa [← hx, hlast] using hc
    | some y => exact r.left x (by simpa [hlast] using hx)
  right := r.right

/-- A run at the start of the list ends at the first separator. -/
theorem MaximalRun.eq_firstRun (hw : ∀ x ∈ w, sep x = false) (hc : sep c = true)
    (r : MaximalRun sep (w ++ c :: rest)) (hbefore : r.before = []) :
    ∃ hne, r = firstRun hne hw hc := by
  have hparts : r.text ++ r.behind = w ++ c :: rest := by simpa [hbefore] using r.parts
  have hsame : r.text = w ∧ r.behind = c :: rest := by
    rcases List.append_eq_append_iff.mp hparts with ⟨a, ha, hbehind⟩ | ⟨b, hb, hrest⟩
    · cases a with
      | nil => exact ⟨by simpa using ha.symm, by simpa using hbehind⟩
      | cons x a =>
        have hright : sep x = true := r.right x (by simp [hbehind])
        rw [hw x (by simp [ha])] at hright
        cases hright
    · cases b with
      | nil => exact ⟨by simpa using hb, by simpa using hrest.symm⟩
      | cons x b =>
        obtain ⟨rfl, -⟩ := List.cons.inj hrest
        have hinside : sep c = false := r.inside c (by simp [hb])
        rw [hc] at hinside
        cases hinside
  exact ⟨hsame.1 ▸ r.nonempty, MaximalRun.ext hbefore hsame.1 hsame.2⟩

theorem MaximalRun.append_cons_cases (hw : ∀ x ∈ w, sep x = false) (hc : sep c = true)
    (r : MaximalRun sep (w ++ c :: rest)) :
    (∃ hne, r = firstRun hne hw hc) ∨ ∃ r' : MaximalRun sep rest, r = r'.shift w hc := by
  have hstart (h : ∀ x ∈ r.before, sep x = false) := r.eq_firstRun hw hc (r.before_eq_nil h)
  rcases List.append_eq_append_iff.mp r.parts with ⟨a, ha, -⟩ | ⟨b, hb, hrest⟩
  · exact .inl (hstart fun x hx => hw x (by simp [ha, hx]))
  · cases b with
    | nil => exact .inl (hstart fun x hx => hw x (by simpa [hb] using hx))
    | cons x b =>
      rw [List.cons_append] at hrest
      obtain ⟨rfl, htail⟩ := List.cons.inj hrest
      have hleft : ∀ x ∈ b.getLast?, sep x = true := fun x hx => r.left x (by
        rw [hb, List.getLast?_append_cons, List.getLast?_cons, hx]
        rfl)
      refine .inr ⟨⟨b, r.text, r.behind, htail.symm, r.nonempty, r.inside, hleft, r.right⟩, ?_⟩
      exact MaximalRun.ext hb rfl rfl

theorem listsRuns_onlyRun (hne : w ≠ []) (hw : ∀ x ∈ w, sep x = false) :
    ListsRuns [onlyRun hne hw] where
  complete r := by
    have hmem {x : α} (hx : x ∈ r.before ∨ x ∈ r.behind) : x ∈ w := by
      rw [← r.parts]
      rcases hx with hx | hx <;> simp [hx]
    have hbefore : r.before = [] := r.before_eq_nil fun x hx => hw x (hmem (.inl hx))
    have hbehind : r.behind = [] := by
      cases hlist : r.behind with
      | nil => rfl
      | cons x b =>
        have hright : sep x = true := r.right x (by simp [hlist])
        rw [hw x (hmem (.inr (by simp [hlist])))] at hright
        cases hright
    have htext : r.text = w := by simpa [hbefore, hbehind] using r.parts
    exact List.mem_singleton.mpr (MaximalRun.ext hbefore htext hbehind)
  ordered := List.pairwise_singleton _ _

theorem ListsRuns.shift {runs : List (MaximalRun sep rest)} (h : ListsRuns runs) (w : List α)
    (hc : sep c = true) :
    (runs.map fun r => r.shift w hc).Pairwise fun r r' => r.before.length < r'.before.length := by
  rw [List.pairwise_map]
  exact h.ordered.imp fun hlt => by simpa [MaximalRun.shift] using hlt

/-- The runs in front of a separator and behind it. -/
theorem exists_runs (sep : α → Bool) (s : List α) :
    ∃ runs : List (MaximalRun sep s), ListsRuns runs ∧ pieces sep s = runs.map (·.text) := by
  induction s using separator_induction sep with
  | last w hw =>
    by_cases hne : w = []
    · subst hne
      refine ⟨[], ⟨fun r => ?_, List.Pairwise.nil⟩, pieces_nil sep⟩
      have hparts := r.parts
      simp only [List.append_eq_nil_iff] at hparts
      exact absurd hparts.2.1 r.nonempty
    · exact ⟨_, listsRuns_onlyRun hne hw, pieces_eq_singleton sep hne hw⟩
  | next w c rest hw hc ih =>
    obtain ⟨runs, hruns, hpieces⟩ := ih
    have htexts : (runs.map fun r => r.shift w hc).map (·.text) = pieces sep rest := by
      rw [hpieces, List.map_map]
      rfl
    by_cases hne : w = []
    · refine ⟨runs.map fun r => r.shift w hc, ⟨fun r => ?_, hruns.shift w hc⟩, ?_⟩
      · rcases r.append_cons_cases hw hc with ⟨hne', -⟩ | ⟨r', rfl⟩
        · exact absurd hne hne'
        · exact List.mem_map_of_mem (hruns.complete r')
      · rw [pieces_append_cons sep w rest hc, htexts, hne, pieces_nil, List.nil_append]
    · refine ⟨firstRun hne hw hc :: runs.map fun r => r.shift w hc, ⟨fun r => ?_, ?_⟩, ?_⟩
      · rcases r.append_cons_cases hw hc with ⟨-, rfl⟩ | ⟨r', rfl⟩
        · exact List.mem_cons_self
        · exact List.mem_cons_of_mem _ (List.mem_map_of_mem (hruns.complete r'))
      · refine List.pairwise_cons.mpr ⟨fun r hr => ?_, hruns.shift w hc⟩
        obtain ⟨r', -, rfl⟩ := List.mem_map.mp hr
        simp only [firstRun, MaximalRun.shift, List.length_nil, List.length_append,
          List.length_cons]
        omega
      · rw [pieces_append_cons sep w rest hc, pieces_eq_singleton sep hne hw, List.map_cons, htexts]
        rfl

end

end Voyager.Lib.Pieces
