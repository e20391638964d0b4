import Voyager.Buffer
import Voyager.Lib.CString
import Voyager.Lib.Pieces
import Mathlib.Algebra.Group.Nat.Defs

/-!
Splitting strings, of util/string_util.h and util/string_util.cc. The delimiters are
the characters of a C string `delim`. What is split is a `std::string`, in which a NUL is
a character like others.
-/
namespace Voyager.StringUtil

open Lib.CString Lib.Pieces

def isDelimiter (delim : List Byte) (c : Byte) : Bool := decide (c ∈ chars delim)

/-- `full.find_first_of(delim, pos)`; `none` is `npos`. -/
def findFirstOf (full delim : List Byte) (pos : ℕ) : Option ℕ :=
  findFrom (isDelimiter delim) full pos

/-- `full.find_first_not_of(delim, pos)` -/
def findFirstNotOf (full delim : List Byte) (pos : ℕ) : Option ℕ :=
  findFrom (fun c => !isDelimiter delim c) full pos

/-- `full.substr(pos, n)` with `pos` at most `size`. -/
def substr (full : List Byte) (pos n : ℕ) : List Byte := (full.drop pos).take n

/-! One delimiter: the pointers `p` and `start` are the characters from there to `end`. -/

/-- `while (++p != end && *p != c)` -/
def scan (c : Byte) : List Byte → List Byte
  | [] => []
  | [_] => []
  | _ :: d :: p => if d ≠ c then scan c (d :: p) else d :: p

/-- The loop stops at the next delimiter, or at the end. -/
theorem scan_cases (c d : Byte) (p : List Byte) :
    ∃ w, d :: p = d :: w ++ scan c (d :: p) ∧ (∀ x ∈ w, x ≠ c) ∧
      ∀ x ∈ (scan c (d :: p)).head?, x = c := by
  induction p generalizing d with
  | nil => exact ⟨[], by simp [scan]⟩
  | cons x p ih =>
    by_cases hx : x = c
    · exact ⟨[], by simp [scan, hx]⟩
    · obtain ⟨w, heq, hw, hstop⟩ := ih x
      have hscan : scan c (d :: x :: p) = scan c (x :: p) := by rw [scan, if_pos hx]
      refine ⟨x :: w, ?_, by simpa [hx] using hw, by rwa [hscan]⟩
      rw [hscan, List.cons_append, ← heq]

theorem length_scan (c d : Byte) (p : List Byte) : (scan c (d :: p)).length ≤ p.length := by
  obtain ⟨w, heq, -, -⟩ := scan_cases c d p
  have hlen := congrArg List.length heq
  simp only [List.length_append, List.length_cons] at hlen
  omega

/-- The loop of the fast path. -/
def splitByChar (c : Byte) : List Byte → List (List Byte) → List (List Byte)
  | [], result => result
  | d :: p, result =>
    if d = c then splitByChar c p result
    else
      let start := d :: p
      splitByChar c (scan c start) (result ++ [start.take (start.length - (scan c start).length)])
termination_by p => p.length
decreasing_by
  · simp
  · exact Nat.lt_succ_of_le (length_scan c d p)

/-! Any number of delimiters. -/

/-- Behind a delimiter at `end_index` the next piece starts further on. -/
theorem findFirstNotOf_advances {full delim : List Byte} {beginIndex endIndex : ℕ}
    (hend : findFirstOf full delim beginIndex = some endIndex) :
    full.length - (findFirstNotOf full delim endIndex).getD full.length <
      full.length - beginIndex := by
  obtain ⟨hpos, hlt, hof⟩ := findFrom_bounds hend
  cases hbegin : findFirstNotOf full delim endIndex with
  | none =>
    rw [Option.getD_none]
    omega
  | some nextIndex =>
    obtain ⟨hle, hlt', hnot⟩ := findFrom_bounds hbegin
    have hne : endIndex ≠ nextIndex := by
      rintro rfl
      simp_all
    rw [Option.getD_some]
    omega

/-- The general loop, from `begin_index` on. -/
def splitByFirstOf (full delim : List Byte) :
    Option ℕ → List (List Byte) → List (List Byte)
  | none, result => result
  | some beginIndex, result =>
    match _ : findFirstOf full delim beginIndex with
    | none => result ++ [full.drop beginIndex]
    | some endIndex =>
      splitByFirstOf full delim (findFirstNotOf full delim endIndex)
        (result ++ [substr full beginIndex (endIndex - beginIndex)])
termination_by beginIndex => full.length - beginIndex.getD full.length
decreasing_by exact findFirstNotOf_advances ‹_›

def splitStringToIteratorUsing (full delim : List Byte) (result : List (List Byte)) :
    List (List Byte) :=
  if delim.getD 0 0 ≠ 0 ∧ delim.getD 1 0 = 0 then splitByChar (delim.getD 0 0) full result
  else splitByFirstOf full delim (findFirstNotOf full delim 0) result

def splitStringUsing (full delim : List Byte) (result : List (List Byte)) : List (List Byte) :=
  splitStringToIteratorUsing full delim result

/-- The loop from `i` on. The counter is an `int`, and only compared to `pieces`. -/
def splitAllowEmptyFrom (full delim : List Byte) (pieces i : Int) (beginIndex : ℕ)
    (result : List (List Byte)) : List (List Byte) :=
  if i < pieces - 1 ∨ pieces = 0 then
    match hend : findFirstOf full delim beginIndex with
    | none => result ++ [full.drop beginIndex]
    | some endIndex =>
      splitAllowEmptyFrom full delim pieces ((i + 1).bmod (2 ^ 32)) (endIndex + 1)
        (result ++ [substr full beginIndex (endIndex - beginIndex)])
  else result ++ [full.drop beginIndex]
termination_by full.length + 1 - beginIndex
decreasing_by
  obtain ⟨hpos, hlt, -⟩ := findFrom_bounds hend
  omega

def splitStringToIteratorAllowEmpty (full delim : List Byte) (pieces : Int)
    (result : List (List Byte)) : List (List Byte) :=
  splitAllowEmptyFrom full delim pieces 0 0 result

def splitStringAllowEmpty (full delim : List Byte) (result : List (List Byte)) :
    List (List Byte) :=
  splitStringToIteratorAllowEmpty full delim 0 result

/-- A caller that does not say otherwise has `skip_empty` true. -/
def split (full delim : List Byte) (skipEmpty : Bool) : List (List Byte) :=
  if skipEmpty then splitStringUsing full delim [] else splitStringAllowEmpty full delim []

/-! Both loops of `SplitStringUsing` append the pieces between delimiters. -/

theorem splitByChar_eq {c : Byte} {sep : Byte → Bool} (hsep : ∀ x, sep x = true ↔ x = c)
    (p : List Byte) (result : List (List Byte)) :
    splitByChar c p result = result ++ pieces sep p := by
  have hother {x : Byte} (hx : x ≠ c) : sep x = false := by
    rw [← Bool.not_eq_true, hsep]
    exact hx
  induction p, result using splitByChar.induct c with
  | case1 result => rw [splitByChar, pieces_nil, List.append_nil]
  | case2 p result ih =>
    rw [splitByChar, if_pos rfl, ih, pieces_cons sep p ((hsep c).mpr rfl)]
  | case3 d p result hd start ih =>
    obtain ⟨w, heq, hw, hstop⟩ := scan_cases c d p
    have hpiece : start.take (start.length - (scan c start).length) = d :: w := by
      have hlen : start.length - (scan c start).length = (d :: w).length := by
        rw [congrArg List.length heq, List.length_append, Nat.add_sub_cancel]
      rw [hlen, congrArg (List.take _) heq, List.take_left]
    have hinside : ∀ x ∈ d :: w, sep x = false := by
      intro x hx
      rcases List.mem_cons.mp hx with rfl | hx
      · exact hother hd
      · exact hother (hw x hx)
    rw [splitByChar, if_neg hd, ih, hpiece, congrArg (pieces sep) heq,
      pieces_append sep (by simp) hinside fun x hx => (hsep x).mpr (hstop x hx),
      List.append_assoc, List.singleton_append]

section

variable {full delim : List Byte} {beginIndex endIndex : ℕ} (result : List (List Byte))

theorem splitByFirstOf_last (hend : findFirstOf full delim beginIndex = none) :
    splitByFirstOf full delim (some beginIndex) result = result ++ [full.drop beginIndex] := by
  rw [splitByFirstOf]
  split
  · rfl
  · simp_all

theorem splitByFirstOf_next (hend : findFirstOf full delim beginIndex = some endIndex) :
    splitByFirstOf full delim (some beginIndex) result =
      splitByFirstOf full delim (findFirstNotOf full delim endIndex)
        (result ++ [substr full beginIndex (endIndex - beginIndex)]) := by
  rw [splitByFirstOf]
  split
  · simp_all
  · simp_all

end

/-- What lies in front of the delimiter that was found, and where the rest is. -/
theorem substr_of_drop {full w rest : List Byte} {pos : ℕ} (h : full.drop pos = w ++ rest) :
    substr full pos (pos + w.length - pos) = w ∧ full.drop (pos + w.length) = rest := by
  rw [substr, Nat.add_sub_cancel_left, ← List.drop_drop, h]
  exact ⟨List.take_left, List.drop_left⟩

theorem substr_of_drop_cons {full w rest : List Byte} {c : Byte} {pos : ℕ}
    (h : full.drop pos = w ++ c :: rest) :
    substr full pos (pos + w.length - pos) = w ∧ full.drop (pos + w.length + 1) = rest := by
  obtain ⟨hsubstr, hbehind⟩ := substr_of_drop h
  rw [← List.drop_drop, hbehind]
  exact ⟨hsubstr, rfl⟩

/-- The general loop from the first character at or behind `pos` that is no delimiter. -/
theorem splitByFirstOf_eq (full delim : List Byte) (pos : ℕ) (result : List (List Byte)) :
    splitByFirstOf full delim (findFirstNotOf full delim pos) result =
      result ++ pieces (isDelimiter delim) (full.drop pos) := by
  obtain ⟨n, hn⟩ : ∃ n, full.length - pos ≤ n := ⟨_, le_rfl⟩
  induction n generalizing pos result with
  | zero =>
    have hdrop : full.drop pos = [] := List.drop_eq_nil_of_le (by omega)
    rw [findFirstNotOf, findFrom_none (by simp [hdrop]), splitByFirstOf, hdrop, pieces_nil,
      List.append_nil]
  | succ n ih =>
    rcases findFrom_cases (fun c => !isDelimiter delim c) full pos with
      ⟨hall, heq⟩ | ⟨w, c, rest, hdrop, hw, hc, heq⟩
    · have hnone := pieces_separators_append (isDelimiter delim) (by simpa using hall) []
      rw [List.append_nil, pieces_nil] at hnone
      rw [findFirstNotOf, heq, splitByFirstOf, hnone, List.append_nil]
    obtain ⟨-, hbegin⟩ := substr_of_drop hdrop
    have hlen := congrArg List.length hdrop
    simp only [List.length_append, List.length_cons, List.length_drop] at hlen
    rw [findFirstNotOf, heq, hdrop, pieces_separators_append _ (by simpa using hw), ← hbegin]
    rcases findFrom_cases (isDelimiter delim) full (pos + w.length) with
      ⟨hall, hend⟩ | ⟨v, e, rest', hpiece, hv, he, hend⟩
    · rw [splitByFirstOf_last result hend, pieces_eq_singleton _ (by simp [hbegin]) hall]
    · -- the piece has a character, so the search behind it starts further on
      have hne : v ≠ [] := by
        rintro rfl
        simp_all
      have hpos : 0 < v.length := List.length_pos_iff.mpr hne
      obtain ⟨hsubstr, hrest⟩ := substr_of_drop hpiece
      rw [splitByFirstOf_next result hend, hsubstr, ih _ _ (by omega), hpiece, hrest,
        pieces_append _ hne hv (by simpa using he), List.append_assoc, List.singleton_append]

theorem chars_eq_singleton {delim : List Byte}
    (h : delim.getD 0 0 ≠ 0 ∧ delim.getD 1 0 = 0) : chars delim = [delim.getD 0 0] := by
  cases delim with
  | nil => exact absurd rfl h.1
  | cons c delim =>
    have hc : c ≠ 0 := h.1
    cases delim with
    | nil => simp [chars, strlen, hc]
    | cons d delim =>
      have hd : d = 0 := h.2
      simp [chars, strlen, hc, hd]

theorem isDelimiter_iff {delim : List Byte} {c : Byte} (h : chars delim = [c]) (x : Byte) :
    isDelimiter delim x = true ↔ x = c := by
  simp [isDelimiter, h]

/-- `SplitStringUsing` on any string and any delimiters. -/
theorem splitStringUsing_eq (full delim : List Byte) (result : List (List Byte)) :
    splitStringUsing full delim result = result ++ pieces (isDelimiter delim) full := by
  rw [splitStringUsing, splitStringToIteratorUsing]
  by_cases hone : delim.getD 0 0 ≠ 0 ∧ delim.getD 1 0 = 0
  · rw [if_pos hone, splitByChar_eq (isDelimiter_iff (chars_eq_singleton hone))]
  · rw [if_neg hone, splitByFirstOf_eq, List.drop_zero]

/-- The maximal runs without a delimiter, and nothing else, in their order; with one
delimiter both paths find them. -/
theorem splitStringUsing_runs (full delim : List Byte) (result : List (List Byte)) :
    (∃ runs : List (MaximalRun (isDelimiter delim) full), ListsRuns runs ∧
      (∀ runs' : List (MaximalRun (isDelimiter delim) full), ListsRuns runs' → runs' = runs) ∧
      splitStringUsing full delim result = result ++ runs.map (·.text)) ∧
    ∀ c, chars delim = [c] → splitByChar c full result =
      splitByFirstOf full delim (findFirstNotOf full delim 0) result := by
  refine ⟨?_, fun c hc => ?_⟩
  · obtain ⟨runs, hruns, htexts⟩ := exists_runs (isDelimiter delim) full
    refine ⟨runs, hruns, fun runs' h => h.unique hruns, ?_⟩
    rw [splitStringUsing_eq, htexts]
  · rw [splitByChar_eq (isDelimiter_iff hc), splitByFirstOf_eq, List.drop_zero]

theorem splitStringUsing_comma :
    splitStringUsing (ascii ",a,,bc,") (ascii ",") [] = [ascii "a", ascii "bc"] ∧
    splitByChar 44 (ascii ",a,,bc,") [] =
      splitByFirstOf (ascii ",a,,bc,") (ascii ",") (findFirstNotOf (ascii ",a,,bc,") (ascii ",") 0)
        [] :=
  ⟨by decide +kernel, (splitStringUsing_runs (ascii ",a,,bc,") (ascii ",") []).2 44 (by decide)⟩

/-! `SplitStringAllowEmpty` -/

section

variable {full delim : List Byte} {pieces i : Int} {beginIndex endIndex : ℕ}
  (result : List (List Byte))

theorem splitAllowEmptyFrom_stop (h : ¬ (i < pieces - 1 ∨ pieces = 0)) :
    splitAllowEmptyFrom full delim pieces i beginIndex result =
      result ++ [full.drop beginIndex] := by
  rw [splitAllowEmptyFrom, if_neg h]

theorem splitAllowEmptyFrom_last (hend : findFirstOf full delim beginIndex = none) :
    splitAllowEmptyFrom full delim pieces i beginIndex result =
      result ++ [full.drop beginIndex] := by
  rw [splitAllowEmptyFrom]
  split
  · split
    · rfl
    · simp_all
  · rfl

theorem splitAllowEmptyFrom_next (h : i < pieces - 1 ∨ pieces = 0)
    (hend : findFirstOf full delim beginIndex = some endIndex) :
    splitAllowEmptyFrom full delim pieces i beginIndex result =
      splitAllowEmptyFrom full delim pieces ((i + 1).bmod (2 ^ 32)) (endIndex + 1)
        (result ++ [substr full beginIndex (endIndex - beginIndex)]) := by
  rw [splitAllowEmptyFrom, if_pos h]
  split
  · simp_all
  · simp_all

end

/-- Without a bound on the pieces the counter plays no part. -/
theorem splitAllowEmptyFrom_zero (full delim : List Byte) (i : Int) (beginIndex : ℕ)
    (result : List (List Byte)) :
    splitAllowEmptyFrom full delim 0 i beginIndex result =
      result ++ (full.drop beginIndex).splitOnP (isDelimiter delim) := by
  generalize hdrop : full.drop beginIndex = s
  induction s using separator_induction (isDelimiter delim) generalizing i beginIndex result with
  | last w hw =>
    have hend : findFirstOf full delim beginIndex = none := findFrom_none (by rwa [hdrop])
    rw [splitAllowEmptyFrom_last result hend, List.splitOnP_eq_singleton hw, hdrop]
  | next w c rest hw hc ih =>
    have hend : findFirstOf full delim beginIndex = some (beginIndex + w.length) :=
      findFrom_some hdrop hw hc
    obtain ⟨hsubstr, hrest⟩ := substr_of_drop_cons hdrop
    rw [splitAllowEmptyFrom_next result (.inr rfl) hend, hsubstr, ih _ _ _ hrest,
      List.splitOnP_append_cons_of_forall_mem hw c hc, List.append_assoc, List.singleton_append]

theorem splitStringAllowEmpty_eq (full delim : List Byte) (result : List (List Byte)) :
    splitStringAllowEmpty full delim result = result ++ full.splitOnP (isDelimiter delim) := by
  rw [splitStringAllowEmpty, splitStringToIteratorAllowEmpty, splitAllowEmptyFrom_zero,
    List.drop_zero]

/-- With `skip_empty` the empty pieces are left out, and nothing else changes. -/
theorem split_true_eq_filter (full delim : List Byte) :
    split full delim true = (split full delim false).filter (!·.isEmpty) := by
  rw [split, split, if_pos rfl, if_neg Bool.false_ne_true, splitStringUsing_eq,
    splitStringAllowEmpty_eq]
  rfl

end Voyager.StringUtil
