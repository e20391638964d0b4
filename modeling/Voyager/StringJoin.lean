import Voyager.StringSplit

/-!
Joining strings, of util/string_util.cc, and splitting as its inverse: by one delimiter a
string is cut into pieces that join to it, and strings without the delimiter come back
from what they join to.
-/
namespace Voyager.StringUtil

open Lib.CString Lib.Pieces

/-- The first loop adds up a `size_t`; `isStart` is `iter == start`. -/
def joinLength (delimLength : ℕ) : Bool → List (List Byte) → ℕ → ℕ
  | _, [], length => length
  | isStart, s :: rest, length =>
    let length := if isStart then length else (length + delimLength) % 2 ^ 64
    joinLength delimLength false rest ((length + s.length) % 2 ^ 64)

/-- The second loop. -/
def joinFrom (delim : List Byte) (delimLength : ℕ) :
    Bool → List (List Byte) → List Byte → List Byte
  | _, [], result => result
  | isStart, s :: rest, result =>
    let result := if isStart then result else result ++ delim.take delimLength
    joinFrom delim delimLength false rest (result ++ s)

structure Joined where
  reserved : ℕ
  result : List Byte

/-- What `result` holds before is cleared. -/
def joinStringsIterator (components : List (List Byte)) (delim : List Byte) : Joined :=
  { reserved := joinLength (strlen delim) true components 0
    result := joinFrom delim (strlen delim) true components [] }

def joinStrings (components : List (List Byte)) (delim : List Byte) : List Byte :=
  (joinStringsIterator components delim).result

theorem joinFrom_false (delim : List Byte) {components : List (List Byte)} (hne : components ≠ [])
    (result : List Byte) :
    joinFrom delim (strlen delim) false components result =
      result ++ chars delim ++ (chars delim).intercalate components := by
  induction components generalizing result with
  | nil => exact absurd rfl hne
  | cons s rest ih =>
    by_cases hrest : rest = []
    · simp [joinFrom, hrest, chars]
    · rw [joinFrom, ih hrest, List.intercalate_cons_of_ne_nil hrest]
      simp [chars]

/-- The components with the delimiter between them. -/
theorem joinStrings_eq (components : List (List Byte)) (delim : List Byte) :
    joinStrings components delim = (chars delim).intercalate components := by
  rw [joinStrings, joinStringsIterator]
  cases components with
  | nil => rfl
  | cons s rest =>
    by_cases hrest : rest = []
    · simp [joinFrom, hrest]
    · rw [joinFrom, if_pos rfl, joinFrom_false delim hrest,
        List.intercalate_cons_of_ne_nil hrest, List.nil_append]

/-- The length that is reserved up front is that of the result. -/
theorem joinLength_eq (delim : List Byte) (isStart : Bool) (components : List (List Byte))
    (result : List Byte) :
    joinLength (strlen delim) isStart components (result.length % 2 ^ 64) =
      (joinFrom delim (strlen delim) isStart components result).length % 2 ^ 64 := by
  have hdelim : (delim.take (strlen delim)).length = strlen delim := length_chars delim
  induction components generalizing isStart result with
  | nil => rfl
  | cons s rest ih =>
    cases isStart with
    | true =>
      rw [joinLength, joinFrom, ← ih]
      simp
    | false =>
      rw [joinLength, joinFrom, ← ih]
      simp [hdelim, Nat.add_assoc]

theorem reserved_eq (components : List (List Byte)) (delim : List Byte) :
    (joinStringsIterator components delim).reserved =
      (joinStrings components delim).length % 2 ^ 64 :=
  joinLength_eq delim true components []

/-! One delimiter. -/

section

variable {delim : List Byte} {c : Byte} (hdelim : chars delim = [c])
include hdelim

theorem splitOnP_isDelimiter (s : List Byte) : s.splitOnP (isDelimiter delim) = s.splitOn c := by
  have hsep : isDelimiter delim = (· == c) := by
    funext x
    rw [Bool.eq_iff_iff, isDelimiter_iff hdelim, beq_iff_eq]
  rw [hsep, List.splitOn_eq_splitOnP]

/-- However many pieces are asked for, they join to what was split. -/
theorem splitAllowEmptyFrom_join (full : List Byte) (pieces i : Int) (beginIndex : ℕ)
    (result : List (List Byte)) :
    ∃ l, splitAllowEmptyFrom full delim pieces i beginIndex result = result ++ l ∧ l ≠ [] ∧
      [c].intercalate l = full.drop beginIndex := by
  generalize hdrop : full.drop beginIndex = s
  induction s using separator_induction (isDelimiter delim) generalizing i beginIndex result with
  | last w hw =>
    have hend : findFirstOf full delim beginIndex = none := findFrom_none (by rwa [hdrop])
    exact ⟨[w], by rw [splitAllowEmptyFrom_last result hend, hdrop], by simp, by simp⟩
  | next w x rest hw hx ih =>
    by_cases hmore : i < pieces - 1 ∨ pieces = 0
    · have hend : findFirstOf full delim beginIndex = some (beginIndex + w.length) :=
        findFrom_some hdrop hw hx
      obtain ⟨hsubstr, hrest⟩ := substr_of_drop_cons hdrop
      obtain ⟨l, heq, hne, hjoin⟩ := ih ((i + 1).bmod (2 ^ 32)) _ (result ++ [w]) hrest
      refine ⟨w :: l, ?_, by simp, ?_⟩
      · rw [splitAllowEmptyFrom_next result hmore hend, hsubstr, heq, List.append_assoc,
          List.singleton_append]
      · obtain rfl := (isDelimiter_iff hdelim x).mp hx
        rw [List.intercalate_cons_of_ne_nil hne, hjoin, List.append_assoc, List.singleton_append]
    · exact ⟨[w ++ x :: rest], by rw [splitAllowEmptyFrom_stop result hmore, hdrop], by simp,
        by simp⟩

theorem joinStrings_splitStringToIteratorAllowEmpty (full : List Byte) (pieces : Int) :
    joinStrings (splitStringToIteratorAllowEmpty full delim pieces []) delim = full := by
  obtain ⟨l, heq, -, hjoin⟩ := splitAllowEmptyFrom_join hdelim full pieces 0 0 []
  rw [splitStringToIteratorAllowEmpty, heq, joinStrings_eq, hdelim, List.nil_append, hjoin,
    List.drop_zero]

theorem splitStringAllowEmpty_joinStrings {l : List (List Byte)} (hl : l ≠ [])
    (hc : ∀ s ∈ l, c ∉ s) : splitStringAllowEmpty (joinStrings l delim) delim [] = l := by
  rw [splitStringAllowEmpty_eq, splitOnP_isDelimiter hdelim, joinStrings_eq, hdelim,
    List.splitOn_intercalate c hc hl, List.nil_append]

/-- Empty strings are lost, and the others come back. -/
theorem split_joinStrings {l : List (List Byte)} (hl : l ≠ []) (hc : ∀ s ∈ l, c ∉ s) :
    split (joinStrings l delim) delim true = l.filter (!·.isEmpty) := by
  rw [split_true_eq_filter, split, if_neg Bool.false_ne_true,
    splitStringAllowEmpty_joinStrings hdelim hl hc]

theorem split_false_eq (s : List Byte) : split s delim false = s.splitOn c := by
  rw [split, if_neg Bool.false_ne_true, splitStringAllowEmpty_eq, List.nil_append,
    splitOnP_isDelimiter hdelim]

theorem not_mem_of_mem_split {s w : List Byte} (hw : w ∈ split s delim true) : c ∉ w := by
  rw [split_true_eq_filter, split_false_eq hdelim, ← splitOnP_isDelimiter hdelim] at hw
  intro hc
  have hnot := not_separator_of_mem_splitOnP (List.mem_filter.mp hw).1 c hc
  rw [(isDelimiter_iff hdelim c).mpr rfl] at hnot
  cases hnot

/-- Where empty pieces are skipped, a string comes back when it has none, or is empty. -/
theorem joinStrings_split_iff (s : List Byte) :
    joinStrings (split s delim true) delim = s ↔ s = [] ∨ [] ∉ split s delim false := by
  constructor
  · intro hback
    by_cases hnone : split s delim true = []
    · rw [hnone] at hback
      exact .inl hback.symm
    · -- what is left holds no delimiter, so splitting `s` gives nothing else
      have hmem : ∀ w ∈ split s delim true, c ∉ w := fun w => not_mem_of_mem_split hdelim
      have hsame : split s delim false = split s delim true := by
        rw [split_false_eq hdelim, ← List.splitOn_intercalate c hmem hnone, ← hdelim,
          ← joinStrings_eq, hback]
      rw [hsame, split_true_eq_filter]
      exact .inr (by simp)
  · rintro (rfl | hne)
    · rw [split_true_eq_filter, split_false_eq hdelim]
      rfl
    · have hkeep : split s delim true = split s delim false := by
        rw [split_true_eq_filter, List.filter_eq_self]
        intro w hw
        have hw' : w ≠ [] := fun heq => hne (heq ▸ hw)
        simpa using hw'
      rw [hkeep]
      exact joinStrings_splitStringToIteratorAllowEmpty hdelim s 0

end

example : joinStrings (split (ascii "ok ok ok ok ok") (ascii " ") true) (ascii " ") =
    ascii "ok ok ok ok ok" := by decide +kernel

/-- Splitting and joining by one character other than NUL. -/
theorem split_join_inverse (c : Byte) (hc : c ≠ 0) :
    (∀ s, joinStrings (splitStringAllowEmpty s [c] []) [c] = s) ∧
    ∀ l : List (List Byte), l ≠ [] → (∀ s ∈ l, c ∉ s) →
      splitStringAllowEmpty (joinStrings l [c]) [c] [] = l ∧
      ((∀ s ∈ l, s ≠ []) → split (joinStrings l [c]) [c] true = l) := by
  have hdelim : chars [c] = [c] := by simp [chars, strlen, hc]
  refine ⟨fun s => joinStrings_splitStringToIteratorAllowEmpty hdelim s 0, fun l hl hmem => ?_⟩
  refine ⟨splitStringAllowEmpty_joinStrings hdelim hl hmem, fun hne => ?_⟩
  rw [split_joinStrings hdelim hl hmem, List.filter_eq_self]
  simpa using hne

theorem split_join_inverse_semicolon :
    joinStrings (splitStringAllowEmpty (ascii ";a;;b;") [59] []) [59] = ascii ";a;;b;" ∧
    splitStringAllowEmpty (joinStrings [[], ascii "a", []] [59]) [59] [] = [[], ascii "a", []] ∧
    split (joinStrings [ascii "a", ascii "bc"] [59]) [59] true = [ascii "a", ascii "bc"] := by
  have hinverse := split_join_inverse 59 (by decide)
  exact ⟨hinverse.1 _, (hinverse.2 _ (by decide) (by decide)).1,
    (hinverse.2 _ (by decide) (by decide)).2 (by decide)⟩

end Voyager.StringUtil
