import Voyager.SudokuSolver

/-!
The search of `SudokuSolver` on its tables is the search for a colouring. The tables
say what the board says at every moment: they are a function of the digits that are
set, and a digit that is taken back leaves no trace.
-/
namespace Voyager.SudokuSolver

open Lib.Colouring

/-- Two cells that may not have the same digit. -/
def Peers (k k' : Cell) : Prop :=
  k ≠ k' ∧ (k.1 = k'.1 ∨ k.2 = k'.2 ∨ boxOf k.1 k.2 = boxOf k'.1 k'.2)

abbrev Clues := Cell → Option Index

instance (b : Clues) (k : Cell) (n : Index) : Decidable (Free Peers b k n) := by
  unfold Free Peers
  infer_instance

def isFree (b : Clues) (k : Cell) (n : Index) : Bool := decide (Free Peers b k n)

/-- The digits that are in use in each unit, where `u` says which unit a cell is in. -/
def table (u : Cell → Index) (b : Clues) (i n : Index) : Bool :=
  decide (∃ k, u k = i ∧ b k = some n)

def symbolOf : Option Index → Byte
  | some i => symbol i
  | none => kEmpty

/-- The tables for the digits of `b`, whatever is on the board. -/
def marked (b : Clues) (board : Index → Index → Byte) : SudokuSolver :=
  ⟨table Prod.fst b, table Prod.snd b, table (fun k => boxOf k.1 k.2) b, board⟩

def state (b : Clues) : SudokuSolver := marked b fun row col => symbolOf (b (row, col))

theorem peers_symm {k k' : Cell} (h : Peers k k') : Peers k' k :=
  ⟨h.1.symm, h.2.imp Eq.symm (Or.imp Eq.symm Eq.symm)⟩

theorem not_peers_self (k : Cell) : ¬ Peers k k := fun h => h.1 rfl

theorem isFree_iff (b : Clues) (k : Cell) (n : Index) : isFree b k n = true ↔ Free Peers b k n :=
  decide_eq_true_iff

section Tables

variable {b : Clues} {k : Cell} {n : Index}

theorem assign_assign_false {t : Index → Index → Bool} {i n : Index} (h : t i n = false) :
    assign (assign t i n true) i n false = t := by
  have hsame : Function.update (t i) n false = t i := by
    rw [← h, Function.update_eq_self]
  simp [assign, hsame]

theorem table_update (u : Cell → Index) (hk : b k = none) :
    table u (Function.update b k (some n)) = assign (table u b) (u k) n true := by
  funext i n'
  rw [assign, Bool.eq_iff_iff, table, decide_eq_true_iff]
  by_cases hi : i = u k
  · subst hi
    rw [Function.update_self]
    by_cases hn : n' = n
    · subst hn
      simp only [Function.update_self, iff_true]
      exact ⟨k, rfl, Function.update_self ..⟩
    · rw [Function.update_of_ne hn, table, decide_eq_true_iff]
      refine exists_congr fun k' => and_congr_right fun _ => ?_
      by_cases hk' : k' = k
      · subst hk'
        simp [hk, Ne.symm hn]
      · rw [Function.update_of_ne hk']
  · rw [Function.update_of_ne hi, table, decide_eq_true_iff]
    refine exists_congr fun k' => and_congr_right fun hu => ?_
    have hk' : k' ≠ k := by
      rintro rfl
      exact hi hu.symm
    rw [Function.update_of_ne hk']

theorem mark_marked (board : Index → Index → Byte) (hk : b k = none) :
    (marked b board).mark k.1 k.2 n true = marked (Function.update b k (some n)) board := by
  simp only [mark, marked, table_update _ hk]

theorem taken_marked (board : Index → Index → Byte) (hk : b k = none) :
    (marked b board).taken k.1 k.2 n = !isFree b k n := by
  rw [Bool.eq_iff_iff, Bool.not_eq_true', Bool.eq_false_iff, ne_eq, isFree_iff]
  simp only [taken, marked, table, Bool.or_eq_true, decide_eq_true_iff, Free, Peers]
  constructor
  · rintro ((⟨k', hu, hk'⟩ | ⟨k', hu, hk'⟩) | ⟨k', hu, hk'⟩) hfree
    all_goals
      have hne : k ≠ k' := by
        rintro rfl
        rw [hk] at hk'
        cases hk'
      refine hfree k' ⟨hne, ?_⟩ hk'
    · exact .inl hu.symm
    · exact .inr (.inl hu.symm)
    · exact .inr (.inr hu.symm)
  · intro h
    push Not at h
    obtain ⟨k', ⟨-, hunit⟩, hk'⟩ := h
    rcases hunit with hu | hu | hu
    · exact .inl (.inl ⟨k', hu.symm, hk'⟩)
    · exact .inl (.inr ⟨k', hu.symm, hk'⟩)
    · exact .inr ⟨k', hu.symm, hk'⟩

theorem board_update (b : Clues) (k : Cell) (value : Option Index) :
    (fun row col => symbolOf (Function.update b k value (row, col))) =
      Function.update (fun row col => symbolOf (b (row, col))) k.1
        (Function.update (fun col => symbolOf (b (k.1, col))) k.2 (symbolOf value)) := by
  obtain ⟨row, col⟩ := k
  funext row' col'
  by_cases hrow : row' = row
  · subst hrow
    by_cases hcol : col' = col
    · subst hcol
      simp
    · simp [hcol]
  · simp [hrow]

theorem setBoard_symbol (hk : b k = none) :
    ((state b).mark k.1 k.2 n true).setBoard k.1 k.2 (symbol n) =
      state (Function.update b k (some n)) := by
  rw [state, mark_marked _ hk, state, board_update]
  rfl

/-- What is taken back is what was set. -/
theorem unmark_state (hk : b k = none) (hfree : isFree b k n = true) :
    ((state (Function.update b k (some n))).mark k.1 k.2 n false).setBoard k.1 k.2 kEmpty =
      state b := by
  have htaken := taken_marked (n := n) (fun row col => symbolOf (b (row, col))) hk
  rw [hfree, taken, Bool.not_true, Bool.or_eq_false_iff, Bool.or_eq_false_iff] at htaken
  have hrows : table Prod.fst b k.1 n = false := htaken.1.1
  have hcols : table Prod.snd b k.2 n = false := htaken.1.2
  have hboxes : table (fun k => boxOf k.1 k.2) b (boxOf k.1 k.2) n = false := htaken.2
  have hboard : (fun row col => symbolOf (b (row, col))) =
      Function.update (fun row col => symbolOf (Function.update b k (some n) (row, col))) k.1
        (Function.update (fun col => symbolOf (Function.update b k (some n) (k.1, col))) k.2
          kEmpty) := by
    have hback : Function.update (Function.update b k (some n)) k none = b := by
      rw [Function.update_idem, ← hk, Function.update_eq_self]
    have h := board_update (Function.update b k (some n)) k none
    rwa [hback] at h
  rw [state, state, setBoard, mark, marked, marked]
  simp only [table_update _ hk]
  rw [← hboard, assign_assign_false hrows, assign_assign_false hcols, assign_assign_false hboxes]

end Tables

/-- What `Solve` returns and leaves behind, by what is found. -/
def outcome (b : Clues) : Option Clues → Bool × SudokuSolver
  | some c => (true, state c)
  | none => (false, state b)

theorem tryDigits_eq {next : SudokuSolver → Bool × SudokuSolver} {found : Clues → Option Clues}
    (hnext : ∀ b, next (state b) = outcome b (found b)) {b : Clues} {k : Cell} (hk : b k = none)
    (digits : List Index) :
    tryDigits next k.1 k.2 digits (state b) = outcome b (digits.findSome? fun n =>
      if isFree b k n then found (Function.update b k (some n)) else none) := by
  induction digits with
  | nil => rfl
  | cons n rest ih =>
    rw [tryDigits, List.findSome?_cons]
    have htaken : (state b).taken k.1 k.2 n = !isFree b k n := taken_marked _ hk
    cases hfree : isFree b k n with
    | false =>
      rw [htaken, hfree]
      exact ih
    | true =>
      rw [htaken, hfree, if_pos rfl, setBoard_symbol hk, hnext]
      cases hfound : found (Function.update b k (some n)) with
      | some c => rfl
      | none =>
        simp only [outcome, Bool.not_true, Bool.false_eq_true, if_false, unmark_state hk hfree]
        exact ih

def cellsFrom (row col : ℕ) : List Cell := cells.drop (row * kSize + col)

theorem cellsFrom_cell (row col : Index) :
    cellsFrom row.val col.val = (row, col) :: cellsFrom row.val (col.val + 1) := by
  have hget : ∀ row col : Index, cells[row.val * kSize + col.val]? = some (row, col) := by decide
  obtain ⟨hlt, hcell⟩ := List.getElem?_eq_some_iff.mp (hget row col)
  rw [cellsFrom, List.drop_eq_getElem_cons hlt, hcell]
  rfl

theorem cellsFrom_end (row : ℕ) : cellsFrom row kSize = cellsFrom (row + 1) 0 := by
  rw [cellsFrom, cellsFrom, Nat.add_zero, Nat.succ_mul]

theorem cellsFrom_kSize : cellsFrom kSize 0 = [] := rfl

theorem symbolOf_eq_kEmpty {v : Option Index} : symbolOf v = kEmpty ↔ v = none := by
  cases v with
  | none => exact ⟨fun _ => rfl, fun _ => rfl⟩
  | some i =>
    refine ⟨fun h => ?_, nofun⟩
    have hne : ∀ i : Index, symbol i ≠ kEmpty := by decide
    exact absurd h (hne i)

/-- The induction is the recursion of `Solve`: over the cells that are left. -/
theorem solveFrom_eq (b : Clues) (row col : ℕ) (hrow : row < kSize ∨ row = kSize ∧ col = 0)
    (hcol : col ≤ kSize) : (state b).solveFrom row col =
      outcome b (search isFree (List.finRange kSize) (cellsFrom row col) b) := by
  generalize hs : state b = s
  induction s, row, col using solveFrom.induct generalizing b with
  | case1 s row col hrow' hcol' hset ih =>
    subst hs
    have hclue : b (⟨row, hrow'⟩, ⟨col, hcol'⟩) ≠ none := fun hnone =>
      hset (symbolOf_eq_kEmpty.mpr hnone)
    obtain ⟨i, hi⟩ := Option.ne_none_iff_exists'.mp hclue
    rw [solveFrom, dif_pos hrow', dif_pos hcol', if_pos hset, ih b (.inl hrow') hcol' rfl,
      cellsFrom_cell ⟨row, hrow'⟩ ⟨col, hcol'⟩, search, hi]
  | case2 s row col hrow' hcol' hset ih =>
    subst hs
    have hclue : b (⟨row, hrow'⟩, ⟨col, hcol'⟩) = none := symbolOf_eq_kEmpty.mp (not_not.mp hset)
    rw [solveFrom, dif_pos hrow', dif_pos hcol', if_neg hset,
      cellsFrom_cell ⟨row, hrow'⟩ ⟨col, hcol'⟩, search, hclue]
    exact tryDigits_eq (fun b' => ih (state b') b' (.inl hrow') hcol' rfl) hclue _
  | case3 s row col hrow' hcol' ih =>
    subst hs
    have hend : col = kSize := by omega
    subst hend
    rw [solveFrom, dif_pos hrow', dif_neg hcol', cellsFrom_end]
    refine ih b ?_ (by simp [kSize]) rfl
    omega
  | case4 s row col hrow' =>
    subst hs
    obtain ⟨rfl, rfl⟩ := hrow.resolve_left hrow'
    rw [solveFrom, dif_neg hrow', cellsFrom_kSize, search]
    rfl

/-! `InitSudoku`. -/

/-- The clues at the cells that have been looked at. -/
def restrict (clues : Clues) (done : List Cell) : Clues :=
  fun k => if k ∈ done then clues k else none

theorem restrict_append_none {clues : Clues} {done : List Cell} {k : Cell} (hk : clues k = none) :
    restrict clues (done ++ [k]) = restrict clues done := by
  funext k'
  by_cases h : k' = k
  · subst h
    simp [restrict, hk]
  · simp [restrict, h]

theorem restrict_append_some {clues : Clues} {done : List Cell} {k : Cell} {n : Index}
    (hk : clues k = some n) :
    restrict clues (done ++ [k]) = Function.update (restrict clues done) k (some n) := by
  funext k'
  by_cases h : k' = k
  · subst h
    simp [restrict, hk]
  · simp [restrict, h]

theorem index_symbolOf (v : Option Index) : index (symbolOf v) = v := by
  cases v with
  | none => rfl
  | some i =>
    have h : ∀ i : Index, index (symbol i) = some i := by decide
    exact h i

/-- The loop stops at the first clue that is in the way of another one. -/
theorem initFrom_marked {clues : Clues} {board : Index → Index → Byte}
    (hboard : ∀ k : Cell, board k.1 k.2 = symbolOf (clues k)) {done rest : List Cell}
    (hnodup : (done ++ rest).Nodup) (hdone : Proper Peers (restrict clues done)) :
    ∃ r, (marked (restrict clues done) board).initFrom rest = some r ∧
      (r.1 = true ↔ Proper Peers (restrict clues (done ++ rest))) ∧
      (r.1 = true → r.2 = marked (restrict clues (done ++ rest)) board) := by
  induction rest generalizing done with
  | nil =>
    rw [List.append_nil]
    exact ⟨_, rfl, iff_of_true rfl hdone, fun _ => rfl⟩
  | cons k rest ih =>
    have hassoc : done ++ k :: rest = (done ++ [k]) ++ rest := by simp
    rw [hassoc] at hnodup ⊢
    have hnew : k ∉ done := by
      rw [List.nodup_append, List.nodup_append] at hnodup
      exact fun hmem => hnodup.1.2.2 k hmem k (List.mem_singleton_self k) rfl
    have hnone : restrict clues done k = none := if_neg hnew
    have hcell : (marked (restrict clues done) board).board k.1 k.2 = symbolOf (clues k) := hboard k
    obtain ⟨row, col⟩ := k
    rw [initFrom, hcell, index_symbolOf]
    cases hk : clues (row, col) with
    | none =>
      have hempty : symbolOf none = kEmpty := rfl
      rw [if_pos hempty, ← restrict_append_none hk]
      rw [← restrict_append_none hk] at hdone
      exact ih hnodup hdone
    | some n =>
      have hset : symbolOf (some n) ≠ kEmpty := fun h => by cases symbolOf_eq_kEmpty.mp h
      rw [if_neg hset, Option.bind_some]
      have htaken : (marked (restrict clues done) board).taken row col n =
          !isFree (restrict clues done) (row, col) n := taken_marked board hnone
      rw [htaken]
      cases hfree : isFree (restrict clues done) (row, col) n with
      | true =>
        have hmark : (marked (restrict clues done) board).mark row col n true =
            marked (restrict clues (done ++ [(row, col)])) board := by
          rw [restrict_append_some hk]
          exact mark_marked board hnone
        rw [Bool.not_true, if_neg Bool.false_ne_true, hmark]
        apply ih hnodup
        rw [restrict_append_some hk]
        exact hdone.update (fun _ _ => peers_symm) not_peers_self ((isFree_iff _ _ _).mp hfree)
      | false =>
        rw [Bool.not_false, if_pos rfl]
        refine ⟨_, rfl, iff_of_false Bool.false_ne_true fun hproper => ?_, fun h => by cases h⟩
        rw [← Bool.not_eq_true, isFree_iff] at hfree
        apply hfree
        intro k' hpeers hk'
        have hmem : k' ∈ done := by
          by_contra hno
          rw [restrict, if_neg hno] at hk'
          cases hk'
        refine hproper (row, col) k' n hpeers ?_ ?_
        · rw [restrict, if_pos (by simp), hk]
        · rw [restrict, if_pos hmem] at hk'
          rw [restrict, if_pos (by simp [hmem]), hk']

/-! The answer to a puzzle. -/

def cluesOf (puzzle : List Byte) : Clues :=
  fun k => (puzzle[k.1.val * kSize + k.2.val]?).bind index

/-- A digit, or an empty cell in one of the two ways to write it. -/
def Symbol (c : Byte) : Prop := c = 32 ∨ c = kEmpty ∨ (index c).isSome

instance : DecidablePred Symbol := fun c =>
  inferInstanceAs (Decidable (c = 32 ∨ c = kEmpty ∨ (index c).isSome))

def textOf (grid : Cell → Index) : List Byte := cells.map fun k => symbol (grid k)

/-- What is to be answered: nothing when the clues contradict each other, and otherwise
the first of the solutions if there is one. -/
inductive Answers (clues : Clues) : List Byte → Prop
  | conflict : ¬ Proper Peers clues → Answers clues []
  | unsolvable : Proper Peers clues → (∀ grid, ¬ Completes Peers clues grid) →
      Answers clues (ascii "invalid sudoku!")
  | solved (grid : Cell → Index) : Completes Peers clues grid →
      (∀ grid', Completes Peers clues grid' → cells.map grid ≤ cells.map grid') →
      Answers clues (textOf grid)

theorem mem_cells (k : Cell) : k ∈ cells := by
  rw [cells, List.mem_flatMap]
  exact ⟨k.1, List.mem_finRange _, List.mem_map.mpr ⟨k.2, List.mem_finRange _, rfl⟩⟩

theorem nodup_cells : cells.Nodup := by decide

theorem restrict_cells (clues : Clues) : restrict clues cells = clues := by
  funext k
  rw [restrict, if_pos (mem_cells k)]

theorem proper_restrict_nil (clues : Clues) : Proper Peers (restrict clues []) := by
  intro k k' n _ hk
  rw [restrict, if_neg (by simp)] at hk
  cases hk

theorem initSudoku_spec (clues : Clues) (s : SudokuSolver)
    (hs : s = marked (restrict clues []) fun row col => symbolOf (clues (row, col))) :
    ∃ r, s.initSudoku = some r ∧ (r.1 = true ↔ Proper Peers clues) ∧
      (r.1 = true → r.2 = state clues) := by
  subst hs
  have h := @initFrom_marked clues (fun row col => symbolOf (clues (row, col))) (fun _ => rfl)
    [] cells nodup_cells (proper_restrict_nil clues)
  rwa [List.nil_append, restrict_cells] at h

theorem symbolOf_index {c : Byte} (h : Symbol c) :
    (if c ≠ 32 then c else kEmpty) = symbolOf (index c) := by
  rcases h with rfl | rfl | h
  · rfl
  · rfl
  · obtain ⟨i, hi⟩ := Option.isSome_iff_exists.mp h
    have hrange : 49 ≤ c.toNat ∧ c.toNat < 49 + kSize := by
      by_contra hno
      rw [index, dif_neg hno] at hi
      cases hi
    have hne : c ≠ 32 := by
      rintro rfl
      exact absurd hrange.1 (by decide)
    rw [if_pos hne, index, dif_pos hrange, symbolOf, symbol, Nat.sub_add_cancel hrange.1]
    exact UInt8.ofNat_toNat.symm

theorem create_eq {puzzle : List Byte} (hlen : puzzle.length = kSize * kSize)
    (hsymbols : ∀ c ∈ puzzle, Symbol c) :
    create puzzle = some (marked (restrict (cluesOf puzzle) []) fun row col =>
      symbolOf (cluesOf puzzle (row, col))) := by
  have hnone (u : Cell → Index) : table u (restrict (cluesOf puzzle) []) = fun _ _ => false := by
    funext i n
    simp [table, restrict]
  rw [create, dif_pos hlen, marked, hnone, hnone, hnone, Option.some.injEq,
    SudokuSolver.mk.injEq]
  refine ⟨rfl, rfl, rfl, ?_⟩
  funext row col
  have hlt : row.val * kSize + col.val < puzzle.length := by
    have hrow := row.isLt
    have hcol := col.isLt
    simp only [kSize] at *
    omega
  rw [cluesOf, List.getElem?_eq_getElem hlt, Option.bind_some]
  exact symbolOf_index (hsymbols _ (List.getElem_mem hlt))

theorem solveFrom_answers {clues : Clues} (hproper : Proper Peers clues) :
    Answers clues (if ((state clues).solveFrom 0 0).1 then ((state clues).solveFrom 0 0).2.text
      else ascii "invalid sudoku!") := by
  rw [solveFrom_eq clues 0 0 (.inl (by decide)) (Nat.zero_le _)]
  have hall : cellsFrom 0 0 = cells := rfl
  rw [hall]
  cases hsearch : search isFree (List.finRange kSize) cells clues with
  | none =>
    refine .unsolvable hproper fun grid hgrid => ?_
    obtain ⟨c, hc⟩ := search_complete isFree_iff List.mem_finRange hgrid
    rw [hsearch] at hc
    cases hc
  | some c =>
    obtain ⟨hc, hkeep, htotal⟩ :=
      search_sound isFree_iff (fun _ _ => peers_symm) not_peers_self hproper hsearch
    obtain ⟨grid, hgrid⟩ : ∃ grid : Cell → Index, ∀ k, c k = some (grid k) :=
      ⟨fun k => (c k).get (htotal k (mem_cells k)), fun k => by simp⟩
    have htext : (outcome clues (some c)).2.text = textOf grid := by
      simp only [outcome, state, marked, text, textOf, hgrid, symbolOf]
    rw [htext]
    refine .solved grid ⟨fun k n hk => ?_, fun k k' hpeers heq => ?_⟩ fun grid' hgrid' => ?_
    · have hc := hkeep k n hk
      rw [hgrid, Option.some.injEq] at hc
      exact hc
    · exact hc k k' (grid k) hpeers (hgrid k) (by rw [hgrid, heq])
    · exact search_first isFree_iff (List.pairwise_lt_finRange _) List.mem_finRange
        (fun _ _ => peers_symm) not_peers_self hsearch hproper (fun k _ => hgrid k) hgrid'

theorem solve_spec {puzzle : List Byte} (hlen : puzzle.length = kSize * kSize)
    (hsymbols : ∀ c ∈ puzzle, Symbol c) :
    ∃ s answer, create puzzle = some s ∧ s.solve = some answer ∧
      Answers (cluesOf puzzle) answer := by
  obtain ⟨⟨ok, t⟩, hr, hproper, hstate⟩ := initSudoku_spec (cluesOf puzzle) _ rfl
  refine ⟨_, _, create_eq hlen hsymbols, congrArg _ hr, ?_⟩
  cases ok with
  | false => exact .conflict fun h => by cases hproper.mpr h
  | true =>
    have ht : t = state (cluesOf puzzle) := hstate rfl
    subst ht
    exact solveFrom_answers (hproper.mp rfl)

/-- `Solve` for every puzzle of digits and empty cells. -/
theorem solve_answers (puzzle : List Byte) (hlen : puzzle.length = kSize * kSize)
    (hsymbols : ∀ c ∈ puzzle, Symbol c) :
    ∃ s answer, create puzzle = some s ∧ s.solve = some answer ∧
      Answers (cluesOf puzzle) answer :=
  solve_spec hlen hsymbols

def examplePuzzle : List Byte :=
  ascii "53  7    6  195    98    6 8   6   34  8 3  17   2   6 6    28    419  5    8  79"

theorem solve_answers_examplePuzzle :
    ∃ s answer, create examplePuzzle = some s ∧ s.solve = some answer ∧
      Answers (cluesOf examplePuzzle) answer :=
  solve_answers examplePuzzle (by decide) (by decide +kernel)

end Voyager.SudokuSolver
