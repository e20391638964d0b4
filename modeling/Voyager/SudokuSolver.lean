import Voyager.Buffer
import Voyager.Lib.Colouring
import Mathlib.Data.Fintype.Prod

/-!
`SudokuSolver` of examples/sudoku: the board and the three tables of used digits,
which `Solve` changes in place and changes back where it has to give up. A row, a
column or a box is what the cells of it have in common, so a sudoku is a colouring.
-/
namespace Voyager

open Lib.Colouring

namespace SudokuSolver

def kSize : ℕ := 9

/-- An index of a table, and a digit less one. -/
abbrev Index := Fin kSize

abbrev Cell := Index × Index

def kEmpty : Byte := 46

end SudokuSolver

open SudokuSolver

structure SudokuSolver where
  rows : Index → Index → Bool
  cols : Index → Index → Bool
  subboard : Index → Index → Bool
  board : Index → Index → Byte

namespace SudokuSolver

/-- `table[i][n] = value`. -/
def assign (table : Index → Index → Bool) (i n : Index) (value : Bool) : Index → Index → Bool :=
  Function.update table i (Function.update (table i) n value)

/-- `row / 3 * 3 + col / 3`. -/
def boxOf (row col : Index) : Index :=
  ⟨row.val / 3 * 3 + col.val / 3, by
    have hrow := row.isLt
    have hcol := col.isLt
    simp only [kSize] at *
    omega⟩

/-- The constructor; the assertion is on the size. -/
def create (s : List Byte) : Option SudokuSolver :=
  if h : s.length = kSize * kSize then
    let cell (row col : Index) : Byte := s.get ⟨row.val * kSize + col.val, by
      have hrow := row.isLt
      have hcol := col.isLt
      simp only [kSize] at *
      omega⟩
    some ⟨fun _ _ => false, fun _ _ => false, fun _ _ => false,
      fun row col => if cell row col ≠ 32 then cell row col else kEmpty⟩
  else none

/-- `c - '1'` as an index; `none` is an access outside of the tables. -/
def index (c : Byte) : Option Index :=
  if h : 49 ≤ c.toNat ∧ c.toNat < 49 + kSize then some ⟨c.toNat - 49, by omega⟩ else none

/-- `i + '1'`. -/
def symbol (i : Index) : Byte := UInt8.ofNat (i.val + 49)

/-- The cells in the order of the two loops. -/
def cells : List Cell :=
  (List.finRange kSize).flatMap fun i => (List.finRange kSize).map fun j => (i, j)

/-- Whether `i` is in use in the row, in the column or in the box. -/
def taken (s : SudokuSolver) (row col i : Index) : Bool :=
  s.rows row i || s.cols col i || s.subboard (boxOf row col) i

/-- `rows_`, `cols_` and `subboard_` at a cell. -/
def mark (s : SudokuSolver) (row col i : Index) (value : Bool) : SudokuSolver :=
  { s with
    rows := assign s.rows row i value
    cols := assign s.cols col i value
    subboard := assign s.subboard (boxOf row col) i value }

def setBoard (s : SudokuSolver) (row col : Index) (c : Byte) : SudokuSolver :=
  { s with board := Function.update s.board row (Function.update (s.board row) col c) }

def initFrom (s : SudokuSolver) : List Cell → Option (Bool × SudokuSolver)
  | [] => some (true, s)
  | (row, col) :: rest =>
    if s.board row col = kEmpty then s.initFrom rest
    else
      (index (s.board row col)).bind fun n =>
        if s.taken row col n then some (false, s)
        else (s.mark row col n true).initFrom rest

def initSudoku (s : SudokuSolver) : Option (Bool × SudokuSolver) := s.initFrom cells

/-- The loop of `Solve` at an empty cell; `next` is `Solve(row, col + 1)`. -/
def tryDigits (next : SudokuSolver → Bool × SudokuSolver) (row col : Index) :
    List Index → SudokuSolver → Bool × SudokuSolver
  | [], s => (false, s)
  | i :: rest, s =>
    if s.taken row col i then tryDigits next row col rest s
    else
      let r := next ((s.mark row col i true).setBoard row col (symbol i))
      if r.1 then (true, r.2)
      else tryDigits next row col rest ((r.2.mark row col i false).setBoard row col kEmpty)

/-- `Solve(row, col)`. -/
def solveFrom (s : SudokuSolver) (row col : ℕ) : Bool × SudokuSolver :=
  if hrow : row < kSize then
    if hcol : col < kSize then
      if s.board ⟨row, hrow⟩ ⟨col, hcol⟩ ≠ kEmpty then s.solveFrom row (col + 1)
      else
        tryDigits (fun s => s.solveFrom row (col + 1)) ⟨row, hrow⟩ ⟨col, hcol⟩
          (List.finRange kSize) s
    else s.solveFrom (row + 1) 0
  else (true, s)
termination_by (kSize - row, kSize - col)

def text (s : SudokuSolver) : List Byte := cells.map fun k => s.board k.1 k.2

/-- `Solve()`. -/
def solve (s : SudokuSolver) : Option (List Byte) :=
  s.initSudoku.map fun r =>
    if r.1 then
      let r := r.2.solveFrom 0 0
      if r.1 then r.2.text else ascii "invalid sudoku!"
    else []

end SudokuSolver

end Voyager
