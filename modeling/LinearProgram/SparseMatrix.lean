import Std.Data.TreeMap
import LinearProgram.Problem

/-!
# Sparse matrices

A matrix that stores only the cells with a value other than zero, in order of rows and, within a
row, of columns. Rows and columns are numbered from 1.

* `SparseMatrix.get`: the value of a cell, zero where nothing is stored.
* `SparseMatrix.set`: changes one cell; writing zero removes it.
* `SparseMatrix.entries`: the stored cells, in order.
-/

namespace LinearProgram

/-- **A sparse matrix**: its stored values by row and column. -/
structure SparseMatrix (K : Type) where
  cells : Std.TreeMap (Nat × Nat) K lexOrd.compare

namespace SparseMatrix

variable {K : Type}

/-- The matrix of zeros. -/
def empty : SparseMatrix K := ⟨∅⟩

/-- The stored cells, in order. -/
def entries (m : SparseMatrix K) : List (Entry K) :=
  m.cells.toList.map fun ((row, column), value) => ⟨row, column, value⟩

/-- The number of stored cells. -/
def size (m : SparseMatrix K) : Nat := m.cells.size

/-- The stored cells of a row, in order of columns. -/
def row (m : SparseMatrix K) (i : Nat) : List (Entry K) := m.entries.filter (·.row == i)

variable [ExtendedScalar K]

/-- **The value of a cell.** -/
def get (m : SparseMatrix K) (i j : Nat) : K := m.cells.getD (i, j) 0

/-- **The matrix with one cell changed.** -/
def set (m : SparseMatrix K) (i j : Nat) (value : K) : SparseMatrix K :=
  if value == 0 then ⟨m.cells.erase (i, j)⟩ else ⟨m.cells.insert (i, j) value⟩

@[simp]
theorem get_empty (i j : Nat) : (empty : SparseMatrix K).get i j = 0 := by
  simp [get, empty]

/-- A cell reads as it was last written, except that every zero reads as `0`. -/
theorem get_set (m : SparseMatrix K) (i j r c : Nat) (value : K) :
    (m.set i j value).get r c =
      if (i, j) = (r, c) then (if value == 0 then 0 else value) else m.get r c := by
  unfold set
  split <;> simp [get, Std.TreeMap.getD_erase, Std.TreeMap.getD_insert, *]

/-- The matrix with the first cells of row `i` changed, from column `j` on. -/
def setRow (m : SparseMatrix K) (i j : Nat) : List K → SparseMatrix K
  | [] => m
  | value :: values => (m.set i j value).setRow i (j + 1) values

/-- The matrix with a block of cells changed, from row `i` and column 1 on. The rows of the block
may differ in length. -/
def setBlock (m : SparseMatrix K) (i : Nat) : List (List K) → SparseMatrix K
  | [] => m
  | values :: block => (m.setRow i 1 values).setBlock (i + 1) block

end SparseMatrix

end LinearProgram
