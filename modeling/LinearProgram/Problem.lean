import LinearProgram.Bound

/-!
# Linear programs

A problem asks for column values that make a linear objective as small or as large as possible,
while every column and every row stays within its bound. A row's value is a linear form in the
columns; the coefficients are given as a list of entries.

Rows and columns are numbered from 1.

* `Problem.dense`: the coefficients as a matrix. Entries of one cell add up in list order, and
  entries outside the matrix count for nothing.
* `Problem.activities`, `Problem.evaluate`: the values of the rows and of the objective at a point.
-/

namespace LinearProgram

/-- Whether the objective is to be made small or large. -/
inductive Direction where
  | minimize
  | maximize
  deriving Repr, DecidableEq, Inhabited

/-- The opposite direction. -/
def Direction.flip : Direction → Direction
  | .minimize => .maximize
  | .maximize => .minimize

/-- One coefficient of the constraint matrix. -/
structure Entry (K : Type) where
  row : Nat
  column : Nat
  value : K
  deriving Repr, DecidableEq

/-- **A linear program.** The objective is `shift` plus the sum of the coefficients in `objective`
times the column values. -/
structure Problem (K : Type) where
  direction : Direction
  shift : K
  objective : List K := []
  rowBounds : List (Bound K) := []
  columnBounds : List (Bound K) := []
  entries : List (Entry K) := []
  deriving Repr, DecidableEq

namespace Problem

variable {K : Type}

/-- The number of rows. -/
def numRows (p : Problem K) : Nat := p.rowBounds.length

/-- The number of columns. -/
def numColumns (p : Problem K) : Nat := p.columnBounds.length

/-- Appends a column with its bound and objective coefficient, and gives its number. -/
def addColumn (p : Problem K) (bound : Bound K) (coefficient : K) : Nat × Problem K :=
  (p.numColumns + 1,
    { p with
      columnBounds := p.columnBounds ++ [bound]
      objective := p.objective ++ [coefficient] })

/-- Appends a row with its bound, and gives its number. -/
def addRow (p : Problem K) (bound : Bound K) : Nat × Problem K :=
  (p.numRows + 1, { p with rowBounds := p.rowBounds ++ [bound] })

/-- Appends an entry to the constraint matrix. -/
def addEntry (p : Problem K) (row column : Nat) (value : K) : Problem K :=
  { p with entries := p.entries ++ [⟨row, column, value⟩] }

variable [ExtendedScalar K]

open Scalar

/-- An empty problem. -/
def empty (direction : Direction) : Problem K := { direction, shift := 0 }

/-- Whether an entry lies in the matrix of the problem. -/
def covers (p : Problem K) (e : Entry K) : Bool :=
  1 ≤ e.row && e.row ≤ p.numRows && 1 ≤ e.column && e.column ≤ p.numColumns

/-- Adds an entry to its cell of a matrix. -/
def accumulate (matrix : List (List K)) (e : Entry K) : List (List K) :=
  matrix.modify (e.row - 1) fun row => row.modify (e.column - 1) (· + e.value)

/-- **The constraint matrix**, one list for each row. -/
def dense (p : Problem K) : List (List K) :=
  (p.entries.filter p.covers).foldl accumulate (List.replicate p.numRows (zeros p.numColumns))

/-- The values of the rows at a point. -/
def activities (p : Problem K) (point : List K) : List K := p.dense.map (dot · point)

/-- **The objective at a point**, the shift included. -/
def evaluate (p : Problem K) (point : List K) : K := p.shift + dot p.objective point

/-- Whether the problem is fit for numerical work: the shift, the objective and the entries are
finite, and no bound holds a value that is not a number. -/
def wellFormed (p : Problem K) : Bool :=
  isFinite p.shift && p.objective.all isFinite && p.entries.all (isFinite ·.value) &&
    !p.rowBounds.any Bound.hasNaN && !p.columnBounds.any Bound.hasNaN

/-- **A feasible point**: one finite value for each column, every column and every row within its
bound. -/
structure Feasible (p : Problem K) (point : List K) : Prop where
  length_eq : point.length = p.numColumns
  finite : ∀ x ∈ point, isFinite x = true
  columns : ∀ c ∈ p.columnBounds.zip point, c.1.Admits c.2
  rows : ∀ r ∈ p.rowBounds.zip (p.activities point), r.1.Admits r.2

@[simp]
theorem length_accumulate (matrix : List (List K)) (e : Entry K) :
    (accumulate matrix e).length = matrix.length := by
  simp [accumulate]

/-- Adding to a cell keeps the length of every row. -/
theorem length_of_mem_accumulate {n : Nat} {matrix : List (List K)} {e : Entry K}
    (h : ∀ row ∈ matrix, row.length = n) : ∀ row ∈ accumulate matrix e, row.length = n := by
  intro row hrow
  obtain ⟨i, hi, rfl⟩ := List.getElem_of_mem hrow
  have hi' : i < matrix.length := by simpa using hi
  have hlen := h matrix[i] (List.getElem_mem hi')
  simp only [accumulate, List.getElem_modify]
  split <;> simpa using hlen

theorem length_foldl_accumulate (es : List (Entry K)) (matrix : List (List K)) :
    (es.foldl accumulate matrix).length = matrix.length := by
  induction es generalizing matrix with
  | nil => rfl
  | cons e es ih => rw [List.foldl_cons, ih, length_accumulate]

theorem length_of_mem_foldl_accumulate {n : Nat} (es : List (Entry K)) {matrix : List (List K)}
    (h : ∀ row ∈ matrix, row.length = n) :
    ∀ row ∈ es.foldl accumulate matrix, row.length = n := by
  induction es generalizing matrix with
  | nil => exact h
  | cons e es ih => exact ih (length_of_mem_accumulate h)

/-- The matrix has a list for each row. -/
@[simp]
theorem length_dense (p : Problem K) : p.dense.length = p.numRows := by
  rw [dense, length_foldl_accumulate, List.length_replicate]

/-- Each row of the matrix has a cell for each column. -/
theorem length_of_mem_dense (p : Problem K) : ∀ row ∈ p.dense, row.length = p.numColumns := by
  refine length_of_mem_foldl_accumulate _ fun row hrow => ?_
  rw [List.eq_of_mem_replicate hrow, length_zeros]

@[simp]
theorem length_activities (p : Problem K) (point : List K) :
    (p.activities point).length = p.numRows := by
  rw [activities, List.length_map, length_dense]

end Problem

end LinearProgram
