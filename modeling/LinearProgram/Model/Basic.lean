import LinearProgram.Engine
import LinearProgram.Model.Error
import LinearProgram.SparseMatrix

/-!
# Models

A model is a linear program under construction, with the engine that solves it and the last
solution, as long as that still belongs to the program. Rows and columns are numbered from 1 in
the order in which they were added, and may have names.

* `Model`: the state.
* `Model.row`, `Model.column`: a row or column by number.
* `Model.toProblem`: the linear program as it stands.
-/

namespace LinearProgram

namespace Model

/-- A row of a model. -/
structure Row (K : Type) where
  name : Option String
  bound : Bound K
  deriving Repr, DecidableEq

/-- A column of a model. -/
structure Column (K : Type) where
  name : Option String
  bound : Bound K
  coefficient : K
  deriving Repr, DecidableEq

/-- A new row has no name and may take any value. -/
def Row.fresh {K : Type} : Row K := ⟨none, .free⟩

/-- A new column has no name, is fixed at zero and costs nothing. -/
def Column.fresh {K : Type} [Zero K] : Column K := ⟨none, .fixed 0, 0⟩

end Model

/-- **A model** with an engine of type `E`. -/
structure Model (K E : Type) where
  name : Option String
  direction : Direction
  /-- The constant term of the objective. -/
  shift : K
  rows : List (Model.Row K)
  columns : List (Model.Column K)
  matrix : SparseMatrix K
  /-- The last solution, if it belongs to the program as it stands. -/
  solution : Option (Solution K)
  /-- Whether the rows have changed since the engine was last asked. -/
  factorizationStale : Bool
  engine : E

namespace Model

variable {K E : Type}

/-- The entry with a number in a list that is numbered from 1. -/
def lookup {α : Type} (axis : Axis) (items : List α) (index : Nat) : Except (Error K) α :=
  match index with
  | 0 => .error (.indexOutOfRange axis 0 items.length)
  | position + 1 =>
    match items[position]? with
    | some item => .ok item
    | none => .error (.indexOutOfRange axis (position + 1) items.length)

/-- The number of the first entry of a list that satisfies a test. -/
def numberOf {α : Type} (test : α → Bool) (items : List α) : Option Nat :=
  (items.findIdx? test).map (· + 1)

/-- Row `i`. -/
def row (m : Model K E) (i : Nat) : Except (Error K) (Row K) := lookup .row m.rows i

/-- Column `j`. -/
def column (m : Model K E) (j : Nat) : Except (Error K) (Column K) := lookup .column m.columns j

/-- The number of rows. -/
def rowCount (m : Model K E) : Nat := m.rows.length

/-- The number of columns. -/
def columnCount (m : Model K E) : Nat := m.columns.length

/-- **The linear program as it stands.** -/
def toProblem (m : Model K E) : Problem K :=
  { direction := m.direction
    shift := m.shift
    objective := m.columns.map Column.coefficient
    rowBounds := m.rows.map Row.bound
    columnBounds := m.columns.map Column.bound
    entries := m.matrix.entries }

/-- An empty model that is to be made small by the given engine. -/
def ofEngine [Zero K] (engine : E) : Model K E :=
  { name := none
    direction := .minimize
    shift := 0
    rows := []
    columns := []
    matrix := .empty
    solution := none
    factorizationStale := false
    engine }

end Model

end LinearProgram
