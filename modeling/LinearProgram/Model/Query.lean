import LinearProgram.Model.Basic

/-!
# Questions to a model

Questions leave the model as it is. Values of a solution are given only for a solution that
belongs to the program as it stands; its absence is reported before a number out of range.

* `Model.rowValue`: the value of a row, taken from the engine or else computed.
* `Query`, `Model.answer`: every question, with its answer as a `Value`.
-/

namespace LinearProgram.Model

variable {K E : Type}

/-- The name of row `i`. -/
def rowName (m : Model K E) (i : Nat) : Except (Error K) (Option String) :=
  (m.row i).map Row.name

/-- The name of column `j`. -/
def columnName (m : Model K E) (j : Nat) : Except (Error K) (Option String) :=
  (m.column j).map Column.name

/-- The number of the first row with a name. -/
def findRow (m : Model K E) (name : String) : Option Nat :=
  numberOf (·.name == some name) m.rows

/-- The number of the first column with a name. -/
def findColumn (m : Model K E) (name : String) : Option Nat :=
  numberOf (·.name == some name) m.columns

/-- The bound of row `i`. -/
def rowBound (m : Model K E) (i : Nat) : Except (Error K) (Bound K) := (m.row i).map Row.bound

/-- The bound of column `j`. -/
def columnBound (m : Model K E) (j : Nat) : Except (Error K) (Bound K) :=
  (m.column j).map Column.bound

/-- The objective coefficient of column `j`; number 0 is the constant term. -/
def coefficient (m : Model K E) (j : Nat) : Except (Error K) K :=
  if j = 0 then .ok m.shift else (m.column j).map Column.coefficient

/-- Whether there is a solution. -/
def isSolved (m : Model K E) : Bool := m.solution.isSome

/-- The solution, which must be there. -/
def solved (m : Model K E) : Except (Error K) (Solution K) :=
  match m.solution with
  | some s => .ok s
  | none => .error .noSolution

/-- The objective value of the solution. -/
def objectiveValue (m : Model K E) : Except (Error K) K := m.solved.map Solution.objective

variable [ExtendedScalar K]

/-- The coefficient of row `i` and column `j`. -/
def matrixCoefficient (m : Model K E) (i j : Nat) : Except (Error K) K := do
  let _ ← m.row i
  let _ ← m.column j
  return m.matrix.get i j

/-- The value of column `j` in the solution. -/
def columnValue (m : Model K E) (j : Nat) : Except (Error K) K := do
  let s ← m.solved
  let _ ← m.column j
  return s.columns.getD (j - 1) 0

/-- The value of the first column with a name in the solution. -/
def columnValueByName (m : Model K E) (name : String) : Except (Error K) K := do
  let _ ← m.solved
  match m.findColumn name with
  | some j => m.columnValue j
  | none => throw (.unknownName name)

/-- The value of row `i` at given column values, from the stored coefficients. -/
def activity (m : Model K E) (columns : List K) (i : Nat) : K :=
  Scalar.sum ((m.matrix.row i).map fun e => e.value * columns.getD (e.column - 1) 0)

/-- **The value of row `i` in the solution.** The engine may have left it out. -/
def rowValue (m : Model K E) (i : Nat) : Except (Error K) K := do
  let s ← m.solved
  let _ ← m.row i
  -- An engine may report fewer row values than there are rows.
  return (s.rows[i - 1]?).getD (m.activity s.columns i)

/-- **The questions to a model.** -/
inductive Query where
  | name
  | direction
  | rowCount
  | columnCount
  | rowName (i : Nat)
  | columnName (j : Nat)
  | findRow (name : String)
  | findColumn (name : String)
  | rowBound (i : Nat)
  | columnBound (j : Nat)
  | coefficient (j : Nat)
  | matrixCoefficient (i j : Nat)
  | problem
  | isSolved
  | solution
  | objectiveValue
  | columnValue (j : Nat)
  | columnValueByName (name : String)
  | rowValue (i : Nat)
  | engine
  deriving Repr, DecidableEq

/-- **The values a call can give.** -/
inductive Value (K E : Type) where
  | unit
  | truth (b : Bool)
  | number (n : Nat)
  | found (n : Option Nat)
  | name (text : Option String)
  | direction (d : Direction)
  | scalar (x : K)
  | bound (b : Bound K)
  | problem (p : Problem K)
  | solution (s : Option (Solution K))
  | engine (e : E)

/-- **The answer to a question.** -/
def answer (m : Model K E) : Query → Except (Error K) (Value K E)
  | .name => .ok (.name m.name)
  | .direction => .ok (.direction m.direction)
  | .rowCount => .ok (.number m.rowCount)
  | .columnCount => .ok (.number m.columnCount)
  | .rowName i => (m.rowName i).map .name
  | .columnName j => (m.columnName j).map .name
  | .findRow name => .ok (.found (m.findRow name))
  | .findColumn name => .ok (.found (m.findColumn name))
  | .rowBound i => (m.rowBound i).map .bound
  | .columnBound j => (m.columnBound j).map .bound
  | .coefficient j => (m.coefficient j).map .scalar
  | .matrixCoefficient i j => (m.matrixCoefficient i j).map .scalar
  | .problem => .ok (.problem m.toProblem)
  | .isSolved => .ok (.truth m.isSolved)
  | .solution => .ok (.solution m.solution)
  | .objectiveValue => m.objectiveValue.map .scalar
  | .columnValue j => (m.columnValue j).map .scalar
  | .columnValueByName name => (m.columnValueByName name).map .scalar
  | .rowValue i => (m.rowValue i).map .scalar
  | .engine => .ok (.engine m.engine)

end LinearProgram.Model
