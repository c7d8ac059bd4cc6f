import LinearProgram.Model.Query

/-!
# Questions answered by position

Rows, columns and the values of a solution are kept in lists, where a question finds them by their
position. Read this way, a question has no fallback: if a position lies outside of its list, there
is no answer, not even an error.

* `Reading`: an answer, an error, or neither.
* `Model.reading`: every question, answered by position.
-/

namespace LinearProgram.Model

/-- **Readings.** A reading that looks outside of a list is `none`. -/
abbrev Reading (K : Type) := ExceptT (Error K) Option

namespace Reading

variable {K α : Type}

/-- What a list holds at a position. -/
def entry (items : List α) (position : Nat) : Reading K α :=
  ExceptT.mk (items[position]?.map .ok)

/-- The position one below a number. There is none below zero. -/
def below (number : Nat) : Reading K Nat :=
  ExceptT.mk (if number = 0 then none else some (.ok (number - 1)))

/-- The position of row or column `number` out of `count`, or an error if there is no such one. -/
def position (axis : Axis) (number count : Nat) : Reading K Nat :=
  if number = 0 ∨ count < number then throw (.indexOutOfRange axis number count)
  else return number - 1

end Reading

open Reading

variable {K E : Type}

/-- Row `i`. -/
def readRow (m : Model K E) (i : Nat) : Reading K (Row K) := do
  let position ← position .row i m.rowCount
  entry m.rows position

/-- Column `j`. -/
def readColumn (m : Model K E) (j : Nat) : Reading K (Column K) := do
  let position ← position .column j m.columnCount
  entry m.columns position

/-- The value of column `j` in the solution. -/
def readColumnValue (m : Model K E) (j : Nat) : Reading K K := do
  let s ← m.solved
  let position ← position .column j m.columnCount
  entry s.columns position

/-- The value of the first column with a name in the solution. -/
def readColumnValueByName (m : Model K E) (name : String) : Reading K K := do
  let _ ← m.solved
  match m.findColumn name with
  | some j => m.readColumnValue j
  | none => throw (.unknownName name)

variable [ExtendedScalar K]

/-- The value of row `i` in the solution. Where the engine has left it out, each stored coefficient
of the row is multiplied with the value of its column. -/
def readRowValue (m : Model K E) (i : Nat) : Reading K K := do
  let s ← m.solved
  let position ← position .row i m.rowCount
  match s.rows[position]? with
  | some value => return value
  | none =>
    let products ← (m.matrix.row i).mapM fun e => do
      let value ← entry s.columns (← below e.column)
      return e.value * value
    return Scalar.sum products

/-- **The answer to a question, by position.** The questions that are not named here look into no
list by position. -/
def reading (m : Model K E) : Query → Reading K (Value K E)
  | .rowName i => return .name (← m.readRow i).name
  | .columnName j => return .name (← m.readColumn j).name
  | .rowBound i => return .bound (← m.readRow i).bound
  | .columnBound j => return .bound (← m.readColumn j).bound
  | .coefficient j => do
    if j = 0 then return .scalar m.shift
    else return .scalar (← m.readColumn j).coefficient
  | .columnValue j => return .scalar (← m.readColumnValue j)
  | .columnValueByName name => return .scalar (← m.readColumnValueByName name)
  | .rowValue i => return .scalar (← m.readRowValue i)
  | q => m.answer q

end LinearProgram.Model
