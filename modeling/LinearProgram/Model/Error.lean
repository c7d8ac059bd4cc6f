import LinearProgram.Decimal
import LinearProgram.Solution

/-!
# Errors of a model

What can be wrong with a call, with the values that show it. `Error.message` words them.
-/

namespace LinearProgram.Model

/-- The two numberings of a model. -/
inductive Axis where
  | row
  | column
  deriving Repr, DecidableEq

/-- The name of an axis. -/
def Axis.text : Axis → String
  | .row => "row"
  | .column => "column"

/-- **Errors.** -/
inductive Error (K : Type) where
  /-- There is no row or column with that number. -/
  | indexOutOfRange (axis : Axis) (index count : Nat)
  /-- A name is too long. -/
  | nameTooLong (length : Nat)
  /-- A bound with these sides would admit nothing. -/
  | inconsistentBound (lower upper : K)
  /-- A block is larger than the matrix. -/
  | blockTooLarge (axis : Axis) (supplied available : Nat)
  /-- No column has that name. -/
  | unknownName (name : String)
  /-- There is no solution to read. -/
  | noSolution
  /-- The engine found no solution. -/
  | solveFailed (reason : Failure)
  deriving Repr, DecidableEq

/-- The longest name, in characters. -/
def maxNameLength : Nat := 255

/-- The description of an error. -/
def Error.message : Error Float → String
  | .indexOutOfRange axis index count =>
    axis.text ++ " index " ++ toString index ++ " out of range (problem has " ++
      toString count ++ ")"
  | .nameTooLong length =>
    "Name is " ++ toString length ++ " characters long, the limit is " ++ toString maxNameLength
  | .inconsistentBound lower upper =>
    "Invalid bound: no value fits lower (" ++ Decimal.text lower ++ ") and upper (" ++
      Decimal.text upper ++ ")"
  | .blockTooLarge axis supplied available =>
    "Matrix needs " ++ toString supplied ++ " " ++ axis.text ++ "s but the problem has " ++
      toString available
  | .unknownName name => "Unknown column: " ++ name
  | .noSolution => "No solution available"
  | .solveFailed reason => "Solve failed: " ++ reason.message

end LinearProgram.Model
