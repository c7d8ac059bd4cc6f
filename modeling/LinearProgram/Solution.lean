import LinearProgram.Problem

/-!
# Solutions

The answer to a problem is a point with the values of the rows and of the objective, or the reason
why there is none.
-/

namespace LinearProgram

/-- Why a problem was not solved. -/
inductive Failure where
  /-- No point satisfies all bounds. -/
  | infeasible
  /-- The objective has no best value. -/
  | unbounded
  /-- The data or the arithmetic did not allow an answer. -/
  | numerical
  /-- The budget of iterations ran out. -/
  | iterationLimit
  deriving Repr, DecidableEq

/-- The description of a failure. -/
def Failure.message : Failure → String
  | .infeasible => "problem has no feasible solution"
  | .unbounded => "objective is unbounded"
  | .numerical => "numerical failure in the solving engine"
  | .iterationLimit => "iteration limit exceeded"

/-- How an attempt to solve a problem ended. -/
inductive Status where
  | optimal
  | failed (reason : Failure)
  deriving Repr, DecidableEq

namespace Status

/-- The name of a status. -/
def text : Status → String
  | optimal => "optimal"
  | failed .infeasible => "infeasible"
  | failed .unbounded => "unbounded"
  | failed .numerical => "numerical_failure"
  | failed .iterationLimit => "iteration_limit"

/-- The reason of a failure. -/
def failure? : Status → Option Failure
  | optimal => none
  | failed reason => some reason

/-- Whether the status is `optimal`. -/
def isOptimal : Status → Bool
  | optimal => true
  | failed _ => false

end Status

/-- **A solution**: the status, the objective value, one value for each column and each row, and
the number of pivots it took. -/
structure Solution (K : Type) where
  status : Status
  objective : K
  columns : List K := []
  rows : List K := []
  iterations : Nat := 0
  deriving Repr, DecidableEq

namespace Solution

variable {K : Type}

/-- An optimal solution with the given values. -/
def optimal (objective : K) (columns rows : List K) : Solution K :=
  { status := .optimal, objective, columns, rows }

/-- A failure. It has no values, and its objective is not a number. -/
def failed [ExtendedScalar K] (reason : Failure) : Solution K :=
  { status := .failed reason, objective := ExtendedScalar.nan }

/-- The same solution with another number of iterations. -/
def withIterations (s : Solution K) (iterations : Nat) : Solution K := { s with iterations }

end Solution

end LinearProgram
