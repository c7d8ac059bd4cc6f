import LinearProgram.Engine
import LinearProgram.Simplex.FirstPhase

/-!
# The simplex method

A problem is put in standard form, the first phase finds a tableau without artificial variables if
there are any, and a second walk makes the objective as large as possible. The last tableau gives
the column values.

* `Simplex.optimize`: both phases on a tableau, with one budget of pivots.
* `Simplex.solve`: the answer to a problem.
-/

namespace LinearProgram

/-- **The simplex method** with its budget of pivots over both phases, and the tolerance of its
comparisons. -/
structure Simplex (K : Type) where
  maxIterations : Nat
  tolerance : K
  deriving Repr, DecidableEq

namespace Simplex

/-- The usual configuration. -/
def standard : Simplex Float := { maxIterations := 10000, tolerance := 1e-9 }

variable {K : Type}

section Phases

variable [Scalar K]

/-- The second phase: artificial variables may not enter any more. -/
def secondPhase (tolerance : K) (budget : Nat) (t : Tableau K) : Outcome K :=
  Walk.run tolerance t.artificialStart budget { tableau := t }

/-- Both phases. The second one has the budget that the first one leaves. -/
def optimize (method : Simplex K) (t : Tableau K) : Outcome K :=
  if t.artificialCount = 0 then
    secondPhase method.tolerance method.maxIterations t
  else
    let first := t.firstPhase method.tolerance method.maxIterations
    match first.status with
    | .failed _ => first
    | .optimal =>
      let second :=
        secondPhase method.tolerance (method.maxIterations - first.pivots) first.tableau
      { second with pivots := first.pivots + second.pivots }

end Phases

variable [ExtendedScalar K]

/-- The optimal solution of a problem at given column values. -/
def solutionAt (p : Problem K) (columns : List K) : Solution K :=
  .optimal (p.evaluate columns) columns (p.activities columns)

/-- **The answer to a problem.** -/
def solve (method : Simplex K) (p : Problem K) : Solution K :=
  if !p.wellFormed then .failed .numerical
  else
    match StandardForm.ofProblem p with
    | none => .failed .infeasible
    | some form =>
      let outcome := method.optimize (.ofStandardForm form)
      match outcome.status with
      | .failed reason => (Solution.failed reason).withIterations outcome.pivots
      | .optimal =>
        (solutionAt p (form.point outcome.tableau.basicPoint)).withIterations outcome.pivots

/-- The simplex method builds a new tableau for every problem, so it has nothing to discard. -/
instance : Engine (Simplex K) K where
  solve method p := (method.solve p, method)

end Simplex

end LinearProgram
