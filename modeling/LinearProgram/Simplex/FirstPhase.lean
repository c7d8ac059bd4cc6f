import LinearProgram.Simplex.Walk

/-!
# The first phase

A tableau with artificial variables describes a feasible point of the constraints only when all of
these are zero. The first phase walks to a tableau where their sum is as small as possible, then
takes the artificial variables out of the basis wherever another column can take their place, and
puts the objective back.

* `Tableau.auxiliary`: the tableau whose objective is the negated sum of the artificial variables.
* `Tableau.driveOut`: the exchange of artificial basic variables that are zero.
* `Tableau.withObjective`: the objective expressed in the variables that are not basic.
* `Tableau.conclude`: what comes after the walk.
* `Tableau.firstPhase`: the phase as a whole.
-/

namespace LinearProgram.Simplex.Tableau

variable {K : Type} [Scalar K]

open Scalar

/-- Whether the basic variable of a row is artificial. -/
def isArtificial (t : Tableau K) (row : BasicRow K) : Bool := t.artificialStart ≤ row.basic

/-- The negated sum of the artificial variables, before the basic ones are expressed. -/
def plainAuxiliary (t : Tableau K) : Equation K :=
  ⟨zeros t.artificialStart ++ List.replicate t.artificialCount (-1), 0⟩

theorem length_plainAuxiliary (t : Tableau K) :
    t.plainAuxiliary.coefficients.length = t.columnCount := by
  simp [plainAuxiliary, columnCount]

/-- The negated sum of the artificial variables, with the basic ones expressed by the others. -/
def auxiliaryObjective (t : Tableau K) : Equation K :=
  (t.rows.filter t.isArtificial).foldl (fun objective row => objective.plus row.toEquation)
    t.plainAuxiliary

/-- The tableau with the objective of the first phase. -/
def auxiliary (t : Tableau K) : Tableau K := { t with objective := t.auxiliaryObjective }

/-- Whether some artificial variable is not zero, as far as the tolerance can tell. -/
def artificialRemains (tolerance : K) (t : Tableau K) : Bool :=
  t.rows.any fun row => t.isArtificial row && tolerance < magnitude row.rhs

/-- The first column before the artificial ones with a coefficient other than zero in a row, as
far as the tolerance can tell. -/
def replacement (tolerance : K) (t : Tableau K) (row : BasicRow K) : Option Nat :=
  (row.coefficients.take t.artificialStart).findIdx? (tolerance < magnitude ·)

/-- The tableau after the basic variable of row `r` has been exchanged, if it is artificial and
another column can take its place. A row where none can says nothing about the other variables. -/
def driveOutRow (tolerance : K) (t : Tableau K) (r : Nat) : Option (Tableau K) :=
  match t.rows[r]? with
  | none => some t
  | some row =>
    if t.isArtificial row then
      match t.replacement tolerance row with
      | none => some t
      | some c => t.pivot tolerance r c
    else some t

/-- The tableau after all rows have been driven out, in order. -/
def driveOut (tolerance : K) (t : Tableau K) : Option (Tableau K) :=
  (List.range t.rows.length).foldlM (driveOutRow tolerance) t

/-- The objective without the basic variable of a row, if its coefficient is not zero as far as
the tolerance can tell. -/
def priceOut (tolerance : K) (objective : Equation K) (row : BasicRow K) : Equation K :=
  let ratio := objective.coefficient row.basic
  if tolerance < magnitude ratio then objective.minus ratio row.toEquation else objective

/-- The tableau with another objective, expressed in the variables that are not basic. -/
def withObjective (tolerance : K) (objective : Equation K) (t : Tableau K) : Tableau K :=
  { t with objective := t.rows.foldl (priceOut tolerance) objective }

/-- What the first phase makes of the end of its walk. -/
def conclude (tolerance : K) (t : Tableau K) (search : Outcome K) : Outcome K :=
  match search.status with
  -- The objective has an upper limit, whatever the walk says.
  | .failed .unbounded => { search with status := .failed .numerical }
  | .failed _ => search
  | .optimal =>
    if search.tableau.artificialRemains tolerance then
      { search with status := .failed .infeasible }
    else
      match search.tableau.driveOut tolerance with
      | none => { search with status := .failed .numerical }
      | some driven => { search with tableau := driven.withObjective tolerance t.objective }

/-- **The first phase.** The negated sum of the artificial variables is at most zero, so a walk
that finds it unbounded has suffered from rounding. -/
def firstPhase (tolerance : K) (budget : Nat) (t : Tableau K) : Outcome K :=
  t.conclude tolerance (Walk.run tolerance t.columnCount budget { tableau := t.auxiliary })

end LinearProgram.Simplex.Tableau
