import LinearProgram.Simplex.StandardForm

/-!
# Tableaus

A tableau holds the constraints as equations, each solved for a basic variable of its own, and
the objective as one more equation. Its columns are the variables of the standard form, then the
slack variables, then the artificial ones.

* `Tableau.ofStandardForm`: the first tableau of a standard form.
* `Tableau.pivot`: exchanges a basic variable.
* `Tableau.Shaped`: all equations have the same length and name basic variables that exist.
-/

namespace LinearProgram.Simplex

variable {K : Type}

/-- **A linear equation**: the coefficients of all variables, and the right-hand side. -/
structure Equation (K : Type) where
  coefficients : List K
  rhs : K
  deriving Repr, DecidableEq

/-- An equation of the constraints with its basic variable. -/
structure BasicRow (K : Type) extends Equation K where
  basic : Nat
  deriving Repr, DecidableEq

/-- **A tableau**: the equations of the constraints, the objective row, and the number of columns
of each sort. -/
structure Tableau (K : Type) where
  rows : List (BasicRow K)
  objective : Equation K
  varCount : Nat
  slackCount : Nat
  artificialCount : Nat
  deriving Repr, DecidableEq

namespace Tableau

/-- The number of the first artificial column. -/
def artificialStart (t : Tableau K) : Nat := t.varCount + t.slackCount

/-- The number of columns. -/
def columnCount (t : Tableau K) : Nat := t.artificialStart + t.artificialCount

end Tableau

variable [Scalar K]

open Scalar

namespace Equation

/-- The coefficient of column `j`. -/
def coefficient (e : Equation K) (j : Nat) : K := e.coefficients.getD j 0

/-- The equation divided by a number. -/
def divide (e : Equation K) (d : K) : Equation K := ⟨e.coefficients.map (· / d), e.rhs / d⟩

/-- The equation plus another one. -/
def plus (e other : Equation K) : Equation K :=
  ⟨List.zipWith (· + ·) e.coefficients other.coefficients, e.rhs + other.rhs⟩

/-- The equation less a multiple of another one. -/
def minus (e : Equation K) (factor : K) (other : Equation K) : Equation K :=
  ⟨List.zipWith (fun x y => x - factor * y) e.coefficients other.coefficients,
    e.rhs - factor * other.rhs⟩

/-- The equation with column `j` removed by means of `source`, which has a one there. An equation
without that column is left alone. -/
def eliminate (e source : Equation K) (j : Nat) : Equation K :=
  if e.coefficient j == 0 then e else e.minus (e.coefficient j) source

/-- The equation with its right-hand side set to zero if it is within `tolerance` of it. -/
def settle (tolerance : K) (e : Equation K) : Equation K :=
  if magnitude e.rhs < tolerance then { e with rhs := 0 } else e

@[simp]
theorem length_divide (e : Equation K) (d : K) :
    (e.divide d).coefficients.length = e.coefficients.length := by simp [divide]

section Same

variable {e other : Equation K} (h : e.coefficients.length = other.coefficients.length)
include h

theorem length_plus : (e.plus other).coefficients.length = e.coefficients.length := by
  simp [plus, h]

theorem length_minus (factor : K) :
    (e.minus factor other).coefficients.length = e.coefficients.length := by
  simp [minus, h]

theorem length_eliminate (j : Nat) :
    (e.eliminate other j).coefficients.length = e.coefficients.length := by
  unfold eliminate
  split
  · rfl
  · exact length_minus h _

end Same

theorem length_settle (tolerance : K) (e : Equation K) :
    (e.settle tolerance).coefficients.length = e.coefficients.length := by
  unfold settle
  split <;> rfl

end Equation

namespace Tableau

/-- The number of constraints with a slack variable. -/
def countSlacks (cs : List (Constraint K)) : Nat := cs.countP (·.relation.hasSlack)

/-- The number of constraints with an artificial variable. -/
def countArtificials (cs : List (Constraint K)) : Nat := cs.countP (·.relation.hasArtificial)

/-- The equations of constraints, with slack variables numbered from `slack` and artificial ones
from `artificial` on, each among its own sort. -/
def initialRows (varCount slacks artificials : Nat) :
    Nat → Nat → List (Constraint K) → List (BasicRow K)
  | _, _, [] => []
  | slack, artificial, c :: cs =>
    match c.relation with
    | .le =>
      { coefficients := c.coefficients ++ single slacks slack 1 ++ zeros artificials
        rhs := c.rhs
        basic := varCount + slack } ::
        initialRows varCount slacks artificials (slack + 1) artificial cs
    | .ge =>
      { coefficients :=
          c.coefficients ++ single slacks slack (-1) ++ single artificials artificial 1
        rhs := c.rhs
        basic := varCount + slacks + artificial } ::
        initialRows varCount slacks artificials (slack + 1) (artificial + 1) cs
    | .eq =>
      { coefficients := c.coefficients ++ zeros slacks ++ single artificials artificial 1
        rhs := c.rhs
        basic := varCount + slacks + artificial } ::
        initialRows varCount slacks artificials slack (artificial + 1) cs

/-- **The first tableau of a standard form.** A pivot raises the objective, so the coefficients of
an objective to be made small change sign. -/
def ofStandardForm (form : StandardForm K) : Tableau K :=
  let constraints := form.constraints.map Constraint.normalize
  let slacks := countSlacks constraints
  let artificials := countArtificials constraints
  let costs := match form.direction with
    | .minimize => form.objective.map (-·)
    | .maximize => form.objective
  { rows := initialRows form.varCount slacks artificials 0 0 constraints
    objective := ⟨costs ++ zeros (slacks + artificials), 0⟩
    varCount := form.varCount
    slackCount := slacks
    artificialCount := artificials }

/-- Whether every right-hand side is finite. -/
def finiteRhs (t : Tableau K) : Bool :=
  t.rows.all (isFinite ·.rhs) && isFinite t.objective.rhs

/-- The tableau after the row `source`, solved for column `c`, has taken the place of row `r` and
has been used to remove column `c` everywhere else. -/
def exchange (t : Tableau K) (r c : Nat) (source : Equation K) : Tableau K :=
  { t with
    rows := t.rows.mapIdx fun i row =>
      if i = r then { source with basic := c }
      else { row.toEquation.eliminate source c with basic := row.basic }
    objective := t.objective.eliminate source c }

/-- The tableau with all right-hand sides of constraints within `tolerance` of zero set to zero. -/
def settle (tolerance : K) (t : Tableau K) : Tableau K :=
  { t with
    rows := t.rows.map fun row => { row.toEquation.settle tolerance with basic := row.basic } }

/-- **A pivot**: column `c` becomes the basic variable of row `r`. There is no result if the
coefficient to divide by is zero or not finite, or if a right-hand side stops being finite. -/
def pivot (tolerance : K) (t : Tableau K) (r c : Nat) : Option (Tableau K) :=
  match t.rows[r]? with
  | none => none
  | some row =>
    let p := row.coefficient c
    if !isFinite p || p == 0 then none
    else
      -- Rounding can leave a right-hand side just below zero where it should be zero.
      let next := (t.exchange r c (row.toEquation.divide p)).settle tolerance
      if next.finiteRhs then some next else none

/-- The values of the variables of the standard form where all variables that are not basic are
zero. -/
def basicPoint (t : Tableau K) : List K :=
  t.rows.foldl (fun y row => y.set row.basic row.rhs) (zeros t.varCount)

/-- There is a value for each variable. -/
theorem length_basicPoint (t : Tableau K) : t.basicPoint.length = t.varCount := by
  have hlength : (zeros t.varCount : List K).length = t.varCount := length_zeros _
  unfold basicPoint
  generalize (zeros t.varCount : List K) = point at hlength
  induction t.rows generalizing point with
  | nil => exact hlength
  | cons row rows ih => exact ih _ (by rw [List.length_set, hlength])

/-- **Tableaus in shape**: each equation has a coefficient for every column, and each basic
variable is one of the columns. -/
structure Shaped (t : Tableau K) : Prop where
  rows : ∀ row ∈ t.rows, row.coefficients.length = t.columnCount ∧ row.basic < t.columnCount
  objective : t.objective.coefficients.length = t.columnCount

end Tableau

end LinearProgram.Simplex
