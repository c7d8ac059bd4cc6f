import LinearProgram.Simplex.Tableau

/-!
# What a tableau says

A tableau stands for the vectors that satisfy its equations. In a canonical tableau each equation
is solved for its basic variable, so the vector with all other variables zero satisfies it, and
that vector is not negative.

* `Tableau.Solves`: the vectors of a tableau.
* `Tableau.Canonical`, `Tableau.Priced`: tableaus solved for their basic variables.
-/

namespace LinearProgram.Simplex

variable {K : Type} [Scalar K]

open Scalar

/-- Whether a vector satisfies an equation. -/
def Equation.Holds (e : Equation K) (x : List K) : Prop := (dot e.coefficients x == e.rhs) = true

namespace Tableau

/-- **The vectors of a tableau**: one value for each column, such that every equation of the
constraints holds. -/
structure Solves (t : Tableau K) (x : List K) : Prop where
  length_eq : x.length = t.columnCount
  holds : ∀ row ∈ t.rows, row.toEquation.Holds x

/-- **Canonical tableaus**: the basic variables are distinct, each has coefficient one in its own
row and zero in the others, and no right-hand side is negative. -/
structure Canonical (t : Tableau K) : Prop where
  shaped : t.Shaped
  distinct : (t.rows.map BasicRow.basic).Nodup
  unit : ∀ (i j : Nat) (row other : BasicRow K), t.rows[i]? = some row → t.rows[j]? = some other →
    other.coefficient row.basic = if i = j then 1 else 0
  nonneg : ∀ row ∈ t.rows, 0 ≤ row.rhs

/-- **Priced tableaus**: the objective row has coefficient zero at every basic variable. -/
def Priced (t : Tableau K) : Prop :=
  ∀ row ∈ t.rows, t.objective.coefficient row.basic = 0

end Tableau

end LinearProgram.Simplex
