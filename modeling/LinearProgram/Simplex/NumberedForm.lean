import LinearProgram.Simplex.Positions
import LinearProgram.Simplex.StandardForm

/-!
# Standard form by position

The standard form of a problem, put together by position. A running number tells which variables
replace a column, and the coefficients of a linear form are added to the variables by these numbers.

* `dense?`: the constraint matrix, filled cell by cell.
* `Placement`: how a column is written in numbered variables.
* `Layout`: the columns placed so far, with the next number.
* `NumberedForm.ofProblem?`: the standard form.
-/

namespace LinearProgram

variable {K : Type}

/-- The constraint matrix, filled cell by cell. Entries outside of it are skipped. -/
def Problem.dense? [ExtendedScalar K] (p : Problem K) : Option (List (List K)) :=
  p.entries.foldlM (fun matrix e => do
    if p.covers e then
      let column ← Simplex.below? e.column
      Simplex.update? matrix (← Simplex.below? e.row) fun row =>
        Simplex.update? row column fun x => some (x + e.value)
    else return matrix) (List.replicate p.numRows (Scalar.zeros p.numColumns))

namespace Simplex

/-- **How a column is written** in numbered variables: `offset` plus each sign times the variable
with its number. -/
structure Placement (K : Type) where
  offset : K
  terms : List (Nat × K)
  deriving Repr, DecidableEq

/-- **A standard form by position.** -/
structure NumberedForm (K : Type) where
  varCount : Nat
  direction : Direction
  objective : List K
  constraints : List (Constraint K)
  columns : List (Placement K)
  deriving Repr, DecidableEq

/-- Whether all columns are written in variables of the form. -/
def NumberedForm.Fits (form : NumberedForm K) : Prop :=
  ∀ column ∈ form.columns, ∀ term ∈ column.terms, term.1 < form.varCount

/-- **The columns placed so far**: the next number, the variables that have a greatest value, and
the placements. -/
structure Layout (K : Type) where
  varCount : Nat := 0
  widths : List (Nat × K) := []
  columns : List (Placement K) := []
  deriving Repr, DecidableEq

section Placements

variable [Scalar K]

open Scalar

namespace Placement

/-- The value of the column at values of the variables. -/
def value? (column : Placement K) (y : List K) : Option K := do
  let products ← column.terms.mapM fun (k, sign) => do return sign * (← y[k]?)
  return column.offset + sum products

/-- A linear form in the variables, with the column added `a` times. -/
def addTo? (column : Placement K) (a : K) (form : List K) : Option (List K) :=
  column.terms.foldlM (fun form (k, sign) => update? form k fun x => some (x + a * sign)) form

end Placement

/-- A linear form in the variables, with a linear form in the columns added. A coefficient of zero
is added like any other, also to a column that has none, so that every number is looked up. -/
def spread? : List (Placement K) → List K → List K → Option (List K)
  | [], _, form => some form
  | column :: columns, coefficients, form => do
    let form ← column.addTo? (coefficients.headD 0) form
    spread? columns coefficients.tail form

/-- The value of a linear form in the columns where all variables are zero. -/
def fixedPart (columns : List (Placement K)) (coefficients : List K) : K :=
  (List.zipWith (fun column a => a * column.offset) columns coefficients).foldl (· + ·) 0

end Placements

variable [ExtendedScalar K]

open Scalar

/-- The layout with one more column. -/
def Layout.add (layout : Layout K) (b : Bound K) : Layout K :=
  let n := layout.varCount
  match b.lower?, b.upper? with
  | some l, some u =>
    if l == u then { layout with columns := layout.columns ++ [⟨l, []⟩] }
    else
      { varCount := n + 1
        widths := layout.widths ++ [(n, u - l)]
        columns := layout.columns ++ [⟨l, [(n, 1)]⟩] }
  | some l, none => { layout with varCount := n + 1, columns := layout.columns ++ [⟨l, [(n, 1)]⟩] }
  | none, some u => { layout with varCount := n + 1, columns := layout.columns ++ [⟨u, [(n, -1)]⟩] }
  | none, none =>
    { layout with varCount := n + 2, columns := layout.columns ++ [⟨0, [(n, 1), (n + 1, -1)]⟩] }

/-- The layout of columns, unless some bound is not consistent. -/
def Layout.ofBounds? (bounds : List (Bound K)) : Option (Layout K) :=
  bounds.foldlM (fun layout b => if b.consistent then some (layout.add b) else none) {}

namespace NumberedForm

/-- The constraint from a column with two different sides: its variable has a greatest value. -/
def widthConstraint? (varCount : Nat) (width : Nat × K) : Option (Constraint K) := do
  let coefficients ← put? (zeros varCount) width.1 1
  return ⟨coefficients, .le, width.2⟩

/-- The constraints from a row with the given coefficients and bound. -/
def rowConstraints? (layout : Layout K) (coefficients : List K) (b : Bound K) :
    Option (List (Constraint K)) := do
  let form ← spread? layout.columns coefficients (zeros layout.varCount)
  let fixed := fixedPart layout.columns coefficients
  match b.lower?, b.upper? with
  | none, none => return []
  | some l, none => return [⟨form, .ge, l - fixed⟩]
  | none, some u => return [⟨form, .le, u - fixed⟩]
  | some l, some u =>
    if l == u then return [⟨form, .eq, l - fixed⟩]
    else return [⟨form, .ge, l - fixed⟩, ⟨form, .le, u - fixed⟩]

/-- The constraints from all rows. A bound that is not consistent ends it without constraints. -/
def allRowConstraints? (layout : Layout K) :
    List (List K × Bound K) → Option (Option (List (Constraint K)))
  | [] => some (some [])
  | (coefficients, b) :: rows => do
    if !b.consistent then return none
    let constraints ← rowConstraints? layout coefficients b
    let others ← allRowConstraints? layout rows
    return others.map (constraints ++ ·)

/-- **The standard form of a problem** with the given matrix, unless some bound is not
consistent. -/
def ofProblem? (p : Problem K) (matrix : List (List K)) : Option (Option (NumberedForm K)) :=
  match Layout.ofBounds? p.columnBounds with
  | none => return none
  | some layout => do
    let objective ← spread? layout.columns p.objective (zeros layout.varCount)
    let widths ← layout.widths.mapM (widthConstraint? layout.varCount)
    let rows ← allRowConstraints? layout (matrix.zip p.rowBounds)
    return rows.map fun rows =>
      { varCount := layout.varCount
        direction := p.direction
        objective
        constraints := widths ++ rows
        columns := layout.columns }

end NumberedForm

end Simplex

end LinearProgram
