import LinearProgram.Simplex.NumberedForm
import LinearProgram.Simplex.PivotRule

/-!
# Tableaus by position

A tableau kept as one matrix: a row of cells for each constraint, the objective in the last row, and
the right-hand sides in the last column. It is changed cell by cell.

* `Grid`: a tableau as a matrix, with the basic variables of its rows.
* `Grid.Fits`: the matrix has the size that the numbers of columns tell.
* `Grid.ofForm?`: the first tableau of a standard form.
* `Grid.pivot?`, `Grid.entering?`, `Grid.leaving?`: one pivot.
* `Grid.auxiliary?`, `Grid.remains?`, `Grid.replacement?`, `Grid.restore?`: the first phase.
* `Grid.point?`: the values of the variables.
-/

namespace LinearProgram.Simplex

variable {K : Type}

/-- **A tableau as a matrix.** -/
structure Grid (K : Type) where
  cells : List (List K)
  basics : List Nat
  varCount : Nat
  slackCount : Nat
  artificialCount : Nat
  deriving Repr, DecidableEq

/-- **The size of a tableau**: each row has a cell for every column and one for its right-hand side,
each row but the last has a basic variable, and each basic variable is one of the columns. -/
structure Grid.Fits (g : Grid K) : Prop where
  width : ∀ row ∈ g.cells, row.length = g.varCount + g.slackCount + g.artificialCount + 1
  height : g.cells.length = g.basics.length + 1
  basics : ∀ basic ∈ g.basics, basic < g.varCount + g.slackCount + g.artificialCount

variable [Scalar K]

open Scalar

/-- A matrix that is being filled, with the basic variables so far and the next slack and artificial
columns. -/
structure Filling (K : Type) where
  cells : List (List K)
  basics : List Nat
  slack : Nat
  artificial : Nat
  deriving Repr, DecidableEq

/-- The filling with constraint `c` in row `i`. -/
def Filling.add? (varCount width : Nat) (filling : Filling K) (c : Constraint K) (i : Nat) :
    Option (Filling K) := do
  let row ← filling.cells[i]?
  let row ← overwrite? row c.coefficients varCount
  let row ← put? row (← below? width) c.rhs
  match c.relation with
  | .le =>
    let row ← put? row filling.slack 1
    return {
      cells := ← put? filling.cells i row
      basics := ← put? filling.basics i filling.slack
      slack := filling.slack + 1
      artificial := filling.artificial }
  | .ge =>
    let row ← put? row filling.slack (-1)
    let row ← put? row filling.artificial 1
    return {
      cells := ← put? filling.cells i row
      basics := ← put? filling.basics i filling.artificial
      slack := filling.slack + 1
      artificial := filling.artificial + 1 }
  | .eq =>
    let row ← put? row filling.artificial 1
    return {
      cells := ← put? filling.cells i row
      basics := ← put? filling.basics i filling.artificial
      slack := filling.slack
      artificial := filling.artificial + 1 }

namespace Grid

/-- The number of the first artificial column. -/
def artificialStart (g : Grid K) : Nat := g.varCount + g.slackCount

/-- **The first tableau of a standard form.** -/
def ofForm? (form : NumberedForm K) : Option (Grid K) := do
  let constraints := form.constraints.map Constraint.normalize
  let slacks := Tableau.countSlacks constraints
  let artificials := Tableau.countArtificials constraints
  let width := form.varCount + slacks + artificials + 1
  let filling ← constraints.zipIdx.foldlM
    (fun filling (c, i) => filling.add? form.varCount width c i)
    { cells := List.replicate (constraints.length + 1) (zeros width)
      basics := List.replicate constraints.length 0
      slack := form.varCount
      artificial := form.varCount + slacks : Filling K }
  let cells ← update? filling.cells constraints.length fun objective =>
    sweep 0 form.objective.length (fun objective j => update? objective j fun _ => do
      let cost ← form.objective[j]?
      return match form.direction with
        | .minimize => -cost
        | .maximize => cost) objective
  return {
    cells
    basics := filling.basics
    varCount := form.varCount
    slackCount := slacks
    artificialCount := artificials }

/-- The cell in row `i` and column `j`. -/
def cell? (g : Grid K) (i j : Nat) : Option K := do
  let row ← g.cells[i]?
  row[j]?

/-- The number of cells in a row, read off from the first one. -/
def width? (g : Grid K) : Option Nat := do return (← g.cells[0]?).length

/-- The column of the right-hand sides. -/
def rhsColumn? (g : Grid K) : Option Nat := do below? (← g.width?)

/-- The row of the objective, which is also the number of constraints. -/
def objectiveRow? (g : Grid K) : Option Nat := below? g.cells.length

/-- A row less a multiple of another one, such that column `c` is removed. -/
def eliminate? (width c : Nat) (source row : List K) : Option (List K) := do
  let factor ← row[c]?
  if factor == 0 then return row
  sweep 0 width (fun row j => update? row j fun x => do return x - factor * (← source[j]?)) row

/-- **A pivot** in row `r` and column `c`: the tableau that it leaves behind, and whether the
arithmetic allows it. -/
def pivot? (tolerance : K) (g : Grid K) (r c : Nat) : Option (Grid K × Bool) := do
  let width ← g.width?
  let last ← below? width
  let p ← g.cell? r c
  if !isFinite p || p == 0 then return (g, false)
  let basics ← put? g.basics r c
  let cells ← update? g.cells r <| sweep 0 width fun row j => update? row j fun x => some (x / p)
  let source ← cells[r]?
  let cells ← sweep 0 cells.length (fun cells i => update? cells i fun row =>
    if i = r then some row else eliminate? width c source row) cells
  let cells ← sweep 0 (← below? cells.length) (fun cells i => update? cells i fun row =>
    update? row last fun x => some (if magnitude x < tolerance then 0 else x)) cells
  let finite ← cells.allM fun row => do return isFinite (← row[last]?)
  return ({ g with cells, basics }, finite)

/-- The largest coefficient so far with its column, after column `j`. -/
def larger? (objective : List K) (best : K × Option Nat) (j : Nat) : Option (K × Option Nat) := do
  let x ← objective[j]?
  return if best.1 < x then (x, some j) else best

/-- **The column to enter**, among the first `limit` columns. -/
def entering? (tolerance : K) (limit : Nat) (rule : PivotRule) (g : Grid K) :
    Option (Option Nat) := do
  let objective ← g.cells[← g.objectiveRow?]?
  match rule with
  | .lowest => (List.range limit).findM? fun j => do return tolerance < (← objective[j]?)
  | .largest =>
    let best ← sweep 0 limit (larger? objective) (tolerance, none)
    return best.2

/-- Whether row `i` is to be preferred to a row before it, by their ratios. Under the rule `lowest`,
equal ratios are decided by the basic variables. -/
def wins? (rule : PivotRule) (g : Grid K) (ratio : K) (i : Nat) (least : K) (row : Nat) :
    Option Bool :=
  match rule with
  | .largest => return ratio < least
  | .lowest => do
    if ratio < least then return true
    if ratio == least then return (← g.basics[i]?) < (← g.basics[row]?)
    return false

/-- The best row so far to leave when column `c` enters, with its ratio, after row `i`. -/
def better? (tolerance : K) (rule : PivotRule) (c last : Nat) (g : Grid K)
    (best : Option (K × Nat)) (i : Nat) : Option (Option (K × Nat)) := do
  let a ← g.cell? i c
  if a ≤ tolerance then return best
  let ratio := (← g.cell? i last) / a
  if ratio < 0 then return best
  match best with
  | none => return some (ratio, i)
  | some (least, row) => return if ← g.wins? rule ratio i least row then some (ratio, i) else best

/-- **The row to leave** when column `c` enters. -/
def leaving? (tolerance : K) (rule : PivotRule) (c : Nat) (g : Grid K) : Option (Option Nat) := do
  let last ← g.rhsColumn?
  let best ← sweep 0 (← g.objectiveRow?) (g.better? tolerance rule c last) none
  return best.map Prod.snd

/-- The objective with row `i` added, if its basic variable is artificial. -/
def addRow? (width : Nat) (g : Grid K) (objective : List K) (i : Nat) : Option (List K) := do
  let basic ← g.basics[i]?
  if basic < g.artificialStart then return objective
  let row ← g.cells[i]?
  sweep 0 width (fun objective j => update? objective j fun x => do return x + (← row[j]?)) objective

/-- The tableau with the objective of the first phase. -/
def auxiliary? (g : Grid K) : Option (Grid K) := do
  let width ← g.width?
  let count ← g.objectiveRow?
  let objective ← sweep g.artificialStart (g.artificialStart + g.artificialCount)
    (fun objective j => put? objective j (-1)) (zeros width)
  let objective ← sweep 0 count (g.addRow? width) objective
  return { g with cells := ← put? g.cells count objective }

/-- Whether some artificial variable is not zero, as far as the tolerance can tell. -/
def remains? (tolerance : K) (g : Grid K) : Option Bool := do
  let last ← g.rhsColumn?
  (List.range (← g.objectiveRow?)).anyM fun i => do
    let basic ← g.basics[i]?
    if basic < g.artificialStart then return false
    return tolerance < magnitude (← g.cell? i last)

/-- The first column before the artificial ones with a coefficient other than zero in row `i`, as
far as the tolerance can tell. -/
def replacement? (tolerance : K) (g : Grid K) (i : Nat) : Option (Option Nat) :=
  (List.range g.artificialStart).findM? fun j => do return tolerance < magnitude (← g.cell? i j)

/-- The objective without the basic variable of row `i`, if its coefficient is not zero as far as
the tolerance can tell. -/
def priceOut? (tolerance : K) (width : Nat) (g : Grid K) (objective : List K) (i : Nat) :
    Option (List K) := do
  let basic ← g.basics[i]?
  let ratio ← objective[basic]?
  if tolerance < magnitude ratio then
    let row ← g.cells[i]?
    sweep 0 width
      (fun objective j => update? objective j fun x => do return x - ratio * (← row[j]?)) objective
  else return objective

/-- The tableau with another objective, expressed in the variables that are not basic. -/
def restore? (tolerance : K) (objective : List K) (g : Grid K) : Option (Grid K) := do
  let width ← g.width?
  let count ← g.objectiveRow?
  let objective ← sweep 0 count (g.priceOut? tolerance width) objective
  return { g with cells := ← put? g.cells count objective }

/-- The values of the variables with that of the basic variable of row `i`. -/
def setBasic? (last : Nat) (g : Grid K) (y : List K) (i : Nat) : Option (List K) := do
  let basic ← g.basics[i]?
  if basic < g.varCount then put? y basic (← g.cell? i last) else return y

/-- The values of the variables of the standard form where all variables that are not basic are
zero. -/
def point? (g : Grid K) : Option (List K) := do
  let last ← g.rhsColumn?
  sweep 0 g.basics.length (g.setBasic? last) (zeros g.varCount)

end Grid

end LinearProgram.Simplex
