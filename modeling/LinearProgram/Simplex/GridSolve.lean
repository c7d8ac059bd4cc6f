import LinearProgram.Simplex.Grid
import LinearProgram.Simplex.Solve

/-!
# The simplex method by position

The simplex method on a matrix that is changed cell by cell. It notes the standard form and every
tableau that it passes through.

* `Noting`: programs by position that note what they pass through.
* `Grid.walk`, `Grid.driveOut`: the loops that pivot.
* `Grid.firstPhase`, `Simplex.optimizeByPosition`: the phases.
* `Simplex.solveByPosition`: the answer to a problem.
-/

namespace LinearProgram

namespace Simplex

variable {K : Type}

/-- What a program passes through. -/
inductive Note (K : Type) where
  | form (form : NumberedForm K)
  | grid (g : Grid K)
  deriving Repr, DecidableEq

/-- Whether a note has the shape that it is to have. -/
def Note.Fits : Note K → Prop
  | .form f => f.Fits
  | .grid g => g.Fits

/-- **Programs that note what they pass through**, and that have no result if they look outside of a
list. -/
abbrev Noting (K : Type) := StateT (List (Note K)) Option

/-- Adds a note. -/
def noting (note : Note K) : Noting K Unit := modify (· ++ [note])

/-- The end of a walk: how it ended, at which tableau, and after how many pivots. -/
structure Ending (K : Type) where
  status : Status
  grid : Grid K
  pivots : Nat
  deriving Repr, DecidableEq

namespace Grid

variable [Scalar K]

/-- **A walk within a budget of pivots**, after `stalled` pivots without progress. Only the first
`limit` columns may enter, and `last` is the column of the right-hand sides. -/
def walk (tolerance : K) (limit last : Nat) : Nat → Grid K → Nat → Noting K (Ending K)
  | budget, g, stalled => do
    let rule := if patience ≤ stalled then .lowest else .largest
    match ← g.entering? tolerance limit rule with
    | none => return ⟨.optimal, g, 0⟩
    | some c =>
    match budget with
    | 0 => return ⟨.failed .iterationLimit, g, 0⟩
    | budget + 1 =>
    match ← g.leaving? tolerance rule c with
    | none => return ⟨.failed .unbounded, g, 0⟩
    | some r =>
    let rhs ← g.cell? r last
    let (next, allowed) ← g.pivot? tolerance r c
    noting (.grid next)
    if !allowed then return ⟨.failed .numerical, g, 0⟩
    let rest ← walk tolerance limit last budget next (if rhs == 0 then stalled + 1 else 0)
    return { rest with pivots := rest.pivots + 1 }

/-- The tableau after the basic variable of row `i` has been exchanged, if it is artificial and
another column can take its place. `none` says that the arithmetic does not allow the pivot. -/
def driveOutRow (tolerance : K) (g : Grid K) (i : Nat) : Noting K (Option (Grid K)) := do
  let basic ← g.basics[i]?
  if basic < g.artificialStart then return some g
  match ← g.replacement? tolerance i with
  | none => return some g
  | some j =>
    let (next, allowed) ← g.pivot? tolerance i j
    noting (.grid next)
    return if allowed then some next else none

/-- The tableau after the given rows have been driven out, in order. -/
def driveOut (tolerance : K) : List Nat → Grid K → Noting K (Option (Grid K))
  | [], g => return some g
  | i :: rows, g => do
    match ← g.driveOutRow tolerance i with
    | none => return none
    | some next => driveOut tolerance rows next

/-- The first phase after its walk, with the number of constraints and the objective to put back. -/
def conclude (tolerance : K) (count : Nat) (objective : List K) (search : Ending K) :
    Noting K (Ending K) :=
  match search.status with
  | .failed .unbounded => return { search with status := .failed .numerical }
  | .failed _ => return search
  | .optimal => do
    if ← search.grid.remains? tolerance then return { search with status := .failed .infeasible }
    match ← search.grid.driveOut tolerance (List.range count) with
    | none => return { search with status := .failed .numerical }
    | some driven =>
      let restored ← driven.restore? tolerance objective
      noting (.grid restored)
      return { search with grid := restored }

/-- **The first phase.** -/
def firstPhase (tolerance : K) (budget : Nat) (g : Grid K) : Noting K (Ending K) := do
  let count ← g.objectiveRow?
  let objective ← g.cells[count]?
  let auxiliary ← g.auxiliary?
  noting (.grid auxiliary)
  let last ← auxiliary.rhsColumn?
  let search ← auxiliary.walk tolerance (g.artificialStart + g.artificialCount) last budget 0
  conclude tolerance count objective search

/-- The second phase: artificial variables may not enter any more. -/
def secondPhase (tolerance : K) (budget : Nat) (g : Grid K) : Noting K (Ending K) := do
  g.walk tolerance g.artificialStart (← g.rhsColumn?) budget 0

end Grid

variable [Scalar K]

/-- Both phases. The second one has the budget that the first one leaves. -/
def optimizeByPosition (method : Simplex K) (g : Grid K) : Noting K (Ending K) := do
  if g.artificialCount = 0 then g.secondPhase method.tolerance method.maxIterations
  else
    let first ← g.firstPhase method.tolerance method.maxIterations
    match first.status with
    | .failed _ => return first
    | .optimal =>
      let second ← first.grid.secondPhase method.tolerance (method.maxIterations - first.pivots)
      return { second with pivots := first.pivots + second.pivots }

end Simplex

namespace Simplex

variable {K : Type} [ExtendedScalar K]

/-- **The answer to a problem**, by position. -/
def solveByPosition (method : Simplex K) (p : Problem K) : Noting K (Solution K) := do
  if !p.wellFormed then return .failed .numerical
  let matrix ← p.dense?
  match ← NumberedForm.ofProblem? p matrix with
  | none => return .failed .infeasible
  | some form =>
    noting (.form form)
    let g ← Grid.ofForm? form
    noting (.grid g)
    let ending ← method.optimizeByPosition g
    match ending.status with
    | .failed reason => return (Solution.failed reason).withIterations ending.pivots
    | .optimal =>
      let y ← ending.grid.point?
      let columns ← (form.columns.mapM (·.value? y) : Option (List K))
      let rows := matrix.map (Scalar.dot · columns)
      return (Solution.optimal (p.evaluate columns) columns rows).withIterations ending.pivots

end Simplex

end LinearProgram
