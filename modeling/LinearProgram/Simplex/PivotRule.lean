import LinearProgram.Simplex.Tableau

/-!
# Pivot rules

Which column enters the basis and which row gives up its basic variable. A column may enter if its
coefficient in the objective row exceeds the tolerance.

* `PivotRule.largest` takes the largest such coefficient. It needs few pivots, but it can cycle
  through bases of the same point.
* `PivotRule.lowest` takes the lowest column, and on equal ratios the row with the lowest basic
  variable. It never cycles.

The row is the one that the entering variable drives to zero first: the least ratio of right-hand
side to coefficient.
-/

namespace LinearProgram.Simplex

/-- The two rules. -/
inductive PivotRule where
  | largest
  | lowest
  deriving Repr, DecidableEq

/-- A row that could leave: its number, its ratio and its basic variable. -/
structure Candidate (K : Type) where
  row : Nat
  ratio : K
  basic : Nat
  deriving Repr, DecidableEq

variable {K : Type} [Scalar K]

/-- Whether candidate `c` is to be preferred to `best`, which comes before it. -/
def Candidate.beats (rule : PivotRule) (c best : Candidate K) : Bool :=
  match rule with
  | .largest => c.ratio < best.ratio
  | .lowest => c.ratio < best.ratio || (c.ratio == best.ratio && c.basic < best.basic)

namespace Tableau

/-- The first place of the largest number above `bound`. -/
def argmaxAbove (bound : K) (costs : List K) : Option Nat :=
  (costs.zipIdx.foldl (fun best (cost, j) => if best.1 < cost then (cost, some j) else best)
    (bound, none)).2

/-- **The column to enter**, among the first `limit` columns. -/
def entering (tolerance : K) (limit : Nat) (rule : PivotRule) (t : Tableau K) : Option Nat :=
  let costs := t.objective.coefficients.take limit
  match rule with
  | .largest => argmaxAbove tolerance costs
  | .lowest => costs.findIdx? (tolerance < ·)

/-- A row as a candidate to leave when column `c` enters. It is passed over if its coefficient
there is at most the tolerance, or if its ratio is negative. -/
def candidate? (tolerance : K) (c : Nat) (row : BasicRow K) (i : Nat) : Option (Candidate K) :=
  let a := row.coefficient c
  if a ≤ tolerance then none
  -- A negative ratio comes from rounding; the row would become more wrong, not less.
  else if row.rhs / a < 0 then none
  else some ⟨i, row.rhs / a, row.basic⟩

/-- The candidates to leave when column `c` enters, in the order of rows. -/
def candidates (tolerance : K) (c : Nat) (t : Tableau K) : List (Candidate K) :=
  t.rows.zipIdx.filterMap fun (row, i) => candidate? tolerance c row i

/-- **The row to leave** when column `c` enters. -/
def leaving (tolerance : K) (rule : PivotRule) (c : Nat) (t : Tableau K) : Option Nat :=
  match t.candidates tolerance c with
  | [] => none
  | first :: others =>
    -- The first candidate stands until one beats it, even if its ratio is not a number.
    some (others.foldl (fun best c => if c.beats rule best then c else best) first).row

end Tableau

end LinearProgram.Simplex
