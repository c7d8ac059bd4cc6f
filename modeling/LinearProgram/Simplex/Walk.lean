import LinearProgram.Solution
import LinearProgram.Simplex.PivotRule

/-!
# Walks from basis to basis

The simplex method moves from tableau to tableau until no column may enter. As long as pivots make
progress it follows the rule `largest`; after sixteen pivots in a row without progress it follows
`lowest`, until the next pivot with progress.

* `Walk.move`: what happens next at a tableau, whatever the budget.
* `Walk.run`: moves until the end or until the budget of pivots is spent.
-/

namespace LinearProgram.Simplex

/-- The number of pivots in a row without progress that are made by the rule `largest`. -/
def patience : Nat := 16

/-- **A place on a walk**: the tableau, and the number of pivots without progress just before. -/
structure Walk (K : Type) where
  tableau : Tableau K
  stalled : Nat := 0
  deriving Repr, DecidableEq

/-- What happens at a place. -/
inductive Move (K : Type) where
  /-- No column may enter. -/
  | optimal
  /-- A column may enter, and no row limits it. -/
  | unbounded
  /-- The arithmetic does not allow the pivot. -/
  | breakdown
  /-- A pivot leads to the next place. -/
  | pivot (next : Walk K)
  deriving Repr, DecidableEq

/-- The end of a walk: how it ended, at which tableau, and after how many pivots. -/
structure Outcome (K : Type) where
  status : Status
  tableau : Tableau K
  pivots : Nat
  deriving Repr, DecidableEq

namespace Walk

variable {K : Type}

/-- The rule to follow at a place. -/
def rule (w : Walk K) : PivotRule := if patience ≤ w.stalled then .lowest else .largest

variable [Scalar K]

/-- The number of pivots without progress after a pivot at row `r`. A pivot makes progress if the
right-hand side of its row is not zero. -/
def stalledAfter (w : Walk K) (r : Nat) : Nat :=
  if w.tableau.rows[r]?.any (·.rhs == 0) then w.stalled + 1 else 0

/-- **One move.** Only the first `limit` columns may enter. -/
def move (tolerance : K) (limit : Nat) (w : Walk K) : Move K :=
  match w.tableau.entering tolerance limit w.rule with
  | none => .optimal
  | some c =>
    match w.tableau.leaving tolerance w.rule c with
    | none => .unbounded
    | some r =>
      match w.tableau.pivot tolerance r c with
      | none => .breakdown
      | some next => .pivot ⟨next, w.stalledAfter r⟩

/-- **A walk within a budget of pivots.** An optimal tableau is recognised also when the budget is
spent. -/
def run (tolerance : K) (limit : Nat) : Nat → Walk K → Outcome K
  | 0, w =>
    match w.move tolerance limit with
    | .optimal => ⟨.optimal, w.tableau, 0⟩
    | _ => ⟨.failed .iterationLimit, w.tableau, 0⟩
  | budget + 1, w =>
    match w.move tolerance limit with
    | .optimal => ⟨.optimal, w.tableau, 0⟩
    | .unbounded => ⟨.failed .unbounded, w.tableau, 0⟩
    | .breakdown => ⟨.failed .numerical, w.tableau, 0⟩
    | .pivot next =>
      let rest := run tolerance limit budget next
      { rest with pivots := rest.pivots + 1 }

end Walk

end LinearProgram.Simplex
