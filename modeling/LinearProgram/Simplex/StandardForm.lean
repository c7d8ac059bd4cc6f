import LinearProgram.Problem

/-!
# Standard form

A problem over bounded columns is restated over variables that are only non-negative. Each column
becomes an offset plus a signed sum of new variables of its own (`Substitution`):

* a column with equal sides is a constant and has no variable;
* a column with a lower side `l` is `l + y`, and an upper side then gives a constraint on `y`;
* a column with only an upper side `u` is `u - y`;
* a column without sides is the difference of two variables.

The variables are numbered from 0, column by column. Rows become constraints: one for a row with
equal sides, else one for each side.

* `StandardForm.ofProblem`: the standard form; there is none if a bound is not consistent.
* `StandardForm.point`: the column values that belong to values of the variables.
* `StandardForm.Satisfies`: the points of the standard form.
-/

namespace LinearProgram.Simplex

variable {K : Type}

/-- How the two sides of a constraint compare. -/
inductive Relation where
  | le
  | ge
  | eq
  deriving Repr, DecidableEq

/-- The relation after both sides change sign. -/
def Relation.flip : Relation → Relation
  | .le => .ge
  | .ge => .le
  | .eq => .eq

/-- Whether a constraint gets a slack variable, the distance between its sides. -/
def Relation.hasSlack : Relation → Bool
  | .le | .ge => true
  | .eq => false

/-- Whether a constraint starts with an artificial variable, because its slack cannot be its
first basic variable. -/
def Relation.hasArtificial : Relation → Bool
  | .le => false
  | .ge | .eq => true

/-- **A constraint**: a linear form in the variables, compared with a number. -/
structure Constraint (K : Type) where
  coefficients : List K
  relation : Relation
  rhs : K
  deriving Repr, DecidableEq

/-- **How a column is written** in the variables that replace it: `offset` plus each sign times
its variable. -/
structure Substitution (K : Type) where
  offset : K
  signs : List K
  deriving Repr, DecidableEq

/-- **A problem in standard form**: optimise `objective` over non-negative values of `varCount`
variables that satisfy the constraints. -/
structure StandardForm (K : Type) where
  varCount : Nat
  direction : Direction
  objective : List K
  constraints : List (Constraint K)
  columns : List (Substitution K)
  deriving Repr, DecidableEq

section Forms

variable [Scalar K]

open Scalar

namespace Constraint

/-- Whether values of the variables satisfy the constraint. -/
def Holds (c : Constraint K) (y : List K) : Prop :=
  match c.relation with
  | .le => dot c.coefficients y ≤ c.rhs
  | .ge => c.rhs ≤ dot c.coefficients y
  | .eq => (dot c.coefficients y == c.rhs) = true

instance (c : Constraint K) (y : List K) : Decidable (c.Holds y) :=
  match c with
  | ⟨coefficients, .le, rhs⟩ => inferInstanceAs (Decidable (dot coefficients y ≤ rhs))
  | ⟨coefficients, .ge, rhs⟩ => inferInstanceAs (Decidable (rhs ≤ dot coefficients y))
  | ⟨coefficients, .eq, rhs⟩ => inferInstanceAs (Decidable ((dot coefficients y == rhs) = true))

/-- The same constraint with a right-hand side that is not negative. -/
def normalize (c : Constraint K) : Constraint K :=
  if c.rhs < 0 then ⟨c.coefficients.map (-·), c.relation.flip, -c.rhs⟩ else c

@[simp]
theorem length_normalize (c : Constraint K) :
    c.normalize.coefficients.length = c.coefficients.length := by
  unfold normalize
  split <;> simp

end Constraint

namespace Substitution

/-- The number of variables that replace the column. -/
def arity (s : Substitution K) : Nat := s.signs.length

/-- The value of the column at values of its variables. -/
def value (s : Substitution K) (y : List K) : K := s.offset + dot s.signs y

/-- The coefficients of the column's variables, when the column has coefficient `a`. -/
def spread (s : Substitution K) (a : K) : List K := s.signs.map fun sign => 0 + a * sign

end Substitution

namespace StandardForm

/-- The number of variables that replace all columns. -/
def varTotal : List (Substitution K) → Nat
  | [] => 0
  | s :: columns => s.arity + varTotal columns

/-- A linear form in the columns, as a linear form in the variables. A column without a
coefficient has coefficient zero. -/
def spread : List (Substitution K) → List K → List K
  | [], _ => []
  | s :: columns, [] => s.spread 0 ++ spread columns []
  | s :: columns, a :: coefficients => s.spread a ++ spread columns coefficients

/-- The value of a linear form in the columns where all variables are zero. -/
def constant (columns : List (Substitution K)) (coefficients : List K) : K :=
  (List.zipWith (fun s a => a * s.offset) columns coefficients).foldl (· + ·) 0

/-- The values of columns at values of their variables. -/
def columnValues : List (Substitution K) → List K → List K
  | [], _ => []
  | s :: columns, y => s.value (y.take s.arity) :: columnValues columns (y.drop s.arity)

/-- **The column values** at values of the variables. -/
def point (form : StandardForm K) (y : List K) : List K := columnValues form.columns y

/-- **The points of a standard form**: a non-negative value for each variable, such that every
constraint holds. -/
structure Satisfies (form : StandardForm K) (y : List K) : Prop where
  length_eq : y.length = form.varCount
  nonneg : ∀ v ∈ y, 0 ≤ v
  holds : ∀ c ∈ form.constraints, c.Holds y

@[simp]
theorem length_columnValues (columns : List (Substitution K)) (y : List K) :
    (columnValues columns y).length = columns.length := by
  induction columns generalizing y with
  | nil => rfl
  | cons s columns ih => simp [columnValues, ih]

theorem length_spread (columns : List (Substitution K)) (coefficients : List K) :
    (spread columns coefficients).length = varTotal columns := by
  induction columns generalizing coefficients with
  | nil => rfl
  | cons s columns ih =>
    cases coefficients <;> simp [spread, varTotal, ih, Substitution.spread, Substitution.arity]

end StandardForm

end Forms

variable [ExtendedScalar K]

open Scalar

/-- The substitution for a column with the given bound. -/
def Substitution.ofBound (b : Bound K) : Substitution K :=
  match b.lower?, b.upper? with
  | some l, some u => if l == u then ⟨l, []⟩ else ⟨l, [1]⟩
  | some l, none => ⟨l, [1]⟩
  | none, some u => ⟨u, [-1]⟩
  | none, none => ⟨0, [1, -1]⟩

/-- The greatest value of the variable of a column with two different sides: their distance. -/
def width? (b : Bound K) : Option K :=
  match b.lower?, b.upper? with
  | some l, some u => if l == u then none else some (u - l)
  | _, _ => none

namespace StandardForm

/-- The constraints from columns with two different sides. The columns' variables are numbered
from `first` on, out of `varCount` in all. -/
def widthConstraints (varCount : Nat) : Nat → List (Bound K) → List (Constraint K)
  | _, [] => []
  | first, b :: bounds =>
    let others := widthConstraints varCount (first + (Substitution.ofBound b).arity) bounds
    match width? b with
    | some width => ⟨single varCount first 1, .le, width⟩ :: others
    | none => others

/-- The constraints from a row with the given coefficients and bound. -/
def rowConstraints (columns : List (Substitution K)) (coefficients : List K) (b : Bound K) :
    List (Constraint K) :=
  let form := spread columns coefficients
  let fixed := constant columns coefficients
  match b.lower?, b.upper? with
  | none, none => []
  | some l, none => [⟨form, .ge, l - fixed⟩]
  | none, some u => [⟨form, .le, u - fixed⟩]
  | some l, some u =>
    if l == u then [⟨form, .eq, l - fixed⟩]
    else [⟨form, .ge, l - fixed⟩, ⟨form, .le, u - fixed⟩]

/-- The standard form of a problem whose bounds are all consistent. -/
def ofConsistent (p : Problem K) : StandardForm K :=
  let columns := p.columnBounds.map Substitution.ofBound
  let varCount := varTotal columns
  { varCount
    direction := p.direction
    objective := spread columns p.objective
    constraints := widthConstraints varCount 0 p.columnBounds ++
      (List.zipWith (rowConstraints columns) p.dense p.rowBounds).flatten
    columns }

/-- **The standard form of a problem**, unless some bound is not consistent. -/
def ofProblem (p : Problem K) : Option (StandardForm K) :=
  if p.columnBounds.all Bound.consistent && p.rowBounds.all Bound.consistent then
    some (ofConsistent p)
  else
    none

/-- **A problem has a standard form** exactly if its bounds are consistent. -/
theorem ofProblem_eq_some_iff {p : Problem K} {form : StandardForm K} :
    ofProblem p = some form ↔
      (∀ b ∈ p.columnBounds ++ p.rowBounds, b.consistent = true) ∧ ofConsistent p = form := by
  have hall : (∀ b ∈ p.columnBounds ++ p.rowBounds, b.consistent = true) ↔
      (p.columnBounds.all Bound.consistent && p.rowBounds.all Bound.consistent) = true := by
    rw [← List.all_append, List.all_eq_true]
  rw [hall, ofProblem]
  split <;> simp [*]

theorem ofProblem_eq_none_iff {p : Problem K} :
    ofProblem p = none ↔ ∃ b ∈ p.columnBounds ++ p.rowBounds, b.consistent = false := by
  have hany : (∃ b ∈ p.columnBounds ++ p.rowBounds, b.consistent = false) ↔
      ¬(p.columnBounds.all Bound.consistent && p.rowBounds.all Bound.consistent) = true := by
    rw [← List.all_append, Bool.not_eq_true, List.all_eq_false]
    simp only [Bool.not_eq_true]
  rw [hany, ofProblem]
  split <;> simp [*]

/-- The points of a standard form have a value for each column of the problem. -/
theorem length_point {p : Problem K} {form : StandardForm K} (h : ofProblem p = some form)
    (y : List K) : (form.point y).length = p.numColumns := by
  obtain ⟨-, rfl⟩ := ofProblem_eq_some_iff.1 h
  rw [point, length_columnValues]
  exact List.length_map _

end StandardForm

end LinearProgram.Simplex
