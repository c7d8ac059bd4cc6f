import LinearProgram.Simplex.Tableau

/-!
# The equations of the constraints

The first tableau has one equation for each constraint. Two running numbers tell the columns of its
slack variable and of its artificial variable. They start at zero and end at the counts, so every
column that is written is there.

* `firstRow`, `nextSlack`, `nextArtificial`: one equation, and the running numbers after it.
* `initialRows_cons`: the equations one after the other.
* `Tableau.initialRows_shaped`: the equations are in shape.
-/

namespace LinearProgram.Simplex

variable {K : Type} [Scalar K] {V S A s a : Nat} {c : Constraint K} {cs : List (Constraint K)}

open Scalar

/-- The equation of a constraint, with its slack variable at `s` and its artificial variable at `a`
among its own sort. -/
def firstRow (V S A s a : Nat) (c : Constraint K) : BasicRow K :=
  match c.relation with
  | .le =>
    { coefficients := c.coefficients ++ single S s 1 ++ zeros A
      rhs := c.rhs
      basic := V + s }
  | .ge =>
    { coefficients := c.coefficients ++ single S s (-1) ++ single A a 1
      rhs := c.rhs
      basic := V + S + a }
  | .eq =>
    { coefficients := c.coefficients ++ zeros S ++ single A a 1
      rhs := c.rhs
      basic := V + S + a }

/-- The next slack number after a constraint. -/
def nextSlack (s : Nat) (c : Constraint K) : Nat := if c.relation.hasSlack then s + 1 else s

/-- The next artificial number after a constraint. -/
def nextArtificial (a : Nat) (c : Constraint K) : Nat :=
  if c.relation.hasArtificial then a + 1 else a

theorem initialRows_cons :
    Tableau.initialRows V S A s a (c :: cs) =
      firstRow V S A s a c ::
        Tableau.initialRows V S A (nextSlack s c) (nextArtificial a c) cs := by
  cases hrelation : c.relation <;>
    simp [Tableau.initialRows, firstRow, nextSlack, nextArtificial, hrelation, Relation.hasSlack,
      Relation.hasArtificial]

omit [Scalar K] in
theorem nextSlack_add :
    nextSlack s c + Tableau.countSlacks cs = s + Tableau.countSlacks (c :: cs) := by
  rw [Tableau.countSlacks, Tableau.countSlacks, List.countP_cons, nextSlack]
  split <;> omega

omit [Scalar K] in
theorem nextArtificial_add :
    nextArtificial a c + Tableau.countArtificials cs = a + Tableau.countArtificials (c :: cs) := by
  rw [Tableau.countArtificials, Tableau.countArtificials, List.countP_cons, nextArtificial]
  split <;> omega

theorem length_initialRows (V S A s a : Nat) (cs : List (Constraint K)) :
    (Tableau.initialRows V S A s a cs).length = cs.length := by
  induction cs generalizing s a with
  | nil => rfl
  | cons c cs ih => rw [initialRows_cons, List.length_cons, ih, List.length_cons]

theorem firstRow_shaped (hlength : c.coefficients.length = V) (hs : nextSlack s c ≤ S)
    (ha : nextArtificial a c ≤ A) :
    (firstRow V S A s a c).coefficients.length = V + S + A ∧
      (firstRow V S A s a c).basic < V + S + A := by
  cases hrelation : c.relation <;>
    simp only [nextSlack, nextArtificial, hrelation, Relation.hasSlack, Relation.hasArtificial,
      if_true, Bool.false_eq_true, if_false] at hs ha <;>
    simp only [firstRow, hrelation, List.length_append, length_single, length_zeros, hlength,
      true_and] <;>
    omega

/-- **The equations of the constraints are in shape**: the running numbers stay below the counts. -/
theorem Tableau.initialRows_shaped (hcs : ∀ c ∈ cs, c.coefficients.length = V)
    (hs : s + countSlacks cs = S) (ha : a + countArtificials cs = A) :
    ∀ row ∈ initialRows V S A s a cs,
      row.coefficients.length = V + S + A ∧ row.basic < V + S + A := by
  induction cs generalizing s a with
  | nil => exact fun row hrow => absurd hrow List.not_mem_nil
  | cons c cs ih =>
    have hothers : ∀ c ∈ cs, c.coefficients.length = V :=
      fun other hother => hcs other (List.mem_cons_of_mem c hother)
    rw [← nextSlack_add] at hs
    rw [← nextArtificial_add] at ha
    intro row hrow
    rw [initialRows_cons] at hrow
    rcases List.mem_cons.1 hrow with rfl | hrow
    · exact firstRow_shaped (hcs c List.mem_cons_self) (by omega) (by omega)
    · exact ih hothers hs ha row hrow

end LinearProgram.Simplex
