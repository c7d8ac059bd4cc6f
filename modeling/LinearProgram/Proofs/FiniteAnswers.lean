import LinearProgram.Proofs.Answers
import LinearProgram.Proofs.Kept
import LinearProgram.Proofs.Shape
import LinearProgram.Proofs.WellFormed

/-!
# Finite answers

A pivot has a result only if all right-hand sides are finite after it, and those within the
tolerance of zero have been set to zero. In the first tableau no variable of the standard form is
basic. So for any arithmetic, any tolerance and any budget the values of these variables that are
read off at the end are finite, be the data as large as they may, and none but zero is within the
tolerance of zero. In exact arithmetic the column values are finite then as well.

* `Cleared`: the values that a pivot leaves.
* `Tableau.ClearedPoint`: all values that are read off a tableau are of this kind.
* `clearedPoint_of_pivot`, `clearedPoint_kept`: one pivot, and both phases.
* `cleared_optimize`: what is read off at the end.
* `finite_columns`: the column values of an answer in exact arithmetic.
-/

namespace LinearProgram.Simplex

open Scalar

/-- **The values that a pivot leaves** are finite, and not within the tolerance of zero unless they
are zero. -/
structure Cleared {K : Type} [Scalar K] (tolerance y : K) : Prop where
  finite : isFinite y = true
  apart : y = 0 ∨ ¬magnitude y < tolerance

theorem cleared_zero {K : Type} [Scalar K] (hzero : isFinite (0 : K) = true) (tolerance : K) :
    Cleared tolerance 0 :=
  ⟨hzero, .inl rfl⟩

namespace Tableau

variable {K : Type} [Scalar K] {tolerance : K} {t t' : Tableau K} {r c : Nat}

/-- **Whether the basic variables of the standard form have cleared values.** -/
def ClearedPoint (tolerance : K) (t : Tableau K) : Prop :=
  ∀ row ∈ t.rows, row.basic < t.varCount → Cleared tolerance row.rhs

theorem apart_of_mem_settle :
    ∀ row ∈ (t.settle tolerance).rows, row.rhs = 0 ∨ ¬magnitude row.rhs < tolerance := by
  intro row hrow
  obtain ⟨before, -, rfl⟩ := List.mem_map.1 hrow
  unfold Equation.settle
  split
  · exact .inl rfl
  · next hlarge => exact .inr hlarge

/-- **A pivot leaves cleared values**, whatever it has found. -/
theorem clearedPoint_of_pivot (h : t.pivot tolerance r c = some t') :
    t'.ClearedPoint tolerance := by
  unfold pivot at h
  split at h
  · cases h
  simp only at h
  split at h
  · cases h
  split at h
  · next hfinite =>
    cases h
    rw [finiteRhs, Bool.and_eq_true, List.all_eq_true] at hfinite
    exact fun row hrow _ => ⟨hfinite.1 row hrow, apart_of_mem_settle row hrow⟩
  · cases h

/-- Both phases keep the values cleared. -/
theorem clearedPoint_kept (tolerance : K) : Kept tolerance (ClearedPoint tolerance) where
  pivot hpivot _ := clearedPoint_of_pivot hpivot
  objective _ ht := ht

/-- The basic variables of the first tableau are slack and artificial ones. -/
theorem varCount_le_basic {V S A : Nat} {cs : List (Constraint K)} (s a : Nat) :
    ∀ row ∈ initialRows V S A s a cs, V ≤ row.basic := by
  induction cs generalizing s a with
  | nil => exact nofun
  | cons c cs ih =>
    unfold initialRows
    split
    all_goals
      refine List.forall_mem_cons.2 ⟨?_, ih _ _⟩
      simp only
      omega

theorem ofStandardForm_clearedPoint (tolerance : K) (form : StandardForm K) :
    (ofStandardForm form).ClearedPoint tolerance := by
  intro row hrow hlt
  have hle : form.varCount ≤ row.basic := varCount_le_basic 0 0 row hrow
  exact absurd hlt (not_lt.2 hle)

/-- What is read off a tableau is cleared. -/
theorem ClearedPoint.basicPoint (ht : t.ClearedPoint tolerance)
    (hzero : isFinite (0 : K) = true) : ∀ y ∈ t.basicPoint, Cleared tolerance y := by
  unfold Tableau.basicPoint
  have hstart : ∀ y ∈ (zeros t.varCount : List K), Cleared tolerance y := fun y hy => by
    rw [List.eq_of_mem_replicate hy]
    exact cleared_zero hzero tolerance
  have hlength : (zeros t.varCount : List K).length = t.varCount := length_zeros _
  unfold ClearedPoint at ht
  generalize (zeros t.varCount : List K) = point at hstart hlength
  generalize t.rows = rows at ht
  induction rows generalizing point with
  | nil => exact hstart
  | cons row rows ih =>
    obtain ⟨hrow, hrows⟩ := List.forall_mem_cons.1 ht
    refine ih _ ?_ (by rw [List.length_set, hlength]) hrows
    by_cases hlt : row.basic < t.varCount
    · exact Model.forall_mem_set hstart (hrow hlt) _
    · have hsame : point.set row.basic row.rhs = point := List.set_eq_of_length_le (by omega)
      simp only [hsame]
      exact hstart

end Tableau

/-- **What is read off at the end is cleared**, whatever the data. -/
theorem cleared_optimize {K : Type} [Scalar K] (hzero : isFinite (0 : K) = true)
    (method : Simplex K) (form : StandardForm K) :
    ∀ y ∈ (method.optimize (.ofStandardForm form)).tableau.basicPoint,
      Cleared method.tolerance y :=
  ((Tableau.clearedPoint_kept method.tolerance).optimize
    (Tableau.ofStandardForm_clearedPoint method.tolerance form)).basicPoint hzero

/-- **In exact arithmetic all column values of an answer are finite**, whatever the tolerance and
the budget. -/
theorem finite_columns (method : Simplex Exact) (p : Problem Exact) :
    ∀ x ∈ (method.solve p).columns, isFinite x = true := by
  have hnone (reason : Failure) (pivots : Nat) :
      ∀ x ∈ ((Solution.failed reason : Solution Exact).withIterations pivots).columns,
        isFinite x = true := nofun
  rcases solve_exits method p with ⟨-, hs⟩ | ⟨-, -, hs⟩ | ⟨hwf, form, hform, hs⟩
  · rw [hs]
    exact hnone .numerical 0
  · rw [hs]
    exact hnone .infeasible 0
  · rw [hs]
    obtain ⟨rational, -, rfl⟩ := exists_standardises_of_ofProblem hwf hform
    have hend := fun y hy => (cleared_optimize rfl method rational.toExact y hy).finite
    generalize method.optimize (.ofStandardForm rational.toExact) = o at hend
    unfold solutionOf
    cases o.status with
    | failed reason => exact hnone reason o.pivots
    | optimal =>
      change ∀ x ∈ rational.toExact.point o.tableau.basicPoint, isFinite x = true
      lift o.tableau.basicPoint to List ℚ using hend with y
      rw [StandardForm.toExact_point]
      intro x hx
      obtain ⟨_, -, rfl⟩ := List.mem_map.1 hx
      rfl

end LinearProgram.Simplex
