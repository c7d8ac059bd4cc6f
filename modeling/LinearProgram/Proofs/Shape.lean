import LinearProgram.Proofs.Budget
import LinearProgram.Proofs.CurrentSolution

/-!
# The shape of an answer

An optimal answer has a value for each column of its problem, and computes the values of the rows
and of the objective from these. Any other answer has no values at all. So a model keeps every
optimal answer of the simplex method, and reports every other one as the failure that it is. This
holds for any arithmetic, any tolerance and any data.

* `Solution.Answers`: the shape of an answer to a problem.
* `solve_answers`: the simplex method gives answers of this shape.
* `step_solve_of_simplex`: what a model makes of these answers.
* `answers_in_shape`: both together.
-/

namespace LinearProgram

open Scalar

variable {K : Type} [ExtendedScalar K]

/-- **The shape of an answer.** An optimal one has a value for each column and each row, the
objective is evaluated at the columns, and each row is summed up from the left over all columns. -/
def Solution.Answers (p : Problem K) (s : Solution K) : Prop :=
  match s.status with
  | .optimal =>
    s.columns.length = p.numColumns ∧ s.rows.length = p.numRows ∧
      s.objective = p.evaluate s.columns ∧
      s.rows = p.dense.map fun coefficients : List K =>
        sum ((List.range p.numColumns).map fun j => coefficients.getD j 0 * s.columns.getD j 0)
  | .failed _ => s.columns = [] ∧ s.rows = [] ∧ s.objective = ExtendedScalar.nan

/-- The sum of the products of two lists of the same length, position by position. -/
theorem dot_eq_sum_range {a x : List K} {n : Nat} (ha : a.length = n) (hx : x.length = n) :
    dot a x = sum ((List.range n).map fun j => a.getD j 0 * x.getD j 0) := by
  unfold dot
  congr 1
  apply List.ext_getElem
  · simp [ha, hx]
  · intro j hj _
    have hj : j < a.length ∧ j < x.length := by
      rw [List.length_zipWith] at hj
      omega
    simp [hj.1, hj.2]

namespace Simplex

variable {p : Problem K}

/-- The solution at a point with a value for each column has the shape of an answer. -/
theorem solutionAt_answers {point : List K} (h : point.length = p.numColumns) (pivots : Nat) :
    ((solutionAt p point).withIterations pivots).Answers p := by
  refine ⟨h, p.length_activities point, rfl, ?_⟩
  apply List.map_congr_left
  intro coefficients hmem
  exact dot_eq_sum_range (p.length_of_mem_dense coefficients hmem) h

/-- **The simplex method answers in shape.** -/
theorem solve_answers (method : Simplex K) (p : Problem K) : (method.solve p).Answers p := by
  have hfailed (reason : Failure) (pivots : Nat) :
      ((Solution.failed reason).withIterations pivots).Answers p := ⟨rfl, rfl, rfl⟩
  rcases solve_exits method p with ⟨-, hs⟩ | ⟨-, -, hs⟩ | ⟨-, form, hform, hs⟩
  · rw [hs]
    exact hfailed .numerical 0
  · rw [hs]
    exact hfailed .infeasible 0
  · rw [hs]
    generalize method.optimize (.ofStandardForm form) = o
    unfold solutionOf
    cases o.status with
    | failed reason => exact hfailed reason o.pivots
    | optimal => exact solutionAt_answers (StandardForm.length_point hform _) o.pivots

omit [ExtendedScalar K] in
/-- What a model reports of an answer that has the right length if it is optimal. -/
theorem accept_eq {count : Nat} {s : Solution K}
    (h : s.status = .optimal → s.columns.length = count) :
    Model.accept count s = match s.status with
      | .optimal => .ok s
      | .failed reason => .error (.solveFailed reason) := by
  unfold Model.accept
  cases hs : s.status with
  | failed reason => rfl
  | optimal => exact if_pos (h hs)

/-- **A model that asks the simplex method** keeps the optimal answers, and reports the others as
what they are. -/
theorem step_solve_of_simplex (m : Model K (Simplex K)) :
    m.step .solve = match (m.engine.solve m.toProblem).status with
      | .optimal => (.ok .unit, { m.asked with solution := some (m.engine.solve m.toProblem) })
      | .failed reason => (.error (.solveFailed reason), m.asked) := by
  have hengine : m.engineAnswer = m.engine.solve m.toProblem := by
    unfold Model.engineAnswer Model.freshEngine
    split <;> rfl
  have hlength : m.engineAnswer.status = .optimal →
      m.engineAnswer.columns.length = m.columnCount := by
    intro hs
    have hanswers := solve_answers m.engine m.toProblem
    rw [← hengine, Solution.Answers, hs] at hanswers
    rw [hanswers.1, Model.numColumns_toProblem]
  rw [Model.step_solve_eq, accept_eq hlength, ← hengine]
  cases m.engineAnswer.status <;> rfl

/-- **Every answer has the shape of an answer to its problem**, and a model that asks the simplex
method succeeds exactly if the answer is optimal, and else fails for the same reason. -/
theorem answers_in_shape :
    (∀ (method : Simplex K) (p : Problem K), (method.solve p).Answers p) ∧
    ∀ m : Model K (Simplex K),
      (m.step .solve).1 = match (m.engine.solve m.toProblem).status with
        | .optimal => .ok .unit
        | .failed reason => .error (.solveFailed reason) := by
  refine ⟨solve_answers, fun m => ?_⟩
  rw [step_solve_of_simplex]
  cases (m.engine.solve m.toProblem).status <;> rfl

end Simplex

end LinearProgram
