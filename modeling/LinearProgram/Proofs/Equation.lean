import Mathlib.Algebra.BigOperators.Field
import Mathlib.Algebra.BigOperators.Fin
import Mathlib.Algebra.Order.BigOperators.Group.Finset
import Mathlib.Algebra.Order.Field.Rat
import Mathlib.Data.Finset.Powerset
import Mathlib.Data.List.GetD
import Mathlib.Data.Set.Finite.Lemmas
import Mathlib.Logic.Relation
import Mathlib.Tactic.Linarith
import Mathlib.Tactic.Ring
import LinearProgram.Scalar.Exact
import LinearProgram.Simplex.Basis

/-!
# Equations over the rationals

An equation is seen through two functions: its coefficients, and its **residual** at an assignment
`v` of numbers to variables, which is the left side less the right side. A constraint holds where
its residual is zero, and the residual of the objective row is the objective. Row operations are
linear in both, so nothing later looks at lists of coefficients.

* `dot_eq_sum`: the sum of products of two lists, as a sum over positions.
* `coefficient_minus`, `residual_minus`: subtracting a multiple of another equation.
* `eliminate_eq_minus`: skipping an equation without the column changes nothing.
-/

namespace LinearProgram

open Finset

/-- A map that keeps zero, seen at one position of a list. -/
theorem getD_map_zero {f : ℚ → ℚ} (hf : f 0 = 0) (l : List ℚ) (j : ℕ) :
    (l.map f).getD j 0 = f (l.getD j 0) := by
  have h := List.getD_map l 0 (n := j) f
  rwa [hf] at h

namespace Scalar

@[simp]
theorem getD_zeros (n j : ℕ) : (zeros n : List ℚ).getD j 0 = 0 := by
  rw [zeros, List.getD_eq_getElem?_getD, List.getElem?_getD_replicate_default_eq]

theorem sum_eq_sum (l : List ℚ) : sum l = l.sum := by
  unfold sum
  rw [List.sum_eq_foldl, show (-0 : ℚ) = 0 from neg_zero]

/-- The sum of products of two lists, as a sum over the positions of the first one. -/
theorem dot_eq_sum (a x : List ℚ) : dot a x = ∑ j ∈ range a.length, a.getD j 0 * x.getD j 0 := by
  unfold dot
  rw [sum_eq_sum]
  induction a generalizing x with
  | nil => simp
  | cons b a ih =>
    cases x with
    | nil => simp
    | cons y x => simp [Finset.sum_range_succ', ih, add_comm]

theorem dot_map_neg (a y : List ℚ) : dot (a.map (-·)) y = -dot a y := by
  rw [dot_eq_sum, dot_eq_sum, List.length_map, ← Finset.sum_neg_distrib]
  refine Finset.sum_congr rfl fun j _ => ?_
  rw [getD_map_zero neg_zero, neg_mul]

theorem dot_nil_left (x : List ℚ) : dot [] x = 0 := by simp [dot_eq_sum]

theorem dot_nil_right (a : List ℚ) : dot a [] = 0 := by simp [dot_eq_sum]

theorem dot_cons_cons (b y : ℚ) (a x : List ℚ) : dot (b :: a) (y :: x) = b * y + dot a x := by
  simp [dot, sum_eq_sum]

/-- A linear form in two groups of variables. -/
theorem dot_append (a b x : List ℚ) :
    dot (a ++ b) x = dot a (x.take a.length) + dot b (x.drop a.length) := by
  induction a generalizing x with
  | nil => simp [dot_nil_left]
  | cons c a ih =>
    cases x with
    | nil => simp [dot_nil_right]
    | cons y x => simp [dot_cons_cons, ih, add_assoc]

end Scalar

namespace Simplex

open Scalar

namespace Equation

variable {e other : Equation ℚ}

/-- **The residual of an equation** at an assignment of numbers to variables. -/
def residual (e : Equation ℚ) (v : ℕ → ℚ) : ℚ :=
  ∑ j ∈ range e.coefficients.length, e.coefficient j * v j - e.rhs

theorem coefficient_of_le {j : ℕ} (h : e.coefficients.length ≤ j) : e.coefficient j = 0 :=
  List.getD_eq_default _ _ h

/-- Two residuals of one equation differ by the linear form at the difference. -/
theorem residual_sub (e : Equation ℚ) (v w : ℕ → ℚ) :
    e.residual v - e.residual w =
      ∑ j ∈ range e.coefficients.length, e.coefficient j * (v j - w j) := by
  simp only [residual, mul_sub, Finset.sum_sub_distrib]
  ring

@[simp]
theorem coefficient_divide (e : Equation ℚ) (d : ℚ) (j : ℕ) :
    (e.divide d).coefficient j = e.coefficient j / d :=
  getD_map_zero (zero_div d) e.coefficients j

@[simp]
theorem rhs_divide (e : Equation ℚ) (d : ℚ) : (e.divide d).rhs = e.rhs / d := rfl

@[simp]
theorem residual_divide (e : Equation ℚ) (d : ℚ) (v : ℕ → ℚ) :
    (e.divide d).residual v = e.residual v / d := by
  simp only [residual, length_divide, coefficient_divide, rhs_divide, sub_div, Finset.sum_div]
  congr 1
  exact Finset.sum_congr rfl fun j _ => by ring

section Same

variable (h : e.coefficients.length = other.coefficients.length)
include h

theorem coefficient_minus (f : ℚ) (j : ℕ) :
    (e.minus f other).coefficient j = e.coefficient j - f * other.coefficient j := by
  rcases lt_or_ge j e.coefficients.length with hj | hj
  · have hj' : j < other.coefficients.length := h ▸ hj
    simp [coefficient, minus, List.getD_eq_getElem?_getD, hj, hj']
  · have hj' : (e.minus f other).coefficients.length ≤ j := (length_minus h f).le.trans hj
    rw [coefficient_of_le hj, coefficient_of_le hj', coefficient_of_le (h.symm.le.trans hj)]
    ring

theorem residual_minus (f : ℚ) (v : ℕ → ℚ) :
    (e.minus f other).residual v = e.residual v - f * other.residual v := by
  simp only [residual, length_minus h, coefficient_minus h, sub_mul, Finset.sum_sub_distrib,
    mul_assoc, ← Finset.mul_sum, h]
  rw [show (e.minus f other).rhs = e.rhs - f * other.rhs from rfl]
  ring

theorem coefficient_plus (j : ℕ) :
    (e.plus other).coefficient j = e.coefficient j + other.coefficient j := by
  rcases lt_or_ge j e.coefficients.length with hj | hj
  · have hj' : j < other.coefficients.length := h ▸ hj
    simp [coefficient, plus, List.getD_eq_getElem?_getD, hj, hj']
  · have hj' : (e.plus other).coefficients.length ≤ j := (length_plus h).le.trans hj
    rw [coefficient_of_le hj, coefficient_of_le hj', coefficient_of_le (h.symm.le.trans hj)]
    ring

theorem residual_plus (v : ℕ → ℚ) :
    (e.plus other).residual v = e.residual v + other.residual v := by
  simp only [residual, length_plus h, coefficient_plus h, add_mul, Finset.sum_add_distrib, h]
  rw [show (e.plus other).rhs = e.rhs + other.rhs from rfl]
  ring

/-- An equation without the column is left alone, which is the same as subtracting nothing. -/
theorem eliminate_eq_minus (c : ℕ) : e.eliminate other c = e.minus (e.coefficient c) other := by
  unfold eliminate
  split
  · rename_i hc
    have hc : e.coefficient c = 0 := by simpa using hc
    rw [hc]
    obtain ⟨a, b⟩ := e
    simp only [minus, zero_mul, sub_zero]
    congr 1
    refine List.ext_getElem (by simpa using h.le) fun i hi _ => ?_
    simp
  · rfl

end Same

/-- Without tolerance nothing is set to zero. -/
@[simp]
theorem settle_zero (e : Equation ℚ) : e.settle 0 = e := by
  unfold settle magnitude
  rw [if_neg]
  split <;> linarith

end Equation

end Simplex

end LinearProgram
