import LinearProgram.Proofs.DoubleColumns

/-!
# What can overflow

A pivot that leaves a right-hand side that is not finite is a numerical failure. So in doubles the
values that are read off the last tableau are finite. What is computed from them is not looked at
any more: a column value is a sum that can become infinite, and the objective value and the row
values are sums of products that need not even be numbers then. They are not finite if a column
value is not, so it is enough to look at them. In exact arithmetic nothing overflows, and all
numbers are finite.

* `Solution.AllFinite`: all numbers of a solution are finite.
* `Evaluated`: what is finite in an optimal answer in doubles, and what follows from the rest.
* `value_ne_nan`: column values are numbers.
* `Double.isFinite_of_dot`: the factors in a finite sum of products.
* `allFinite_of_optimal`: optimal answers in exact arithmetic.
* `optimal_finite_iff`: optimal answers in doubles.
-/

namespace LinearProgram

open Scalar ExtendedScalar

/-- **Whether all numbers of a solution are finite.** -/
structure Solution.AllFinite {K : Type} [Scalar K] (s : Solution K) : Prop where
  objective : isFinite s.objective = true
  columns : ∀ x ∈ s.columns, isFinite x = true
  rows : ∀ x ∈ s.rows, isFinite x = true

namespace Double

variable {x y : Float}

/-- **A number that is added to a finite one gives a number.** -/
theorem add_ne_nan (hx : isFinite x = true) (hy : y ≠ nan) : x + y ≠ nan := by
  rcases cases_value y with h | rfl | rfl | rfl
  · exact (units_add hx h).1
  · rw [add_infinity hx]
    decide
  · rw [add_infinite (s := .negative) hx rfl]
    decide
  · exact absurd rfl hy

/-- The start and the terms of a finite sum are finite. -/
theorem isFinite_of_foldl {terms : List Float} (h : isFinite (terms.foldl (· + ·) x) = true) :
    isFinite x = true ∧ ∀ y ∈ terms, isFinite y = true := by
  induction terms generalizing x with
  | nil => exact ⟨h, nofun⟩
  | cons y terms ih =>
    obtain ⟨hsum, hterms⟩ := ih h
    obtain ⟨hx, hy⟩ := isFinite_of_add hsum
    exact ⟨hx, List.forall_mem_cons.2 ⟨hy, hterms⟩⟩

/-- **The factors in a finite sum of products are finite**, as far as both lists reach. -/
theorem isFinite_of_dot {a x : List Float} (h : isFinite (dot a x) = true) :
    ∀ v ∈ x.take a.length, isFinite v = true := by
  have hterms := (isFinite_of_foldl h).2
  clear h
  induction a generalizing x with
  | nil => exact nofun
  | cons c a ih =>
    cases x with
    | nil => exact nofun
    | cons v x =>
      rw [List.zipWith_cons_cons, List.forall_mem_cons] at hterms
      exact List.forall_mem_cons.2 ⟨(isFinite_of_mul hterms.1).2, ih hterms.2⟩

end Double

namespace Simplex

/-- **A column value is a number** if the values of its variables are finite. -/
theorem value_ne_nan {b : Bound Float} (hn : b.hasNaN = false) (hc : b.consistent = true)
    {s : Substitution Float} (hs : Written b s) {z : List Float}
    (hz : ∀ v ∈ z, isFinite v = true) (hlength : z.length = s.arity) : s.value z ≠ nan := by
  have hneg {v : Float} (hv : isFinite v = true) : isFinite (-v) = true := by
    rw [Double.isFinite_neg, hv]
  cases hs with
  | constant hl _ _ =>
    obtain rfl := List.length_eq_zero_iff.1 hlength
    rw [Substitution.value_constant]
    exact Double.ne_nan (b.isFinite_lower hn hc hl)
  | between hl _ _ | above hl _ =>
    obtain ⟨v, rfl⟩ := List.length_eq_one_iff.1 hlength
    rw [Substitution.value_shift]
    exact Double.add_ne_nan (b.isFinite_lower hn hc hl) (Double.ne_nan (hz v (by simp)))
  | below _ hu =>
    obtain ⟨v, rfl⟩ := List.length_eq_one_iff.1 hlength
    rw [Substitution.value_reflect]
    exact Double.add_ne_nan (b.isFinite_upper hn hc hu) (Double.ne_nan (hneg (hz v (by simp))))
  | split _ _ =>
    obtain ⟨v, w, rfl⟩ := List.length_eq_two.1 hlength
    rw [Substitution.value_split]
    have hdifference : v + -w ≠ nan :=
      Double.add_ne_nan (hz v (by simp)) (Double.ne_nan (hneg (hz w (by simp))))
    exact Double.add_ne_nan (by decide) hdifference

/-- **What can be said of an optimal answer in doubles**: it is evaluated at finite values of the
variables of its columns. All column values are numbers, and if the objective value or the value of
a row is finite, so are they. -/
structure Evaluated (p : Problem Float) (values : List (List Float)) (s : Solution Float) :
    Prop where
  finite : ∀ z ∈ values, ∀ v ∈ z, isFinite v = true
  columns : s.columns =
    List.zipWith Substitution.value (p.columnBounds.map Substitution.ofBound) values
  objective : s.objective = p.evaluate s.columns
  rows : s.rows = p.activities s.columns
  number : ∀ x ∈ s.columns, isNaN x = false
  of_objective : isFinite s.objective = true →
    ∀ x ∈ s.columns.take p.objective.length, isFinite x = true
  of_row : ∀ a ∈ s.rows, isFinite a = true → ∀ x ∈ s.columns, isFinite x = true

/-- **In exact arithmetic all numbers of an optimal answer are finite**, whatever the tolerance and
the budget. -/
theorem allFinite_of_optimal {method : Simplex Exact} {p : Problem Exact}
    (h : (method.solve p).status = .optimal) : (method.solve p).AllFinite := by
  have hwf := wellFormed_of_optimal h
  simp only [Problem.wellFormed, Bool.and_eq_true, List.all_eq_true] at hwf
  have hcolumns := finite_columns method p
  refine ⟨?_, hcolumns, ?_⟩
  · obtain ⟨shift, hshift⟩ := isFinite_iff.1 hwf.1.1.1.1
    obtain ⟨total, htotal⟩ := isFinite_iff.1 (isFinite_dot_columns h)
    rw [objective_eq_evaluate h, Problem.evaluate, ← hshift, ← htotal]
    rfl
  · obtain ⟨-, pivots, hs⟩ := optimal_point h
    have hrows : (method.solve p).rows = p.activities (method.solve p).columns := by
      rw [hs]
      rfl
    obtain ⟨matrix, hmatrix⟩ := Problem.exists_dense hwf.1.1.2
    intro x hx
    rw [hrows, Problem.activities, hmatrix, List.map_map] at hx
    obtain ⟨row, -, rfl⟩ := List.mem_map.1 hx
    refine Exact.isFinite_dot (fun a ha => ?_) hcolumns
    obtain ⟨q, -, rfl⟩ := List.mem_map.1 ha
    rfl

/-- The column values of an optimal answer in doubles are numbers. -/
theorem isNaN_of_optimal {method : Simplex Float} {p : Problem Float}
    (h : (method.solve p).status = .optimal) :
    ∀ x ∈ (method.solve p).columns, isNaN x = false := by
  intro x hx
  obtain ⟨j, hj⟩ := List.getElem?_of_mem hx
  have hlt : j < p.columnBounds.length :=
    (List.getElem?_eq_some_iff.1 hj).1.trans_eq (length_columns h)
  have hb : p.columnBounds[j]? = some p.columnBounds[j] := List.getElem?_eq_getElem hlt
  obtain ⟨hnan, hconsistent⟩ := bounds_of_optimal h _ (List.getElem_mem hlt)
  obtain ⟨z, hz, harity, hvalue⟩ := column_of_optimal h hb
  have hfinite : ∀ v ∈ z, isFinite v = true := fun v hv =>
    (cleared_columnVariables (by decide) method p z (List.mem_of_getElem? hz) v hv).finite
  obtain rfl := Option.some.inj (hj.symm.trans hvalue)
  have hnumber := value_ne_nan hnan hconsistent (ofBound_written _) hfinite harity
  rwa [← Bool.not_eq_true, Double.isNaN_iff]

/-- Optimal answers in doubles are evaluated at finite values. -/
theorem evaluated_of_optimal {method : Simplex Float} {p : Problem Float}
    (h : (method.solve p).status = .optimal) :
    Evaluated p (columnVariables method p) (method.solve p) := by
  obtain ⟨hform, pivots, hs⟩ := optimal_point h
  have hobjective := objective_eq_evaluate h
  have hrows : (method.solve p).rows = p.activities (method.solve p).columns := by
    rw [hs]
    rfl
  refine ⟨fun z hz v hv => (cleared_columnVariables (by decide) method p z hz v hv).finite, ?_,
    hobjective, hrows, isNaN_of_optimal h, ?_, ?_⟩
  · rw [hs]
    rfl
  · intro hfinite
    rw [hobjective, Problem.evaluate] at hfinite
    exact Double.isFinite_of_dot (Double.isFinite_of_add hfinite).2
  · intro a ha hfinite
    rw [hrows, Problem.activities] at ha
    obtain ⟨row, hrow, rfl⟩ := List.mem_map.1 ha
    have hdot := Double.isFinite_of_dot hfinite
    rwa [p.length_of_mem_dense row hrow, ← length_columns h, List.take_length] at hdot

/-- **When an optimal answer in doubles is finite**, whatever the tolerance and the budget. All that
is read off the last tableau is finite, and the column values computed from it are numbers. So it is
enough that the objective value and the row values are finite, and the values of columns beyond the
objective. -/
theorem optimal_finite_iff (method : Simplex Float) (p : Problem Float)
    (h : (method.solve p).status = .optimal) :
    Evaluated p (columnVariables method p) (method.solve p) ∧
      ((method.solve p).AllFinite ↔
        isFinite (method.solve p).objective = true ∧
          (∀ a ∈ (method.solve p).rows, isFinite a = true) ∧
            ∀ x ∈ (method.solve p).columns.drop p.objective.length, isFinite x = true) := by
  have hevaluated := evaluated_of_optimal h
  refine ⟨hevaluated, fun hall => ?_, fun ⟨hobjective, hrows, hbeyond⟩ => ?_⟩
  · exact ⟨hall.objective, hall.rows, fun x hx => hall.columns x (List.mem_of_mem_drop hx)⟩
  · refine ⟨hobjective, fun x hx => ?_, hrows⟩
    rw [← List.take_append_drop p.objective.length (method.solve p).columns] at hx
    rcases List.mem_append.1 hx with hx | hx
    · exact hevaluated.of_objective hobjective x hx
    · exact hbeyond x hx

/-- A column below its upper side and a column between two sides, with a row that limits both. -/
def shared : Problem Float where
  direction := .maximize
  shift := 1
  objective := [2, 3]
  rowBounds := [.upper 6]
  columnBounds := [.upper 4, .double 0 5]
  entries := [⟨1, 1, 1⟩, ⟨1, 2, 1⟩]

theorem shared_finite :
    (standard.solve shared).status = .optimal ∧ (standard.solve shared).AllFinite := by
  have hoptimal : (standard.solve shared).status = .optimal := by decide +kernel
  have hobjective : isFinite (standard.solve shared).objective = true := by decide +kernel
  have hrows : ∀ a ∈ (standard.solve shared).rows, isFinite a = true := by decide +kernel
  have hcovered : (standard.solve shared).columns.drop shared.objective.length = [] :=
    List.drop_eq_nil_of_le (length_columns hoptimal).le
  obtain ⟨-, hiff⟩ := optimal_finite_iff standard shared hoptimal
  refine ⟨hoptimal, hiff.2 ⟨hobjective, hrows, ?_⟩⟩
  rw [hcovered]
  exact nofun

/-- Two columns that are fixed at a large value, and whose contributions to the objective cancel. -/
def cancelling : Problem Float where
  direction := .minimize
  shift := 0
  objective := [10, -10]
  columnBounds := [.fixed 1e308, .fixed 1e308]

/-- **An optimal answer need not be finite in doubles**: both products are infinite, and they have
no sum. -/
theorem cancelling_not_finite :
    cancelling.wellFormed = true ∧ (standard.solve cancelling).status = .optimal ∧
      isNaN (standard.solve cancelling).objective = true ∧
      ¬(standard.solve cancelling).AllFinite := by
  have hnan : isNaN (standard.solve cancelling).objective = true := by decide +kernel
  refine ⟨by decide +kernel, by decide +kernel, hnan, fun h => ?_⟩
  have hobjective := h.objective
  rw [Double.isNaN_iff.1 hnan] at hobjective
  exact absurd hobjective (by decide)

end Simplex

end LinearProgram
