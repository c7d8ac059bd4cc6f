import LinearProgram.Proofs.FiniteAnswers

/-!
# Other objectives, the same answer

The constant term of the objective only moves the objective value: two problems that differ in it
have the same answer, and the objective values are the two constant terms plus one and the same sum.
And to make an objective small is to make its negation large: in exact arithmetic a problem and its
mirror image have the same answer, with the objective value negated.

* `Problem.withShift`, `Problem.mirror`: the problems to compare.
* `solve_withShift`: two constant terms give answers that differ in the objective value only.
* `shift_translates`: by how much they differ.
* `ofStandardForm_mirror`: a problem and its mirror image have the same first tableau.
* `solve_mirror`: the answer to the mirror image.
-/

namespace LinearProgram

open Scalar

section Shift

variable {K : Type}

/-- The problem with another constant term. -/
def Problem.withShift (p : Problem K) (shift : K) : Problem K := { p with shift }

/-- **Whether two solutions differ in the objective value at most.** -/
structure Solution.SameButObjective (s s' : Solution K) : Prop where
  status : s.status = s'.status
  columns : s.columns = s'.columns
  rows : s.rows = s'.rows
  iterations : s.iterations = s'.iterations

theorem Solution.SameButObjective.refl (s : Solution K) : s.SameButObjective s :=
  ⟨rfl, rfl, rfl, rfl⟩

namespace Simplex

variable [ExtendedScalar K]

/-- Finite constant terms make no difference to whether a problem is fit for numerical work. -/
theorem wellFormed_withShift {p : Problem K} {a b : K} (ha : isFinite a = true)
    (hb : isFinite b = true) : (p.withShift a).wellFormed = (p.withShift b).wellFormed := by
  simp only [Problem.wellFormed, Problem.withShift, ha, hb]

/-- **Two constant terms give the same answer**, but for the objective value. -/
theorem solve_withShift (method : Simplex K) {p : Problem K} {a b : K} (ha : isFinite a = true)
    (hb : isFinite b = true) :
    (method.solve (p.withShift a)).SameButObjective (method.solve (p.withShift b)) := by
  have hform : StandardForm.ofProblem (p.withShift a) = StandardForm.ofProblem (p.withShift b) :=
    rfl
  unfold solve
  rw [wellFormed_withShift ha hb, hform]
  cases (p.withShift b).wellFormed with
  | false => exact .refl _
  | true =>
    cases StandardForm.ofProblem (p.withShift b) with
    | none => exact .refl _
    | some form =>
      simp only [Bool.not_true, Bool.false_eq_true, if_false]
      cases (method.optimize (.ofStandardForm form)).status with
      | failed reason => exact .refl _
      -- only here does the constant term count, in the objective value
      | optimal => exact ⟨rfl, rfl, rfl, rfl⟩

/-- Only problems that are fit for numerical work have optimal answers. -/
theorem wellFormed_of_optimal {method : Simplex K} {p : Problem K}
    (h : (method.solve p).status = .optimal) : p.wellFormed = true := by
  rcases solve_exits method p with ⟨-, hs⟩ | ⟨hwf, -⟩ | ⟨hwf, -⟩
  · rw [hs] at h
    cases h
  · exact hwf
  · exact hwf

/-- The objective value of an optimal answer is the objective at its columns. -/
theorem objective_eq_evaluate {method : Simplex K} {p : Problem K}
    (h : (method.solve p).status = .optimal) :
    (method.solve p).objective = p.evaluate (method.solve p).columns := by
  have hanswers := solve_answers method p
  rw [Solution.Answers, h] at hanswers
  exact hanswers.2.2.1

end Simplex

end Shift

namespace Exact

/-- The sum of products of finite numbers is finite. -/
theorem isFinite_dot {a x : List Exact} (ha : ∀ y ∈ a, Scalar.isFinite y = true)
    (hx : ∀ y ∈ x, Scalar.isFinite y = true) : Scalar.isFinite (dot a x) = true := by
  lift a to List ℚ using ha
  lift x to List ℚ using hx
  rw [dot_map_finite]
  rfl

/-- A finite number that is added to both drops out of a difference. -/
theorem add_sub_add {a b x : Exact} (ha : Scalar.isFinite a = true) (hb : Scalar.isFinite b = true)
    (hx : Scalar.isFinite x = true) : a + x - (b + x) = a - b := by
  lift a to ℚ using ha
  lift b to ℚ using hb
  lift x to ℚ using hx
  rw [finite_add, finite_add, finite_sub, finite_sub, add_sub_add_right_eq_sub]

end Exact

namespace Simplex

/-- What an optimal answer adds to the constant term is finite in exact arithmetic. -/
theorem isFinite_dot_columns {method : Simplex Exact} {p : Problem Exact}
    (h : (method.solve p).status = .optimal) :
    isFinite (dot p.objective (method.solve p).columns) = true := by
  have hwf := wellFormed_of_optimal h
  simp only [Problem.wellFormed, Bool.and_eq_true, List.all_eq_true] at hwf
  exact Exact.isFinite_dot hwf.1.1.1.2 (finite_columns method p)

/-- **The constant term only moves the objective value.** Two finite constant terms give the same
status, columns, rows and number of iterations, and the objective values of optimal answers are the
constant terms plus a number that does not depend on them. So in exact arithmetic the values are as
far from each other as the constant terms. -/
theorem shift_translates :
    (∀ {K : Type} [ExtendedScalar K] (method : Simplex K) (p : Problem K), ∃ S : K, ∀ a b,
      isFinite a = true → isFinite b = true →
        (method.solve (p.withShift a)).SameButObjective (method.solve (p.withShift b)) ∧
        ((method.solve (p.withShift a)).status = .optimal →
          (method.solve (p.withShift a)).objective = a + S ∧
            (method.solve (p.withShift b)).objective = b + S)) ∧
    ∀ (method : Simplex Exact) (p : Problem Exact) (a b : Exact),
      isFinite a = true → isFinite b = true →
        (method.solve (p.withShift a)).status = .optimal →
          (method.solve (p.withShift a)).objective - (method.solve (p.withShift b)).objective =
            a - b := by
  refine ⟨fun {K} _ method p => ?_, fun method p a b ha hb hoptimal => ?_⟩
  · by_cases hfinite : ∃ c : K, isFinite c = true
    · -- the columns are those of any one finite constant term
      obtain ⟨c, hc⟩ := hfinite
      refine ⟨dot p.objective (method.solve (p.withShift c)).columns, fun a b ha hb => ?_⟩
      have hsame := solve_withShift method (p := p) ha hb
      refine ⟨hsame, fun hoptimal => ⟨?_, ?_⟩⟩
      · rw [objective_eq_evaluate hoptimal, (solve_withShift method ha hc).columns]
        rfl
      · rw [objective_eq_evaluate (hsame.status ▸ hoptimal), (solve_withShift method hb hc).columns]
        rfl
    · exact ⟨0, fun a b ha => absurd ⟨a, ha⟩ hfinite⟩
  · have hsame := solve_withShift method (p := p) ha hb
    have hdot := isFinite_dot_columns hoptimal
    rw [objective_eq_evaluate hoptimal, objective_eq_evaluate (hsame.status ▸ hoptimal),
      ← hsame.columns]
    exact Exact.add_sub_add ha hb hdot

open Exact in
theorem mixedBounds_translates :
    let solved (shift : ℚ) : Solution Exact :=
      (withBudget 10).solve (mixedBounds.withShift (finite shift))
    (solved 1).status = .optimal ∧ (solved 1).SameButObjective (solved (-5)) ∧
      (solved 1).objective - (solved (-5)).objective = finite 1 - finite (-5) := by
  intro solved
  have hoptimal : (solved 1).status = .optimal := by decide +kernel
  obtain ⟨S, hS⟩ := shift_translates.1 (withBudget 10) mixedBounds
  have hsame := (hS (finite 1) (finite (-5)) rfl rfl).1
  exact ⟨hoptimal, hsame, shift_translates.2 (withBudget 10) mixedBounds _ _ rfl rfl hoptimal⟩

end Simplex

namespace Exact

theorem neg_neg (x : Exact) : - -x = x := by
  cases x with
  | finite q => exact congrArg finite (Rat.neg_neg q)
  | _ => rfl

theorem neg_add (x y : Exact) : -(x + y) = -x + -y := by
  cases x <;> cases y <;> first | rfl | exact congrArg finite Rat.neg_add

theorem neg_infinityLike (q : ℚ) : -infinityLike q = infinityLike (-q) := by
  unfold infinityLike
  rcases lt_trichotomy q 0 with h | rfl | h
  · simp [h, h.not_gt]
    rfl
  · rfl
  · simp [h, h.not_gt]
    rfl

/-- The sign of a factor is the sign of the product. -/
theorem neg_mul (x y : Exact) : -x * y = -(x * y) := by
  match x, y with
  | finite p, finite q => exact congrArg finite (Rat.neg_mul p q)
  | finite p, posInf => exact (neg_infinityLike p).symm
  | finite p, negInf => exact (neg_infinityLike (-p)).symm
  | posInf, finite q => exact (neg_infinityLike q).symm
  | negInf, finite q =>
    have hpos : negInf * finite q = -infinityLike q := (neg_infinityLike q).symm
    rw [hpos, neg_neg]
    rfl
  | nan, y => rfl
  | finite p, nan | posInf, nan | negInf, nan => rfl
  | posInf, posInf | posInf, negInf | negInf, posInf | negInf, negInf => rfl

theorem isFinite_neg (x : Exact) : Scalar.isFinite (-x) = Scalar.isFinite x := by
  cases x <;> rfl

theorem neg_sum (terms : List Exact) : sum (terms.map (-·)) = -sum terms := by
  have hstart : (-0 : Exact) = - -0 := rfl
  rw [sum, sum, List.foldl_map, hstart]
  exact List.foldl_hom (fun x : Exact => -x) fun x y => (neg_add x y).symm

theorem neg_dot (a x : List Exact) : dot (a.map (-·)) x = -dot a x := by
  have hterms : List.zipWith (· * ·) (a.map (-·)) x = (List.zipWith (· * ·) a x).map (-·) := by
    rw [List.zipWith_map_left, List.map_zipWith]
    simp only [neg_mul]
  rw [dot, hterms, neg_sum, ← dot]

end Exact

/-- **The mirror image of a problem**: the other direction, and the objective with all signs changed,
the constant term included. -/
def Problem.mirror (p : Problem Exact) : Problem Exact :=
  { p with
    direction := p.direction.flip
    shift := -p.shift
    objective := p.objective.map (-·) }

namespace Problem

theorem wellFormed_mirror (p : Problem Exact) : p.mirror.wellFormed = p.wellFormed := by
  simp only [wellFormed, mirror, Exact.isFinite_neg, List.all_map, Function.comp_def]

/-- The mirror image has the negated objective at every point. -/
theorem evaluate_mirror (p : Problem Exact) (x : List Exact) :
    p.mirror.evaluate x = -p.evaluate x := by
  rw [evaluate, evaluate, Exact.neg_add, ← Exact.neg_dot]
  rfl

end Problem

namespace Simplex

theorem Substitution.spread_neg (s : Substitution Exact) (a : Exact) :
    s.spread (-a) = (s.spread a).map (-·) := by
  rw [spread, spread, List.map_map]
  refine List.map_congr_left fun sign _ => ?_
  rw [Function.comp_apply, Exact.neg_add, Exact.neg_mul]
  rfl

namespace StandardForm

/-- The mirror image of a standard form. -/
def mirror (form : StandardForm Exact) : StandardForm Exact :=
  { form with
    direction := form.direction.flip
    objective := form.objective.map (-·) }

theorem spread_neg (columns : List (Substitution Exact)) (coefficients : List Exact) :
    spread columns (coefficients.map (-·)) = (spread columns coefficients).map (-·) := by
  induction columns generalizing coefficients with
  | nil => rfl
  | cons s columns ih =>
    cases coefficients with
    | nil =>
      have hzero : s.spread 0 = (s.spread 0).map (-·) := s.spread_neg 0
      have hrest : spread columns [] = (spread columns []).map (-·) := ih []
      rw [List.map_nil, spread, List.map_append, ← hzero, ← hrest]
    | cons a coefficients => rw [List.map_cons, spread, spread, s.spread_neg, ih, List.map_append]

/-- **Mirror images have mirror images as standard forms.** -/
theorem ofProblem_mirror (p : Problem Exact) : ofProblem p.mirror = (ofProblem p).map mirror := by
  have hform : ofConsistent p.mirror = (ofConsistent p).mirror := by
    have hspread := spread_neg (p.columnBounds.map Substitution.ofBound) p.objective
    simp only [ofConsistent, mirror]
    rw [← hspread]
    rfl
  have hcolumns : p.mirror.columnBounds = p.columnBounds := rfl
  have hrows : p.mirror.rowBounds = p.rowBounds := rfl
  rw [ofProblem, ofProblem, hform, hcolumns, hrows]
  split <;> rfl

end StandardForm

/-- **A standard form and its mirror image have the same first tableau.** The sign of the objective
is changed for the one direction only. -/
theorem Tableau.ofStandardForm_mirror (form : StandardForm Exact) :
    ofStandardForm form.mirror = ofStandardForm form := by
  unfold ofStandardForm StandardForm.mirror
  cases form.direction with
  | minimize => rfl
  | maximize =>
    have htwice : (form.objective.map (-·)).map (-·) = form.objective := by
      simp [Function.comp_def, Exact.neg_neg]
    simp only [Direction.flip, htwice]

theorem solutionAt_mirror (p : Problem Exact) (columns : List Exact) :
    solutionAt p.mirror columns =
      { solutionAt p columns with objective := -(solutionAt p columns).objective } := by
  rw [solutionAt, p.evaluate_mirror]
  rfl

/-- **Minimising and maximising are mirror images.** In exact arithmetic, whatever the tolerance and
the budget, the answer to the mirror image of a problem is the answer to the problem with the
objective value negated. -/
theorem solve_mirror (method : Simplex Exact) (p : Problem Exact) :
    method.solve p.mirror = { method.solve p with objective := -(method.solve p).objective } := by
  unfold solve
  rw [p.wellFormed_mirror, StandardForm.ofProblem_mirror]
  cases p.wellFormed with
  | false => rfl
  | true =>
    cases StandardForm.ofProblem p with
    | none => rfl
    | some form =>
      simp only [Option.map_some, Tableau.ofStandardForm_mirror, Bool.not_true, Bool.false_eq_true,
        if_false]
      have hpoint (y : List Exact) : form.mirror.point y = form.point y := rfl
      cases (method.optimize (.ofStandardForm form)).status with
      | failed reason => rfl
      | optimal =>
        simp only [hpoint, solutionAt_mirror]
        rfl

end Simplex

end LinearProgram
