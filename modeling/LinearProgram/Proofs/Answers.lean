import LinearProgram.Proofs.Standardisation

/-!
# The answers are right

With exact arithmetic and no tolerance, every answer of the simplex method is true of the problem,
whatever the budget: the optimal point is feasible and best, a problem called infeasible has no
feasible point, and a problem called unbounded has feasible points with objectives beyond every
number.

* `solve_cases`: answers come from bad data, from an inconsistent bound, or from a standard form.
* `outcome_tells`: the end of both phases tells the truth about the standard form.
* `optimal_isOptimal`, `infeasible_not_feasible`, `unbounded_exceeds`: the three kinds of answers.
-/

namespace LinearProgram

open Scalar Exact

namespace Simplex

variable {p : Problem Exact} {form : StandardForm ℚ} {n : ℕ}

/-- The simplex method with exact arithmetic, no tolerance, and a budget of `n` pivots. -/
def withBudget (n : ℕ) : Simplex Exact := { maxIterations := n, tolerance := 0 }

/-- The end of both phases on a standard form over the rational numbers. -/
def outcome (form : StandardForm ℚ) (n : ℕ) : Outcome ℚ :=
  (Simplex.mk n 0).optimize (Tableau.ofStandardForm form)

/-- The column values that a tableau of a standard form stands for. -/
def columnsAt (form : StandardForm ℚ) (t : Tableau ℚ) : List Exact :=
  (form.point t.basicPoint).map finite

/-- The answer that an end of both phases gives. -/
def answer (p : Problem Exact) (form : StandardForm ℚ) (o : Outcome ℚ) : Solution Exact :=
  match o.status with
  | .failed reason => (Solution.failed reason).withIterations o.pivots
  | .optimal => (solutionAt p (columnsAt form o.tableau)).withIterations o.pivots

@[simp]
theorem answer_status (p : Problem Exact) (form : StandardForm ℚ) (o : Outcome ℚ) :
    (answer p form o).status = o.status := by
  unfold answer
  cases o.status <;> rfl

theorem answer_of_optimal {o : Outcome ℚ} (h : o.status = .optimal) :
    answer p form o = (solutionAt p (columnsAt form o.tableau)).withIterations o.pivots := by
  rw [answer, h]

/-- **What the answers to a problem come from**: bad data, an inconsistent bound, or both phases on a
standard form. -/
theorem solve_cases (p : Problem Exact) :
    (p.wellFormed = false ∧ ∀ n, (withBudget n).solve p = .failed .numerical) ∨
    (p.wellFormed = true ∧ (∃ b ∈ p.columnBounds ++ p.rowBounds, b.consistent = false) ∧
      StandardForm.ofProblem p = none ∧ ∀ n, (withBudget n).solve p = .failed .infeasible) ∨
    (p.wellFormed = true ∧ ∃ form, Standardises p form ∧
      StandardForm.ofProblem p = some form.toExact ∧
      ∀ n, (withBudget n).solve p = answer p form (outcome form n)) := by
  unfold solve
  cases hwf : p.wellFormed with
  | false => exact .inl ⟨rfl, fun _ => rfl⟩
  | true =>
    refine .inr ?_
    cases hof : StandardForm.ofProblem p with
    | none => exact .inl ⟨rfl, StandardForm.ofProblem_eq_none_iff.1 hof, rfl, fun _ => rfl⟩
    | some standard =>
      obtain ⟨form, hform, rfl⟩ := exists_standardises_of_ofProblem hwf hof
      refine .inr ⟨rfl, form, hform, rfl, fun n => ?_⟩
      have hopt : (withBudget n).optimize (.ofStandardForm form.toExact) =
          (outcome form n).toExact := by
        rw [Tableau.toExact_ofStandardForm]
        exact toExact_optimize n _
      simp only [hopt, Outcome.toExact, Bool.not_true, Bool.false_eq_true, if_false]
      rw [Tableau.toExact_basicPoint, StandardForm.toExact_point]
      rfl

/-- **An inconsistent bound leaves no feasible point.** -/
theorem not_feasible_of_inconsistent (hwf : p.wellFormed = true) {b : Bound Exact}
    (hb : b ∈ p.columnBounds ++ p.rowBounds) (hc : b.consistent = false) {x : List Exact} :
    ¬p.Feasible x := by
  intro hx
  simp only [Problem.wellFormed, Bool.and_eq_true, List.all_eq_true] at hwf
  obtain ⟨m, hm⟩ := Problem.exists_dense hwf.1.1.2
  lift x to List ℚ using hx.finite
  obtain ⟨hlen, hcols, hrows⟩ := (Problem.feasible_map_finite hm x).1 hx
  have hmlen : m.length = p.rowBounds.length := by
    have := p.length_dense
    rwa [hm, List.length_map] at this
  -- every bound meets a finite value
  have hmeets : ∀ (bounds : List (Bound Exact)) (y : List ℚ), y.length = bounds.length →
      (∀ r ∈ bounds.zip y, r.1.Admits (finite r.2)) → b ∉ bounds := by
    intro bounds y hy hadmits hmem
    obtain ⟨i, hi, rfl⟩ := List.getElem_of_mem hmem
    have hpair : (bounds[i], y[i]) ∈ bounds.zip y := by
      have hi' : i < (bounds.zip y).length := by simp [hy, hi]
      rw [← List.getElem_zip (h := hi')]
      exact List.getElem_mem hi'
    rw [Bound.consistent_of_admits (hadmits _ hpair)] at hc
    exact Bool.noConfusion hc
  rcases List.mem_append.1 hb with hb | hb
  · exact hmeets _ _ hlen hcols hb
  · exact hmeets _ _ (by simp [hmlen]) hrows hb

/-- **What an end of both phases says about a standard form.** They never break down. -/
def Tells (form : StandardForm ℚ) (o : Outcome ℚ) : Prop :=
  match o.status with
  | .optimal => form.Satisfies o.tableau.basicPoint ∧
      ∀ y, form.Satisfies y → form.gain y ≤ form.gain o.tableau.basicPoint
  | .failed .infeasible => ∀ y, ¬form.Satisfies y
  | .failed .unbounded => ∀ bound, ∃ y, form.Satisfies y ∧ bound < form.gain y
  | .failed .iterationLimit => True
  | .failed .numerical => False

/-- The point of a best tableau is a best point of the standard form. -/
theorem best_point (hform : form.Shaped) {t : Tableau ℚ} (hbest : t.Best)
    (hagree : (Tableau.ofStandardForm form).Agrees t) :
    form.Satisfies t.basicPoint ∧ ∀ y, form.Satisfies y → form.gain y ≤ form.gain t.basicPoint := by
  -- the point that is read off is the vertex, which is a feasible vector of the first tableau
  have hcount := hagree.varCount
  have hpoint : t.basicPoint = (Tableau.ofStandardForm form).formPoint t.vertex := by
    rw [Tableau.basicPoint_eq hbest.toCanonical, Tableau.formPoint, hcount]
    rfl
  have hvertex := hagree.feasible_iff.1 (Tableau.vertex_feasible hbest.toCanonical hbest.settled)
  rw [hpoint]
  refine ⟨Tableau.satisfies_of_feasible hform.constraints hvertex, ?_⟩
  intro y hy
  have hv := Tableau.feasible_extend hform.constraints hy
  have hle := hbest.isBest (hagree.feasible_iff.2 hv)
  rw [hagree.objective _ hv.solvedBy, hagree.objective _ hvertex.solvedBy,
    Tableau.residual_objective hform, Tableau.residual_objective hform,
    Tableau.formPoint_extend hy.length_eq] at hle
  exact hle

/-- An unlimited column gives points of the standard form with any gain. -/
theorem unlimited_points (hform : form.Shaped) {t : Tableau ℚ} {c : ℕ} (hunlimited : t.Unlimited c)
    (hagree : (Tableau.ofStandardForm form).Agrees t) (bound : ℚ) :
    ∃ y, form.Satisfies y ∧ bound < form.gain y := by
  obtain ⟨v, hv, hlt⟩ := hunlimited.exists_gt bound
  have hv := hagree.feasible_iff.1 hv
  rw [hagree.objective _ hv.solvedBy, Tableau.residual_objective hform] at hlt
  exact ⟨_, Tableau.satisfies_of_feasible hform.constraints hv, hlt⟩

/-- **Both phases tell the truth about a standard form.** -/
theorem outcome_tells (hform : form.Shaped) (n : ℕ) : Tells form (outcome form n) := by
  have hspec := optimize_spec (Tableau.ofStandardForm_dictionary hform) n
  rw [← outcome] at hspec
  unfold Tells
  rcases hspec with ⟨hs, hbest, hagree⟩ | ⟨hs, hnone⟩ | ⟨hs, t, c, hagree, hunlimited⟩ | hs
  · rw [hs]
    exact best_point hform hbest hagree
  · rw [hs]
    intro y hy
    exact hnone _ (Tableau.feasible_extend hform.constraints hy)
  · rw [hs]
    intro bound
    exact unlimited_points hform hunlimited hagree bound
  · rw [hs]
    trivial

/-- **Optimal solutions of a problem**: the columns are a feasible point, the rows and the objective
are the values there, and no feasible point has a better objective. -/
structure IsOptimal (p : Problem Exact) (s : Solution Exact) : Prop where
  feasible : p.Feasible s.columns
  rows_eq : s.rows = p.activities s.columns
  objective_eq : s.objective = p.evaluate s.columns
  minimal : p.direction = .minimize → ∀ x, p.Feasible x → s.objective ≤ p.evaluate x
  maximal : p.direction = .maximize → ∀ x, p.Feasible x → p.evaluate x ≤ s.objective

/-- **Optimal answers are right.** -/
theorem optimal_isOptimal (n : ℕ) (p : Problem Exact)
    (h : ((withBudget n).solve p).status = .optimal) :
    IsOptimal p ((withBudget n).solve p) := by
  rcases solve_cases p with ⟨-, hs⟩ | ⟨-, -, -, hs⟩ | ⟨-, form, hform, -, hs⟩
  · rw [hs] at h
    exact absurd h (by decide)
  · rw [hs] at h
    exact absurd h (by decide)
  · rw [hs, answer_status] at h
    rw [hs, answer_of_optimal h]
    have htells := outcome_tells hform.shaped n
    rw [Tells, h] at htells
    obtain ⟨hpoint, hbest⟩ := htells
    obtain ⟨k, hk⟩ := hform.evaluate
    have hgain : ∀ x, p.Feasible x → ∃ y, form.gain y ≤
        form.gain (outcome form n).tableau.basicPoint ∧
        p.evaluate x = finite (k + dot form.objective y) := by
      intro x hx
      obtain ⟨y, hy, rfl⟩ := hform.surjective x hx
      exact ⟨y, hbest y hy, hk y⟩
    have hobjective : ((solutionAt p (columnsAt form (outcome form n).tableau)).withIterations
        (outcome form n).pivots).objective =
        finite (k + dot form.objective (outcome form n).tableau.basicPoint) := hk _
    refine ⟨hform.feasible _ hpoint, rfl, rfl, fun hdir x hx => ?_, fun hdir x hx => ?_⟩
    · obtain ⟨y, hle, hy⟩ := hgain x hx
      simp only [StandardForm.gain, hform.direction_eq, hdir] at hle
      rw [hobjective, hy, finite_le]
      linarith
    · obtain ⟨y, hle, hy⟩ := hgain x hx
      simp only [StandardForm.gain, hform.direction_eq, hdir] at hle
      rw [hobjective, hy, finite_le]
      linarith

/-- A row that needs the first phase, a row with two sides, and a column without sides. -/
def mixedBounds : Problem Exact where
  direction := .minimize
  shift := finite 1
  objective := [finite 1, finite 2]
  rowBounds := [.lower (finite 2), .double (finite (-3)) (finite 5)]
  columnBounds := [.lower (finite 0), .free]
  entries := [⟨1, 1, finite 1⟩, ⟨1, 2, finite 1⟩, ⟨2, 1, finite 1⟩, ⟨2, 2, finite (-1)⟩]

theorem mixedBounds_isOptimal : ((withBudget 10).solve mixedBounds).status = .optimal ∧
    IsOptimal mixedBounds ((withBudget 10).solve mixedBounds) :=
  ⟨by decide +kernel, optimal_isOptimal 10 mixedBounds (by decide +kernel)⟩

/-- **Infeasible answers are right.** -/
theorem infeasible_not_feasible (n : ℕ) (p : Problem Exact)
    (h : ((withBudget n).solve p).status = .failed .infeasible) : ¬∃ x, p.Feasible x := by
  rintro ⟨x, hx⟩
  rcases solve_cases p with ⟨-, hs⟩ | ⟨hwf, ⟨b, hb, hc⟩, -⟩ | ⟨-, form, hform, -, hs⟩
  · rw [hs] at h
    exact absurd h (by decide)
  · exact not_feasible_of_inconsistent hwf hb hc hx
  · obtain ⟨y, hy, -⟩ := hform.surjective x hx
    rw [hs, answer_status] at h
    have htells := outcome_tells hform.shaped n
    rw [Tells, h] at htells
    exact htells y hy

/-- A row whose lower side is out of reach for its only column. -/
def distantRow : Problem Exact where
  direction := .maximize
  shift := finite 0
  objective := [finite 1]
  rowBounds := [.lower (finite 2)]
  columnBounds := [.double (finite 0) (finite 1)]
  entries := [⟨1, 1, finite 1⟩]

theorem distantRow_infeasible : ((withBudget 10).solve distantRow).status = .failed .infeasible ∧
    ¬∃ x, distantRow.Feasible x :=
  ⟨by decide +kernel, infeasible_not_feasible 10 distantRow (by decide +kernel)⟩

/-- **Unbounded answers are right**: feasible points have objectives beyond every number. -/
theorem unbounded_exceeds (n : ℕ) (p : Problem Exact)
    (h : ((withBudget n).solve p).status = .failed .unbounded) (bound : ℚ) :
    ∃ x, p.Feasible x ∧ match p.direction with
      | .minimize => p.evaluate x < finite bound
      | .maximize => finite bound < p.evaluate x := by
  rcases solve_cases p with ⟨-, hs⟩ | ⟨-, -, -, hs⟩ | ⟨-, form, hform, -, hs⟩
  · rw [hs] at h
    exact absurd h (by decide)
  · rw [hs] at h
    exact absurd h (by decide)
  · rw [hs, answer_status] at h
    have hunbounded := outcome_tells hform.shaped n
    rw [Tells, h] at hunbounded
    unfold StandardForm.gain at hunbounded
    rw [hform.direction_eq] at hunbounded
    obtain ⟨k, hk⟩ := hform.evaluate
    cases hdir : p.direction with
    | minimize =>
      -- the gain is the negated objective, and the constant comes on top
      obtain ⟨y, hy, hlt⟩ := hunbounded (k - bound)
      refine ⟨_, hform.feasible y hy, ?_⟩
      simp only [hdir] at hlt
      simp only [hk, finite_lt]
      linarith
    | maximize =>
      obtain ⟨y, hy, hlt⟩ := hunbounded (bound - k)
      refine ⟨_, hform.feasible y hy, ?_⟩
      simp only [hdir] at hlt
      simp only [hk, finite_lt]
      linarith

/-- A line along which a reflected column goes down without end. -/
def openLine : Problem Exact where
  direction := .maximize
  shift := finite 0
  objective := [finite 1, finite 1]
  rowBounds := [.fixed (finite 1)]
  columnBounds := [.free, .upper (finite 4)]
  entries := [⟨1, 1, finite 1⟩, ⟨1, 2, finite 2⟩]

theorem openLine_exceeds : ((withBudget 10).solve openLine).status = .failed .unbounded ∧
    ∃ x, openLine.Feasible x ∧ finite 100 < openLine.evaluate x :=
  ⟨by decide +kernel, unbounded_exceeds 10 openLine (by decide +kernel) 100⟩

end Simplex

end LinearProgram
