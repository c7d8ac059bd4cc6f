import LinearProgram.Proofs.Standardisation

/-!
# A problem and its standard form have the same points

With exact arithmetic a well-formed problem has no standard form exactly if one of its bounds allows
no finite value. Otherwise the values of the variables that satisfy the form give the feasible
points of the problem, all of them, and the two objectives differ by a constant.

* `Bound.consistent_iff`: a bound is consistent exactly if it allows a finite value.
* `StandardForm.toExact_satisfies`: the points of a form, over the rational and the extended numbers.
* `Restates`: what a standard form says about its problem.
* `ofProblem_restates`: the standard form of a problem says this.
-/

namespace LinearProgram

open Scalar Exact

namespace Bound

variable {b : Bound Exact}

theorem eq_of_side {absent s x : Exact} (h : side absent s = some x) : s = x := by
  unfold side at h
  split at h
  · cases h
  · exact Option.some.inj h

/-- **A consistent bound allows a finite value**: one of its sides, or any value if it has none. -/
theorem exists_admits (hn : b.hasNaN = false) (hc : b.consistent = true) :
    ∃ q, b.Admits (finite q) := by
  cases b with
  | free => exact ⟨0, trivial⟩
  | lower l =>
    obtain ⟨lower, -, hle⟩ := exists_lower hn hc
    refine ⟨lower.getD 0, (hle _).2 ?_⟩
    rintro y rfl
    exact le_rfl
  | upper u =>
    obtain ⟨upper, -, hle⟩ := exists_upper hn hc
    refine ⟨upper.getD 0, (hle _).2 ?_⟩
    rintro y rfl
    exact le_rfl
  | double l u =>
    simp only [hasNaN, Bool.or_eq_false_iff] at hn
    simp only [consistent, Bool.and_eq_true, decide_eq_true_eq] at hc
    obtain ⟨lower, hl, hlower⟩ := exists_lower hn.1 hc.1.2
    obtain ⟨upper, hu, hupper⟩ := exists_upper hn.2 hc.2
    refine ⟨lower.getD (upper.getD 0), (hlower _).2 ?_, (hupper _).2 ?_⟩
    · rintro y rfl
      exact le_rfl
    · rintro y rfl
      cases lower with
      | none => exact le_rfl
      | some x =>
        -- the two sides are in order
        have horder := hc.1.1
        rw [eq_of_side hl, eq_of_side hu] at horder
        exact finite_le.1 horder
  | fixed x =>
    cases x with
    | finite q => exact ⟨q, by simp [Admits]⟩
    | nan => exact absurd hn (by decide)
    | _ => exact absurd hc (by decide)

/-- **A bound is consistent exactly if it allows a finite value.** -/
theorem consistent_iff (hn : b.hasNaN = false) : b.consistent = true ↔ ∃ q, b.Admits (finite q) :=
  ⟨exists_admits hn, fun ⟨_, hq⟩ => consistent_of_admits hq⟩

end Bound

namespace Simplex

theorem Constraint.toExact_holds (c : Constraint ℚ) (y : List ℚ) :
    c.toExact.Holds (y.map finite) ↔ c.Holds y := by
  obtain ⟨coefficients, relation, rhs⟩ := c
  cases relation <;> simp [Holds, toExact]

/-- **The points of a form** are the same over the rational and the extended numbers. -/
theorem StandardForm.toExact_satisfies (form : StandardForm ℚ) (y : List ℚ) :
    form.toExact.Satisfies (y.map finite) ↔ form.Satisfies y := by
  have hnonneg : (∀ v ∈ y.map finite, 0 ≤ v) ↔ ∀ v ∈ y, 0 ≤ v := by
    simp only [List.forall_mem_map, zero_eq, finite_le]
  have hholds : (∀ c ∈ form.toExact.constraints, c.Holds (y.map finite)) ↔
      ∀ c ∈ form.constraints, c.Holds y := by
    simp only [StandardForm.toExact, List.forall_mem_map, Constraint.toExact_holds]
  have hlength : (y.map finite).length = form.toExact.varCount ↔ y.length = form.varCount := by
    rw [List.length_map, StandardForm.toExact]
  constructor
  · intro h
    exact ⟨hlength.1 h.length_eq, hnonneg.1 h.nonneg, hholds.1 h.holds⟩
  · intro h
    exact ⟨hlength.2 h.length_eq, hnonneg.2 h.nonneg, hholds.2 h.holds⟩

/-- **A form restates a problem**: its points give feasible points, every feasible point comes from
one of them, and the objectives differ by a constant. -/
structure Restates (p : Problem Exact) (form : StandardForm Exact) : Prop where
  feasible : ∀ y : List ℚ, form.Satisfies (y.map finite) → p.Feasible (form.point (y.map finite))
  surjective : ∀ x, p.Feasible x →
    ∃ y : List ℚ, form.Satisfies (y.map finite) ∧ form.point (y.map finite) = x
  evaluate : ∃ k : ℚ, ∀ y : List ℚ,
    p.evaluate (form.point (y.map finite)) - dot form.objective (y.map finite) = finite k

theorem Standardises.restates {p : Problem Exact} {form : StandardForm ℚ}
    (h : Standardises p form) : Restates p form.toExact where
  feasible y hy := by
    rw [StandardForm.toExact_point]
    exact h.feasible y ((form.toExact_satisfies y).1 hy)
  surjective x hx := by
    obtain ⟨y, hy, hpoint⟩ := h.surjective x hx
    exact ⟨y, (form.toExact_satisfies y).2 hy, by rw [StandardForm.toExact_point, hpoint]⟩
  evaluate := by
    obtain ⟨k, hk⟩ := h.evaluate
    refine ⟨k, fun y => ?_⟩
    have hobjective : form.toExact.objective = form.objective.map finite := rfl
    rw [StandardForm.toExact_point, hk, hobjective, dot_map_finite, finite_sub,
      add_sub_cancel_right]

/-- **The standard form of a problem**: there is none exactly if a bound allows no finite value, and
otherwise it restates the problem. -/
theorem ofProblem_restates (p : Problem Exact) (hwf : p.wellFormed = true) :
    (StandardForm.ofProblem p = none ↔
      ∃ b ∈ p.columnBounds ++ p.rowBounds, ∀ q : ℚ, ¬b.Admits (finite q)) ∧
    ∀ form, StandardForm.ofProblem p = some form → Restates p form := by
  have hnumber : ∀ b ∈ p.columnBounds ++ p.rowBounds, b.hasNaN = false := by
    simp only [Problem.wellFormed, Bool.and_eq_true, Bool.not_eq_true', List.any_eq_false,
      Bool.not_eq_true] at hwf
    exact List.forall_mem_append.2 ⟨hwf.2, hwf.1.2⟩
  have hempty : ∀ b ∈ p.columnBounds ++ p.rowBounds,
      (∀ q : ℚ, ¬b.Admits (finite q)) ↔ b.consistent = false := by
    intro b hb
    rw [← not_exists, ← Bound.consistent_iff (hnumber b hb), Bool.not_eq_true]
  have hnone : StandardForm.ofProblem p = none ↔
      ∃ b ∈ p.columnBounds ++ p.rowBounds, b.consistent = false :=
    StandardForm.ofProblem_eq_none_iff
  constructor
  · rw [hnone]
    constructor
    · rintro ⟨b, hb, hc⟩
      exact ⟨b, hb, (hempty b hb).2 hc⟩
    · rintro ⟨b, hb, hno⟩
      exact ⟨b, hb, (hempty b hb).1 hno⟩
  · intro form hform
    obtain ⟨rational, hrational, rfl⟩ := exists_standardises_of_ofProblem hwf hform
    exact hrational.restates

/-- A column of each kind, a row with two different sides and one with equal sides. -/
def everyKind : Problem Exact where
  direction := .maximize
  shift := finite 1
  objective := [finite 1, finite 2, finite 3, finite 4, finite 5]
  rowBounds := [.double (finite (-3)) (finite 5), .fixed (finite 2)]
  columnBounds :=
    [.fixed (finite 1), .lower (finite 2), .upper (finite 3), .free, .double (finite 1) (finite 4)]
  entries := [⟨1, 1, finite 1⟩, ⟨1, 3, finite 2⟩, ⟨2, 4, finite 1⟩, ⟨2, 5, finite (-1)⟩]

theorem everyKind_restates : everyKind.wellFormed = true ∧
    ∃ form, StandardForm.ofProblem everyKind = some form ∧ Restates everyKind form := by
  have hwf : everyKind.wellFormed = true := by decide +kernel
  have hsome : (StandardForm.ofProblem everyKind).isSome = true := by decide +kernel
  obtain ⟨form, hform⟩ := Option.isSome_iff_exists.1 hsome
  exact ⟨hwf, form, hform, (ofProblem_restates everyKind hwf).2 form hform⟩

end Simplex

end LinearProgram
