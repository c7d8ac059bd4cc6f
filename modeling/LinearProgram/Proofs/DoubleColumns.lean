import LinearProgram.Proofs.Objective
import LinearProgram.Proofs.RoundedSums

/-!
# Column values in doubles

The last tableau gives a finite double for each variable of the standard form, and each column value
is computed from the variables of its own column by at most two additions: the lower side plus a
variable, the upper side less a variable, or the difference of two variables.

* `Bound.isFinite_lower`, `Bound.isFinite_upper`: the sides of a consistent bound.
* `Written`: the ways to write a column.
* `value_shift`, `value_reflect`, `value_split`: what a column value is.
* `portions`, `columnVariables`: the values of the variables of each column.
* `optimal_point`, `column_of_optimal`: where the column values of an optimal answer come from.
-/

namespace LinearProgram

open Scalar ExtendedScalar

namespace Double

theorem negativeZero_add (x : Float) : -0 + x = x := by
  apply add_eq_of_unpacked
  rw [unpack_negativeZero]
  cases x.toModel.unpack with
  | zero s => cases s <;> rfl
  | _ => rfl

theorem isFinite_of_ne {x : Float} (hnan : isNaN x = false) (hpos : x ≠ infinity)
    (hneg : x ≠ -infinity) : isFinite x = true := by
  rcases cases_value x with h | h | h | h
  · exact h
  · exact absurd h hpos
  · exact absurd h hneg
  · rw [isNaN_iff.2 h] at hnan
    cases hnan

end Double

namespace Bound

variable {b : Bound Float} {l u : Float}

theorem side_eq_some {absent s x : Float} (h : side absent s = some x) :
    (s == absent) = false ∧ s = x := by
  unfold side at h
  split at h
  · cases h
  · next hne => exact ⟨Bool.eq_false_iff.2 hne, Option.some.inj h⟩

/-- **A side is finite** if it is a number and not the infinity that no bound may have there. -/
theorem isFinite_of_side {absent s x : Float} (h : side absent s = some x)
    (habsent : absent = infinity ∨ absent = -infinity) (hn : isNaN s = false)
    (hopposite : s ≠ -absent) : isFinite x = true := by
  obtain ⟨hne, rfl⟩ := side_eq_some h
  rcases habsent with rfl | rfl
  · refine Double.isFinite_of_ne hn (fun hs => ?_) hopposite
    rw [Double.beq_infinity_iff.2 hs] at hne
    cases hne
  · have hback : (-(-infinity) : Float) = infinity := by decide
    rw [hback] at hopposite
    refine Double.isFinite_of_ne hn hopposite fun hs => ?_
    rw [Double.beq_neg_infinity_iff.2 hs] at hne
    cases hne

/-- **The lower side of a consistent bound is finite.** -/
theorem isFinite_lower (hn : b.hasNaN = false) (hc : b.consistent = true)
    (hl : b.lower? = some l) : isFinite l = true := by
  cases b with
  | free | upper _ => cases hl
  | lower s =>
    refine isFinite_of_side hl (.inr rfl) hn ?_
    rintro rfl
    cases hc
  | double s u =>
    simp only [hasNaN, Bool.or_eq_false_iff] at hn
    simp only [consistent, Bool.and_eq_true] at hc
    refine isFinite_of_side hl (.inr rfl) hn.1 ?_
    rintro rfl
    exact absurd hc.1.2 (by decide)
  | fixed s =>
    refine isFinite_of_side hl (.inr rfl) hn ?_
    rintro rfl
    cases hc

/-- The upper side of a consistent bound is finite. -/
theorem isFinite_upper (hn : b.hasNaN = false) (hc : b.consistent = true)
    (hu : b.upper? = some u) : isFinite u = true := by
  cases b with
  | free | lower _ => cases hu
  | upper s =>
    refine isFinite_of_side hu (.inl rfl) hn ?_
    rintro rfl
    cases hc
  | double l s =>
    simp only [hasNaN, Bool.or_eq_false_iff] at hn
    simp only [consistent, Bool.and_eq_true] at hc
    refine isFinite_of_side hu (.inl rfl) hn.2 ?_
    rintro rfl
    exact absurd hc.2 (by decide)
  | fixed s =>
    refine isFinite_of_side hu (.inl rfl) hn ?_
    rintro rfl
    cases hc

end Bound

namespace Simplex

namespace Substitution

variable (offset v w : Float)

/-- A column without variables. -/
theorem value_constant : (⟨offset, []⟩ : Substitution Float).value [] = offset :=
  Double.add_negativeZero offset

/-- A column above its lower side. -/
theorem value_shift : (⟨offset, [1]⟩ : Substitution Float).value [v] = offset + v := by
  have hdot : dot [1] [v] = -0 + 1 * v := rfl
  rw [value, hdot, Double.one_mul, Double.negativeZero_add]

/-- A column below its upper side. -/
theorem value_reflect : (⟨offset, [-1]⟩ : Substitution Float).value [v] = offset + -v := by
  have hdot : dot [-1] [v] = -0 + -1 * v := rfl
  rw [value, hdot, Double.neg_one_mul, Double.negativeZero_add]

/-- A column without sides. -/
theorem value_split :
    (⟨offset, [1, -1]⟩ : Substitution Float).value [v, w] = offset + (v + -w) := by
  have hdot : dot [1, -1] [v, w] = -0 + 1 * v + -1 * w := rfl
  rw [value, hdot, Double.one_mul, Double.neg_one_mul, Double.negativeZero_add]

end Substitution

/-- **How a column is written**, from the sides that its bound has. -/
inductive Written {K : Type} [ExtendedScalar K] (b : Bound K) : Substitution K → Prop where
  | constant {l u : K} (hl : b.lower? = some l) (hu : b.upper? = some u) (heq : (l == u) = true) :
    Written b ⟨l, []⟩
  | between {l u : K} (hl : b.lower? = some l) (hu : b.upper? = some u) (hne : (l == u) = false) :
    Written b ⟨l, [1]⟩
  | above {l : K} (hl : b.lower? = some l) (hu : b.upper? = none) : Written b ⟨l, [1]⟩
  | below {u : K} (hl : b.lower? = none) (hu : b.upper? = some u) : Written b ⟨u, [-1]⟩
  | split (hl : b.lower? = none) (hu : b.upper? = none) : Written b ⟨0, [1, -1]⟩

theorem ofBound_written {K : Type} [ExtendedScalar K] (b : Bound K) :
    Written b (Substitution.ofBound b) := by
  unfold Substitution.ofBound
  cases hl : b.lower? with
  | none =>
    cases hu : b.upper? with
    | none => exact .split hl hu
    | some u => exact .below hl hu
  | some l =>
    cases hu : b.upper? with
    | none => exact .above hl hu
    | some u =>
      by_cases heq : (l == u) = true
      · simp only [if_pos heq]
        exact .constant hl hu heq
      · simp only [if_neg heq]
        exact .between hl hu (Bool.eq_false_iff.2 heq)

section Portions

variable {K : Type}

/-- **The values of the variables of each column.** -/
def portions : List (Substitution K) → List K → List (List K)
  | [], _ => []
  | s :: columns, y => y.take s.arity :: portions columns (y.drop s.arity)

theorem columnValues_eq_zipWith [Scalar K] (columns : List (Substitution K)) (y : List K) :
    StandardForm.columnValues columns y =
      List.zipWith Substitution.value columns (portions columns y) := by
  induction columns generalizing y with
  | nil => rfl
  | cons s columns ih => rw [StandardForm.columnValues, portions, List.zipWith_cons_cons, ih]

/-- Each column has its own variables, and all of them. -/
theorem getElem?_portions {columns : List (Substitution K)} {y : List K}
    (hy : y.length = StandardForm.varTotal columns) {j : Nat} {s : Substitution K}
    (hj : columns[j]? = some s) :
    ∃ z, (portions columns y)[j]? = some z ∧ z.length = s.arity := by
  induction columns generalizing y j with
  | nil => cases hj
  | cons first columns ih =>
    rw [StandardForm.varTotal] at hy
    cases j with
    | zero =>
      obtain rfl := Option.some.inj hj
      refine ⟨y.take first.arity, rfl, ?_⟩
      rw [List.length_take, hy]
      omega
    | succ j =>
      have hrest : (y.drop first.arity).length = StandardForm.varTotal columns := by
        rw [List.length_drop, hy]
        omega
      exact ih hrest hj

theorem mem_of_mem_portions {columns : List (Substitution K)} {y z : List K}
    (hz : z ∈ portions columns y) : ∀ v ∈ z, v ∈ y := by
  induction columns generalizing y with
  | nil => cases hz
  | cons s columns ih =>
    rcases List.mem_cons.1 hz with rfl | hz
    · exact fun v => List.mem_of_mem_take
    · exact fun v hv => List.mem_of_mem_drop (ih hz v hv)

end Portions

namespace Tableau

variable {K : Type} [Scalar K]

theorem varCount_kept (tolerance : K) (n : Nat) :
    Kept tolerance fun t : Tableau K => t.varCount = n where
  pivot hpivot ht := by
    unfold pivot at hpivot
    split at hpivot
    · cases hpivot
    simp only at hpivot
    split at hpivot
    · cases hpivot
    split at hpivot
    · cases hpivot
      exact ht
    · cases hpivot
  objective _ ht := ht

end Tableau

/-- The values that are read off at the end, one for each variable of the standard form. -/
theorem length_optimize {K : Type} [Scalar K] (method : Simplex K) (form : StandardForm K) :
    (method.optimize (.ofStandardForm form)).tableau.basicPoint.length = form.varCount := by
  rw [Tableau.length_basicPoint]
  exact (Tableau.varCount_kept method.tolerance form.varCount).optimize rfl

section Answers

variable {K : Type} [ExtendedScalar K]

/-- **The values of the variables of each column** that are read off at the end. -/
def columnVariables (method : Simplex K) (p : Problem K) : List (List K) :=
  match StandardForm.ofProblem p with
  | none => []
  | some form =>
    portions form.columns (method.optimize (.ofStandardForm form)).tableau.basicPoint

variable {method : Simplex K} {p : Problem K}

/-- **Where an optimal answer comes from**: the problem has a standard form, and it is evaluated at
the column values that belong to the values read off the last tableau. -/
theorem optimal_point (h : (method.solve p).status = .optimal) :
    StandardForm.ofProblem p = some (.ofConsistent p) ∧ ∃ pivots, method.solve p =
      (solutionAt p (List.zipWith Substitution.value (p.columnBounds.map Substitution.ofBound)
        (columnVariables method p))).withIterations pivots := by
  rcases solve_exits method p with ⟨-, hs⟩ | ⟨-, -, hs⟩ | ⟨-, form, hform, hs⟩
  · rw [hs] at h
    cases h
  · rw [hs] at h
    cases h
  · rw [hs, status_solutionOf] at h
    obtain ⟨-, rfl⟩ := StandardForm.ofProblem_eq_some_iff.1 hform
    refine ⟨hform, (method.optimize (.ofStandardForm (.ofConsistent p))).pivots, ?_⟩
    rw [hs, solutionOf, h]
    simp only
    rw [StandardForm.point, columnValues_eq_zipWith, columnVariables, hform]
    rfl

/-- The column bounds of an optimal answer are consistent and made of numbers. -/
theorem bounds_of_optimal (h : (method.solve p).status = .optimal) :
    ∀ b ∈ p.columnBounds, b.hasNaN = false ∧ b.consistent = true := by
  have hwf := wellFormed_of_optimal h
  simp only [Problem.wellFormed, Bool.and_eq_true, Bool.not_eq_true', List.any_eq_false,
    Bool.not_eq_true] at hwf
  obtain ⟨hconsistent, -⟩ := StandardForm.ofProblem_eq_some_iff.1 (optimal_point h).1
  exact fun b hb => ⟨hwf.2 b hb, hconsistent b (List.mem_append_left _ hb)⟩

/-- **All variables of the columns have cleared values.** -/
theorem cleared_columnVariables (hzero : isFinite (0 : K) = true) (method : Simplex K)
    (p : Problem K) : ∀ z ∈ columnVariables method p, ∀ v ∈ z, Cleared method.tolerance v := by
  unfold columnVariables
  split
  · exact nofun
  · next form _ =>
    exact fun z hz v hv => cleared_optimize hzero method form v (mem_of_mem_portions hz v hv)

theorem length_columns (h : (method.solve p).status = .optimal) :
    (method.solve p).columns.length = p.numColumns := by
  have hanswers := solve_answers method p
  rw [Solution.Answers, h] at hanswers
  exact hanswers.1

/-- **A column of an optimal answer**: there are values for all its variables, and its value is
computed from them. -/
theorem column_of_optimal (h : (method.solve p).status = .optimal) {j : Nat} {b : Bound K}
    (hb : p.columnBounds[j]? = some b) :
    ∃ z, (columnVariables method p)[j]? = some z ∧
      z.length = (Substitution.ofBound b).arity ∧
      (method.solve p).columns[j]? = some ((Substitution.ofBound b).value z) := by
  obtain ⟨hform, pivots, hs⟩ := optimal_point h
  have hcolumn : (p.columnBounds.map Substitution.ofBound)[j]? =
      some (Substitution.ofBound b) := by
    rw [List.getElem?_map, hb]
    rfl
  obtain ⟨z, hz, harity⟩ :=
    getElem?_portions (length_optimize method (.ofConsistent p)) hcolumn
  have hvariables : (columnVariables method p)[j]? = some z := by
    rw [columnVariables, hform]
    exact hz
  refine ⟨z, hvariables, harity, ?_⟩
  rw [hs]
  change (List.zipWith Substitution.value (p.columnBounds.map Substitution.ofBound)
    (columnVariables method p))[j]? = _
  rw [List.getElem?_zipWith, hcolumn, hvariables]

end Answers

end Simplex

end LinearProgram
