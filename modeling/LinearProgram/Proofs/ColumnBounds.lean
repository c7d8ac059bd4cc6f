import LinearProgram.Proofs.DoubleColumns

/-!
# Column bounds in doubles

A column value is computed from the values of the variables of its column that are read off the last
tableau, and it is not compared with the bound of the column any more. The side that a column is
measured from is respected in doubles if no variable is below zero by the tolerance or more. Between
two sides `l` and `u` the standard form limits the variable by the width `u - l`, which is rounded,
and so the column value by `l + (u - l)`. This is at most `u` if the width is exact, and can be well
above `u` if it is not.

* `Double.ExactDifference`: differences that need no rounding.
* `nonneg_of_cleared`: the values that are read off are negative by the tolerance or not at all.
* `Respects`: how far a column value respects its bound.
* `value_respects`: the value of one column, for each way to write it.
* `columns_respect`: all columns of an optimal answer.
-/

namespace LinearProgram

open Scalar ExtendedScalar

namespace Double

variable {u l : Float}

/-- **Whether the difference of two doubles is exact**: finite, and not rounded. -/
def ExactDifference (u l : Float) : Prop :=
  isFinite (u - l) = true ∧
    units (u - l).toModel.unpack = units u.toModel.unpack - units l.toModel.unpack

/-- **An exact difference leads back** when it is added again. -/
theorem add_difference_le (hu : isFinite u = true) (hl : isFinite l = true)
    (h : ExactDifference u l) : l + (u - l) ≤ u := by
  obtain ⟨hfinite, hdifference⟩ := h
  obtain ⟨hsum, hunits⟩ := units_add hl hfinite
  have hback : units l.toModel.unpack + units (u - l).toModel.unpack = units u.toModel.unpack := by
    omega
  have hcanonical := canonical_unpack u
  rw [le_iff_units hsum (ne_nan hu), hunits, hback, roundUnits_units hcanonical hu,
    ← units_saturate hcanonical, saturate_unpack]

/-- The distance from zero is exact. -/
theorem exactDifference_zero (hu : isFinite u = true) : ExactDifference u 0 := by
  have hself : u - 0 = u := by rw [sub_eq_add_neg, add_negativeZero]
  have hzero : units (0 : Float).toModel.unpack = 0 := rfl
  rw [ExactDifference, hself, hzero, Int.sub_zero]
  exact ⟨hu, rfl⟩

end Double

namespace Simplex

open Double

/-- **A value that is read off is not negative** unless it is so by the tolerance or more. -/
theorem nonneg_of_cleared {tolerance v : Float} (hv : Cleared tolerance v)
    (h : -tolerance < v) : 0 ≤ v := by
  rcases hv.apart with rfl | hlarge
  · decide
  have hnumber := ne_nan hv.finite
  have hzero : units (0 : Float).toModel.unpack = 0 := rfl
  by_contra hneg
  have hlt : v < 0 := by
    rw [le_iff_units (by decide) hnumber] at hneg
    rw [lt_iff_units hnumber (by decide)]
    omega
  -- so its magnitude is its negation, which is less than the tolerance
  have hmagnitude : magnitude v = -v := if_pos hlt
  rw [hmagnitude] at hlarge
  apply hlarge
  have htolerance : tolerance ≠ nan := by
    rintro rfl
    exact (ne_nan_of_lt h).1 (by decide)
  have hopposite : -v ≠ nan := ne_nan ((isFinite_neg v).trans hv.finite)
  rw [lt_iff_units (ne_nan_of_lt h).1 hnumber, units_neg] at h
  rw [lt_iff_units hopposite htolerance, units_neg]
  omega

/-- The sides of a consistent bound are in order. -/
theorem lower_le_upper {b : Bound Float} {l u : Float} (hn : b.hasNaN = false)
    (hc : b.consistent = true) (hl : b.lower? = some l) (hu : b.upper? = some u) : l ≤ u := by
  have hfinite := b.isFinite_lower hn hc hl
  cases b with
  | free | upper _ => cases hl
  | lower _ => cases hu
  | double s t =>
    obtain ⟨-, rfl⟩ := Bound.side_eq_some hl
    obtain ⟨-, rfl⟩ := Bound.side_eq_some hu
    simp only [Bound.consistent, Bool.and_eq_true, decide_eq_true_eq] at hc
    exact hc.1.1
  | fixed s =>
    obtain ⟨-, rfl⟩ := Bound.side_eq_some hl
    obtain ⟨-, rfl⟩ := Bound.side_eq_some hu
    exact le_self hfinite

/-- **How far a column value respects its bound**, given the values of the variables of the column.
The side that a column is measured from is respected if no variable is below zero by the tolerance
or more. The other one is respected up to the rounding of the width if the variable is at most the
width. -/
def Respects (tolerance : Float) (b : Bound Float) (z : List Float) (x : Float) : Prop :=
  match b.lower?, b.upper? with
  | none, none => True
  | some l, none => (∀ v ∈ z, -tolerance < v) → l ≤ x
  | none, some u => (∀ v ∈ z, -tolerance < v) → x ≤ u
  | some l, some u =>
    if l == u then x = l ∧ x ≤ u
    else
      ((∀ v ∈ z, -tolerance < v) → l ≤ x) ∧
        ((∀ v ∈ z, v ≤ u - l) → x ≤ l + (u - l) ∧ (ExactDifference u l → x ≤ u))

variable {tolerance : Float} {b : Bound Float} {s : Substitution Float} {z : List Float}

/-- **A column value respects its bound** as far as its variables do, however the column is written.
-/
theorem value_respects (hn : b.hasNaN = false) (hc : b.consistent = true) (hs : Written b s)
    (hz : ∀ v ∈ z, Cleared tolerance v) (hlength : z.length = s.arity) :
    Respects tolerance b z (s.value z) := by
  cases hs with
  | constant hl hu heq =>
    obtain rfl := List.length_eq_zero_iff.1 hlength
    simp only [Respects, hl, hu, if_pos heq]
    rw [Substitution.value_constant]
    exact ⟨rfl, lower_le_upper hn hc hl hu⟩
  | @between l u hl hu hne =>
    obtain ⟨v, rfl⟩ := List.length_eq_one_iff.1 hlength
    simp only [Respects, hl, hu, hne, Bool.false_eq_true, if_false, List.forall_mem_singleton]
    rw [List.forall_mem_singleton] at hz
    rw [Substitution.value_shift]
    have hlower := b.isFinite_lower hn hc hl
    have hupper := b.isFinite_upper hn hc hu
    refine ⟨fun hv => le_add hlower (nonneg_of_cleared hz hv), fun hv => ?_⟩
    have hle : l + v ≤ l + (u - l) := add_le_add_left hlower hz.finite hv
    exact ⟨hle, fun hexact => le_trans hle (add_difference_le hupper hlower hexact)⟩
  | above hl hu =>
    obtain ⟨v, rfl⟩ := List.length_eq_one_iff.1 hlength
    simp only [Respects, hl, hu, List.forall_mem_singleton]
    rw [List.forall_mem_singleton] at hz
    rw [Substitution.value_shift]
    exact fun hv => le_add (b.isFinite_lower hn hc hl) (nonneg_of_cleared hz hv)
  | below hl hu =>
    obtain ⟨v, rfl⟩ := List.length_eq_one_iff.1 hlength
    simp only [Respects, hl, hu, List.forall_mem_singleton]
    rw [List.forall_mem_singleton] at hz
    rw [Substitution.value_reflect]
    exact fun hv => add_neg_le (b.isFinite_upper hn hc hu) hz.finite (nonneg_of_cleared hz hv)
  | split hl hu =>
    simp only [Respects, hl, hu]

/-- **Every column of an optimal answer in doubles** is computed from values that are finite and not
within the tolerance of zero unless they are zero, and it respects its bound as far as these do. -/
theorem columns_respect (method : Simplex Float) (p : Problem Float)
    (h : (method.solve p).status = .optimal) {j : ℕ} {b : Bound Float}
    (hb : p.columnBounds[j]? = some b) :
    ∃ z x, (columnVariables method p)[j]? = some z ∧ (method.solve p).columns[j]? = some x ∧
      (∀ v ∈ z, Cleared method.tolerance v) ∧ Respects method.tolerance b z x := by
  obtain ⟨hn, hc⟩ := bounds_of_optimal h b (List.mem_of_getElem? hb)
  obtain ⟨z, hz, harity, hx⟩ := column_of_optimal h hb
  have hcleared := cleared_columnVariables (by decide) method p z (List.mem_of_getElem? hz)
  exact ⟨z, _, hz, hx, hcleared, value_respects hn hc (ofBound_written b) hcleared harity⟩

/-- A column that is to be made as large as its bound allows. -/
def largest (b : Bound Float) : Problem Float where
  direction := .maximize
  shift := 0
  objective := [1]
  columnBounds := [b]

theorem largest_respects :
    (standard.solve (largest (.double 0 5))).status = .optimal ∧
      ∃ x, (standard.solve (largest (.double 0 5))).columns[0]? = some x ∧ 0 ≤ x ∧ x ≤ 5 := by
  have hoptimal : (standard.solve (largest (.double 0 5))).status = .optimal := by decide +kernel
  have hvariables : columnVariables standard (largest (.double 0 5)) = [[5]] := by decide +kernel
  have hwidth : (5 : Float) ≤ 5 - 0 := by decide +kernel
  obtain ⟨z, x, hz, hx, -, hrespects⟩ :=
    columns_respect standard (largest (.double 0 5)) hoptimal (j := 0) rfl
  rw [hvariables] at hz
  obtain rfl : [5] = z := Option.some.inj hz
  obtain ⟨hlower, hupper⟩ := hrespects
  rw [List.forall_mem_singleton] at hlower hupper
  exact ⟨hoptimal, x, hx, hlower (by decide +kernel),
    (hupper hwidth).2 (exactDifference_zero (by decide))⟩

/-- A column between two sides whose distance is rounded up. -/
def wide : Problem Float := largest (.double (-9007199254740994) 1)

/-- A row whose second coefficient is within the tolerance of zero. -/
def leaning : Problem Float where
  direction := .maximize
  shift := 0
  objective := [0, 1]
  rowBounds := [.fixed 1]
  columnBounds := [.lower 0, .double 0 1e12]
  entries := [⟨1, 1, 1⟩, ⟨1, 2, 1e-10⟩]

/-- **A column can end beyond either side of its bound.** The rounded width takes a column above its
upper side by one. And the ratio test passes over small coefficients, so a column that becomes large
through one of them takes the other column of its row far below its lower side. -/
theorem columns_beyond_sides :
    ((standard.solve wide).status = .optimal ∧ (standard.solve wide).columns = [2] ∧
      ¬(2 : Float) ≤ 1 + standard.tolerance) ∧
    (standard.solve leaning).status = .optimal ∧
      (standard.solve leaning).columns = [-99, 1e12] ∧ ¬0 - standard.tolerance ≤ (-99 : Float) := by
  refine ⟨⟨?_, ?_, ?_⟩, ?_, ?_, ?_⟩
  all_goals decide +kernel

end Simplex

end LinearProgram
