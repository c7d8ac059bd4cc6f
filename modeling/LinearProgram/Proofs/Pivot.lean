import LinearProgram.Proofs.Equation

/-!
# Pivots over the rationals

A pivot subtracts multiples of one row from the others, so it changes neither the vectors of a
tableau nor the objective at these vectors. The basic variable of the pivot row is exchanged, and
all basic columns stay unit columns.

* `Tableau.Agrees`: two tableaus with the same vectors and the same objective there.
* `Tableau.Dictionary`: a canonical tableau whose objective row is priced.
* `Tableau.pivot_zero_iff`: what a pivot does, and when it does it.
* `Pivots.agrees`, `Pivots.canonical`, `Pivots.priced`: what a pivot keeps.
* `Pivots.rhs_nonneg`: right-hand sides stay non-negative when the ratio of the row is least.
-/

namespace LinearProgram.Simplex.Tableau

open Scalar Finset

variable {t t' t'' : Tableau ℚ} {v : ℕ → ℚ}

/-- Whether an assignment of numbers to variables satisfies every equation of the constraints. -/
def SolvedBy (t : Tableau ℚ) (v : ℕ → ℚ) : Prop := ∀ row ∈ t.rows, row.residual v = 0

/-- **Tableaus that say the same**: columns of the same sorts, the same vectors, and the same
objective at each vector. -/
structure Agrees (t t' : Tableau ℚ) : Prop where
  varCount : t'.varCount = t.varCount
  slackCount : t'.slackCount = t.slackCount
  artificialCount : t'.artificialCount = t.artificialCount
  solvedBy : ∀ v, t'.SolvedBy v ↔ t.SolvedBy v
  objective : ∀ v, t.SolvedBy v → t'.objective.residual v = t.objective.residual v

/-- **Dictionaries**: the constraints and the objective are solved for the basic variables. -/
structure Dictionary (t : Tableau ℚ) : Prop extends t.Canonical where
  priced : t.Priced

namespace Agrees

theorem refl (t : Tableau ℚ) : t.Agrees t := ⟨rfl, rfl, rfl, fun _ => Iff.rfl, fun _ _ => rfl⟩

theorem trans (h : t.Agrees t') (h' : t'.Agrees t'') : t.Agrees t'' where
  varCount := h'.varCount.trans h.varCount
  slackCount := h'.slackCount.trans h.slackCount
  artificialCount := h'.artificialCount.trans h.artificialCount
  solvedBy v := (h'.solvedBy v).trans (h.solvedBy v)
  objective v hv := (h'.objective v ((h.solvedBy v).2 hv)).trans (h.objective v hv)

theorem artificialStart (h : t.Agrees t') : t'.artificialStart = t.artificialStart := by
  unfold Tableau.artificialStart
  rw [h.varCount, h.slackCount]

theorem columnCount (h : t.Agrees t') : t'.columnCount = t.columnCount := by
  unfold Tableau.columnCount
  rw [h.artificialStart, h.artificialCount]

end Agrees

/-- Unit columns of different rows are different columns. -/
theorem index_eq_of_unit (h : ∀ (i j : ℕ) (row other : BasicRow ℚ), t.rows[i]? = some row →
    t.rows[j]? = some other → other.coefficient row.basic = if i = j then 1 else 0)
    {i j : ℕ} {row other : BasicRow ℚ} (hi : t.rows[i]? = some row) (hj : t.rows[j]? = some other)
    (hb : row.basic = other.basic) : i = j := by
  have hij := h i j row other hi hj
  rw [hb, h j j other other hj hj, if_pos rfl] at hij
  by_contra hne
  rw [if_neg hne] at hij
  exact one_ne_zero hij

theorem nodup_basic_of_unit (h : ∀ (i j : ℕ) (row other : BasicRow ℚ), t.rows[i]? = some row →
    t.rows[j]? = some other → other.coefficient row.basic = if i = j then 1 else 0) :
    (t.rows.map BasicRow.basic).Nodup := by
  rw [List.nodup_iff_injective_getElem]
  rintro ⟨i, hi⟩ ⟨j, hj⟩ hij
  rw [List.length_map] at hi hj
  simp only [List.getElem_map] at hij
  exact Fin.ext (index_eq_of_unit h (List.getElem?_eq_getElem hi) (List.getElem?_eq_getElem hj) hij)

/-- Without tolerance no right-hand side is set to zero. -/
theorem settle_zero (t : Tableau ℚ) : t.settle 0 = t := by
  obtain ⟨rows, _, _, _, _⟩ := t
  simp only [settle, Equation.settle_zero]
  congr 1
  exact List.map_id rows

/-- **A pivot without its tests**: row `r` is divided by its coefficient in column `c`, which is
not zero, and is subtracted from the other rows until they lack that column. -/
structure Pivots (t : Tableau ℚ) (r c : ℕ) (row : BasicRow ℚ) (t' : Tableau ℚ) : Prop where
  row_eq : t.rows[r]? = some row
  ne_zero : row.coefficient c ≠ 0
  eq : t' = t.exchange r c (row.toEquation.divide (row.coefficient c))

/-- **What a pivot does.** Over the rationals it fails only where there is nothing to divide by. -/
theorem pivot_zero_iff {r c : ℕ} : t.pivot 0 r c = some t' ↔ ∃ row, t.Pivots r c row t' := by
  unfold pivot
  constructor
  · intro h
    split at h
    · cases h
    · rename_i row hrow
      -- rational numbers are finite, so the only test left is the one for zero
      simp only [settle_zero] at h
      by_cases hc : row.coefficient c = 0
      · simp [hc] at h
      · refine ⟨row, hrow, hc, Eq.symm ?_⟩
        simpa [isFinite, finiteRhs, hc] using h
  · rintro ⟨row, hrow, hc, rfl⟩
    rw [hrow]
    simp [isFinite, finiteRhs, hc, settle_zero]

namespace Pivots

variable {r c : ℕ} {row : BasicRow ℚ}

theorem mem (h : t.Pivots r c row t') : row ∈ t.rows := List.mem_of_getElem? h.row_eq

/-- A row after a pivot is the divided pivot row, or another row less a multiple of it. -/
theorem row_cases (h : t.Pivots r c row t') (hs : t.Shaped) {i : ℕ} {new : BasicRow ℚ}
    (hnew : t'.rows[i]? = some new) :
    (i = r ∧ new.toEquation = row.toEquation.divide (row.coefficient c) ∧ new.basic = c) ∨
    (i ≠ r ∧ ∃ old, t.rows[i]? = some old ∧ new.basic = old.basic ∧ new.toEquation =
      old.toEquation.minus (old.coefficient c) (row.toEquation.divide (row.coefficient c))) := by
  rw [h.eq] at hnew
  simp only [exchange, List.getElem?_mapIdx, Option.map_eq_some_iff] at hnew
  obtain ⟨old, hold, rfl⟩ := hnew
  by_cases hi : i = r
  · exact .inl ⟨hi, by simp [hi], by simp [hi]⟩
  · have hlen : old.coefficients.length =
        (row.toEquation.divide (row.coefficient c)).coefficients.length := by
      rw [Equation.length_divide, (hs.rows old (List.mem_of_getElem? hold)).1,
        (hs.rows row h.mem).1]
    exact .inr ⟨hi, old, hold, by simp [hi], by simp [hi, Equation.eliminate_eq_minus hlen]⟩

/-- Every row of a tableau has a successor. -/
theorem exists_row (h : t.Pivots r c row t') {i : ℕ} {old : BasicRow ℚ}
    (hold : t.rows[i]? = some old) : ∃ new, t'.rows[i]? = some new := by
  rw [h.eq]
  simp only [exchange, List.getElem?_mapIdx, hold]
  exact ⟨_, rfl⟩

theorem length_rows (h : t.Pivots r c row t') : t'.rows.length = t.rows.length := by
  simp [h.eq, exchange]

theorem columnCount (h : t.Pivots r c row t') : t'.columnCount = t.columnCount := by
  rw [h.eq]; rfl

theorem artificialStart (h : t.Pivots r c row t') : t'.artificialStart = t.artificialStart := by
  rw [h.eq]; rfl

/-- A column with a coefficient exists. -/
theorem lt_columnCount (h : t.Pivots r c row t') (hs : t.Shaped) : c < t.columnCount := by
  by_contra hc
  exact h.ne_zero (Equation.coefficient_of_le ((hs.rows row h.mem).1.le.trans (not_lt.1 hc)))

theorem objective_eq (h : t.Pivots r c row t') (hs : t.Shaped) : t'.objective =
    t.objective.minus (t.objective.coefficient c) (row.toEquation.divide (row.coefficient c)) := by
  rw [h.eq]
  exact Equation.eliminate_eq_minus (by rw [Equation.length_divide, hs.objective,
    (hs.rows row h.mem).1]) c

/-- The lengths that row operations of a pivot rely on. -/
theorem length_eq (h : t.Pivots r c row t') (hs : t.Shaped) {e : Equation ℚ}
    (he : e.coefficients.length = t.columnCount) : e.coefficients.length =
      (row.toEquation.divide (row.coefficient c)).coefficients.length := by
  rw [Equation.length_divide, he, (hs.rows row h.mem).1]

/-- A pivot keeps the shape. -/
theorem shaped (h : t.Pivots r c row t') (hs : t.Shaped) : t'.Shaped where
  rows new hnew := by
    obtain ⟨i, hi⟩ := List.getElem?_of_mem hnew
    rw [h.columnCount]
    rcases h.row_cases hs hi with ⟨-, he, hb⟩ | ⟨-, old, hold, hb, he⟩
    · rw [he, hb, Equation.length_divide]
      exact ⟨(hs.rows row h.mem).1, h.lt_columnCount hs⟩
    · have ho := hs.rows old (List.mem_of_getElem? hold)
      rw [he, hb, Equation.length_minus (h.length_eq hs ho.1)]
      exact ho
  objective := by
    rw [h.objective_eq hs, Equation.length_minus (h.length_eq hs hs.objective), h.columnCount,
      hs.objective]

/-- **The residual of a row after a pivot.** -/
theorem residual_cases (h : t.Pivots r c row t') (hs : t.Shaped) {i : ℕ} {old new : BasicRow ℚ}
    (hold : t.rows[i]? = some old) (hnew : t'.rows[i]? = some new) (v : ℕ → ℚ) :
    new.residual v = if i = r then row.residual v / row.coefficient c
      else old.residual v - old.coefficient c * (row.residual v / row.coefficient c) := by
  rcases h.row_cases hs hnew with ⟨hi, he, -⟩ | ⟨hi, old', hold', -, he⟩
  · rw [if_pos hi, he, Equation.residual_divide]
  · obtain rfl : old' = old := Option.some.inj (hold'.symm.trans hold)
    rw [if_neg hi, he, Equation.residual_minus
      (h.length_eq hs (hs.rows old' (List.mem_of_getElem? hold)).1), Equation.residual_divide]

/-- A pivot keeps the vectors of a tableau. -/
theorem solvedBy_iff (h : t.Pivots r c row t') (hs : t.Shaped) (v : ℕ → ℚ) :
    t'.SolvedBy v ↔ t.SolvedBy v := by
  constructor
  · intro hv old hold
    -- the divided pivot row holds first, and with it every other row
    obtain ⟨i, hi⟩ := List.getElem?_of_mem hold
    obtain ⟨new, hnew⟩ := h.exists_row hi
    obtain ⟨new', hnew'⟩ := h.exists_row h.row_eq
    have hr := h.residual_cases hs h.row_eq hnew' v
    rw [hv new' (List.mem_of_getElem? hnew'), if_pos rfl] at hr
    have hr : row.residual v / row.coefficient c = 0 := hr.symm
    have ho := h.residual_cases hs hi hnew v
    rw [hv new (List.mem_of_getElem? hnew), hr] at ho
    by_cases hir : i = r
    · subst hir
      obtain rfl : old = row := Option.some.inj (hi.symm.trans h.row_eq)
      exact (div_eq_zero_iff.1 hr).resolve_right h.ne_zero
    · rw [if_neg hir] at ho; linarith
  · intro hv new hnew
    obtain ⟨i, hi⟩ := List.getElem?_of_mem hnew
    have hlt : i < t.rows.length := by
      rw [← h.length_rows]; exact (List.getElem?_eq_some_iff.1 hi).1
    have ho := h.residual_cases hs (List.getElem?_eq_getElem hlt) hi v
    rw [hv row h.mem, hv _ (List.getElem_mem hlt)] at ho
    rw [ho]; split <;> ring

/-- **A pivot changes nothing that a tableau says.** -/
theorem agrees (h : t.Pivots r c row t') (hs : t.Shaped) : t.Agrees t' where
  varCount := by rw [h.eq]; rfl
  slackCount := by rw [h.eq]; rfl
  artificialCount := by rw [h.eq]; rfl
  solvedBy := h.solvedBy_iff hs
  objective v hv := by
    rw [h.objective_eq hs, Equation.residual_minus (h.length_eq hs hs.objective),
      Equation.residual_divide, hv row h.mem]
    ring

/-- The right-hand side of the objective row falls by the cost of the column times the ratio of
the row. -/
theorem objective_rhs (h : t.Pivots r c row t') (hs : t.Shaped) : t'.objective.rhs =
    t.objective.rhs - t.objective.coefficient c * (row.rhs / row.coefficient c) := by
  rw [h.objective_eq hs]; rfl

/-- The right-hand side of a row after a pivot. -/
theorem rhs_cases (h : t.Pivots r c row t') (hs : t.Shaped) {i : ℕ} {old new : BasicRow ℚ}
    (hold : t.rows[i]? = some old) (hnew : t'.rows[i]? = some new) :
    new.rhs = if i = r then row.rhs / row.coefficient c
      else old.rhs - old.coefficient c * (row.rhs / row.coefficient c) := by
  rcases h.row_cases hs hnew with ⟨hi, he, -⟩ | ⟨hi, old', hold', -, he⟩
  · rw [if_pos hi, he]; rfl
  · obtain rfl : old' = old := Option.some.inj (hold'.symm.trans hold)
    rw [if_neg hi, he]; rfl

/-- **A pivot keeps unit columns.** -/
theorem unit (h : t.Pivots r c row t') (hc : t.Canonical) (i j : ℕ) (new other : BasicRow ℚ)
    (hnew : t'.rows[i]? = some new) (hother : t'.rows[j]? = some other) :
    other.coefficient new.basic = if i = j then 1 else 0 := by
  have hs := hc.shaped
  -- the new basic variable is `c` or an old one, which the pivot row lacks
  rcases h.row_cases hs hnew with ⟨hi, -, hb⟩ | ⟨hi, old, hold, hb, -⟩
  · rw [hb]
    rcases h.row_cases hs hother with ⟨hj, he, -⟩ | ⟨hj, old', hold', -, he⟩
    · rw [he, Equation.coefficient_divide, div_self h.ne_zero, if_pos (hi.trans hj.symm)]
    · rw [he, Equation.coefficient_minus
        (h.length_eq hs (hs.rows old' (List.mem_of_getElem? hold')).1),
        Equation.coefficient_divide, div_self h.ne_zero, if_neg (by omega)]
      ring
  · rw [hb]
    have hr := hc.unit i r old row hold h.row_eq
    rw [if_neg hi] at hr
    rcases h.row_cases hs hother with ⟨hj, he, -⟩ | ⟨hj, old', hold', -, he⟩
    · rw [he, Equation.coefficient_divide, hr, zero_div, if_neg (by omega)]
    · rw [he, Equation.coefficient_minus
        (h.length_eq hs (hs.rows old' (List.mem_of_getElem? hold')).1),
        Equation.coefficient_divide, hr, hc.unit i j old old' hold hold']
      ring

/-- **A pivot keeps a tableau canonical** if it keeps the right-hand sides non-negative. -/
theorem canonical (h : t.Pivots r c row t') (hc : t.Canonical)
    (hrhs : ∀ new ∈ t'.rows, 0 ≤ new.rhs) : t'.Canonical where
  shaped := h.shaped hc.shaped
  distinct := nodup_basic_of_unit (h.unit hc)
  unit := h.unit hc
  nonneg := hrhs

/-- A pivot keeps the objective row priced. -/
theorem priced (h : t.Pivots r c row t') (hc : t.Canonical) (hp : t.Priced) : t'.Priced := by
  intro new hnew
  have hs := hc.shaped
  obtain ⟨i, hi⟩ := List.getElem?_of_mem hnew
  rw [h.objective_eq hs, Equation.coefficient_minus (h.length_eq hs hs.objective),
    Equation.coefficient_divide]
  rcases h.row_cases hs hi with ⟨-, -, hb⟩ | ⟨hir, old, hold, hb, -⟩
  · rw [hb, div_self h.ne_zero]; ring
  · have hr := hc.unit i r old row hold h.row_eq
    rw [if_neg hir] at hr
    rw [hb, hr, hp old (List.mem_of_getElem? hold)]
    ring

/-- **The ratio test.** If the coefficient is positive and no row with a positive coefficient has
a smaller ratio, right-hand sides stay non-negative. -/
theorem rhs_nonneg (h : t.Pivots r c row t') (hc : t.Canonical) (hpos : 0 < row.coefficient c)
    (hmin : ∀ other ∈ t.rows, 0 < other.coefficient c →
      row.rhs / row.coefficient c ≤ other.rhs / other.coefficient c) :
    ∀ new ∈ t'.rows, 0 ≤ new.rhs := by
  intro new hnew
  obtain ⟨i, hi⟩ := List.getElem?_of_mem hnew
  have hlt : i < t.rows.length := by
    rw [← h.length_rows]; exact (List.getElem?_eq_some_iff.1 hi).1
  have hratio : 0 ≤ row.rhs / row.coefficient c := div_nonneg (hc.nonneg row h.mem) hpos.le
  have hmem := List.getElem_mem hlt
  rw [h.rhs_cases hc.shaped (List.getElem?_eq_getElem hlt) hi]
  split
  · exact hratio
  · -- a row with a positive coefficient is limited by its own ratio, another one only grows
    rcases le_or_gt (t.rows[i].coefficient c) 0 with ha | ha
    · have := mul_nonpos_of_nonpos_of_nonneg ha hratio
      have := hc.nonneg _ hmem
      linarith
    · have := (le_div_iff₀ ha).1 (hmin _ hmem ha)
      linarith

/-- A pivot at a row with right-hand side zero moves no right-hand side. -/
theorem rhs_eq_of_zero (h : t.Pivots r c row t') (hs : t.Shaped) (hz : row.rhs = 0) {i : ℕ}
    {old new : BasicRow ℚ} (hold : t.rows[i]? = some old) (hnew : t'.rows[i]? = some new) :
    new.rhs = old.rhs := by
  rw [h.rhs_cases hs hold hnew, hz, zero_div]
  split
  · rename_i hi
    subst hi
    obtain rfl : old = row := Option.some.inj (hold.symm.trans h.row_eq)
    exact hz.symm
  · ring

end Pivots

end LinearProgram.Simplex.Tableau
