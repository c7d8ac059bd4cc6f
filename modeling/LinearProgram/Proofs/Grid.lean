import LinearProgram.Proofs.Positions
import LinearProgram.Simplex.Grid

/-!
# Pivots by position

A pivot of a tableau in shape, carried out cell by cell, is within range and comes to the same as
the pivot of its equations. The result is in shape again.

* `Tableau.toGrid`: a tableau as a matrix.
* `SameSize`: two tableaus with the same numbers of rows and columns.
* `Shaped.toGrid_fits`: the matrix of a tableau in shape has the right size.
* `afterPivot_keeps`, `pivot?_toGrid`: a pivot.
-/

namespace LinearProgram.Simplex

variable {K : Type}

/-- The cells of an equation: its coefficients and its right-hand side. -/
def Equation.cells (e : Equation K) : List K := e.coefficients ++ [e.rhs]

/-- **A tableau as a matrix.** -/
def Tableau.toGrid (t : Tableau K) : Grid K :=
  { cells := t.rows.map (·.toEquation.cells) ++ [t.objective.cells]
    basics := t.rows.map BasicRow.basic
    varCount := t.varCount
    slackCount := t.slackCount
    artificialCount := t.artificialCount }

/-- Whether two tableaus have the same numbers of rows and columns. -/
structure Tableau.SameSize (t t' : Tableau K) : Prop where
  rows : t'.rows.length = t.rows.length
  varCount : t'.varCount = t.varCount
  slackCount : t'.slackCount = t.slackCount
  artificialCount : t'.artificialCount = t.artificialCount

namespace Tableau.SameSize

variable {t t' t'' : Tableau K}

theorem refl (t : Tableau K) : t.SameSize t := ⟨rfl, rfl, rfl, rfl⟩

theorem trans (h : t.SameSize t') (h' : t'.SameSize t'') : t.SameSize t'' where
  rows := h'.rows.trans h.rows
  varCount := h'.varCount.trans h.varCount
  slackCount := h'.slackCount.trans h.slackCount
  artificialCount := h'.artificialCount.trans h.artificialCount

theorem artificialStart (h : t.SameSize t') : t'.artificialStart = t.artificialStart := by
  rw [Tableau.artificialStart, h.varCount, h.slackCount, Tableau.artificialStart]

theorem columnCount (h : t.SameSize t') : t'.columnCount = t.columnCount := by
  rw [Tableau.columnCount, h.artificialStart, h.artificialCount, Tableau.columnCount]

end Tableau.SameSize

namespace Equation

variable [Scalar K] {e source : Equation K} {n c j : Nat}

section

variable (he : e.coefficients.length = n)
include he

omit [Scalar K] in
theorem length_cells : e.cells.length = n + 1 := by simp [cells, he]

theorem cells_getElem? (hj : j < n) : e.cells[j]? = some (e.coefficient j) := by
  subst he
  rw [cells, List.getElem?_append_left hj, coefficient, List.getD_eq_getElem?_getD,
    List.getElem?_eq_getElem hj]
  rfl

omit [Scalar K] in
theorem cells_getElem?_rhs : e.cells[n]? = some e.rhs := by
  subst he
  simp [cells]

theorem cells_settle (tolerance : K) :
    update? e.cells n (fun x => some (if Scalar.magnitude x < tolerance then 0 else x)) =
      some (e.settle tolerance).cells := by
  rw [update?_some (fun x => if Scalar.magnitude x < tolerance then 0 else x) (cells_getElem?_rhs he)]
  subst he
  by_cases h : Scalar.magnitude e.rhs < tolerance <;> simp [settle, cells, h]

theorem cells_divide (p : K) :
    sweep 0 (n + 1) (fun row j => update? row j fun x => some (x / p)) e.cells =
      some (e.divide p).cells := by
  rw [sweep_map _ (length_cells he)]
  simp [divide, cells]

variable (hsource : source.coefficients.length = n)
include hsource

theorem cells_plus :
    sweep 0 (n + 1) (fun row j => update? row j fun x => do return x + (← source.cells[j]?))
      e.cells = some (e.plus source).cells := by
  rw [sweep_zipWith _ (length_cells he) (length_cells hsource), cells, cells,
    List.zipWith_append (he.trans hsource.symm)]
  rfl

theorem cells_minus (factor : K) :
    sweep 0 (n + 1)
      (fun row j => update? row j fun x => do return x - factor * (← source.cells[j]?)) e.cells =
      some (e.minus factor source).cells := by
  rw [sweep_zipWith (fun x y => x - factor * y) (length_cells he) (length_cells hsource), cells,
    cells, List.zipWith_append (he.trans hsource.symm)]
  rfl

/-- Removing a column cell by cell. -/
theorem cells_eliminate (hc : c < n) :
    Grid.eliminate? (n + 1) c source.cells e.cells = some (e.eliminate source c).cells := by
  rw [Grid.eliminate?, cells_getElem? he hc, eliminate]
  by_cases hzero : (e.coefficient c == 0) = true
  · simp [hzero]
  · simp only [Option.bind_eq_bind, Option.bind_some, hzero, Bool.false_eq_true, if_false]
    exact cells_minus he hsource _

end

end Equation

namespace Tableau

variable {t next : Tableau K} {row : BasicRow K} {r c i j : Nat}

/-- **A tableau in shape is a matrix of the right size.** -/
theorem Shaped.toGrid_fits (ht : t.Shaped) : t.toGrid.Fits where
  width cells hcells := by
    rcases List.mem_append.1 hcells with hcells | hcells
    · obtain ⟨row, hrow, rfl⟩ := List.mem_map.1 hcells
      exact Equation.length_cells (ht.rows row hrow).1
    · rw [List.mem_singleton.1 hcells]
      exact Equation.length_cells ht.objective
  height := by simp [toGrid]
  basics basic hbasic := by
    obtain ⟨row, hrow, rfl⟩ := List.mem_map.1 hbasic
    exact (ht.rows row hrow).2

theorem Shaped.length_row (ht : t.Shaped) (hrow : t.rows[i]? = some row) :
    row.coefficients.length = t.columnCount :=
  (ht.rows row (List.mem_of_getElem? hrow)).1

theorem Shaped.basic_lt (ht : t.Shaped) (hrow : t.rows[i]? = some row) :
    row.basic < t.columnCount :=
  (ht.rows row (List.mem_of_getElem? hrow)).2

theorem lt_length (hrow : t.rows[i]? = some row) : i < t.rows.length :=
  (List.getElem?_eq_some_iff.1 hrow).1

theorem cells_toGrid_of_row (hrow : t.rows[i]? = some row) :
    t.toGrid.cells[i]? = some row.toEquation.cells := by
  have hlt : i < (t.rows.map (·.toEquation.cells)).length := by
    rw [List.length_map]
    exact lt_length hrow
  rw [toGrid, List.getElem?_append_left hlt, List.getElem?_map, hrow]
  rfl

theorem cells_toGrid_objective (t : Tableau K) :
    t.toGrid.cells[t.rows.length]? = some t.objective.cells := by
  simp [toGrid]

theorem length_cells_toGrid (t : Tableau K) : t.toGrid.cells.length = t.rows.length + 1 := by
  simp [toGrid]

/-- A row of the matrix belongs to a constraint or to the objective. -/
theorem cells_toGrid_cases {cells : List K} (h : t.toGrid.cells[i]? = some cells) :
    (∃ row, t.rows[i]? = some row ∧ cells = row.toEquation.cells) ∨
      i = t.rows.length ∧ cells = t.objective.cells := by
  have hlt := (List.getElem?_eq_some_iff.1 h).1
  rw [length_cells_toGrid] at hlt
  rcases Nat.lt_or_eq_of_le (Nat.le_of_lt_succ hlt) with hi | rfl
  · have hrow : t.rows[i]? = some t.rows[i] := List.getElem?_eq_getElem hi
    rw [cells_toGrid_of_row hrow] at h
    exact .inl ⟨t.rows[i], hrow, (Option.some.inj h).symm⟩
  · rw [cells_toGrid_objective] at h
    exact .inr ⟨rfl, (Option.some.inj h).symm⟩

theorem basics_toGrid (hrow : t.rows[i]? = some row) : t.toGrid.basics[i]? = some row.basic := by
  rw [toGrid, List.getElem?_map, hrow]
  rfl

theorem artificialStart_toGrid (t : Tableau K) : t.toGrid.artificialStart = t.artificialStart := rfl

@[simp]
theorem objectiveRow?_toGrid (t : Tableau K) : t.toGrid.objectiveRow? = some t.rows.length := by
  rw [Grid.objectiveRow?, length_cells_toGrid]
  rfl

theorem width?_toGrid (ht : t.Shaped) : t.toGrid.width? = some (t.columnCount + 1) := by
  have hlt : 0 < t.toGrid.cells.length := by
    rw [length_cells_toGrid]
    exact Nat.succ_pos _
  have hwidth := ht.toGrid_fits.width _ (List.getElem_mem hlt)
  rw [Grid.width?, List.getElem?_eq_getElem hlt]
  exact congrArg some hwidth

theorem rhsColumn?_toGrid (ht : t.Shaped) : t.toGrid.rhsColumn? = some t.columnCount := by
  rw [Grid.rhsColumn?, width?_toGrid ht]
  rfl

theorem cell?_toGrid_rhs (ht : t.Shaped) (hrow : t.rows[i]? = some row) :
    t.toGrid.cell? i t.columnCount = some row.rhs := by
  rw [Grid.cell?, cells_toGrid_of_row hrow]
  exact Equation.cells_getElem?_rhs (ht.length_row hrow)

variable [Scalar K]

open Scalar

theorem cell?_toGrid (ht : t.Shaped) (hrow : t.rows[i]? = some row) (hj : j < t.columnCount) :
    t.toGrid.cell? i j = some (row.coefficient j) := by
  rw [Grid.cell?, cells_toGrid_of_row hrow]
  exact Equation.cells_getElem? (ht.length_row hrow) hj

section Pivot

variable {source : Equation K}

theorem exchange_sameSize (t : Tableau K) (r c : Nat) (source : Equation K) :
    t.SameSize (t.exchange r c source) :=
  ⟨List.length_mapIdx .., rfl, rfl, rfl⟩

theorem settle_sameSize (t : Tableau K) (tolerance : K) : t.SameSize (t.settle tolerance) :=
  ⟨List.length_map .., rfl, rfl, rfl⟩

theorem exchange_shaped (ht : t.Shaped) (hsource : source.coefficients.length = t.columnCount)
    (hc : c < t.columnCount) : (t.exchange r c source).Shaped where
  rows row hrow := by
    rw [(t.exchange_sameSize r c source).columnCount]
    obtain ⟨i, hi, rfl⟩ := List.mem_mapIdx.1 hrow
    obtain ⟨hlength, hbasic⟩ := ht.rows t.rows[i] (List.getElem_mem hi)
    split
    · exact ⟨hsource, hc⟩
    · exact ⟨(Equation.length_eliminate (hlength.trans hsource.symm) c).trans hlength, hbasic⟩
  objective := by
    rw [(t.exchange_sameSize r c source).columnCount]
    exact (Equation.length_eliminate (ht.objective.trans hsource.symm) c).trans ht.objective

theorem settle_shaped (tolerance : K) (ht : t.Shaped) : (t.settle tolerance).Shaped where
  rows row hrow := by
    obtain ⟨old, hold, rfl⟩ := List.mem_map.1 hrow
    obtain ⟨hlength, hbasic⟩ := ht.rows old hold
    exact ⟨(Equation.length_settle tolerance _).trans hlength, hbasic⟩
  objective := ht.objective

/-- Removing a column from all rows but one, cell by cell. -/
theorem sweep_exchange (ht : t.Shaped) (hr : r < t.rows.length) (hc : c < t.columnCount)
    (hsource : source.coefficients.length = t.columnCount) :
    sweep 0 (t.rows.length + 1) (fun cells i => update? cells i fun row =>
      if i = r then some row else Grid.eliminate? (t.columnCount + 1) c source.cells row)
      (t.toGrid.cells.set r source.cells) = some (t.exchange r c source).toGrid.cells := by
  have hsize := t.exchange_sameSize r c source
  refine sweep_all ?_ ?_ fun i item target hitem htarget => ?_
  · rw [List.length_set, length_cells_toGrid]
  · rw [length_cells_toGrid, hsize.rows]
  by_cases hir : i = r
  · subst hir
    have hnew : (t.exchange i c source).rows[i]? = some { source with basic := c } := by
      rw [exchange, List.getElem?_mapIdx, List.getElem?_eq_getElem hr]
      simp
    rw [cells_toGrid_of_row hnew] at htarget
    have hlt : i < t.toGrid.cells.length := by
      rw [length_cells_toGrid]
      omega
    rw [List.getElem?_set_self hlt] at hitem
    rw [if_pos rfl, ← Option.some.inj hitem]
    exact htarget
  · rw [List.getElem?_set_ne (Ne.symm hir)] at hitem
    rw [if_neg hir]
    rcases cells_toGrid_cases hitem with ⟨row, hrow, rfl⟩ | ⟨rfl, rfl⟩
    · have hnew : (t.exchange r c source).rows[i]? =
          some { row.toEquation.eliminate source c with basic := row.basic } := by
        rw [exchange, List.getElem?_mapIdx, hrow]
        simp [hir]
      rw [cells_toGrid_of_row hnew] at htarget
      rw [Equation.cells_eliminate (ht.length_row hrow) hsource hc]
      exact htarget
    · rw [← hsize.rows, cells_toGrid_objective] at htarget
      rw [Equation.cells_eliminate ht.objective hsource hc]
      exact htarget

/-- Setting right-hand sides to zero, cell by cell. -/
theorem sweep_settle (tolerance : K) (ht : t.Shaped) :
    sweep 0 t.rows.length (fun cells i => update? cells i fun row =>
      update? row t.columnCount fun x => some (if magnitude x < tolerance then 0 else x))
      t.toGrid.cells = some (t.settle tolerance).toGrid.cells := by
  have hsize := t.settle_sameSize tolerance
  have hlength : (t.settle tolerance).toGrid.cells.length = t.toGrid.cells.length := by
    rw [length_cells_toGrid, length_cells_toGrid, hsize.rows]
  refine sweep_update hlength (Nat.zero_le _) ?_ (fun i item target _ hi hitem htarget => ?_)
    fun i hi => ?_
  · rw [length_cells_toGrid]
    exact Nat.le_succ _
  · have hrow : t.rows[i]? = some t.rows[i] := List.getElem?_eq_getElem hi
    have hnew : (t.settle tolerance).rows[i]? =
        some { t.rows[i].toEquation.settle tolerance with basic := t.rows[i].basic } := by
      rw [settle, List.getElem?_map, hrow]
      rfl
    rw [cells_toGrid_of_row hrow] at hitem
    rw [cells_toGrid_of_row hnew] at htarget
    rw [← Option.some.inj hitem, Equation.cells_settle (ht.length_row hrow)]
    exact htarget
  · rcases hi with hi | hi
    · exact absurd hi (Nat.not_lt_zero i)
    rcases Nat.lt_or_eq_of_le hi with hi | rfl
    · have hout : t.toGrid.cells.length ≤ i := by
        rw [length_cells_toGrid]
        exact hi
      rw [List.getElem?_eq_none hout, List.getElem?_eq_none (hlength ▸ hout)]
    · have hlast := (t.settle tolerance).cells_toGrid_objective
      rw [hsize.rows] at hlast
      rw [hlast, cells_toGrid_objective]
      rfl

/-- Testing the right-hand sides, cell by cell. -/
theorem allM_isFinite (ht : t.Shaped) :
    t.toGrid.cells.allM (fun row => do return isFinite (← row[t.columnCount]?)) =
      some t.finiteRhs := by
  have hall := allM_eq t.toGrid.cells (fun row => (row[t.columnCount]?).any isFinite)
    (fun row => do return isFinite (← row[t.columnCount]?)) ?_
  · refine hall.trans (congrArg some ?_)
    rw [toGrid, List.all_append, List.all_map, finiteRhs]
    congr 1
    · rw [Bool.eq_iff_iff, List.all_eq_true, List.all_eq_true]
      refine forall₂_congr fun row hrow => ?_
      simp [Equation.cells_getElem?_rhs (ht.rows row hrow).1]
    · simp [Equation.cells_getElem?_rhs ht.objective]
  · intro cells hcells
    have hwidth := ht.toGrid_fits.width cells hcells
    have hlt : t.columnCount < cells.length := by
      rw [hwidth]
      exact Nat.lt_succ_self _
    rw [List.getElem?_eq_getElem hlt]
    rfl

/-- The basic variables after an exchange. -/
theorem basics_settle_exchange (tolerance : K) (source : Equation K) (hr : r < t.rows.length) :
    ((t.exchange r c source).settle tolerance).toGrid.basics = t.toGrid.basics.set r c := by
  refine List.ext_getElem? fun i => ?_
  simp only [toGrid, settle, exchange, List.map_map, List.getElem?_map, List.getElem?_mapIdx,
    List.getElem?_set, List.length_map]
  by_cases hir : r = i
  · subst hir
    simp [hr]
  · have hir' : ¬i = r := Ne.symm hir
    cases t.rows[i]? <;> simp [hir, hir']

/-- The tableau that a pivot leaves behind, whether the arithmetic allows it or not. -/
def afterPivot (tolerance : K) (t : Tableau K) (r c : Nat) : Tableau K :=
  match t.rows[r]? with
  | none => t
  | some row =>
    if !isFinite (row.coefficient c) || row.coefficient c == 0 then t
    else (t.exchange r c (row.toEquation.divide (row.coefficient c))).settle tolerance

theorem pivot_eq_afterPivot {tolerance : K} (h : t.pivot tolerance r c = some next) :
    next = t.afterPivot tolerance r c := by
  unfold pivot at h
  unfold afterPivot
  cases hrow : t.rows[r]? with
  | none => simp [hrow] at h
  | some row =>
    simp only [hrow] at h ⊢
    split at h
    · cases h
    next hp =>
    split at h
    · rw [if_neg hp]
      exact (Option.some.inj h).symm
    · cases h

/-- **A pivot keeps the shape and the size**, whether the arithmetic allows it or not. -/
theorem afterPivot_keeps (tolerance : K) (ht : t.Shaped) (r : Nat) (hc : c < t.columnCount) :
    (t.afterPivot tolerance r c).Shaped ∧ t.SameSize (t.afterPivot tolerance r c) := by
  unfold afterPivot
  cases hrow : t.rows[r]? with
  | none => exact ⟨ht, .refl t⟩
  | some row =>
    simp only
    split
    · exact ⟨ht, .refl t⟩
    · have hsource := (Equation.length_divide row.toEquation (row.coefficient c)).trans
        (ht.length_row hrow)
      exact ⟨settle_shaped tolerance (exchange_shaped ht hsource hc),
        (t.exchange_sameSize r c _).trans (settle_sameSize _ tolerance)⟩

/-- **A pivot by position is a pivot.** -/
theorem pivot?_toGrid (tolerance : K) (ht : t.Shaped) (hr : r < t.rows.length)
    (hc : c < t.columnCount) :
    t.toGrid.pivot? tolerance r c =
      some ((t.afterPivot tolerance r c).toGrid, (t.pivot tolerance r c).isSome) := by
  have hrow : t.rows[r]? = some t.rows[r] := List.getElem?_eq_getElem hr
  have hlength := ht.length_row hrow
  generalize t.rows[r] = row at hrow hlength
  rw [Grid.pivot?, pivot, afterPivot, hrow]
  simp only [width?_toGrid ht, cell?_toGrid ht hrow hc, below?_succ, some_bind]
  by_cases hp : (!isFinite (row.coefficient c) || row.coefficient c == 0) = true
  · simp only [if_pos hp]
    rfl
  · simp only [if_neg hp]
    let source := row.toEquation.divide (row.coefficient c)
    have hsource : source.coefficients.length = t.columnCount :=
      (Equation.length_divide ..).trans hlength
    have hexchange := exchange_shaped (r := r) ht hsource hc
    have hsize := t.exchange_sameSize r c source
    have hsizes := hsize.trans ((t.exchange r c source).settle_sameSize tolerance)
    have hbasics : put? t.toGrid.basics r c = some (t.toGrid.basics.set r c) :=
      put?_eq (by simpa [toGrid] using hr) c
    have hdivide : update? t.toGrid.cells r (sweep 0 (t.columnCount + 1) fun cells j =>
        update? cells j fun x => some (x / row.coefficient c)) =
          some (t.toGrid.cells.set r source.cells) :=
      update?_eq (cells_toGrid_of_row hrow) (Equation.cells_divide hlength _)
    have hr' : r < t.toGrid.cells.length := by
      rw [length_cells_toGrid]
      omega
    have hheight : (t.toGrid.cells.set r source.cells).length = t.rows.length + 1 := by
      rw [List.length_set, length_cells_toGrid]
    have hexchanged := sweep_exchange ht hr hc hsource
    have hsettled := sweep_settle tolerance hexchange
    have hfinite := allM_isFinite (settle_shaped tolerance hexchange)
    rw [hsizes.columnCount] at hfinite
    rw [hsize.columnCount, hsize.rows] at hsettled
    simp only [hbasics, hdivide, List.getElem?_set_self hr', hheight, hexchanged, hsettled, hfinite,
      length_cells_toGrid, hsize.rows, below?_succ, some_bind]
    have hnext : (⟨((t.exchange r c source).settle tolerance).toGrid.cells, t.toGrid.basics.set r c,
        t.varCount, t.slackCount, t.artificialCount⟩ : Grid K) =
          ((t.exchange r c source).settle tolerance).toGrid := by
      rw [← basics_settle_exchange tolerance source hr]
      rfl
    have hallowed : ((t.exchange r c source).settle tolerance).finiteRhs =
        (if ((t.exchange r c source).settle tolerance).finiteRhs then
          some ((t.exchange r c source).settle tolerance) else none).isSome := by
      split <;> simp_all
    exact congrArg some (Prod.ext hnext hallowed)

end Pivot

end Tableau

end LinearProgram.Simplex
