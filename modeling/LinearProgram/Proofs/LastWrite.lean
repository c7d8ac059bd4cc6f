import Mathlib.Data.List.Induction
import LinearProgram.Engine.Canned
import LinearProgram.Proofs.Dense
import LinearProgram.Proofs.WellFormed
import LinearProgram.Proofs.Zero

/-!
# The last write to a cell counts

A cell of the constraint matrix holds what was last written to it since the model was last emptied,
by itself or as a part of a block. The sparse matrix, the entries of the linear program and its
dense matrix all say so.

* `SparseMatrix.get_setBlock`: what a block leaves in a cell.
* `Model.lastWrite`: the value that was last written to a cell.
* `Model.get_after`: what one call leaves in a cell.
* `Model.get_run`: a cell holds its last write.
* `Model.MatrixShows`: what it means that the matrix shows certain values in all three views.
* `Model.matrix_views`: it shows the last writes.
-/

namespace LinearProgram

namespace SparseMatrix

variable {K : Type} {matrix : SparseMatrix K}

/-- **The entries come in order**, row by row and within a row from left to right. -/
theorem pairwise_entries (matrix : SparseMatrix K) :
    matrix.entries.Pairwise fun e e' => e.row < e'.row ∨ e.row = e'.row ∧ e.column < e'.column := by
  rw [entries, List.pairwise_map]
  refine matrix.cells.ordered_keys_toList.imp fun {a b} h => ?_
  obtain ⟨⟨r, c⟩, _⟩ := a
  obtain ⟨⟨r', c'⟩, _⟩ := b
  have hlex : (compare r r').then (compare c c') = .lt := h
  rw [Ordering.then_eq_lt, Nat.compare_eq_lt, Nat.compare_eq_eq, Nat.compare_eq_lt] at hlex
  exact hlex

/-- The entries of a cell. -/
theorem mem_cell_iff {e : Entry K} {i j : Nat} :
    e ∈ (matrix.entries.filter fun e => e.row == i && e.column == j) ↔
      matrix.cells[(i, j)]? = some e.value ∧ e = ⟨i, j, e.value⟩ := by
  obtain ⟨r, c, value⟩ := e
  simp only [List.mem_filter, mem_entries_iff, Bool.and_eq_true, beq_iff_eq, Entry.mk.injEq, and_true]
  constructor
  · rintro ⟨hcell, rfl, rfl⟩
    exact ⟨hcell, rfl, rfl⟩
  · rintro ⟨hcell, rfl, rfl⟩
    exact ⟨hcell, rfl, rfl⟩

/-- **A cell has one entry** if a value is stored for it, and else none. -/
theorem cellValues_entries (matrix : SparseMatrix K) (i j : Nat) :
    Problem.cellValues matrix.entries i j = matrix.cells[(i, j)]?.toList := by
  have hpairwise := matrix.pairwise_entries.filter fun e => e.row == i && e.column == j
  rw [Problem.cellValues]
  generalize hcell : (matrix.entries.filter fun e => e.row == i && e.column == j) = cell
  rw [hcell] at hpairwise
  cases hvalue : matrix.cells[(i, j)]? with
  | none =>
    have hnil : cell = [] := List.eq_nil_iff_forall_not_mem.2 fun e he => by
      rw [← hcell, mem_cell_iff, hvalue] at he
      exact absurd he.1.symm (Option.some_ne_none _)
    rw [hnil]
    rfl
  | some value =>
    -- all entries of the cell are the same, and none comes after itself
    have hsame : ∀ e ∈ cell, e = ⟨i, j, value⟩ := fun e he => by
      rw [← hcell, mem_cell_iff, hvalue, Option.some.injEq] at he
      rw [he.2, he.1]
    have hmem : (⟨i, j, value⟩ : Entry K) ∈ cell := by
      rw [← hcell, mem_cell_iff]
      exact ⟨hvalue, rfl⟩
    have hreplicate := List.eq_replicate_iff.2 ⟨rfl, hsame⟩
    rw [hreplicate, List.pairwise_replicate] at hpairwise
    have hone : cell.length = 1 := by
      have hpos := List.length_pos_of_mem hmem
      omega
    rw [hreplicate, hone]
    rfl

variable [ExtendedScalar K]

/-- **How a value reads** once it is written: a zero of either sign reads as `0`. -/
def shown (value : K) : K := if value == 0 then 0 else value

theorem get_eq (matrix : SparseMatrix K) (i j : Nat) :
    matrix.get i j = matrix.cells[(i, j)]?.getD 0 := by
  rw [get, Std.TreeMap.getD_eq_getD_getElem?]

/-- **What is written into a row** from column `j` on goes to the cells from there on. -/
theorem get_setRow (matrix : SparseMatrix K) (i j : Nat) (values : List K) (r c : Nat) :
    (matrix.setRow i j values).get r c =
      if r = i ∧ j ≤ c then (values[c - j]?).elim (matrix.get r c) shown else matrix.get r c := by
  induction values generalizing matrix j with
  | nil => simp [setRow]
  | cons value values ih =>
    rw [setRow, ih, get_set]
    by_cases hcell : r = i ∧ j ≤ c
    · obtain ⟨rfl, hc⟩ := hcell
      rcases Nat.eq_or_lt_of_le hc with rfl | hlt
      · have hpast : ¬j + 1 ≤ j := Nat.not_succ_le_self j
        simp [hpast, shown]
      · have hne : j ≠ c := Nat.ne_of_lt hlt
        have hplace : c - j = c - (j + 1) + 1 := by omega
        simp [hne, hc, hplace, Nat.succ_le_of_lt hlt]
    · have hcell' : ¬(r = i ∧ j + 1 ≤ c) := by omega
      have hne : ¬((i, j) = (r, c)) := by
        rintro ⟨⟩
        exact hcell ⟨rfl, Nat.le_refl _⟩
      rw [if_neg hcell', if_neg hcell, if_neg hne]

/-- **What a block leaves in a cell.** -/
theorem get_setBlock (matrix : SparseMatrix K) (i : Nat) (block : List (List K)) (r : Nat) {c : Nat}
    (hc : 1 ≤ c) :
    (matrix.setBlock i block).get r c =
      if i ≤ r then (block[r - i]?.bind (·[c - 1]?)).elim (matrix.get r c) shown
      else matrix.get r c := by
  induction block generalizing matrix i with
  | nil => simp [setBlock]
  | cons values block ih =>
    rw [setBlock, ih, get_setRow]
    rcases Nat.lt_trichotomy i r with hlt | rfl | hlt
    · have hne : r ≠ i := Nat.ne_of_gt hlt
      have hplace : r - i = r - (i + 1) + 1 := by omega
      simp [hne, hplace, Nat.le_of_lt hlt, Nat.succ_le_of_lt hlt]
    · have hpast : ¬i + 1 ≤ i := Nat.not_succ_le_self i
      simp [hc, hpast]
    · have hne : r ≠ i := Nat.ne_of_lt hlt
      have hle : ¬i ≤ r := Nat.not_le.2 hlt
      have hle' : ¬i + 1 ≤ r := by omega
      simp [hne, hle, hle']

end SparseMatrix

namespace Model

open SparseMatrix

variable {K E : Type} [ExtendedScalar K] [Engine E K] {i j : Nat}

/-- **What a call writes to a cell**, if it succeeds and writes to it. A block covers the cells that
it has numbers for. -/
def Event.written? (i j : Nat) (e : Event K E) : Option K :=
  match e.operation, e.result with
  | .edit (.setMatrixCoefficient r c value), .ok _ => if r = i ∧ c = j then some value else none
  | .edit (.loadMatrix block), .ok _ => block[i - 1]?.bind (·[j - 1]?)
  | _, _ => none

/-- **The last write to a cell** since the model was last emptied, as it reads; zero if there is
none. -/
def lastWrite (events : List (Event K E)) (i j : Nat) : K :=
  (newest (Event.written? i j) (sinceReset events)).elim 0 shown

/-- The newest call decides on a cell, unless it leaves the cell alone. -/
theorem lastWrite_concat (events : List (Event K E)) (e : Event K E) (i j : Nat) :
    lastWrite (events ++ [e]) i j =
      if e.isReset then 0 else (e.written? i j).elim (lastWrite events i j) shown := by
  rw [lastWrite, sinceReset_concat]
  cases e.isReset with
  | true => rfl
  | false =>
    simp only [Bool.false_eq_true, if_false, newest_concat]
    cases e.written? i j <;> rfl

omit [ExtendedScalar K] [Engine E K] in
/-- A block without cells covers no cell. -/
theorem bind_getElem?_of_isEmpty {block : List (List K)}
    (h : ∀ values ∈ block, values.isEmpty = true) (i j : Nat) :
    (block[i]?.bind (·[j]?)) = none := by
  cases hvalues : block[i]? with
  | none => rfl
  | some values =>
    have hnil := List.isEmpty_iff.1 (h values (List.mem_of_getElem? hvalues))
    rw [Option.bind_some, hnil, List.getElem?_nil]

/-- **What one call leaves in a cell.** -/
theorem get_after (e : Event K E) (hi : 1 ≤ i) (hj : 1 ≤ j) :
    e.after.matrix.get i j =
      if e.isReset then 0 else (e.written? i j).elim (e.before.matrix.get i j) shown := by
  obtain ⟨m, op⟩ := e
  cases op with
  | ask q => rfl
  | solve =>
    rcases step_solve m with ⟨hs, -⟩ | ⟨reason, hs, -⟩ <;>
      simp [Event.after, hs, Event.isReset, Event.written?, asked]
  | edit e =>
    rcases step_edit m e with ⟨value, next, hs, he⟩ | ⟨error, hs⟩
    · simp only [Event.after, Event.isReset, Event.written?, Event.result, hs]
      cases he with
      | reset => simp [Model.reset, ofEngine]
      | @setMatrixCoefficient r c value =>
        by_cases hcell : r = i ∧ c = j <;> simp [get_set, hcell, shown]
      | loadNoCells hcells =>
        have hnone := bind_getElem?_of_isEmpty (List.all_eq_true.1 hcells) (i - 1) (j - 1)
        simp [hnone]
      | loadMatrix => simp [get_setBlock _ _ _ _ hj, hi]
      | _ => rfl
    · simp only [Event.after, Event.isReset, Event.written?, Event.result, hs]
      -- emptying the model is never refused
      cases e with
      | reset => cases hs
      | _ => rfl

/-- **A cell holds its last write.** -/
theorem get_run {engine : E} {start : Model K E} (h : Constructed engine start)
    (ops : List (Operation K)) (hi : 1 ≤ i) (hj : 1 ≤ j) :
    (start.run ops).matrix.get i j = lastWrite (start.history ops) i j := by
  induction ops using List.reverseRecOn with
  | nil =>
    obtain ⟨name, stored, direction, -, rfl⟩ := h.eq_ofEngine
    exact get_empty i j
  | append_singleton ops op ih =>
    rw [run_concat, history_concat, lastWrite_concat, ← ih]
    exact get_after ⟨start.run ops, op⟩ hi hj

omit [Engine E K] in
/-- A cell of the matrix can be read. -/
theorem matrixCoefficient_eq {m : Model K E} (hi : 1 ≤ i ∧ i ≤ m.rowCount)
    (hj : 1 ≤ j ∧ j ≤ m.columnCount) : m.matrixCoefficient i j = .ok (m.matrix.get i j) := by
  have hrow : i - 1 < m.rows.length := by
    have : m.rowCount = m.rows.length := rfl
    omega
  have hcolumn : j - 1 < m.columns.length := by
    have : m.columnCount = m.columns.length := rfl
    omega
  have hrow : m.row i = .ok m.rows[i - 1] := lookup_eq_ok.2 ⟨hi.1, List.getElem?_eq_getElem hrow⟩
  have hcolumn : m.column j = .ok m.columns[j - 1] :=
    lookup_eq_ok.2 ⟨hj.1, List.getElem?_eq_getElem hcolumn⟩
  simp only [matrixCoefficient, hrow, hcolumn]
  rfl

/-- **What the matrix shows** cell by cell: the coefficients that are asked for, the entries of the
linear program, row by row and within a row from left to right, and its dense matrix. -/
structure MatrixShows (m : Model K E) (cell : Nat → Nat → K) : Prop where
  coefficients : ∀ i j, 1 ≤ i ∧ i ≤ m.rowCount → 1 ≤ j ∧ j ≤ m.columnCount →
    m.matrixCoefficient i j = .ok (cell i j)
  ordered : m.toProblem.entries.Pairwise fun e e' =>
    e.row < e'.row ∨ e.row = e'.row ∧ e.column < e'.column
  entries : ∀ e, e ∈ m.toProblem.entries ↔
    (1 ≤ e.row ∧ e.row ≤ m.rowCount) ∧ (1 ≤ e.column ∧ e.column ≤ m.columnCount) ∧
      e.value = cell e.row e.column ∧ (e.value == 0) = false
  dense : m.toProblem.dense = (List.range m.rowCount).map fun i =>
    (List.range m.columnCount).map fun j => cell (i + 1) (j + 1)

omit [Engine E K] in
/-- The matrix of a well-formed model shows what its cells hold. -/
theorem matrixShows_get [LawfulZero K] {m : Model K E} (hm : m.WellFormed) :
    m.MatrixShows m.matrix.get where
  coefficients i j hi hj := matrixCoefficient_eq hi hj
  ordered := m.matrix.pairwise_entries
  entries e := by
    constructor
    · intro he
      obtain ⟨hrow, hcolumn, hvalue⟩ := hm.cells e he
      have hcell := mem_entries_iff.1 he
      refine ⟨hrow, hcolumn, ?_, hvalue⟩
      rw [get_eq, hcell]
      rfl
    · rintro ⟨-, -, hcell, hvalue⟩
      refine mem_entries_iff.2 ?_
      rw [get_eq] at hcell
      cases hstored : m.matrix.cells[(e.row, e.column)]? with
      | some value =>
        rw [hstored] at hcell
        exact congrArg some hcell.symm
      | none =>
        -- what reads as zero is no entry
        rw [hstored] at hcell
        rw [hcell] at hvalue
        exact absurd LawfulZero.zero_beq (Bool.eq_false_iff.1 hvalue)
  dense := by
    rw [Problem.dense_eq]
    have hrows : m.toProblem.numRows = m.rowCount := List.length_map ..
    have hcolumns : m.toProblem.numColumns = m.columnCount := List.length_map ..
    rw [hrows, hcolumns]
    refine List.map_congr_left fun i _ => List.map_congr_left fun j _ => ?_
    have hentries : m.toProblem.entries = m.matrix.entries := rfl
    rw [Problem.cellSum, hentries, cellValues_entries, get_eq]
    cases hstored : m.matrix.cells[(i + 1, j + 1)]? with
    | none => rfl
    | some value =>
      have hvalue := (hm.cells ⟨i + 1, j + 1, value⟩ (mem_entries_iff.2 hstored)).2.2
      exact LawfulZero.zero_add_of_ne value hvalue

omit [Engine E K] in
/-- What the matrix shows outside of its cells does not matter. -/
theorem MatrixShows.congr {m : Model K E} {cell cell' : Nat → Nat → K} (h : m.MatrixShows cell)
    (heq : ∀ i j, 1 ≤ i → 1 ≤ j → cell i j = cell' i j) : m.MatrixShows cell' where
  coefficients i j hi hj := heq i j hi.1 hj.1 ▸ h.coefficients i j hi hj
  ordered := h.ordered
  entries e := by
    rw [h.entries e]
    refine and_congr_right fun hrow => and_congr_right fun hcolumn => ?_
    rw [heq _ _ hrow.1 hcolumn.1]
  dense := by
    rw [h.dense]
    refine List.map_congr_left fun i _ => List.map_congr_left fun j _ => ?_
    exact heq _ _ (Nat.succ_pos i) (Nat.succ_pos j)

/-- **The matrix shows the last writes**, in all views. -/
theorem matrix_views [LawfulZero K] {engine : E} {start : Model K E}
    (h : Constructed engine start) (ops : List (Operation K)) :
    (start.run ops).MatrixShows (lastWrite (start.history ops)) :=
  (matrixShows_get (run_wellFormed h.wellFormed ops)).congr fun _ _ hi hj => get_run h ops hi hj

open Exact

/-- A model that is emptied, grows again and is written to: a block, a part of it again, and one
cell with zero. The last block is too wide. -/
def overwriting : List (Operation Exact) :=
  [.edit (.addRows 1), .edit (.addColumns 1), .edit (.setMatrixCoefficient 1 1 (finite 9)),
    .edit .reset, .edit (.addRows 2), .edit (.addColumns 2),
    .edit (.loadMatrix [[finite 1, finite 2], [finite 3]]), .edit (.addColumns 1),
    .edit (.loadMatrix [[finite 4]]), .edit (.setMatrixCoefficient 2 1 (finite 0)),
    .edit (.setMatrixCoefficient 2 3 (finite 5)),
    .edit (.loadMatrix [[finite 6, finite 6, finite 6, finite 6]])]

theorem overwriting_views :
    let start : Model Exact (Canned Exact) := ofEngine ⟨[]⟩
    Constructed ⟨[]⟩ start ∧ (start.run overwriting).MatrixShows (lastWrite (start.history overwriting)) ∧
      (start.run overwriting).toProblem.dense =
        [[finite 4, finite 2, finite 0], [finite 0, finite 0, finite 5]] := by
  intro start
  have hstart : Constructed ⟨[]⟩ start := .empty
  have hviews := matrix_views hstart overwriting
  refine ⟨hstart, hviews, hviews.dense.trans ?_⟩
  decide +kernel

end Model

end LinearProgram
