import LinearProgram.Problem

/-!
# The cells of the constraint matrix

The matrix is filled entry by entry. In the end each cell holds the sum of its own entries, from the
left and starting at zero, and the other entries have left no trace.

* `Problem.cellSum`: the sum of the entries of one cell.
* `Problem.cell_foldl_accumulate`: filling a matrix adds to each cell its own entries.
* `Problem.dense_eq`: the matrix cell by cell.
-/

namespace LinearProgram.Problem

variable {K : Type} [ExtendedScalar K]

/-- The values of the entries of cell `i`, `j`, in list order. -/
def cellValues (entries : List (Entry K)) (i j : Nat) : List K :=
  (entries.filter fun e => e.row == i && e.column == j).map Entry.value

/-- **The sum of the entries of a cell**, from the left. -/
def cellSum (entries : List (Entry K)) (i j : Nat) : K :=
  (cellValues entries i j).foldl (· + ·) 0

theorem cell_accumulate (matrix : List (List K)) {e : Entry K} (hrow : 1 ≤ e.row)
    (hcolumn : 1 ≤ e.column) (i j : Nat) :
    (accumulate matrix e)[i]?.bind (·[j]?) =
      (matrix[i]?.bind (·[j]?)).map fun x =>
        if e.row = i + 1 ∧ e.column = j + 1 then x + e.value else x := by
  simp only [accumulate, List.getElem?_modify]
  cases matrix[i]? with
  | none => rfl
  | some row =>
    by_cases hi : e.row = i + 1
    · simp only [hi, Option.bind_some]
      by_cases hj : e.column = j + 1
      · simp [hj]
      · have hj' : e.column - 1 ≠ j := by omega
        simp [hj, hj']
    · have hi' : e.row - 1 ≠ i := by omega
      simp [hi, hi']

/-- **Filling a matrix adds to each cell its own entries.** -/
theorem cell_foldl_accumulate {entries : List (Entry K)}
    (hentries : ∀ e ∈ entries, 1 ≤ e.row ∧ 1 ≤ e.column) (matrix : List (List K)) (i j : Nat) :
    (entries.foldl accumulate matrix)[i]?.bind (·[j]?) =
      (matrix[i]?.bind (·[j]?)).map fun x =>
        (cellValues entries (i + 1) (j + 1)).foldl (· + ·) x := by
  induction entries generalizing matrix with
  | nil => simp [cellValues]
  | cons e entries ih =>
    obtain ⟨hrow, hcolumn⟩ := hentries e List.mem_cons_self
    have hothers := ih (fun e' he' => hentries e' (List.mem_cons_of_mem e he')) (accumulate matrix e)
    rw [List.foldl_cons, hothers, cell_accumulate matrix hrow hcolumn, Option.map_map]
    congr 1
    funext x
    by_cases hcell : e.row = i + 1 ∧ e.column = j + 1 <;> simp [cellValues, hcell]

omit [ExtendedScalar K] in
/-- An entry outside of the matrix is no entry of a cell. -/
theorem cellValues_filter_covers (p : Problem K) {i j : Nat} (hi : i < p.numRows)
    (hj : j < p.numColumns) :
    cellValues (p.entries.filter p.covers) (i + 1) (j + 1) = cellValues p.entries (i + 1) (j + 1) := by
  rw [cellValues, cellValues, List.filter_filter]
  congr 2
  funext e
  by_cases hcell : e.row = i + 1 ∧ e.column = j + 1
  · simp [covers, hcell]
    omega
  · have hno : (e.row == i + 1 && e.column == j + 1) = false := by simpa using hcell
    rw [hno, Bool.false_and]

/-- **The matrix cell by cell.** -/
theorem dense_eq (p : Problem K) :
    p.dense = (List.range p.numRows).map fun i =>
      (List.range p.numColumns).map fun j => cellSum p.entries (i + 1) (j + 1) := by
  have hinside : ∀ e ∈ p.entries.filter p.covers, 1 ≤ e.row ∧ 1 ≤ e.column := by
    intro e he
    have hcovers := (List.mem_filter.1 he).2
    simp only [covers, Bool.and_eq_true, decide_eq_true_eq] at hcovers
    exact ⟨hcovers.1.1.1, hcovers.1.2⟩
  refine List.ext_getElem (by simp) fun i hi _ => ?_
  have hi : i < p.numRows := by simpa using hi
  have hlength := p.length_of_mem_dense p.dense[i] (List.getElem_mem _)
  refine List.ext_getElem (by simpa using hlength) fun j hj _ => ?_
  have hj : j < p.numColumns := hlength ▸ hj
  have hcell := cell_foldl_accumulate hinside
    (List.replicate p.numRows (Scalar.zeros p.numColumns)) i j
  rw [cellValues_filter_covers p hi hj] at hcell
  have hdense : p.dense[i]?.bind (·[j]?) = some (cellSum p.entries (i + 1) (j + 1)) := by
    rw [dense, hcell]
    simp [hi, hj, Scalar.zeros, cellSum]
  rw [List.getElem?_eq_getElem (by simpa using hi), Option.bind_some] at hdense
  obtain ⟨_, hvalue⟩ := List.getElem?_eq_some_iff.1 hdense
  simpa using hvalue

end LinearProgram.Problem
