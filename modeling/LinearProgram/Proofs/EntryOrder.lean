import Mathlib.Logic.Relation
import LinearProgram.Proofs.Dense
import LinearProgram.Simplex.Solve

/-!
# The order of entries

Each cell of the constraint matrix is the sum of its own entries in list order. So the matrix does
not depend on the order in which entries of different cells are given, and entries outside of it
have no part in it. A solver sees of the entries nothing but the matrix and whether all of them are
finite. So it gives the same answer, iterations included, to problems that differ only in this way.

* `Problem.Rearranges`, `Problem.Rearranged`: one such difference, and any number of them.
* `Rearranges.cellValues_eq`: each cell keeps its entries in their order.
* `Rearranged.dense_eq`: the matrix stays.
* `solve_withEntries`: what of the entries a solver sees.
* `dense_cell_by_cell`: all this together.
-/

namespace LinearProgram

open Scalar

variable {K : Type}

namespace Problem

/-- The problem with other entries. -/
def withEntries (p : Problem K) (entries : List (Entry K)) : Problem K := { p with entries }

/-- **One rearrangement**: two neighbours of different cells change places, or an entry outside of
the matrix is left out. -/
inductive Rearranges (p : Problem K) : List (Entry K) → List (Entry K) → Prop
  | swap (before after : List (Entry K)) (e e' : Entry K)
      (apart : (e.row, e.column) ≠ (e'.row, e'.column)) :
      Rearranges p (before ++ e :: e' :: after) (before ++ e' :: e :: after)
  | leaveOut (before after : List (Entry K)) (e : Entry K) (outside : p.covers e = false) :
      Rearranges p (before ++ e :: after) (before ++ after)

/-- **Entries that differ by rearrangements**, any number of them and in both directions: an entry
outside of the matrix may be put in as well as left out. -/
def Rearranged (p : Problem K) : List (Entry K) → List (Entry K) → Prop :=
  Relation.EqvGen p.Rearranges

variable {p : Problem K} {entries entries' : List (Entry K)} {i j : Nat}

/-- An entry outside of the matrix belongs to no cell of it. -/
theorem not_cell_of_not_covers {e : Entry K} (he : p.covers e = false)
    (hi : 1 ≤ i ∧ i ≤ p.numRows) (hj : 1 ≤ j ∧ j ≤ p.numColumns) :
    (e.row == i && e.column == j) = false := by
  rw [Bool.eq_false_iff]
  intro hcell
  rw [Bool.and_eq_true, beq_iff_eq, beq_iff_eq] at hcell
  obtain ⟨rfl, rfl⟩ := hcell
  have hcovers : p.covers e = true := by simp [covers, hi, hj]
  rw [he] at hcovers
  cases hcovers

/-- **A rearrangement leaves each cell its entries**, in the same order. -/
theorem Rearranges.cellValues_eq (h : p.Rearranges entries entries')
    (hi : 1 ≤ i ∧ i ≤ p.numRows) (hj : 1 ≤ j ∧ j ≤ p.numColumns) :
    cellValues entries i j = cellValues entries' i j := by
  cases h with
  | swap before after e e' apart =>
    -- at most one of the two belongs to the cell
    have hone : (e.row == i && e.column == j) = false ∨ (e'.row == i && e'.column == j) = false := by
      cases hcell : e.row == i && e.column == j with
      | false => exact .inl rfl
      | true =>
        refine .inr (Bool.eq_false_iff.2 fun hcell' => apart ?_)
        rw [Bool.and_eq_true, beq_iff_eq, beq_iff_eq] at hcell hcell'
        rw [hcell.1, hcell.2, hcell'.1, hcell'.2]
    unfold cellValues
    rcases hone with hno | hno
    · simp [List.filter_cons, hno]
    · simp [List.filter_cons, hno]
  | leaveOut before after e outside =>
    have hno := not_cell_of_not_covers outside hi hj
    unfold cellValues
    simp [hno]

/-- Any number of rearrangements does so, too. -/
theorem Rearranged.cellValues_eq (h : p.Rearranged entries entries')
    (hi : 1 ≤ i ∧ i ≤ p.numRows) (hj : 1 ≤ j ∧ j ≤ p.numColumns) :
    cellValues entries i j = cellValues entries' i j := by
  induction h with
  | rel _ _ hstep => exact hstep.cellValues_eq hi hj
  | refl _ => rfl
  | symm _ _ _ ih => exact ih.symm
  | trans _ _ _ _ _ ih ih' => exact ih.trans ih'

variable [ExtendedScalar K]

/-- **Rearranged entries give the same matrix.** -/
theorem Rearranged.dense_eq (h : p.Rearranged entries entries') :
    (p.withEntries entries).dense = (p.withEntries entries').dense := by
  rw [Problem.dense_eq, Problem.dense_eq]
  refine List.map_congr_left fun i hi => List.map_congr_left fun j hj => ?_
  have hi : i < p.numRows := List.mem_range.1 hi
  have hj : j < p.numColumns := List.mem_range.1 hj
  have hvalues := h.cellValues_eq (i := i + 1) (j := j + 1) (by omega) (by omega)
  exact congrArg (List.foldl (· + ·) 0) hvalues

/-- A cell of the matrix, by its row and its column. -/
theorem cell_dense (p : Problem K) (hi : 1 ≤ i ∧ i ≤ p.numRows) (hj : 1 ≤ j ∧ j ≤ p.numColumns) :
    p.dense[i - 1]?.bind (·[j - 1]?) = some (cellSum p.entries i j) := by
  have hrow : i - 1 < p.numRows := by omega
  have hcolumn : j - 1 < p.numColumns := by omega
  rw [Problem.dense_eq]
  simp [hrow, hcolumn, Nat.sub_add_cancel hi.1, Nat.sub_add_cancel hj.1]

end Problem

namespace Simplex

variable [ExtendedScalar K] {p : Problem K} {entries entries' : List (Entry K)}

/-- **What a solver sees of the entries**: the matrix, and whether the problem is fit for numerical
work. -/
theorem solve_withEntries (method : Simplex K)
    (hdense : (p.withEntries entries).dense = (p.withEntries entries').dense)
    (hfit : (p.withEntries entries).wellFormed = (p.withEntries entries').wellFormed) :
    method.solve (p.withEntries entries) = method.solve (p.withEntries entries') := by
  have hform : StandardForm.ofProblem (p.withEntries entries) =
      StandardForm.ofProblem (p.withEntries entries') := by
    unfold StandardForm.ofProblem StandardForm.ofConsistent
    rw [hdense]
    rfl
  have hvalues : ∀ columns : List K, solutionAt (p.withEntries entries) columns =
      solutionAt (p.withEntries entries') columns := by
    intro columns
    unfold solutionAt Problem.activities
    rw [hdense]
    rfl
  unfold solve
  simp only [hfit, hform, hvalues]

/-- Finite entries make no difference to whether a problem is fit for numerical work. -/
theorem wellFormed_withEntries (h : ∀ e ∈ entries, isFinite e.value = true)
    (h' : ∀ e ∈ entries', isFinite e.value = true) :
    (p.withEntries entries).wellFormed = (p.withEntries entries').wellFormed := by
  have hall : entries.all (isFinite ·.value) = true := List.all_eq_true.2 h
  have hall' : entries'.all (isFinite ·.value) = true := List.all_eq_true.2 h'
  simp only [Problem.wellFormed, Problem.withEntries, hall, hall']

/-- **The matrix cell by cell.** It has a row of cells for each row of the problem, and each cell is
the sum of its entries in list order, from the left and starting at zero. An entry outside of the
matrix has no part in it. And as long as all entries are finite, a solver gives the same answer
whatever entries of different cells come first, and whatever entries are outside. -/
theorem dense_cell_by_cell (p : Problem K) :
    p.dense.length = p.numRows ∧ (∀ row ∈ p.dense, row.length = p.numColumns) ∧
    (∀ i j, (1 ≤ i ∧ i ≤ p.numRows) → (1 ≤ j ∧ j ≤ p.numColumns) →
      p.dense[i - 1]?.bind (·[j - 1]?) = some (Problem.cellSum p.entries i j)) ∧
    (∀ before after e, p.covers e = false →
      (p.withEntries (before ++ e :: after)).dense = (p.withEntries (before ++ after)).dense) ∧
    ∀ entries, p.Rearranged p.entries entries → (∀ e ∈ p.entries, isFinite e.value = true) →
      (∀ e ∈ entries, isFinite e.value = true) →
        ∀ method : Simplex K, method.solve (p.withEntries entries) = method.solve p := by
  refine ⟨p.length_dense, p.length_of_mem_dense, fun i j hi hj => p.cell_dense hi hj, ?_, ?_⟩
  · intro before after e outside
    have hone : p.Rearranged (before ++ e :: after) (before ++ after) :=
      .rel _ _ (.leaveOut before after e outside)
    exact hone.dense_eq
  · intro entries h hgiven hfinite method
    have hsame := solve_withEntries method h.dense_eq (wellFormed_withEntries hgiven hfinite)
    exact hsame.symm

/-- A problem with two entries of one cell, one entry of another cell and one outside. -/
def scattered : Problem Float where
  direction := .maximize
  shift := 0
  objective := [1, 1]
  rowBounds := [.upper 6]
  columnBounds := [.lower 0, .lower 0]
  entries := [⟨1, 1, 0.5⟩, ⟨0, 2, 7⟩, ⟨1, 2, 2⟩, ⟨1, 1, 1⟩]

theorem scattered_cell_by_cell :
    scattered.dense[0]?.bind (·[0]?) = some (0 + 0.5 + 1) ∧
      (∀ e ∈ scattered.entries, isFinite e.value = true) ∧
      ∀ method : Simplex Float,
        method.solve (scattered.withEntries [⟨1, 2, 2⟩, ⟨1, 1, 0.5⟩, ⟨1, 1, 1⟩]) =
          method.solve scattered := by
  obtain ⟨-, -, hcell, -, hsolve⟩ := dense_cell_by_cell scattered
  have hfinite : ∀ e ∈ scattered.entries, isFinite e.value = true := by decide
  refine ⟨hcell 1 1 (by decide) (by decide), hfinite, hsolve _ ?_ hfinite (by decide)⟩
  -- the entry outside goes, then the other two cells change places
  exact .trans _ _ _ (.rel _ _ (.leaveOut [⟨1, 1, 0.5⟩] _ ⟨0, 2, 7⟩ (by decide)))
    (.rel _ _ (.swap [] _ _ _ (by decide)))

end Simplex

end LinearProgram
