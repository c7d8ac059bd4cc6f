import LinearProgram.Proofs.Budget
import LinearProgram.Proofs.Dense
import LinearProgram.Proofs.NegativeZero

/-!
# Problems with further rows and columns that say nothing

A free row gives no constraint, and a column that is fixed at zero has no variable. A problem that is
padded with such rows and columns has the same tableau, so the simplex method takes the same pivots
and gives the same column values, followed by zeros. Row values and objective may come out with
another sign of zero, because zeros have been added to them.

* `Problem.pad`: the padded problem.
* `Problem.dense_pad`: its matrix is the old one with zeros beside it and below.
* `StandardForm.ofProblem_pad`: its standard form differs in the columns only.
* `solve_pad`: what the simplex method answers.
-/

namespace LinearProgram

open Scalar

variable {K : Type} [ExtendedScalar K]

namespace Problem

/-- **The padded problem**, with further rows that are free, and further columns that are fixed at
zero and cost nothing. -/
def pad (p : Problem K) (rows columns : Nat) : Problem K :=
  { p with
    objective := p.objective ++ zeros columns
    rowBounds := p.rowBounds ++ List.replicate rows .free
    columnBounds := p.columnBounds ++ List.replicate columns (.fixed 0) }

/-- **Complete problems** have a cost for each column, and all their entries lie in the matrix. -/
structure Complete (p : Problem K) : Prop where
  length_objective : p.objective.length = p.numColumns
  covers : ∀ e ∈ p.entries, p.covers e = true

variable {p : Problem K}

omit [ExtendedScalar K] in
/-- A cell outside of the matrix has no entries. -/
theorem Complete.cellValues_eq_nil (h : p.Complete) {i j : Nat}
    (hout : p.numRows ≤ i ∨ p.numColumns ≤ j) : cellValues p.entries (i + 1) (j + 1) = [] := by
  rw [cellValues, List.map_eq_nil_iff, List.filter_eq_nil_iff]
  intro e he hcell
  have hcovers := h.covers e he
  simp only [Problem.covers, Bool.and_eq_true, decide_eq_true_eq, beq_iff_eq] at hcovers hcell
  omega

omit [ExtendedScalar K] in
theorem map_range_const {α : Type} {f : Nat → α} {a : α} (h : ∀ j, f j = a) (n : Nat) :
    (List.range n).map f = List.replicate n a := by
  have hf : f = fun _ => a := funext h
  rw [hf, List.map_const', List.length_range]

/-- **The matrix of a padded problem** is the old one with zeros beside it and below. -/
theorem Complete.dense_pad (h : p.Complete) (rows columns : Nat) :
    (p.pad rows columns).dense =
      p.dense.map (· ++ zeros columns) ++ List.replicate rows (zeros (p.numColumns + columns)) := by
  have hrows : (p.pad rows columns).numRows = p.numRows + rows := by simp [pad, numRows]
  have hcolumns : (p.pad rows columns).numColumns = p.numColumns + columns := by
    simp [pad, numColumns]
  have hentries : (p.pad rows columns).entries = p.entries := rfl
  have hzero {i j : Nat} (hout : p.numRows ≤ i ∨ p.numColumns ≤ j) :
      cellSum p.entries (i + 1) (j + 1) = 0 := by
    rw [cellSum, h.cellValues_eq_nil hout, List.foldl_nil]
  have hbeside (i : Nat) :
      (List.range (p.numColumns + columns)).map (fun j => cellSum p.entries (i + 1) (j + 1)) =
        (List.range p.numColumns).map (fun j => cellSum p.entries (i + 1) (j + 1)) ++
          zeros columns := by
    rw [List.range_add, List.map_append, List.map_map]
    congr 1
    exact map_range_const (fun j => hzero (.inr (Nat.le_add_right ..))) columns
  have hbelow (i : Nat) :
      (List.range (p.numColumns + columns)).map
          (fun j => cellSum p.entries (p.numRows + i + 1) (j + 1)) =
        zeros (p.numColumns + columns) :=
    map_range_const (fun j => hzero (.inl (Nat.le_add_right ..))) _
  have hrange : List.range (p.numRows + rows) =
      List.range p.numRows ++ (List.range rows).map (p.numRows + ·) := List.range_add
  rw [dense_eq, dense_eq, hrows, hcolumns, hentries, hrange, List.map_append, List.map_map,
    List.map_map]
  congr 1
  · exact List.map_congr_left fun i _ => hbeside i
  · exact map_range_const hbelow rows

end Problem

section Zeros

variable [NeutralZero K]

open NeutralZero

/-- Further zeros are at most one zero. -/
theorem foldl_zeros (n : Nat) (x : K) :
    (zeros n).foldl (· + ·) x = x ∨ (zeros n).foldl (· + ·) x = x + 0 := by
  induction n generalizing x with
  | zero => exact .inl rfl
  | succ n ih =>
    have hfirst : (zeros (n + 1)).foldl (· + ·) x = (zeros n).foldl (· + ·) (x + 0) := rfl
    rw [hfirst]
    rcases ih (x + 0) with h | h
    · exact .inr h
    · exact .inr (h.trans (add_zero_add_zero x))

/-- Further zeros do not change a sum that starts at zero. -/
theorem foldl_append_zeros (terms : List K) (n : Nat) :
    (terms ++ zeros n).foldl (· + ·) 0 = terms.foldl (· + ·) 0 := by
  rw [List.foldl_append]
  rcases foldl_zeros n (terms.foldl (· + ·) 0) with h | h
  · exact h
  · exact h.trans (foldl_add_zero terms)

theorem zipWith_mul_zeros {a x : List K} (h : a.length = x.length) (n : Nat) :
    List.zipWith (· * ·) (a ++ zeros n) (x ++ zeros n) =
      List.zipWith (· * ·) a x ++ zeros n := by
  rw [List.zipWith_append h]
  simp only [zeros, List.zipWith_replicate, Nat.min_self, zero_mul_zero]

/-- Further zeros in both lists change a sum of products at most by a zero. -/
theorem dot_append_zeros {a x : List K} (h : a.length = x.length) (n : Nat) :
    dot (a ++ zeros n) (x ++ zeros n) = dot a x ∨
      dot (a ++ zeros n) (x ++ zeros n) = dot a x + 0 := by
  unfold dot sum
  rw [zipWith_mul_zeros h, List.foldl_append]
  exact foldl_zeros n _

theorem OverlooksZero.dot {same : K → K → Prop} (hsame : OverlooksZero same) {a x : List K}
    (h : a.length = x.length) (n : Nat) :
    same (Scalar.dot (a ++ zeros n) (x ++ zeros n)) (Scalar.dot a x) := by
  rcases dot_append_zeros h n with hdot | hdot
  · rw [hdot]
    exact hsame.refl _
  · rw [hdot]
    exact hsame.add_zero _

theorem OverlooksZero.add_dot {same : K → K → Prop} (hsame : OverlooksZero same) {a x : List K}
    (h : a.length = x.length) (n : Nat) (shift : K) :
    same (shift + Scalar.dot (a ++ zeros n) (x ++ zeros n)) (shift + Scalar.dot a x) := by
  rcases dot_append_zeros h n with hdot | hdot
  · rw [hdot]
    exact hsame.refl _
  · rw [hdot]
    exact hsame.add_add_zero _ _

end Zeros

namespace Bound

variable [NeutralZero K]

theorem sides_fixed_zero :
    (fixed (0 : K)).lower? = some 0 ∧ (fixed (0 : K)).upper? = some 0 := by
  have hinfinite := NeutralZero.isInfinite_zero (K := K)
  rw [ExtendedScalar.isInfinite, Bool.or_eq_false_iff] at hinfinite
  constructor
  · rw [lower?, side, hinfinite.2]
    rfl
  · rw [upper?, side, hinfinite.1]
    rfl

theorem consistent_fixed_zero : (fixed (0 : K)).consistent = true := by
  rw [consistent, NeutralZero.isInfinite_zero, Bool.not_false]

theorem hasNaN_fixed_zero : (fixed (0 : K)).hasNaN = false := by
  rw [hasNaN, ExtendedScalar.isNaN, bne, LawfulZero.zero_beq, Bool.not_true]

end Bound

namespace Simplex

variable [NeutralZero K]

theorem ofBound_fixed_zero : Substitution.ofBound (.fixed (0 : K)) = ⟨0, []⟩ := by
  obtain ⟨hlower, hupper⟩ := Bound.sides_fixed_zero (K := K)
  simp only [Substitution.ofBound, hlower, hupper, LawfulZero.zero_beq, if_true]

theorem width?_fixed_zero : width? (.fixed (0 : K)) = none := by
  obtain ⟨hlower, hupper⟩ := Bound.sides_fixed_zero (K := K)
  simp only [width?, hlower, hupper, LawfulZero.zero_beq, if_true]

namespace StandardForm

/-- The substitutions of columns that are fixed at zero: they have no variables. -/
def idle (n : Nat) : List (Substitution K) := List.replicate n ⟨0, []⟩

omit [NeutralZero K] in
theorem varTotal_append_idle (columns : List (Substitution K)) (n : Nat) :
    varTotal (columns ++ idle n) = varTotal columns := by
  induction columns with
  | nil =>
    induction n with
    | zero => rfl
    | succ n ih => exact (Nat.zero_add _).trans ih
  | cons s columns ih => rw [List.cons_append, varTotal, varTotal, ih]

omit [NeutralZero K] in
theorem spread_append_idle {columns : List (Substitution K)} {coefficients : List K}
    (h : coefficients.length = columns.length) (n : Nat) :
    spread (columns ++ idle n) (coefficients ++ zeros n) = spread columns coefficients := by
  induction columns generalizing coefficients with
  | nil =>
    rw [List.length_nil, List.length_eq_zero_iff] at h
    subst h
    induction n with
    | zero => rfl
    | succ n ih => exact ih
  | cons s columns ih =>
    cases coefficients with
    | nil => cases h
    | cons a coefficients =>
      rw [List.cons_append, List.cons_append, spread, spread, ih (Nat.succ.inj h)]

theorem constant_append_idle {columns : List (Substitution K)} {coefficients : List K}
    (h : coefficients.length = columns.length) (n : Nat) :
    constant (columns ++ idle n) (coefficients ++ zeros n) = constant columns coefficients := by
  have hidle : List.zipWith (fun (s : Substitution K) a => a * s.offset) (idle n) (zeros n) =
      zeros n := by
    simp only [idle, zeros, List.zipWith_replicate, Nat.min_self, NeutralZero.zero_mul_zero]
  rw [constant, List.zipWith_append h.symm, hidle, foldl_append_zeros, constant]

theorem columnValues_append_idle (columns : List (Substitution K)) (n : Nat) (y : List K) :
    columnValues (columns ++ idle n) y = columnValues columns y ++ zeros n := by
  induction columns generalizing y with
  | nil =>
    induction n generalizing y with
    | zero => rfl
    | succ n ih =>
      have hvalue : (⟨0, []⟩ : Substitution K).value (y.take 0) = 0 :=
        NeutralZero.zero_add_neg_zero
      exact congrArg₂ List.cons hvalue (ih y)
  | cons s columns ih => rw [List.cons_append, columnValues, columnValues, ih, List.cons_append]

theorem widthConstraints_append_fixed (varCount first : Nat) (bounds : List (Bound K)) (n : Nat) :
    widthConstraints varCount first (bounds ++ List.replicate n (.fixed 0)) =
      widthConstraints varCount first bounds := by
  induction bounds generalizing first with
  | nil =>
    induction n generalizing first with
    | zero => rfl
    | succ n ih =>
      simp only [List.nil_append, List.replicate_succ, widthConstraints, width?_fixed_zero] at ih ⊢
      exact ih _
  | cons b bounds ih => rw [List.cons_append, widthConstraints, widthConstraints, ih]

theorem rowConstraints_append_idle {columns : List (Substitution K)} {coefficients : List K}
    (h : coefficients.length = columns.length) (n : Nat) (b : Bound K) :
    rowConstraints (columns ++ idle n) (coefficients ++ zeros n) b =
      rowConstraints columns coefficients b := by
  rw [rowConstraints, spread_append_idle h, constant_append_idle h, rowConstraints]

/-- The form with further columns that are fixed at zero. -/
def pad (form : StandardForm K) (n : Nat) : StandardForm K :=
  { form with columns := form.columns ++ idle n }

theorem map_ofBound_pad (bounds : List (Bound K)) (n : Nat) :
    (bounds ++ List.replicate n (Bound.fixed 0)).map Substitution.ofBound =
      bounds.map Substitution.ofBound ++ idle n := by
  rw [List.map_append, List.map_replicate, ofBound_fixed_zero, idle]

/-- **The constraints from the rows** of a padded problem: a free row gives none, and the zeros
beside the matrix do not show. -/
theorem rows_pad {p : Problem K} (h : p.Complete) (rows columns : Nat) :
    let substitutions := p.columnBounds.map Substitution.ofBound
    (List.zipWith (rowConstraints (substitutions ++ idle columns)) (p.pad rows columns).dense
      (p.pad rows columns).rowBounds).flatten =
      (List.zipWith (rowConstraints substitutions) p.dense p.rowBounds).flatten := by
  intro substitutions
  have hlength : (p.dense.map (· ++ zeros columns)).length = p.rowBounds.length := by
    rw [List.length_map, p.length_dense, Problem.numRows]
  have hbounds : (p.pad rows columns).rowBounds = p.rowBounds ++ List.replicate rows .free := rfl
  have hfree : ∀ matrix : List (List K),
      (List.zipWith (rowConstraints (substitutions ++ idle columns)) matrix
        (List.replicate rows .free)).flatten = [] := by
    intro matrix
    rw [List.flatten_eq_nil_iff, ← List.map_uncurry_zip_eq_zipWith]
    intro constraints hmem
    obtain ⟨⟨row, b⟩, hrow, rfl⟩ := List.mem_map.1 hmem
    obtain rfl := List.eq_of_mem_replicate (List.of_mem_zip hrow).2
    rfl
  have hold : List.zipWith (rowConstraints (substitutions ++ idle columns))
      (p.dense.map (· ++ zeros columns)) p.rowBounds =
      List.zipWith (rowConstraints substitutions) p.dense p.rowBounds := by
    rw [List.zipWith_map_left, ← List.map_uncurry_zip_eq_zipWith,
      ← List.map_uncurry_zip_eq_zipWith]
    apply List.map_congr_left
    rintro ⟨row, b⟩ hrow
    have hrow := p.length_of_mem_dense row (List.of_mem_zip hrow).1
    exact rowConstraints_append_idle (hrow.trans (List.length_map _).symm) columns b
  rw [h.dense_pad, hbounds, List.zipWith_append hlength, List.flatten_append, hfree, hold,
    List.append_nil]

theorem ofConsistent_pad {p : Problem K} (h : p.Complete) (rows columns : Nat) :
    ofConsistent (p.pad rows columns) = (ofConsistent p).pad columns := by
  have hobjective : p.objective.length = (p.columnBounds.map Substitution.ofBound).length := by
    rw [h.length_objective, List.length_map, Problem.numColumns]
  have hcolumns : (p.pad rows columns).columnBounds.map Substitution.ofBound =
      p.columnBounds.map Substitution.ofBound ++ idle columns := map_ofBound_pad ..
  simp only [ofConsistent, hcolumns, rows_pad h, varTotal_append_idle, pad]
  congr 1
  · exact spread_append_idle hobjective columns
  · congr 1
    exact widthConstraints_append_fixed ..

/-- **The standard form of a padded problem** differs in the columns only. -/
theorem ofProblem_pad {p : Problem K} (h : p.Complete) (rows columns : Nat) :
    ofProblem (p.pad rows columns) = (ofProblem p).map (pad · columns) := by
  have hcolumns : (p.pad rows columns).columnBounds.all Bound.consistent =
      p.columnBounds.all Bound.consistent := by
    rw [Problem.pad, List.all_append, List.all_replicate, Bound.consistent_fixed_zero, ite_self,
      Bool.and_true]
  have hrows : (p.pad rows columns).rowBounds.all Bound.consistent =
      p.rowBounds.all Bound.consistent := by
    rw [Problem.pad, List.all_append, List.all_replicate, Bound.consistent, ite_self, Bool.and_true]
  rw [ofProblem, ofProblem, hcolumns, hrows, ofConsistent_pad h]
  split <;> rfl

end StandardForm

theorem wellFormed_pad (p : Problem K) (rows columns : Nat) :
    (p.pad rows columns).wellFormed = p.wellFormed := by
  have hobjective : (p.pad rows columns).objective.all isFinite = p.objective.all isFinite := by
    rw [Problem.pad, List.all_append, zeros, List.all_replicate, NeutralZero.isFinite_zero, ite_self,
      Bool.and_true]
  have hrows : (p.pad rows columns).rowBounds.any Bound.hasNaN = p.rowBounds.any Bound.hasNaN := by
    rw [Problem.pad, List.any_append, List.any_replicate, Bound.hasNaN, ite_self, Bool.or_false]
  have hcolumns : (p.pad rows columns).columnBounds.any Bound.hasNaN =
      p.columnBounds.any Bound.hasNaN := by
    rw [Problem.pad, List.any_append, List.any_replicate, Bound.hasNaN_fixed_zero, ite_self,
      Bool.or_false]
  rw [Problem.wellFormed, Problem.wellFormed, hobjective, hrows, hcolumns]
  rfl

/-- **Solutions that agree** but for `n` further columns, which are zero, and for zeros that have
been added to the other values. -/
structure Agree (same : K → K → Prop) (n : Nat) (old new : Solution K) : Prop where
  iterations_eq : new.iterations = old.iterations
  columns_eq : new.columns = old.columns ++ zeros n
  objective : same new.objective old.objective
  rows : ∀ (i : Nat) (x : K), old.rows[i]? = some x → ∃ x', new.rows[i]? = some x' ∧ same x' x

variable {same : K → K → Prop}

/-- The solutions at a point and at the point with zeros agree. -/
theorem solutionAt_pad (hsame : OverlooksZero same) {p : Problem K} (h : p.Complete)
    {point : List K} (hpoint : point.length = p.numColumns) (rows columns pivots : Nat) :
    Agree same columns ((solutionAt p point).withIterations pivots)
      ((solutionAt (p.pad rows columns) (point ++ zeros columns)).withIterations pivots) where
  iterations_eq := rfl
  columns_eq := rfl
  objective := hsame.add_dot (h.length_objective.trans hpoint.symm) columns p.shift
  rows i x hi := by
    have hi : (p.activities point)[i]? = some x := hi
    rw [Problem.activities, List.getElem?_map, Option.map_eq_some_iff] at hi
    obtain ⟨coefficients, hrow, rfl⟩ := hi
    have hlength := p.length_of_mem_dense coefficients (List.mem_of_getElem? hrow)
    have hlt : i < (p.dense.map (· ++ zeros columns)).length := by
      rw [List.length_map]
      exact (List.getElem?_eq_some_iff.1 hrow).1
    have hpadded : (p.pad rows columns).dense[i]? = some (coefficients ++ zeros columns) := by
      rw [h.dense_pad, List.getElem?_append_left hlt, List.getElem?_map, hrow, Option.map_some]
    refine ⟨dot (coefficients ++ zeros columns) (point ++ zeros columns), ?_,
      hsame.dot (hlength.trans hpoint.symm) columns⟩
    exact List.getElem?_map.trans (congrArg _ hpadded)

/-- **The answer to a padded problem** is the answer to the problem. -/
theorem solve_pad (hsame : OverlooksZero same) (method : Simplex K) {p : Problem K}
    (h : p.Complete) (rows columns : Nat) :
    (method.solve (p.pad rows columns)).status = (method.solve p).status ∧
      ((method.solve p).status = .optimal →
        Agree same columns (method.solve p) (method.solve (p.pad rows columns))) := by
  unfold solve
  rw [wellFormed_pad, StandardForm.ofProblem_pad h]
  cases p.wellFormed with
  | false => exact ⟨rfl, nofun⟩
  | true =>
    cases hform : StandardForm.ofProblem p with
    | none => exact ⟨rfl, nofun⟩
    | some form =>
      -- a tableau knows nothing of the columns of the problem
      have htableau : Tableau.ofStandardForm (form.pad columns) = .ofStandardForm form := rfl
      simp only [Option.map_some, htableau]
      generalize method.optimize (.ofStandardForm form) = o
      have hpoint : ∀ y, (form.pad columns).point y = form.point y ++ zeros columns :=
        StandardForm.columnValues_append_idle form.columns columns
      cases o.status with
      | failed reason => exact ⟨rfl, nofun⟩
      | optimal =>
        refine ⟨rfl, fun _ => ?_⟩
        rw [hpoint]
        exact solutionAt_pad hsame h (StandardForm.length_point hform _) rows columns o.pivots

end Simplex

end LinearProgram
