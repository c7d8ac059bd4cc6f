import LinearProgram.Proofs.Padding
import LinearProgram.Proofs.Reading
import LinearProgram.Proofs.Shape

/-!
# Default rows and columns are neutral

New rows are free, and new columns are fixed at zero and cost nothing. So it makes no difference to a
model whether it is solved before or after such rows and columns are added: it succeeds or fails
alike, with the same pivots and the same values.

* `withDefaults`: a model with further default rows and columns.
* `SameValues`: what two solved models show alike.
* `Neutral`: both models are solved alike.
* `neutral_of_wellFormed`: it is so with any arithmetic in which zero is neutral.
* `defaults_neutral`: it is so in exact arithmetic and in doubles.
-/

namespace LinearProgram.Model

open Scalar Simplex

variable {K E : Type} [ExtendedScalar K]

/-- The model after default rows and then default columns have been added. -/
def withDefaults [Engine E K] (m : Model K E) (rows columns : Nat) : Model K E :=
  m.run [.edit (.addRows rows), .edit (.addColumns columns)]

/-- **What two solved models show alike**, where the new one has `columns` columns more: the number
of pivots and the values of the columns are equal, further columns are zero, and the objective and
the rows of the old model have values that are the same. -/
structure SameValues (same : K → K → Prop) (columns : Nat) (old new : Model K E) : Prop where
  iterations : ∃ s s', old.solution = some s ∧ new.solution = some s' ∧ s'.iterations = s.iterations
  columnValue : ∀ j, 1 ≤ j → j ≤ old.columnCount →
    ∃ x, old.columnValue j = .ok x ∧ new.columnValue j = .ok x
  newColumnValue : ∀ j, old.columnCount < j → j ≤ old.columnCount + columns →
    new.columnValue j = .ok 0
  objectiveValue : ∃ x x', old.objectiveValue = .ok x ∧ new.objectiveValue = .ok x' ∧ same x' x
  rowValue : ∀ i, 1 ≤ i → i ≤ old.rowCount →
    ∃ x x', old.rowValue i = .ok x ∧ new.rowValue i = .ok x' ∧ same x' x

/-- **Default rows and columns are neutral** for a model: with them it is solved with the same
result, and if that is a success, with the same values. -/
structure Neutral [Engine E K] (same : K → K → Prop) (m : Model K E) (rows columns : Nat) :
    Prop where
  result : ((m.withDefaults rows columns).step .solve).1 = (m.step .solve).1
  values : (m.step .solve).1 = .ok .unit →
    SameValues same columns (m.step .solve).2 ((m.withDefaults rows columns).step .solve).2

/-- **Models show alike what their solutions say alike.** -/
theorem sameValues_of_agree {same : K → K → Prop} {columns : Nat} {old new : Model K E}
    {s s' : Solution K} (hs : old.solution = some s) (hs' : new.solution = some s')
    (hagree : Agree same columns s s') (hcolumns : s.columns.length = old.columnCount)
    (hrows : s.rows.length = old.rowCount) (hcount : new.columnCount = old.columnCount + columns)
    (hrowCount : old.rowCount ≤ new.rowCount) : SameValues same columns old new where
  iterations := ⟨s, s', hs, hs', hagree.iterations_eq⟩
  columnValue j hj hle := by
    refine ⟨s.columns.getD (j - 1) 0, columnValue_of_solution hs hj hle, ?_⟩
    have hlt : j - 1 < s.columns.length := by omega
    rw [columnValue_of_solution hs' hj (by omega), hagree.columns_eq,
      List.getD_append _ _ _ _ hlt]
  newColumnValue j hlt hle := by
    have hge : s.columns.length ≤ j - 1 := by omega
    rw [columnValue_of_solution hs' (by omega) (by omega), hagree.columns_eq,
      List.getD_append_right _ _ _ _ hge, zeros, List.getD_replicate]
    omega
  objectiveValue := by
    have hold : old.objectiveValue = .ok s.objective := by
      rw [objectiveValue, solved, hs]
      rfl
    have hnew : new.objectiveValue = .ok s'.objective := by
      rw [objectiveValue, solved, hs']
      rfl
    exact ⟨s.objective, s'.objective, hold, hnew, hagree.objective⟩
  rowValue i hi hle := by
    have hlt : i - 1 < s.rows.length := by omega
    have hx := List.getElem?_eq_getElem hlt
    obtain ⟨x', hx', hsame⟩ := hagree.rows (i - 1) _ hx
    exact ⟨_, x', rowValue_of_solution hs hi hle hx,
      rowValue_of_solution hs' hi (hle.trans hrowCount) hx', hsame⟩

section Defaults

variable [Engine E K]

theorem withDefaults_eq (m : Model K E) (rows columns : Nat) :
    m.withDefaults rows columns = ((m.addRows rows).2.addColumns columns).2 := by
  have hrows : (m.step (.edit (.addRows rows))).2 = (m.addRows rows).2 := by
    simp only [step, Action.perform_eq]
    rfl
  have hcolumns : ((m.addRows rows).2.step (.edit (.addColumns columns))).2 =
      ((m.addRows rows).2.addColumns columns).2 := by
    simp only [step, Action.perform_eq]
    rfl
  rw [withDefaults, run, List.foldl_cons, List.foldl_cons, List.foldl_nil, hrows, hcolumns]

/-- What default rows and columns leave of a model, and what they add. -/
theorem withDefaults_parts (m : Model K E) (rows columns : Nat) :
    (m.withDefaults rows columns).rows = m.rows ++ List.replicate rows .fresh ∧
      (m.withDefaults rows columns).columns = m.columns ++ List.replicate columns .fresh ∧
      (m.withDefaults rows columns).direction = m.direction ∧
      (m.withDefaults rows columns).shift = m.shift ∧
      (m.withDefaults rows columns).matrix = m.matrix ∧
      (m.withDefaults rows columns).engine = m.engine := by
  rw [withDefaults_eq, addRows, addColumns]
  by_cases hrows : rows = 0 <;> by_cases hcolumns : columns = 0 <;> simp [hrows, hcolumns]

/-- **The program of a model with defaults** is the padded program. -/
theorem toProblem_withDefaults (m : Model K E) (rows columns : Nat) :
    (m.withDefaults rows columns).toProblem = m.toProblem.pad rows columns := by
  obtain ⟨hrows, hcolumns, hdirection, hshift, hmatrix, -⟩ := m.withDefaults_parts rows columns
  rw [toProblem, hrows, hcolumns, hdirection, hshift, hmatrix]
  simp only [List.map_append, List.map_replicate]
  rfl

end Defaults

omit [ExtendedScalar K] in
theorem numRows_toProblem (m : Model K E) : m.toProblem.numRows = m.rowCount := by
  simp [toProblem, Problem.numRows, rowCount]

/-- The program of a well-formed model is complete. -/
theorem WellFormed.complete {m : Model K E} (hm : m.WellFormed) : m.toProblem.Complete where
  length_objective := by
    rw [numColumns_toProblem]
    exact List.length_map _
  covers e he := by
    obtain ⟨hrow, hcolumn, -⟩ := hm.cells e he
    simp only [Problem.covers, numRows_toProblem, numColumns_toProblem, Bool.and_eq_true,
      decide_eq_true_eq]
    omega

/-- **Default rows and columns are neutral** for a well-formed model. -/
theorem neutral_of_wellFormed [NeutralZero K] {same : K → K → Prop} (hsame : OverlooksZero same)
    {m : Model K (Simplex K)} (hm : m.WellFormed) (rows columns : Nat) :
    Neutral same m rows columns := by
  obtain ⟨hrows, hcolumns, -, -, -, hengine⟩ := m.withDefaults_parts rows columns
  have hcolumnCount : (m.withDefaults rows columns).columnCount = m.columnCount + columns := by
    rw [columnCount, hcolumns, List.length_append, List.length_replicate, columnCount]
  have hrowCount : m.rowCount ≤ (m.withDefaults rows columns).rowCount := by
    rw [rowCount, rowCount, hrows, List.length_append]
    exact Nat.le_add_right ..
  obtain ⟨hstatus, hagree⟩ := solve_pad hsame m.engine hm.complete rows columns
  have hanswers := solve_answers m.engine m.toProblem
  have hold := step_solve_of_simplex m
  have hnew := step_solve_of_simplex (m.withDefaults rows columns)
  -- both models ask the same engine, one of them about the padded program
  rw [hengine, toProblem_withDefaults, hstatus] at hnew
  rw [Solution.Answers] at hanswers
  cases hs : (m.engine.solve m.toProblem).status with
  | failed reason =>
    rw [hs] at hold hnew
    constructor
    · rw [hold, hnew]
    · intro hok
      rw [hold] at hok
      cases hok
  | optimal =>
    rw [hs] at hold hnew hanswers
    constructor
    · rw [hold, hnew]
    · intro _
      rw [hold, hnew]
      exact sameValues_of_agree rfl rfl (hagree hs) (hanswers.1.trans (numColumns_toProblem m))
        (hanswers.2.1.trans (numRows_toProblem m)) hcolumnCount hrowCount

/-- **Default rows and columns are neutral** for every model that has been built in any way, whatever
the configuration of the simplex method: in exact arithmetic all values are equal, and in doubles
they are equal but for the sign of a zero. -/
theorem defaults_neutral :
    (∀ (method : Simplex Exact) (start : Model Exact (Simplex Exact)), Constructed method start →
      ∀ (ops : List (Operation Exact)) (rows columns : Nat),
        Neutral (fun x y => x = y) (start.run ops) rows columns) ∧
    (∀ (method : Simplex Float) (start : Model Float (Simplex Float)), Constructed method start →
      ∀ (ops : List (Operation Float)) (rows columns : Nat),
        Neutral Double.Same (start.run ops) rows columns) := by
  constructor
  · intro method start hstart ops rows columns
    have hm := run_wellFormed hstart.wellFormed ops
    exact neutral_of_wellFormed Exact.eq_overlooksZero hm rows columns
  · intro method start hstart ops rows columns
    have hm := run_wellFormed hstart.wellFormed ops
    exact neutral_of_wellFormed Double.same_overlooksZero hm rows columns

/-- A row that limits a column, which is to be as large as possible. -/
def limited (zero one two : K) : List (Operation K) :=
  [.edit (.setDirection .maximize), .edit (.addColumn (some "x") .lower zero zero one),
    .edit (.addRow none .upper two two), .edit (.setMatrixCoefficient 1 1 one)]

theorem limited_neutral :
    let exact : Model Exact (Simplex Exact) := ofEngine ⟨10, 0⟩
    let double : Model Float (Simplex Float) := ofEngine Simplex.standard
    (Constructed ⟨10, 0⟩ exact ∧
      ((exact.run (limited 0 1 (.finite 2))).step .solve).1 = .ok .unit ∧
      Neutral (fun x y => x = y) (exact.run (limited 0 1 (.finite 2))) 2 3) ∧
    (Constructed Simplex.standard double ∧
      ((double.run (limited 0 1 2)).step .solve).1 = .ok .unit ∧
      Neutral Double.Same (double.run (limited 0 1 2)) 2 3) := by
  intro exact double
  have hexact : Constructed ⟨10, 0⟩ exact := .empty
  have hdouble : Constructed Simplex.standard double := .empty
  have hexactStatus : ((exact.run (limited 0 1 (.finite 2))).engine.solve
      (exact.run (limited 0 1 (.finite 2))).toProblem).status = .optimal := by decide +kernel
  have hdoubleStatus : ((double.run (limited 0 1 2)).engine.solve
      (double.run (limited 0 1 2)).toProblem).status = .optimal := by decide +kernel
  refine ⟨⟨hexact, ?_, defaults_neutral.1 _ exact hexact _ 2 3⟩, hdouble, ?_,
    defaults_neutral.2 _ double hdouble _ 2 3⟩
  · rw [step_solve_of_simplex, hexactStatus]
  · rw [step_solve_of_simplex, hdoubleStatus]

end LinearProgram.Model
