import LinearProgram.Engine.Canned
import LinearProgram.Proofs.Defaults
import LinearProgram.Proofs.FiniteAnswers
import LinearProgram.Proofs.LastWrite
import LinearProgram.Proofs.SkippedZeros

/-!
# Two ways to the value of a row

The value of a row in a solution comes from the engine, or else it is summed up over the stored cells
of the row. The simplex method sums it up over all columns. All these sums are the same, so it makes
no difference whether an engine reports the values of the rows.

* `SparseMatrix.row_eq_filterMap`: the stored cells of a row, column by column.
* `activity_same`: the sum over the stored cells is the same as the sum over all columns.
* `Model.rowTotal`: the sum over all columns of what the model shows.
* `ReadsRow`, `SuppliesRow`: what is to be shown of any engine, and of the simplex method.
* `row_values_agree`: it is so in exact arithmetic, and in doubles but for the sign of a zero.
-/

namespace LinearProgram

open Scalar

namespace SparseMatrix

variable {K : Type} {matrix : SparseMatrix K} {rows columns : Nat}

theorem mem_row_iff {e : Entry K} {i : Nat} :
    e ∈ matrix.row i ↔ matrix.cells[(i, e.column)]? = some e.value ∧ e.row = i := by
  rw [row, List.mem_filter, mem_entries_iff, beq_iff_eq]
  constructor
  · rintro ⟨hcell, rfl⟩
    exact ⟨hcell, rfl⟩
  · rintro ⟨hcell, rfl⟩
    exact ⟨hcell, rfl⟩

/-- The stored cells of a row come in order of columns. -/
theorem pairwise_row (matrix : SparseMatrix K) (i : Nat) :
    (matrix.row i).Pairwise fun e e' => e.column < e'.column := by
  rw [row, List.pairwise_filter]
  refine matrix.pairwise_entries.imp fun {e e'} horder hrow hrow' => ?_
  have hrow : e.row = i := beq_iff_eq.1 hrow
  have hrow' : e'.row = i := beq_iff_eq.1 hrow'
  omega

variable [ExtendedScalar K]

/-- **The stored cells of a row, column by column.** -/
theorem Within.row_eq_filterMap (h : matrix.Within rows columns) (i : Nat) :
    matrix.row i = (List.range columns).filterMap fun j =>
      matrix.cells[(i, j + 1)]?.map fun value => ⟨i, j + 1, value⟩ := by
  -- both lists are in order of columns, so they are equal if they have the same members
  have hirrefl : Std.Irrefl fun e e' : Entry K => e.column < e'.column := ⟨fun e => Nat.lt_irrefl _⟩
  have hantisymm : Std.Antisymm fun e e' : Entry K => e.column < e'.column :=
    ⟨fun e e' hlt hgt => absurd hgt (Nat.lt_asymm hlt)⟩
  refine (matrix.pairwise_row i).eq_of_mem_iff ?_ fun e => ?_
  · rw [List.pairwise_filterMap]
    refine List.pairwise_lt_range.imp fun {j j'} hlt e he e' he' => ?_
    obtain ⟨_, -, rfl⟩ := Option.map_eq_some_iff.1 he
    obtain ⟨_, -, rfl⟩ := Option.map_eq_some_iff.1 he'
    exact Nat.succ_lt_succ hlt
  · simp only [List.mem_filterMap, List.mem_range, Option.map_eq_some_iff]
    constructor
    · intro he
      obtain ⟨-, ⟨hpos, hle⟩, -⟩ := h e (List.mem_filter.1 he).1
      obtain ⟨hcell, hrow⟩ := mem_row_iff.1 he
      have hcolumn : e.column - 1 + 1 = e.column := Nat.sub_add_cancel hpos
      refine ⟨e.column - 1, by omega, e.value, ?_, ?_⟩
      · rw [hcolumn, hcell]
      · rw [hcolumn, ← hrow]
    · rintro ⟨j, -, value, hcell, rfl⟩
      exact mem_row_iff.2 ⟨hcell, rfl⟩

end SparseMatrix

namespace Model

variable {K E : Type} [ExtendedScalar K] {same : K → K → Prop} {m : Model K E} {s : Solution K}
  {i : Nat}

/-- **The stored cells of a row give the same sum as all cells**, at finite column values. -/
theorem activity_same (hsame : SkipsZeros same) (hm : m.WellFormed) {columns : List K}
    (hcolumns : ∀ j < m.columnCount, isFinite (columns.getD j 0) = true) (i : Nat) :
    same (m.activity columns i) (sum ((List.range m.columnCount).map fun j =>
      m.matrix.get i (j + 1) * columns.getD j 0)) := by
  have hstored : m.activity columns i = sum ((List.range m.columnCount).filterMap fun j =>
      m.matrix.cells[(i, j + 1)]?.map (· * columns.getD j 0)) := by
    rw [activity, hm.cells.row_eq_filterMap, List.map_filterMap]
    simp only [Option.map_map, Function.comp_def, Nat.add_sub_cancel]
  rw [hstored]
  simp only [SparseMatrix.get_eq]
  exact hsame.sum _ fun j hj => hcolumns j (List.mem_range.1 hj)

/-- **The sum over all columns** of the coefficients of row `i` times the values of the columns, both
as the model shows them. -/
def rowTotal (m : Model K E) (i : Nat) : Except (Error K) K := do
  let products ← (List.range m.columnCount).mapM fun j => do
    let coefficient ← m.matrixCoefficient i (j + 1)
    let value ← m.columnValue (j + 1)
    return coefficient * value
  return sum products

omit [ExtendedScalar K] in
theorem mapM_eq_ok {α β : Type} {items : List α} {f : α → Except (Error K) β} {g : α → β}
    (h : ∀ a ∈ items, f a = .ok (g a)) : items.mapM f = .ok (items.map g) := by
  induction items with
  | nil => rfl
  | cons a items ih =>
    obtain ⟨ha, hitems⟩ := List.forall_mem_cons.1 h
    rw [List.mapM_cons, ha, ih hitems]
    rfl

/-- In a solved model all that the sum needs is there. -/
theorem rowTotal_of_solution (hs : m.solution = some s) (hi : 1 ≤ i ∧ i ≤ m.rowCount) :
    m.rowTotal i = .ok (sum ((List.range m.columnCount).map fun j =>
      m.matrix.get i (j + 1) * s.columns.getD j 0)) := by
  have hproduct : ∀ j ∈ List.range m.columnCount, (do
      let coefficient ← m.matrixCoefficient i (j + 1)
      let value ← m.columnValue (j + 1)
      return coefficient * value) =
        Except.ok (m.matrix.get i (j + 1) * s.columns.getD j 0) := by
    intro j hj
    have hj : j < m.columnCount := List.mem_range.1 hj
    rw [matrixCoefficient_eq hi ⟨Nat.succ_pos j, hj⟩,
      columnValue_of_solution hs (Nat.succ_pos j) hj]
    rfl
  rw [rowTotal, mapM_eq_ok hproduct]
  rfl

/-- **How a row is read**: its value is what the solution says, or if the solution says nothing, the
same as the sum over all columns. -/
def ReadsRow (same : K → K → Prop) (m : Model K E) (s : Solution K) (i : Nat) : Prop :=
  ∃ value total, m.rowValue i = .ok value ∧ m.rowTotal i = .ok total ∧
    (s.rows[i - 1]? = some value ∨ s.rows[i - 1]? = none ∧ same value total)

/-- **A row of a solved model is read so**, at finite column values. -/
theorem WellFormed.readsRow (hm : m.WellFormed) (hsame : SkipsZeros same) (hs : m.solution = some s)
    (hcolumns : ∀ x ∈ s.columns, isFinite x = true) (hi : 1 ≤ i ∧ i ≤ m.rowCount) :
    ReadsRow same m s i := by
  have hfinite : ∀ j < m.columnCount, isFinite (s.columns.getD j 0) = true := by
    intro j hj
    have hlt : j < s.columns.length := (hm.solution s hs).symm ▸ hj
    rw [List.getD_eq_getElem _ _ hlt]
    exact hcolumns _ (List.getElem_mem hlt)
  refine ⟨_, _, rowValue_eq_getD hs hi.1 hi.2, rowTotal_of_solution hs hi, ?_⟩
  cases s.rows[i - 1]? with
  | some given => exact .inl rfl
  | none => exact .inr ⟨rfl, activity_same hsame hm hfinite i⟩

/-- Whether the solution says that the value of a row is the sum over all columns, and the model
reads it so. -/
def SuppliesRow (m : Model K E) (s : Solution K) (i : Nat) : Prop :=
  ∃ total, s.rows[i - 1]? = some total ∧ m.rowTotal i = .ok total ∧ m.rowValue i = .ok total

/-- The model as it would be if its solution had only the values of the first `count` rows. -/
def keepRows (m : Model K E) (count : Nat) : Model K E :=
  { m with solution := m.solution.map fun s => { s with rows := s.rows.take count } }

/-- **Whether the row values of the solution can be dispensed with**: however many of them are
dropped, the value of row `i` is the same. -/
def Dispensable (same : K → K → Prop) (m : Model K E) (i : Nat) : Prop :=
  ∀ count, ∃ value kept, m.rowValue i = .ok value ∧ (m.keepRows count).rowValue i = .ok kept ∧
    same kept value

/-- **What is summed up again where it is missing** can be dispensed with. -/
theorem SuppliesRow.dispensable (h : SuppliesRow m s i) (hm : m.WellFormed)
    (hsame : SkipsZeros same) (hs : m.solution = some s)
    (hcolumns : ∀ x ∈ s.columns, isFinite x = true) (hi : 1 ≤ i ∧ i ≤ m.rowCount) :
    Dispensable same m i := by
  intro count
  obtain ⟨total, hgiven, htotal, hvalue⟩ := h
  have hkept : (m.keepRows count).solution = some { s with rows := s.rows.take count } :=
    congrArg (Option.map _) hs
  have hwf : (m.keepRows count).WellFormed := { hm with
    solution := fun s' hs' => by
      obtain rfl := Option.some.inj (hkept.symm.trans hs')
      exact hm.solution s hs }
  obtain ⟨kept, total', hread, htotal', hrow⟩ := hwf.readsRow hsame hkept hcolumns hi
  -- the sum over all columns does not look at the values of the rows
  have heq : total' = total := by
    have hsum := rowTotal_of_solution hs hi
    have hsum' := rowTotal_of_solution hkept hi
    rw [htotal] at hsum
    rw [htotal'] at hsum'
    exact Except.ok.inj (hsum'.trans hsum.symm)
  refine ⟨total, kept, hvalue, hread, ?_⟩
  rcases hrow with hrow | ⟨-, hsum⟩
  · have hkeep : s.rows[i - 1]? = some kept := by
      rw [List.getElem?_take] at hrow
      split at hrow
      · exact hrow
      · cases hrow
    obtain rfl := Option.some.inj (hgiven.symm.trans hkeep)
    exact hsame.refl _
  · exact heq ▸ hsum

section Simplex

variable {method : Simplex K} {start : Model K (Simplex K)}

/-- A solution that a model shows is an optimal answer of the simplex method about its program. -/
theorem solution_of_simplex (h : Constructed method start) (ops : List (Operation K))
    (hs : (start.run ops).solution = some s) :
    s.status = .optimal ∧ ∃ asked : Simplex K, asked.solve (start.run ops).toProblem = s := by
  rcases solution_cases h ops with ⟨hnone, -⟩ | ⟨s', asked, hs', hshows⟩
  · rw [hnone] at hs
    cases hs
  · obtain rfl := Option.some.inj (hs'.symm.trans hs)
    have hanswer : asked.freshEngine.solve asked.toProblem = s' :=
      congrArg Prod.fst hshows.answer_eq
    exact ⟨hshows.optimal, asked.freshEngine, hshows.toProblem_eq ▸ hanswer⟩

/-- The rows of an optimal answer about a well-formed model are the sums over all columns. -/
theorem WellFormed.rows_of_answers [LawfulZero K] (hm : m.WellFormed) (hs : s.Answers m.toProblem)
    (hoptimal : s.status = .optimal) (hi : 1 ≤ i ∧ i ≤ m.rowCount) :
    s.rows[i - 1]? = some (sum ((List.range m.columnCount).map fun j =>
      m.matrix.get i (j + 1) * s.columns.getD j 0)) := by
  rw [Solution.Answers, hoptimal, (matrixShows_get hm).dense, numColumns_toProblem,
    List.map_map] at hs
  obtain ⟨-, -, -, hrows⟩ := hs
  have hlt : i - 1 < m.rowCount := by omega
  have hnumber : i - 1 + 1 = i := Nat.sub_add_cancel hi.1
  have hcell : ∀ j ∈ List.range m.columnCount,
      ((List.range m.columnCount).map fun j => m.matrix.get i (j + 1)).getD j 0 =
        m.matrix.get i (j + 1) := by
    intro j hj
    simp [List.mem_range.1 hj]
  rw [hrows, List.getElem?_map, List.getElem?_range hlt, Option.map_some, Function.comp_apply,
    hnumber]
  congr 2
  exact List.map_congr_left fun j hj => by rw [hcell j hj]

/-- **The simplex method sums up each row over all columns.** -/
theorem suppliesRow_of_simplex [LawfulZero K] (h : Constructed method start)
    (ops : List (Operation K)) (hs : (start.run ops).solution = some s)
    (hi : 1 ≤ i ∧ i ≤ (start.run ops).rowCount) : SuppliesRow (start.run ops) s i := by
  obtain ⟨hoptimal, asked, rfl⟩ := solution_of_simplex h ops hs
  have hgiven := (run_wellFormed h.wellFormed ops).rows_of_answers
    (Simplex.solve_answers asked _) hoptimal hi
  exact ⟨_, hgiven, rowTotal_of_solution hs hi, rowValue_of_solution hs hi.1 hi.2 hgiven⟩

end Simplex

/-- **Both ways to the value of a row agree.** Whatever engine has answered, in exact arithmetic with
finite column values a row is read as the solution says, or else as the sum over all columns; in
doubles this is so but for the sign of a zero. The simplex method says what that sum is, so that the
row values it gives can be dispensed with. -/
theorem row_values_agree :
    (∀ {E : Type} [Engine E Exact] {engine : E} {start : Model Exact E}, Constructed engine start →
      ∀ ops s i, (start.run ops).solution = some s → (∀ x ∈ s.columns, isFinite x = true) →
        1 ≤ i ∧ i ≤ (start.run ops).rowCount → ReadsRow (fun x y => x = y) (start.run ops) s i) ∧
    (∀ {E : Type} [Engine E Float] {engine : E} {start : Model Float E}, Constructed engine start →
      ∀ ops s i, (start.run ops).solution = some s → (∀ x ∈ s.columns, isFinite x = true) →
        1 ≤ i ∧ i ≤ (start.run ops).rowCount → ReadsRow Double.Same (start.run ops) s i) ∧
    (∀ {method : Simplex Exact} {start : Model Exact (Simplex Exact)}, Constructed method start →
      ∀ ops s i, (start.run ops).solution = some s → 1 ≤ i ∧ i ≤ (start.run ops).rowCount →
        SuppliesRow (start.run ops) s i ∧ Dispensable (fun x y => x = y) (start.run ops) i) ∧
    (∀ {method : Simplex Float} {start : Model Float (Simplex Float)}, Constructed method start →
      ∀ ops s i, (start.run ops).solution = some s → 1 ≤ i ∧ i ≤ (start.run ops).rowCount →
        SuppliesRow (start.run ops) s i ∧
          ((∀ x ∈ s.columns, isFinite x = true) → Dispensable Double.Same (start.run ops) i)) := by
  refine ⟨?_, ?_, ?_, ?_⟩
  · intro E _ engine start h ops s i hs hcolumns hi
    exact (run_wellFormed h.wellFormed ops).readsRow Exact.eq_skipsZeros hs hcolumns hi
  · intro E _ engine start h ops s i hs hcolumns hi
    exact (run_wellFormed h.wellFormed ops).readsRow Double.same_skipsZeros hs hcolumns hi
  · intro method start h ops s i hs hi
    have hsupplies := suppliesRow_of_simplex h ops hs hi
    obtain ⟨-, asked, rfl⟩ := solution_of_simplex h ops hs
    exact ⟨hsupplies, hsupplies.dispensable (run_wellFormed h.wellFormed ops) Exact.eq_skipsZeros hs
      (Simplex.finite_columns asked _) hi⟩
  · intro method start h ops s i hs hi
    have hsupplies := suppliesRow_of_simplex h ops hs hi
    exact ⟨hsupplies, fun hcolumns => hsupplies.dispensable (run_wellFormed h.wellFormed ops)
      Double.same_skipsZeros hs hcolumns hi⟩

/-- A row over two columns, one of them with a coefficient, that limits the first one. -/
def halfStored (zero one two : K) : List (Operation K) :=
  [.edit (.setDirection .maximize), .edit (.addColumn none .lower zero zero one),
    .edit (.addColumn none .fixed two zero zero), .edit (.addRow none .upper two two),
    .edit (.setMatrixCoefficient 1 1 one), .solve]

/-- An engine that knows the columns and leaves out the row. -/
def columnsOnly (two : K) : Canned K := ⟨[.optimal two [two, two] []]⟩

theorem halfStored_agree :
    let two : Exact := .finite 2
    let answer : Solution Exact := .optimal two [two, two] []
    let doubleAnswer : Solution Float := .optimal 2 [2, 2] []
    let canned : Model Exact (Canned Exact) := (ofEngine (columnsOnly two)).run (halfStored 0 1 two)
    let doubleCanned : Model Float (Canned Float) :=
      (ofEngine (columnsOnly 2)).run (halfStored 0 1 2)
    let exact : Model Exact (Simplex Exact) := (ofEngine ⟨10, 0⟩).run (halfStored 0 1 two)
    let double : Model Float (Simplex Float) := (ofEngine Simplex.standard).run (halfStored 0 1 2)
    ReadsRow (fun x y => x = y) canned answer 1 ∧ ReadsRow Double.Same doubleCanned doubleAnswer 1 ∧
      (∃ s, SuppliesRow exact s 1 ∧ Dispensable (fun x y => x = y) exact 1) ∧
      ∃ s, SuppliesRow double s 1 ∧ Dispensable Double.Same double 1 := by
  intro two answer doubleAnswer canned doubleCanned exact double
  have hexact : exact.solution.isSome = true := by decide +kernel
  have hdouble : (double.solution.any fun s => s.columns.all isFinite) = true := by decide +kernel
  have hrow : 1 ≤ exact.rowCount ∧ 1 ≤ double.rowCount := by decide +kernel
  obtain ⟨s, hs⟩ := Option.isSome_iff_exists.1 hexact
  obtain ⟨s', hs', hfinite⟩ := (Option.any_eq_true _ _).1 hdouble
  obtain ⟨hread, hdoubleRead, hsupply, hdoubleSupply⟩ := row_values_agree
  obtain ⟨hsupplies, hdispensable⟩ := hdoubleSupply .empty _ s' 1 hs' ⟨Nat.le_refl 1, hrow.2⟩
  refine ⟨?_, ?_, ⟨s, ?_⟩, s', hsupplies, hdispensable (List.all_eq_true.1 hfinite)⟩
  · exact hread .empty _ answer 1 rfl (by decide) ⟨by decide, by decide⟩
  · exact hdoubleRead .empty _ doubleAnswer 1 rfl (by decide) ⟨by decide, by decide⟩
  · exact hsupply .empty _ s 1 hs ⟨Nat.le_refl 1, hrow.1⟩

end Model

end LinearProgram
