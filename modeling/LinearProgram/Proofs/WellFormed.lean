import LinearProgram.Proofs.Steps

/-!
# Well-formed models

Whatever is called on a model and whatever its engine answers, its rows, columns, matrix, names and
solution fit together.

* `SparseMatrix.Within`: every stored cell lies in the matrix and is not zero.
* `WellFormed`: what fits to what.
* `Edits.wellFormed`, `step_wellFormed`: one operation keeps a model well-formed.
* `run_wellFormed`: so does a list of operations.
-/

namespace LinearProgram

namespace SparseMatrix

variable {K : Type} {matrix : SparseMatrix K} {e : Entry K} {rows columns i j : Nat}

theorem mem_entries_iff : e ∈ matrix.entries ↔ matrix.cells[(e.row, e.column)]? = some e.value := by
  simp only [entries, List.mem_map, ← Std.TreeMap.mem_toList_iff_getElem?_eq_some]
  constructor
  · rintro ⟨⟨⟨i, j⟩, value⟩, hcell, rfl⟩
    exact hcell
  · intro hcell
    exact ⟨_, hcell, rfl⟩

variable [ExtendedScalar K]

/-- Whether every stored cell lies within the given numbers of rows and columns and is not zero. -/
def Within (matrix : SparseMatrix K) (rows columns : Nat) : Prop :=
  ∀ e ∈ matrix.entries,
    (1 ≤ e.row ∧ e.row ≤ rows) ∧ (1 ≤ e.column ∧ e.column ≤ columns) ∧ (e.value == 0) = false

/-- A stored cell is the one just written, and then not zero, or it was stored before. -/
theorem mem_entries_of_set {value : K} (h : e ∈ (matrix.set i j value).entries) :
    (e = ⟨i, j, value⟩ ∧ (value == 0) = false) ∨ e ∈ matrix.entries := by
  rw [mem_entries_iff] at h
  unfold set at h
  split at h
  · rw [Std.TreeMap.getElem?_erase] at h
    split at h
    · cases h
    · exact .inr (mem_entries_iff.2 h)
  · next hvalue =>
    rw [Std.TreeMap.getElem?_insert] at h
    split at h
    · next heq =>
      obtain ⟨hi, hj⟩ := Prod.mk.inj (Std.LawfulEqCmp.eq_of_compare heq)
      cases h
      subst hi hj
      exact .inl ⟨rfl, Bool.eq_false_iff.2 hvalue⟩
    · exact .inr (mem_entries_iff.2 h)

theorem within_empty : (empty : SparseMatrix K).Within rows columns := by
  intro e he
  simp [mem_entries_iff, empty] at he

theorem Within.mono {rows' columns' : Nat} (h : matrix.Within rows columns) (hr : rows ≤ rows')
    (hc : columns ≤ columns') : matrix.Within rows' columns' := by
  intro e he
  obtain ⟨hrow, hcolumn, hvalue⟩ := h e he
  exact ⟨⟨hrow.1, Nat.le_trans hrow.2 hr⟩, ⟨hcolumn.1, Nat.le_trans hcolumn.2 hc⟩, hvalue⟩

theorem Within.set (h : matrix.Within rows columns) (hi : 1 ≤ i ∧ i ≤ rows)
    (hj : 1 ≤ j ∧ j ≤ columns) (value : K) : (matrix.set i j value).Within rows columns := by
  intro e he
  rcases mem_entries_of_set he with ⟨rfl, hvalue⟩ | he
  · exact ⟨hi, hj, hvalue⟩
  · exact h e he

theorem Within.setRow {values : List K} (h : matrix.Within rows columns) (hi : 1 ≤ i ∧ i ≤ rows)
    (hj : 1 ≤ j) (hlength : j + values.length ≤ columns + 1) :
    (matrix.setRow i j values).Within rows columns := by
  induction values generalizing matrix j with
  | nil => exact h
  | cons value values ih =>
    rw [List.length_cons] at hlength
    exact ih (h.set hi ⟨hj, by omega⟩ value) (by omega) (by omega)

theorem Within.setBlock {block : List (List K)} (h : matrix.Within rows columns) (hi : 1 ≤ i)
    (hlength : i + block.length ≤ rows + 1) (hwidth : ∀ values ∈ block, values.length ≤ columns) :
    (matrix.setBlock i block).Within rows columns := by
  induction block generalizing matrix i with
  | nil => exact h
  | cons values block ih =>
    rw [List.length_cons] at hlength
    have hvalues := hwidth values List.mem_cons_self
    exact ih (h.setRow ⟨hi, by omega⟩ (Nat.le_refl 1) (by omega)) (by omega) (by omega)
      fun row hrow => hwidth row (List.mem_cons_of_mem _ hrow)

end SparseMatrix

namespace Model

variable {K E : Type} {m next : Model K E}

/-- Whether a name may be stored: it is not empty and not too long. -/
def NameFits (name : Option String) : Prop :=
  ∀ text, name = some text → 1 ≤ text.length ∧ text.length ≤ maxNameLength

theorem nameFits_none : NameFits none := nofun

/-- What passes the check may be stored. -/
theorem nameFits_of_checkName {name stored : Option String}
    (h : checkName (K := K) name = .ok stored) : NameFits stored := by
  cases name with
  | none =>
    cases h
    exact nameFits_none
  | some text =>
    simp only [checkName] at h
    split at h
    · cases h
      exact nameFits_none
    next hempty =>
    split at h
    · cases h
    next hlong =>
    cases h
    intro stored hstored
    cases hstored
    have hpos : text.length ≠ 0 := fun hzero => hempty (String.length_eq_zero_iff.1 hzero)
    omega

theorem forall_mem_set {α : Type} {p : α → Prop} {items : List α} {item : α}
    (h : ∀ a ∈ items, p a) (hitem : p item) (k : Nat) : ∀ a ∈ items.set k item, p a := by
  intro a ha
  rcases List.mem_or_eq_of_mem_set ha with ha | rfl
  · exact h a ha
  · exact hitem

theorem forall_mem_append_replicate {α : Type} {p : α → Prop} {items : List α} {item : α}
    (h : ∀ a ∈ items, p a) (hitem : p item) (n : Nat) :
    ∀ a ∈ items ++ List.replicate n item, p a := by
  refine List.forall_mem_append.2 ⟨h, fun a ha => ?_⟩
  rw [List.eq_of_mem_replicate ha]
  exact hitem

theorem length_le_foldl_max (lengths : List Nat) (start : Nat) :
    start ≤ lengths.foldl max start ∧ ∀ n ∈ lengths, n ≤ lengths.foldl max start := by
  induction lengths generalizing start with
  | nil => simp
  | cons n lengths ih =>
    obtain ⟨hstart, hmem⟩ := ih (max start n)
    rw [List.foldl_cons]
    refine ⟨Nat.le_trans (Nat.le_max_left ..) hstart, fun k hk => ?_⟩
    rcases List.mem_cons.1 hk with rfl | hk
    · exact Nat.le_trans (Nat.le_max_right ..) hstart
    · exact hmem k hk

/-- No row of a block is longer than the block is wide. -/
theorem length_le_blockWidth {block : List (List K)} {values : List K} (h : values ∈ block) :
    values.length ≤ blockWidth block :=
  (length_le_foldl_max _ 0).2 _ (List.mem_map_of_mem h)

/-- What is found by its number is an entry, and the number is within range. -/
theorem of_lookup {α : Type} {axis : Axis} {items : List α} {i : Nat} {item : α}
    (h : lookup (K := K) axis items i = .ok item) : item ∈ items ∧ 1 ≤ i ∧ i ≤ items.length := by
  obtain ⟨hpos, hitem⟩ := lookup_eq_ok.1 h
  have hlt := (List.getElem?_eq_some_iff.1 hitem).1
  exact ⟨List.mem_of_getElem? hitem, by omega⟩

variable [ExtendedScalar K]

/-- **Well-formed models.** -/
structure WellFormed (m : Model K E) : Prop where
  cells : m.matrix.Within m.rowCount m.columnCount
  name : NameFits m.name
  rowNames : ∀ row ∈ m.rows, NameFits row.name
  columnNames : ∀ column ∈ m.columns, NameFits column.name
  solution : ∀ s, m.solution = some s → s.columns.length = m.columnCount

omit [ExtendedScalar K] in
/-- Where there is no solution, nothing has to fit. -/
theorem noSolution_fits (count : Nat) :
    ∀ s : Solution K, none = some s → s.columns.length = count := nofun

theorem ofEngine_wellFormed (engine : E) : (ofEngine engine : Model K E).WellFormed where
  cells := SparseMatrix.within_empty
  name := nameFits_none
  rowNames := nofun
  columnNames := nofun
  solution := noSolution_fits _

/-- **An edit keeps a model well-formed.** -/
theorem Edits.wellFormed {e : Edit K} (h : Edits m e next) (hm : m.WellFormed) :
    next.WellFormed := by
  -- most edits drop the solution, and then nothing is left to say about it
  cases h with
  | setName hname => exact { hm with name := nameFits_of_checkName hname }
  | sameDirection => exact hm
  | setDirection => exact { hm with solution := noSolution_fits _ }
  | reset => exact { ofEngine_wellFormed m.engine with }
  | addNoRows => exact hm
  | addRows =>
    refine { hm with cells := ?_, rowNames := ?_, solution := noSolution_fits _ }
    · exact hm.cells.mono (by simp [rowCount]) (Nat.le_refl _)
    · exact forall_mem_append_replicate hm.rowNames nameFits_none _
  | addNoColumns => exact hm
  | addColumns =>
    refine { hm with cells := ?_, columnNames := ?_, solution := noSolution_fits _ }
    · exact hm.cells.mono (Nat.le_refl _) (by simp [columnCount])
    · exact forall_mem_append_replicate hm.columnNames nameFits_none _
  | addRow hname =>
    refine { hm with cells := ?_, rowNames := ?_, solution := noSolution_fits _ }
    · exact hm.cells.mono (by simp [rowCount]) (Nat.le_refl _)
    · exact forall_mem_append_replicate hm.rowNames (nameFits_of_checkName hname) 1
  | addColumn hname =>
    refine { hm with cells := ?_, columnNames := ?_, solution := noSolution_fits _ }
    · exact hm.cells.mono (Nat.le_refl _) (by simp [columnCount])
    · exact forall_mem_append_replicate hm.columnNames (nameFits_of_checkName hname) 1
  | setRowName hrow hname =>
    refine { hm with cells := ?_, rowNames := ?_ }
    · exact hm.cells.mono (by simp [rowCount]) (Nat.le_refl _)
    · exact forall_mem_set hm.rowNames (nameFits_of_checkName hname) _
  | setColumnName hcolumn hname =>
    refine { hm with cells := ?_, columnNames := ?_, solution := ?_ }
    · exact hm.cells.mono (Nat.le_refl _) (by simp [columnCount])
    · exact forall_mem_set hm.columnNames (nameFits_of_checkName hname) _
    · simpa [columnCount] using hm.solution
  | setRowBound hrow =>
    refine { hm with cells := ?_, rowNames := ?_, solution := noSolution_fits _ }
    · exact hm.cells.mono (by simp [rowCount]) (Nat.le_refl _)
    · have hname := hm.rowNames _ (of_lookup hrow).1
      refine forall_mem_set hm.rowNames ?_ _
      exact hname
  | setColumnBound hcolumn =>
    refine { hm with cells := ?_, columnNames := ?_, solution := noSolution_fits _ }
    · exact hm.cells.mono (Nat.le_refl _) (by simp [columnCount])
    · have hname := hm.columnNames _ (of_lookup hcolumn).1
      refine forall_mem_set hm.columnNames ?_ _
      exact hname
  | setShift => exact { hm with solution := noSolution_fits _ }
  | setCoefficient hj hcolumn =>
    refine { hm with cells := ?_, columnNames := ?_, solution := noSolution_fits _ }
    · exact hm.cells.mono (Nat.le_refl _) (by simp [columnCount])
    · have hname := hm.columnNames _ (of_lookup hcolumn).1
      refine forall_mem_set hm.columnNames ?_ _
      exact hname
  | setMatrixCoefficient hrow hcolumn =>
    refine { hm with cells := ?_, solution := noSolution_fits _ }
    exact hm.cells.set (of_lookup hrow).2 (of_lookup hcolumn).2 _
  | loadNoCells => exact hm
  | loadMatrix hrows hwidth =>
    refine { hm with cells := ?_, solution := noSolution_fits _ }
    exact hm.cells.setBlock (Nat.le_refl 1) (by omega) fun values hvalues =>
      Nat.le_trans (length_le_blockWidth hvalues) hwidth

theorem Constructed.wellFormed {engine : E} (h : Constructed engine m) : m.WellFormed := by
  obtain ⟨name, stored, direction, hname, rfl⟩ := h.eq_ofEngine
  exact { ofEngine_wellFormed engine with name := nameFits_of_checkName hname }

variable [Engine E K]

/-- **Every operation keeps a model well-formed**, whatever the engine answers. -/
theorem step_wellFormed (hm : m.WellFormed) (op : Operation K) : (m.step op).2.WellFormed := by
  cases op with
  | ask q => exact hm
  | edit e => exact after_edit hm fun next he => he.wellFormed hm
  | solve =>
    rcases step_solve m with ⟨hs, -, hlength⟩ | ⟨reason, hs, -⟩
    · rw [hs]
      refine { hm with solution := fun s h => ?_ }
      cases h
      exact hlength
    · rw [hs]
      exact { hm with solution := noSolution_fits _ }

theorem run_wellFormed (hm : m.WellFormed) (ops : List (Operation K)) : (m.run ops).WellFormed := by
  induction ops generalizing m with
  | nil => exact hm
  | cons op ops ih => exact ih (step_wellFormed hm op)

end Model

end LinearProgram
