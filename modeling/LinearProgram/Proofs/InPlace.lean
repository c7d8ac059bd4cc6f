import LinearProgram.Model.InPlace

/-!
# Edits in place and edits as functions

An edit carried out in place, by checks and writes, comes to the same as the edit as a function.
When a check fails, the model is as it was before the edit; otherwise both forms give the same value
and the same model.

* `run_check_bind`: what comes after a check sees the model unchanged.
* `perform_eq`: both forms of an edit agree.
-/

namespace LinearProgram.Model

variable {K E α β γ : Type} {m : Model K E}

theorem lookup_eq_ok {axis : Axis} {items : List α} {i : Nat} {item : α} :
    lookup (K := K) axis items i = .ok item ↔ 1 ≤ i ∧ items[i - 1]? = some item := by
  cases i with
  | zero => simp [lookup]
  | succ position => cases h : items[position]? <;> simp [lookup, h]

/-- What has a number within range is found by it. -/
theorem lookup_of_le {axis : Axis} {items : List α} {i : Nat} (hi : 1 ≤ i)
    (hlength : i ≤ items.length) (fresh : α) :
    lookup (K := K) axis items i = .ok (items.getD (i - 1) fresh) := by
  have hlt : i - 1 < items.length := by omega
  refine lookup_eq_ok.2 ⟨hi, ?_⟩
  rw [List.getD_eq_getElem?_getD, List.getElem?_eq_getElem hlt]
  rfl

/-- Changing an entry in place is putting the changed entry in its place. -/
theorem modify_eq_set {axis : Axis} {items : List α} {i : Nat} {item : α}
    (h : lookup (K := K) axis items i = .ok item) (f : α → α) :
    items.modify (i - 1) f = items.set (i - 1) (f item) := by
  obtain ⟨-, hitem⟩ := lookup_eq_ok.1 h
  obtain ⟨hlt, rfl⟩ := List.getElem?_eq_some_iff.1 hitem
  refine List.ext_getElem? fun k => ?_
  rw [List.getElem?_modify, List.getElem?_set]
  by_cases hk : i - 1 = k
  · subst hk
    simp [hlt]
  · simp [hk]

/-- Changing the last entry in place is appending the changed one instead. -/
theorem modify_append (items : List α) (item : α) (f : α → α) :
    (items ++ [item]).modify items.length f = items ++ [f item] := by
  induction items with
  | nil => rfl
  | cons first items ih => simp [List.modify_succ_cons, ih]

namespace Action

/-- The end of an action that either has a result and a model, or fails and leaves the model. -/
def outcome (m : Model K E) :
    Except (Error K) (α × Model K E) → EStateM.Result (Error K) (Model K E) α
  | .ok (a, next) => .ok a next
  | .error e => .error e m

theorem run_write (f : Model K E → Model K E) (m : Model K E) :
    (write f).run m = .ok () (f m) := rfl

theorem run_check (f : Model K E → Except (Error K) α) (m : Model K E) :
    (check f).run m = outcome m ((f m).map (·, m)) := by
  rw [EStateM.run, check]
  cases f m <;> rfl

/-- What comes after a check sees the model unchanged. -/
theorem run_check_bind {f : Model K E → Except (Error K) α} {rest : α → Action K E β}
    {result : α → Except (Error K) γ} {k : γ → β × Model K E}
    (h : ∀ a, f m = .ok a → (rest a).run m = outcome m ((result a).map k)) :
    (check f >>= rest).run m = outcome m ((f m >>= result).map k) := by
  rw [EStateM.run_bind, run_check]
  cases hf : f m with
  | error e => rfl
  | ok a => exact h a hf

theorem run_quiet {action : Action K E Unit} {r : Except (Error K) (Model K E)}
    (h : action.run m = outcome m (r.map ((), ·))) :
    (quiet action).run m = outcome m (r.map silent) := by
  rw [quiet, EStateM.run_bind, h]
  cases r <;> rfl

theorem run_numbered {action : Action K E Nat} {r : Except (Error K) (Nat × Model K E)}
    (h : action.run m = outcome m r) :
    (numbered action).run m = outcome m (r.map Model.numbered) := by
  rw [numbered, EStateM.run_bind, h]
  cases r <;> rfl

theorem run_setName (m : Model K E) (name : Option String) :
    (setName name).run m = outcome m ((m.setName name).map ((), ·)) := by
  unfold setName Model.setName
  exact run_check_bind fun name _ => rfl

theorem run_setDirection (m : Model K E) (direction : Direction) :
    (setDirection direction).run m = .ok () (m.setDirection direction) := by
  simp only [setDirection, Model.setDirection, EStateM.run_bind, EStateM.run_get]
  by_cases h : m.direction = direction
  · simp [h]
  · simp only [h, ne_eq, not_false_eq_true, if_true, if_false]
    rfl

theorem run_reset [Zero K] (m : Model K E) : reset.run m = .ok () m.reset := rfl

theorem run_addRows (m : Model K E) (amount : Nat) :
    (addRows amount).run m = .ok (m.addRows amount).1 (m.addRows amount).2 := by
  simp only [addRows, Model.addRows, EStateM.run_bind, EStateM.run_get]
  by_cases h : amount = 0
  · simp [h]
  · simp only [h, if_false]
    rfl

theorem run_addColumns [Zero K] (m : Model K E) (amount : Nat) :
    (addColumns amount).run m = .ok (m.addColumns amount).1 (m.addColumns amount).2 := by
  simp only [addColumns, Model.addColumns, EStateM.run_bind, EStateM.run_get]
  by_cases h : amount = 0
  · simp [h]
  · simp only [h, if_false]
    rfl

theorem run_setRowName (m : Model K E) (i : Nat) (name : Option String) :
    (setRowName i name).run m = outcome m ((m.setRowName i name).map ((), ·)) := by
  unfold setRowName Model.setRowName
  refine run_check_bind fun row hrow => run_check_bind fun name _ => ?_
  rw [writeRow, run_write, modify_eq_set hrow]
  rfl

theorem run_setColumnName (m : Model K E) (j : Nat) (name : Option String) :
    (setColumnName j name).run m = outcome m ((m.setColumnName j name).map ((), ·)) := by
  unfold setColumnName Model.setColumnName
  refine run_check_bind fun column hcolumn => run_check_bind fun name _ => ?_
  rw [writeColumn, run_write, modify_eq_set hcolumn]
  rfl

theorem run_setCoefficient (m : Model K E) (j : Nat) (value : K) :
    (setCoefficient j value).run m = outcome m ((m.setCoefficient j value).map ((), ·)) := by
  unfold setCoefficient Model.setCoefficient
  by_cases hj : j = 0
  · simp only [hj, if_true]
    rfl
  · simp only [hj, if_false]
    refine run_check_bind fun column hcolumn => ?_
    rw [writeColumn, EStateM.run_bind, run_write, modify_eq_set hcolumn]
    rfl

/-- A block is without cells if all its rows are empty. -/
theorem length_flatten_eq_zero_iff (block : List (List K)) :
    block.flatten.length = 0 ↔ block.all List.isEmpty = true := by
  rw [List.length_eq_zero_iff, List.flatten_eq_nil_iff, List.all_eq_true]
  simp only [List.isEmpty_iff]

variable [ExtendedScalar K]

theorem run_addRow (m : Model K E) (name : Option String) (kind : Bound.Kind) (lower upper : K) :
    (addRow name kind lower upper).run m = outcome m (m.addRow name kind lower upper) := by
  have hid : (m.addRow name kind lower upper).map id = m.addRow name kind lower upper :=
    congrFun Except.map_id _
  rw [← hid]
  unfold addRow Model.addRow
  refine run_check_bind fun name _ => run_check_bind fun bound _ => ?_
  -- the new row is the last one when it is overwritten
  simp only [EStateM.run_bind, run_addRows, writeRow, run_write, EStateM.run_pure]
  simp [Model.addRows, rowCount, modify_append, outcome, Except.map, pure, Except.pure]

theorem run_addColumn (m : Model K E) (name : Option String) (kind : Bound.Kind)
    (lower upper coefficient : K) :
    (addColumn name kind lower upper coefficient).run m =
      outcome m (m.addColumn name kind lower upper coefficient) := by
  have hid : (m.addColumn name kind lower upper coefficient).map id =
      m.addColumn name kind lower upper coefficient := congrFun Except.map_id _
  rw [← hid]
  unfold addColumn Model.addColumn
  refine run_check_bind fun name _ => run_check_bind fun bound _ => ?_
  simp only [EStateM.run_bind, run_addColumns, writeColumn, run_write, EStateM.run_pure]
  simp [Model.addColumns, columnCount, modify_append, outcome, Except.map, pure, Except.pure]

theorem run_setRowBound (m : Model K E) (i : Nat) (kind : Bound.Kind) (lower upper : K) :
    (setRowBound i kind lower upper).run m =
      outcome m ((m.setRowBound i kind lower upper).map ((), ·)) := by
  unfold setRowBound Model.setRowBound
  refine run_check_bind fun row hrow => run_check_bind fun bound _ => ?_
  rw [writeRow, EStateM.run_bind, run_write, modify_eq_set hrow]
  rfl

theorem run_setColumnBound (m : Model K E) (j : Nat) (kind : Bound.Kind) (lower upper : K) :
    (setColumnBound j kind lower upper).run m =
      outcome m ((m.setColumnBound j kind lower upper).map ((), ·)) := by
  unfold setColumnBound Model.setColumnBound
  refine run_check_bind fun column hcolumn => run_check_bind fun bound _ => ?_
  rw [writeColumn, EStateM.run_bind, run_write, modify_eq_set hcolumn]
  rfl

theorem run_setMatrixCoefficient (m : Model K E) (i j : Nat) (value : K) :
    (setMatrixCoefficient i j value).run m =
      outcome m ((m.setMatrixCoefficient i j value).map ((), ·)) := by
  unfold setMatrixCoefficient Model.setMatrixCoefficient
  exact run_check_bind fun _ _ => run_check_bind fun _ _ => rfl

theorem run_storeRow (m : Model K E) (i j : Nat) (values : List K) :
    (storeRow i j values).run m =
      .ok values.length { m with matrix := m.matrix.setRow i j values } := by
  induction values generalizing m j with
  | nil => rfl
  | cons value values ih =>
    rw [storeRow, EStateM.run_bind, storeCell, run_write]
    simp only [EStateM.run_bind, ih]
    rfl

theorem run_storeBlock (m : Model K E) (i : Nat) (block : List (List K)) :
    (storeBlock i block).run m =
      .ok block.flatten.length { m with matrix := m.matrix.setBlock i block } := by
  induction block generalizing m i with
  | nil => rfl
  | cons values block ih =>
    rw [storeBlock, EStateM.run_bind, run_storeRow]
    simp only [EStateM.run_bind, ih, List.flatten_cons, List.length_append]
    rfl

/-- Storing a block without cells changes nothing. -/
theorem setBlock_of_isEmpty (matrix : SparseMatrix K) (i : Nat) {block : List (List K)}
    (h : block.all List.isEmpty = true) : matrix.setBlock i block = matrix := by
  induction block generalizing i with
  | nil => rfl
  | cons values block ih =>
    simp only [List.all_cons, Bool.and_eq_true, List.isEmpty_iff] at h
    obtain ⟨rfl, hblock⟩ := h
    exact ih (i + 1) hblock

theorem run_loadMatrix (m : Model K E) (block : List (List K)) :
    (loadMatrix block).run m = outcome m ((m.loadMatrix block).map ((), ·)) := by
  simp only [loadMatrix, Model.loadMatrix, EStateM.run_bind, EStateM.run_get]
  by_cases hrows : m.rowCount < block.length
  · simp [hrows, outcome, Except.map]
  by_cases hwidth : m.columnCount < blockWidth block
  · simp [hrows, hwidth, outcome, Except.map]
  simp only [hrows, hwidth, if_false, EStateM.run_bind, run_storeBlock]
  by_cases hcells : block.all List.isEmpty = true
  · have hcount := (length_flatten_eq_zero_iff block).2 hcells
    simp [hcells, hcount, setBlock_of_isEmpty, outcome, Except.map]
  · have hcount := Nat.pos_of_ne_zero fun h => hcells ((length_flatten_eq_zero_iff block).1 h)
    simp only [hcells, hcount, if_true]
    rfl

/-- **Both forms of an edit agree.** -/
theorem perform_eq (m : Model K E) (e : Edit K) : (perform e).run m = outcome m (m.edit e) := by
  cases e with
  | setName name => exact run_quiet (run_setName m name)
  | setDirection direction =>
    exact run_quiet (r := .ok (m.setDirection direction)) (run_setDirection m direction)
  | reset => exact run_quiet (r := .ok m.reset) (run_reset m)
  | addRows amount => exact run_numbered (r := .ok (m.addRows amount)) (run_addRows m amount)
  | addColumns amount =>
    exact run_numbered (r := .ok (m.addColumns amount)) (run_addColumns m amount)
  | addRow name kind lower upper => exact run_numbered (run_addRow m name kind lower upper)
  | addColumn name kind lower upper coefficient =>
    exact run_numbered (run_addColumn m name kind lower upper coefficient)
  | setRowName i name => exact run_quiet (run_setRowName m i name)
  | setColumnName j name => exact run_quiet (run_setColumnName m j name)
  | setRowBound i kind lower upper => exact run_quiet (run_setRowBound m i kind lower upper)
  | setColumnBound j kind lower upper => exact run_quiet (run_setColumnBound m j kind lower upper)
  | setCoefficient j value => exact run_quiet (run_setCoefficient m j value)
  | setMatrixCoefficient i j value => exact run_quiet (run_setMatrixCoefficient m i j value)
  | loadMatrix block => exact run_quiet (run_loadMatrix m block)

end Action

end LinearProgram.Model
