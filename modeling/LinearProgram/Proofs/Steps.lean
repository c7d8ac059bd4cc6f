import LinearProgram.Model.History
import LinearProgram.Proofs.InPlace

/-!
# What one operation does

All that an operation can do to a model. Invariants of models are read off from here, one case for
each way to go on.

* `Edits`: the model after a successful edit.
* `step_edit`: an edit does this, or fails and does nothing.
* `step_solve`: the two ways in which a question to the engine ends.
-/

namespace LinearProgram.Model

variable {K E α β : Type} {m : Model K E}

theorem map_eq_ok {x : Except (Error K) α} {f : α → β} {b : β} :
    x.map f = .ok b ↔ ∃ a, x = .ok a ∧ f a = b := by
  cases x <;> simp [Except.map]

theorem bind_eq_ok {x : Except (Error K) α} {f : α → Except (Error K) β} {b : β} :
    x >>= f = .ok b ↔ ∃ a, x = .ok a ∧ f a = .ok b := by
  cases x <;> simp [bind, Except.bind]

theorem map_eq_error {x : Except (Error K) α} {f : α → β} {error : Error K} :
    x.map f = .error error ↔ x = .error error := by
  cases x <;> simp [Except.map]

theorem bind_eq_error {x : Except (Error K) α} {f : α → Except (Error K) β} {error : Error K} :
    x >>= f = .error error ↔ x = .error error ∨ ∃ a, x = .ok a ∧ f a = .error error := by
  cases x <;> simp [bind, Except.bind]

theorem bind_ne_error {x : Except (Error K) α} {f : α → Except (Error K) β} {error : Error K}
    (hx : x ≠ .error error) (hf : ∀ a, f a ≠ .error error) : x >>= f ≠ .error error := by
  rw [ne_eq, bind_eq_error, not_or, not_exists]
  exact ⟨hx, fun a h => hf a h.2⟩

theorem pure_ne_error {a : α} {error : Error K} : (pure a : Except (Error K) α) ≠ .error error :=
  nofun

variable [ExtendedScalar K]

/-- A new model is empty but for its name and direction. -/
theorem Constructed.eq_ofEngine {engine : E} (h : Constructed engine m) :
    ∃ name stored direction, checkName (K := K) name = .ok stored ∧
      m = { ofEngine engine with name := stored, direction } := by
  cases h with
  | empty => exact ⟨none, none, .minimize, rfl, rfl⟩
  | @named name direction m h =>
    obtain ⟨named, hnamed, h⟩ := bind_eq_ok.1 h
    obtain ⟨stored, hname, hnamed⟩ := bind_eq_ok.1 hnamed
    cases h
    cases hnamed
    refine ⟨name, stored, direction, hname, ?_⟩
    unfold setDirection
    split
    · next hsame =>
      subst hsame
      rfl
    · rfl

/-- **What an edit does** when it succeeds: the model after it. -/
inductive Edits (m : Model K E) : Edit K → Model K E → Prop
  | setName {name stored} (hname : checkName (K := K) name = .ok stored) :
    Edits m (.setName name) { m with name := stored }
  | sameDirection : Edits m (.setDirection m.direction) m
  | setDirection {direction} (h : m.direction ≠ direction) :
    Edits m (.setDirection direction) { m with direction, solution := none }
  | reset : Edits m .reset m.reset
  | addNoRows : Edits m (.addRows 0) m
  | addRows {amount} (h : amount ≠ 0) :
    Edits m (.addRows amount)
      { m with
        rows := m.rows ++ List.replicate amount .fresh
        solution := none
        factorizationStale := true }
  | addNoColumns : Edits m (.addColumns 0) m
  | addColumns {amount} (h : amount ≠ 0) :
    Edits m (.addColumns amount)
      { m with columns := m.columns ++ List.replicate amount .fresh, solution := none }
  | addRow {name kind lower upper stored bound} (hname : checkName (K := K) name = .ok stored)
    (hbound : checkBound kind lower upper = .ok bound) :
    Edits m (.addRow name kind lower upper)
      { m with
        rows := m.rows ++ [⟨stored, bound⟩]
        solution := none
        factorizationStale := true }
  | addColumn {name kind lower upper coefficient stored bound}
    (hname : checkName (K := K) name = .ok stored)
    (hbound : checkBound kind lower upper = .ok bound) :
    Edits m (.addColumn name kind lower upper coefficient)
      { m with columns := m.columns ++ [⟨stored, bound, coefficient⟩], solution := none }
  | setRowName {i name row stored} (hrow : m.row i = .ok row)
    (hname : checkName (K := K) name = .ok stored) :
    Edits m (.setRowName i name) { m with rows := m.rows.set (i - 1) { row with name := stored } }
  | setColumnName {j name column stored} (hcolumn : m.column j = .ok column)
    (hname : checkName (K := K) name = .ok stored) :
    Edits m (.setColumnName j name)
      { m with columns := m.columns.set (j - 1) { column with name := stored } }
  | setRowBound {i kind lower upper row bound} (hrow : m.row i = .ok row)
    (hbound : checkBound kind lower upper = .ok bound) :
    Edits m (.setRowBound i kind lower upper)
      { m with rows := m.rows.set (i - 1) { row with bound }, solution := none }
  | setColumnBound {j kind lower upper column bound} (hcolumn : m.column j = .ok column)
    (hbound : checkBound kind lower upper = .ok bound) :
    Edits m (.setColumnBound j kind lower upper)
      { m with columns := m.columns.set (j - 1) { column with bound }, solution := none }
  | setShift {value} :
    Edits m (.setCoefficient 0 value) { m with shift := value, solution := none }
  | setCoefficient {j value column} (hj : j ≠ 0) (hcolumn : m.column j = .ok column) :
    Edits m (.setCoefficient j value)
      { m with
        columns := m.columns.set (j - 1) { column with coefficient := value }
        solution := none }
  | setMatrixCoefficient {i j value row column} (hrow : m.row i = .ok row)
    (hcolumn : m.column j = .ok column) :
    Edits m (.setMatrixCoefficient i j value)
      { m with matrix := m.matrix.set i j value, solution := none }
  | loadNoCells {block} (hcells : block.all List.isEmpty = true) : Edits m (.loadMatrix block) m
  | loadMatrix {block} (hrows : block.length ≤ m.rowCount)
    (hwidth : blockWidth block ≤ m.columnCount) (hcells : block.all List.isEmpty = false) :
    Edits m (.loadMatrix block) { m with matrix := m.matrix.setBlock 1 block, solution := none }

/-- A successful edit does what `Edits` says. -/
theorem edits_of_edit {e : Edit K} {value : Value K E} {next : Model K E}
    (h : m.edit e = .ok (value, next)) : Edits m e next := by
  cases e with
  | setName name =>
    obtain ⟨_, h, hn⟩ := map_eq_ok.1 h
    obtain ⟨stored, hname, h⟩ := bind_eq_ok.1 h
    cases h; cases hn
    exact .setName hname
  | setDirection direction =>
    cases h
    unfold Model.setDirection
    split
    · next hsame => exact hsame ▸ .sameDirection
    · next hother => exact .setDirection hother
  | reset => cases h; exact .reset
  | addRows amount =>
    cases h
    unfold Model.addRows
    split
    · next hzero => exact hzero ▸ .addNoRows
    · next hpos => exact .addRows hpos
  | addColumns amount =>
    cases h
    unfold Model.addColumns
    split
    · next hzero => exact hzero ▸ .addNoColumns
    · next hpos => exact .addColumns hpos
  | addRow name kind lower upper =>
    obtain ⟨_, h, hn⟩ := map_eq_ok.1 h
    obtain ⟨stored, hname, h⟩ := bind_eq_ok.1 h
    obtain ⟨bound, hbound, h⟩ := bind_eq_ok.1 h
    cases h; cases hn
    exact .addRow hname hbound
  | addColumn name kind lower upper coefficient =>
    obtain ⟨_, h, hn⟩ := map_eq_ok.1 h
    obtain ⟨stored, hname, h⟩ := bind_eq_ok.1 h
    obtain ⟨bound, hbound, h⟩ := bind_eq_ok.1 h
    cases h; cases hn
    exact .addColumn hname hbound
  | setRowName i name =>
    obtain ⟨_, h, hn⟩ := map_eq_ok.1 h
    obtain ⟨row, hrow, h⟩ := bind_eq_ok.1 h
    obtain ⟨stored, hname, h⟩ := bind_eq_ok.1 h
    cases h; cases hn
    exact .setRowName hrow hname
  | setColumnName j name =>
    obtain ⟨_, h, hn⟩ := map_eq_ok.1 h
    obtain ⟨column, hcolumn, h⟩ := bind_eq_ok.1 h
    obtain ⟨stored, hname, h⟩ := bind_eq_ok.1 h
    cases h; cases hn
    exact .setColumnName hcolumn hname
  | setRowBound i kind lower upper =>
    obtain ⟨_, h, hn⟩ := map_eq_ok.1 h
    obtain ⟨row, hrow, h⟩ := bind_eq_ok.1 h
    obtain ⟨bound, hbound, h⟩ := bind_eq_ok.1 h
    cases h; cases hn
    exact .setRowBound hrow hbound
  | setColumnBound j kind lower upper =>
    obtain ⟨_, h, hn⟩ := map_eq_ok.1 h
    obtain ⟨column, hcolumn, h⟩ := bind_eq_ok.1 h
    obtain ⟨bound, hbound, h⟩ := bind_eq_ok.1 h
    cases h; cases hn
    exact .setColumnBound hcolumn hbound
  | setCoefficient j value =>
    obtain ⟨_, h, hn⟩ := map_eq_ok.1 h
    unfold Model.setCoefficient at h
    split at h
    · next hzero =>
      cases h; cases hn
      exact hzero ▸ .setShift
    · next hj =>
      obtain ⟨column, hcolumn, h⟩ := bind_eq_ok.1 h
      cases h; cases hn
      exact .setCoefficient hj hcolumn
  | setMatrixCoefficient i j value =>
    obtain ⟨_, h, hn⟩ := map_eq_ok.1 h
    obtain ⟨row, hrow, h⟩ := bind_eq_ok.1 h
    obtain ⟨column, hcolumn, h⟩ := bind_eq_ok.1 h
    cases h; cases hn
    exact .setMatrixCoefficient hrow hcolumn
  | loadMatrix block =>
    obtain ⟨_, h, hn⟩ := map_eq_ok.1 h
    unfold Model.loadMatrix at h
    split at h
    · cases h
    split at h
    · cases h
    split at h
    · next hcells =>
      cases h; cases hn
      exact .loadNoCells hcells
    · next hrows hwidth hcells =>
      cases h; cases hn
      exact .loadMatrix (Nat.le_of_not_lt hrows) (Nat.le_of_not_lt hwidth)
        (Bool.eq_false_iff.2 hcells)

variable [Engine E K]

theorem step_edit_of_ok {e : Edit K} {value : Value K E} {next : Model K E}
    (h : m.edit e = .ok (value, next)) : m.step (.edit e) = (.ok value, next) := by
  simp only [step, Action.perform_eq, h]
  rfl

theorem step_edit_of_error {e : Edit K} {error : Error K} (h : m.edit e = .error error) :
    m.step (.edit e) = (.error error, m) := by
  simp only [step, Action.perform_eq, h]
  rfl

/-- **An edit succeeds and does what it is to do, or it fails and does nothing.** -/
theorem step_edit (m : Model K E) (e : Edit K) :
    (∃ value next, m.step (.edit e) = (.ok value, next) ∧ Edits m e next) ∨
      ∃ error, m.step (.edit e) = (.error error, m) := by
  cases h : m.edit e with
  | ok result => exact .inl ⟨result.1, result.2, step_edit_of_ok h, edits_of_edit h⟩
  | error error => exact .inr ⟨error, step_edit_of_error h⟩

/-- What holds of a model and after every edit that succeeds holds after an edit. -/
theorem after_edit {e : Edit K} {p : Model K E → Prop} (hm : p m)
    (h : ∀ next, Edits m e next → p next) : p (m.step (.edit e)).2 := by
  rcases step_edit m e with ⟨value, next, hs, he⟩ | ⟨error, hs⟩
  · rw [hs]
    exact h next he
  · rw [hs]
    exact hm

/-- The engine as it is asked. -/
def freshEngine (m : Model K E) : E :=
  if m.factorizationStale then Engine.discardFactorization m.engine else m.engine

/-- What the engine says when it is asked about a model. -/
def engineAnswer (m : Model K E) : Solution K := (Engine.solve m.freshEngine m.toProblem).1

/-- The model after the engine has been asked, without a solution. -/
def asked (m : Model K E) : Model K E :=
  { m with
    solution := none
    factorizationStale := false
    engine := (Engine.solve m.freshEngine m.toProblem).2 }

/-- Why the engine's answer is not kept: it is a failure, or it does not fit the model. -/
def Rejects (m : Model K E) (reason : Failure) : Prop :=
  m.engineAnswer.status = .failed reason ∨
    m.engineAnswer.status = .optimal ∧ m.engineAnswer.columns.length ≠ m.columnCount ∧
      reason = .numerical

omit [ExtendedScalar K] in
/-- Once a stale factorization is discarded, the engine is fresh and nothing is stale. -/
theorem run_discardStale (m : Model K E) :
    Action.discardStale.run m =
      .ok () { m with factorizationStale := false, engine := m.freshEngine } := by
  obtain ⟨name, direction, shift, rows, columns, matrix, solution, stale, engine⟩ := m
  cases stale <;> rfl

omit [ExtendedScalar K] in
theorem run_askEngine (m : Model K E) :
    Action.askEngine.run m =
      .ok (Engine.solve m.engine m.toProblem).1
        { m with engine := (Engine.solve m.engine m.toProblem).2 } := rfl

theorem step_solve_eq (m : Model K E) :
    m.step .solve = match accept (K := K) m.columnCount m.engineAnswer with
      | .error e => (.error e, m.asked)
      | .ok s => (.ok .unit, { m.asked with solution := some s }) := by
  have hrun : Action.solve.run m =
      (Action.check (fun asked => accept asked.columnCount m.engineAnswer) >>= fun s =>
        Action.write fun asked => { asked with solution := some s }).run m.asked := by
    simp only [Action.solve, EStateM.run_bind, Action.run_write, run_discardStale, run_askEngine]
    rfl
  have hcount : m.asked.columnCount = m.columnCount := rfl
  simp only [step, Action.quiet, EStateM.run_bind, hrun, Action.run_check, hcount]
  cases accept m.columnCount m.engineAnswer <;> rfl

/-- **The engine's answer is kept as it is, or rejected.** -/
theorem step_solve (m : Model K E) :
    (m.step .solve = (.ok .unit, { m.asked with solution := some m.engineAnswer }) ∧
        m.engineAnswer.status = .optimal ∧ m.engineAnswer.columns.length = m.columnCount) ∨
      ∃ reason, m.step .solve = (.error (.solveFailed reason), m.asked) ∧ m.Rejects reason := by
  cases hs : m.engineAnswer.status with
  | failed reason =>
    refine .inr ⟨reason, ?_, .inl hs⟩
    rw [step_solve_eq, accept, hs]
  | optimal =>
    by_cases hlength : m.engineAnswer.columns.length = m.columnCount
    · refine .inl ⟨?_, rfl, hlength⟩
      simp only [step_solve_eq, accept, hs, hlength, if_true]
    · refine .inr ⟨.numerical, ?_, .inr ⟨hs, hlength, rfl⟩⟩
      simp only [step_solve_eq, accept, hs, hlength, if_false]

end LinearProgram.Model
