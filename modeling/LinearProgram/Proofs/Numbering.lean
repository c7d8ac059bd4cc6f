import Mathlib.Algebra.Order.BigOperators.Group.Finset
import LinearProgram.Proofs.LastGiven

/-!
# Numbers keep their meaning

Rows and columns are numbered in the order in which they are added. What is read of them under their
numbers is what they were last given, and a call changes nothing but what it is called on.

* `Event.Numbers`: how a call numbers what it adds.
* `count_after`: what one call adds to the counts.
* `Query.item?`, `Edit.Addresses`: what a question asks for, and what an edit is called on.
* `Edits.same`, `answer_of_same`: an edit changes no answer about what it is not called on.
* `numbering_stable`: what there is to know about the numbers of a run.
-/

namespace LinearProgram.Model

variable {K E α : Type} [ExtendedScalar K] {axis : Axis} {i j : Nat}

/-- **What a question asks for**: a row, a column, the constant term, a cell of the matrix, or all
rows or columns together. -/
inductive Item where
  | row (i : Nat)
  | column (j : Nat)
  | shift
  | cell (i j : Nat)
  | all (axis : Axis)
  deriving Repr, DecidableEq

/-- What a question asks for, if it asks for what edits can be called on. -/
def Query.item? : Query → Option Item
  | .rowName i | .rowBound i => some (.row i)
  | .columnName j | .columnBound j => some (.column j)
  | .coefficient j => some (if j = 0 then .shift else .column j)
  | .matrixCoefficient i j => some (.cell i j)
  | .rowCount | .findRow _ => some (.all .row)
  | .columnCount | .findColumn _ => some (.all .column)
  | _ => none

/-- **What an edit is called on.** A row that is added is none that could be read before. -/
def Edit.Addresses (item : Item) : Edit K → Prop
  | .setName _ | .setDirection _ => False
  | .reset => True
  | .addRows _ | .addRow .. => item = .all .row
  | .addColumns _ | .addColumn .. => item = .all .column
  | .setRowName i _ | .setRowBound i .. => item = .row i ∨ item = .all .row
  | .setColumnName j _ | .setColumnBound j .. => item = .column j ∨ item = .all .column
  | .setCoefficient j _ =>
    if j = 0 then item = .shift else item = .column j ∨ item = .all .column
  | .setMatrixCoefficient i j _ => item = .cell i j
  | .loadMatrix block => ∃ i j, item = .cell i j ∧ (block[i - 1]?.bind (·[j - 1]?)).isSome = true

/-- What an operation is called on. Questions and solving are called on nothing that is asked for
here. -/
def Operation.Addresses (item : Item) : Operation K → Prop
  | .edit e => e.Addresses item
  | _ => False

/-- Whether what can be read of an item of one model can be read of it in another. -/
def Item.Same (m next : Model K E) : Item → Prop
  | .row i => ∀ row, m.row i = .ok row → next.row i = .ok row
  | .column j => ∀ column, m.column j = .ok column → next.column j = .ok column
  | .shift => next.shift = m.shift
  | .cell i j =>
    m.rowCount ≤ next.rowCount ∧ m.columnCount ≤ next.columnCount ∧
      (1 ≤ j → next.matrix.get i j = m.matrix.get i j)
  | .all .row => next.rows = m.rows
  | .all .column => next.columns = m.columns

theorem Item.Same.refl (m : Model K E) (item : Item) : item.Same m m := by
  cases item with
  | row i => exact fun row hrow => hrow
  | column j => exact fun column hcolumn => hcolumn
  | shift => rfl
  | cell i j => exact ⟨Nat.le_refl _, Nat.le_refl _, fun _ => rfl⟩
  | all axis => cases axis <;> rfl

omit [ExtendedScalar K] in
/-- An entry keeps its number when others are appended. -/
theorem lookup_append {items : List α} {item : α} (h : lookup (K := K) axis items i = .ok item)
    (others : List α) : lookup (K := K) axis (items ++ others) i = .ok item := by
  obtain ⟨hi, hitem⟩ := lookup_eq_ok.1 h
  have hlt := (List.getElem?_eq_some_iff.1 hitem).1
  exact lookup_eq_ok.2 ⟨hi, (List.getElem?_append_left hlt).trans hitem⟩

omit [ExtendedScalar K] in
/-- An entry stays as it is when another one is replaced. -/
theorem lookup_set {items : List α} {item other new : α}
    (h : lookup (K := K) axis items i = .ok item) (hother : lookup (K := K) axis items j = .ok other)
    (hne : j ≠ i) : lookup (K := K) axis (items.set (j - 1) new) i = .ok item := by
  obtain ⟨hi, hitem⟩ := lookup_eq_ok.1 h
  obtain ⟨hj, -⟩ := lookup_eq_ok.1 hother
  have hplace : j - 1 ≠ i - 1 := by omega
  exact lookup_eq_ok.2 ⟨hi, (List.getElem?_set_ne hplace).trans hitem⟩

section Edits

variable {m next : Model K E} {e : Edit K}

theorem Edits.row_eq {row : Row K} (he : Edits m e next) (hi : ¬e.Addresses (.row i))
    (hrow : m.row i = .ok row) : next.row i = .ok row := by
  cases he with
  | reset => exact absurd trivial hi
  | addRows => exact lookup_append hrow _
  | addRow => exact lookup_append hrow _
  | setRowName hother =>
    refine lookup_set hrow hother ?_
    rintro rfl
    exact hi (.inl rfl)
  | setRowBound hother =>
    refine lookup_set hrow hother ?_
    rintro rfl
    exact hi (.inl rfl)
  | _ => exact hrow

theorem Edits.column_eq {column : Column K} (he : Edits m e next)
    (hj : ¬e.Addresses (.column j)) (hcolumn : m.column j = .ok column) :
    next.column j = .ok column := by
  cases he with
  | reset => exact absurd trivial hj
  | addColumns => exact lookup_append hcolumn _
  | addColumn => exact lookup_append hcolumn _
  | setColumnName hother =>
    refine lookup_set hcolumn hother ?_
    rintro rfl
    exact hj (.inl rfl)
  | setColumnBound hother =>
    refine lookup_set hcolumn hother ?_
    rintro rfl
    exact hj (.inl rfl)
  | setCoefficient hpos hother =>
    refine lookup_set hcolumn hother ?_
    rintro rfl
    exact hj (by simp [Edit.Addresses, hpos])
  | _ => exact hcolumn

theorem Edits.get_eq (he : Edits m e next) (hcell : ¬e.Addresses (.cell i j)) (hj : 1 ≤ j) :
    next.matrix.get i j = m.matrix.get i j := by
  cases he with
  | reset => exact absurd trivial hcell
  | @setMatrixCoefficient r c value =>
    have hne : ¬((r, c) = (i, j)) := by
      rintro ⟨⟩
      exact hcell rfl
    rw [SparseMatrix.get_set, if_neg hne]
  | @loadMatrix block =>
    have hnone : block[i - 1]?.bind (·[j - 1]?) = none := by
      refine Option.not_isSome_iff_eq_none.1 fun hsome => ?_
      exact hcell ⟨i, j, rfl, hsome⟩
    rw [SparseMatrix.get_setBlock _ _ _ _ hj, hnone]
    exact ite_self _
  | _ => rfl

theorem Edits.count_le (he : Edits m e next) (hreset : e ≠ .reset) :
    m.rowCount ≤ next.rowCount ∧ m.columnCount ≤ next.columnCount := by
  cases he with
  | reset => exact absurd rfl hreset
  | _ => simp [rowCount, columnCount]

/-- **An edit leaves alone what it is not called on.** -/
theorem Edits.same {item : Item} (he : Edits m e next) (hitem : ¬e.Addresses item) :
    item.Same m next := by
  cases item with
  | row i => exact fun row => he.row_eq hitem
  | column j => exact fun column => he.column_eq hitem
  | shift =>
    cases he with
    | reset => exact absurd trivial hitem
    | setShift => exact absurd rfl hitem
    | _ => rfl
  | cell i j =>
    have hreset : e ≠ .reset := by
      rintro rfl
      exact hitem trivial
    obtain ⟨hrows, hcolumns⟩ := he.count_le hreset
    exact ⟨hrows, hcolumns, he.get_eq hitem⟩
  | all axis =>
    cases axis with
    | row =>
      cases he with
      | reset => exact absurd trivial hitem
      | addRows | addRow => exact absurd rfl hitem
      | setRowName | setRowBound => exact absurd (.inr rfl) hitem
      | _ => rfl
    | column =>
      cases he with
      | reset => exact absurd trivial hitem
      | addColumns | addColumn => exact absurd rfl hitem
      | setColumnName | setColumnBound => exact absurd (.inr rfl) hitem
      | setCoefficient hpos => exact absurd (by simp [Edit.Addresses, hpos]) hitem
      | _ => rfl

end Edits

/-- **The same can be read** of an item that is the same. -/
theorem answer_of_same {m next : Model K E} {q : Query} {item : Item} {value : Value K E}
    (hsame : item.Same m next) (hq : q.item? = some item) (h : m.answer q = .ok value) :
    next.answer q = .ok value := by
  cases q with
  | rowName i | rowBound i =>
    cases hq
    obtain ⟨_, hread, rfl⟩ := map_eq_ok.1 h
    obtain ⟨row, hrow, rfl⟩ := map_eq_ok.1 hread
    simp only [answer, rowName, rowBound, hsame row hrow]
    rfl
  | columnName j | columnBound j =>
    cases hq
    obtain ⟨_, hread, rfl⟩ := map_eq_ok.1 h
    obtain ⟨column, hcolumn, rfl⟩ := map_eq_ok.1 hread
    simp only [answer, columnName, columnBound, hsame column hcolumn]
    rfl
  | coefficient j =>
    cases hq
    obtain ⟨_, hread, rfl⟩ := map_eq_ok.1 h
    by_cases hj : j = 0
    · rw [if_pos hj] at hsame
      have hshift : next.shift = m.shift := hsame
      rw [coefficient, if_pos hj] at hread
      simp only [answer, coefficient, if_pos hj, hshift, hread]
      rfl
    · rw [if_neg hj] at hsame
      rw [coefficient, if_neg hj] at hread
      obtain ⟨column, hcolumn, rfl⟩ := map_eq_ok.1 hread
      simp only [answer, coefficient, if_neg hj, hsame column hcolumn]
      rfl
  | matrixCoefficient i j =>
    cases hq
    obtain ⟨_, hread, rfl⟩ := map_eq_ok.1 h
    obtain ⟨row, hrow, hread⟩ := bind_eq_ok.1 hread
    obtain ⟨column, hcolumn, hread⟩ := bind_eq_ok.1 hread
    cases hread
    obtain ⟨hrows, hcolumns, hget⟩ := hsame
    obtain ⟨-, hi, hi'⟩ := of_lookup hrow
    obtain ⟨-, hj, hj'⟩ := of_lookup hcolumn
    have hread := matrixCoefficient_eq (m := next) (i := i) (j := j) ⟨hi, hi'.trans hrows⟩
      ⟨hj, hj'.trans hcolumns⟩
    simp only [answer, hread, hget hj]
    rfl
  | rowCount | findRow name =>
    cases hq
    have hrows : next.rows = m.rows := hsame
    simp only [answer, rowCount, findRow, hrows] at h ⊢
    exact h
  | columnCount | findColumn name =>
    cases hq
    have hcolumns : next.columns = m.columns := hsame
    simp only [answer, columnCount, findColumn, hcolumns] at h ⊢
    exact h
  | _ => cases hq

variable [Engine E K]

/-- How many rows or columns a call adds. One new row or column may be refused. -/
def Event.added (axis : Axis) (e : Event K E) : Nat :=
  match axis, e.operation with
  | .row, .edit (.addRows amount) => amount
  | .column, .edit (.addColumns amount) => amount
  | .row, .edit (.addRow ..) | .column, .edit (.addColumn ..) => if e.result.isOk then 1 else 0
  | _, _ => 0

/-- **How a call numbers what it adds.** -/
structure Event.Numbers (e : Event K E) : Prop where
  count : ∀ axis, e.after.count axis = e.before.count axis + e.added axis
  addRows : ∀ amount, e.operation = .edit (.addRows amount) →
    e.result = .ok (.number (e.before.rowCount + 1))
  addColumns : ∀ amount, e.operation = .edit (.addColumns amount) →
    e.result = .ok (.number (e.before.columnCount + 1))
  addRow : ∀ name kind lower upper value,
    e.operation = .edit (.addRow name kind lower upper) → e.result = .ok value →
      value = .number (e.before.rowCount + 1)
  addColumn : ∀ name kind lower upper coefficient value,
    e.operation = .edit (.addColumn name kind lower upper coefficient) → e.result = .ok value →
      value = .number (e.before.columnCount + 1)

/-- **The counts grow by what is added**, and by nothing else. -/
theorem count_after (e : Event K E) (axis : Axis) :
    e.after.count axis = if e.isReset then 0 else e.before.count axis + e.added axis := by
  obtain ⟨m, op⟩ := e
  cases op with
  | ask q => cases axis <;> rfl
  | solve =>
    rcases step_solve m with ⟨hs, -⟩ | ⟨reason, hs, -⟩ <;> cases axis <;>
      simp [Event.after, hs, Event.isReset, Event.added, asked, count, rowCount, columnCount]
  | edit e =>
    rcases step_edit m e with ⟨value, next, hs, he⟩ | ⟨error, hs⟩
    · simp only [Event.after, Event.isReset, Event.added, Event.result, hs]
      cases axis <;> cases he <;>
        simp [count, rowCount, columnCount, Model.reset, ofEngine, Except.isOk, Except.toBool]
    · simp only [Event.after, Event.isReset, Event.added, Event.result, hs]
      -- emptying the model and adding some rows or columns are never refused
      cases e with
      | reset => cases hs
      | addRows amount => simp [step, Action.perform_eq, edit, Action.outcome, report] at hs
      | addColumns amount => simp [step, Action.perform_eq, edit, Action.outcome, report] at hs
      | _ => cases axis <;> rfl

/-- **The counts are the sums of what was added** since the model was last emptied. -/
theorem count_run {engine : E} {start : Model K E} (h : Constructed engine start)
    (ops : List (Operation K)) (axis : Axis) :
    (start.run ops).count axis =
      ((sinceReset (start.history ops)).map (Event.added axis)).sum := by
  have hstart : start.count axis = 0 := by
    obtain ⟨name, stored, direction, -, rfl⟩ := h.eq_ofEngine
    cases axis <;> rfl
  refine view_run (count · axis) (fun events => (events.map (Event.added axis)).sum) hstart
    (fun e events hbefore => ?_) ops
  rw [count_after e axis, hbefore]
  simp

/-- **What a call changes** is only what it is called on. -/
def Event.KeepsOthers (e : Event K E) : Prop :=
  ∀ q item value, q.item? = some item → ¬e.operation.Addresses item →
    e.before.answer q = .ok value → e.after.answer q = .ok value

theorem keepsOthers (e : Event K E) : e.KeepsOthers := by
  obtain ⟨m, op⟩ := e
  intro q item value hq hitem h
  refine answer_of_same ?_ hq h
  cases op with
  | ask q => exact .refl m item
  | solve =>
    have hasked : item.Same m m.asked := .refl m item
    rcases step_solve m with ⟨hs, -⟩ | ⟨reason, hs, -⟩ <;> simp only [Event.after, hs]
    · exact hasked
    · exact hasked
  | edit e => exact after_edit (.refl m item) fun next he => he.same hitem

/-- Every call but one that empties the model numbers what it adds. -/
theorem numbers {e : Event K E} (hreset : e.isReset = false) : e.Numbers where
  count axis := by
    rw [count_after, hreset]
    rfl
  addRows amount hop := by
    rw [Event.result, hop]
    simp only [step, Action.perform_eq]
    rfl
  addColumns amount hop := by
    rw [Event.result, hop]
    simp only [step, Action.perform_eq]
    rfl
  addRow name kind lower upper value hop h := by
    rw [Event.result, hop] at h
    exact number_of_grows rfl (Prod.ext h rfl)
  addColumn name kind lower upper coefficient value hop h := by
    rw [Event.result, hop] at h
    exact number_of_grows rfl (Prod.ext h rfl)

theorem operation_mem_of_mem_history {m : Model K E} {ops : List (Operation K)} {e : Event K E}
    (h : e ∈ m.history ops) : e.operation ∈ ops := by
  induction ops generalizing m with
  | nil => exact absurd h List.not_mem_nil
  | cons op ops ih =>
    rcases List.mem_cons.1 h with rfl | h
    · exact List.mem_cons_self
    · exact List.mem_cons_of_mem op (ih h)

/-- A run in which the model is never emptied. -/
theorem isReset_eq_false {m : Model K E} {ops : List (Operation K)}
    (hreset : ∀ op ∈ ops, op ≠ .edit .reset) {e : Event K E} (h : e ∈ m.history ops) :
    e.isReset = false := by
  have hop := hreset e.operation (operation_mem_of_mem_history h)
  rw [Event.isReset]
  split
  · next heq => exact absurd heq hop
  · rfl

theorem sinceReset_history {m : Model K E} {ops : List (Operation K)}
    (hreset : ∀ op ∈ ops, op ≠ .edit .reset) : sinceReset (m.history ops) = m.history ops := by
  refine List.rtakeWhile_eq_self_iff.2 fun e he => ?_
  rw [isReset_eq_false hreset he]
  rfl

/-- **Numbers keep their meaning** in a run in which the model is never emptied. Each call numbers
what it adds from the count on and changes nothing but what it is called on, the counts are the sums
of what was added, and under every number is read what was last given. -/
theorem numbering_stable {engine : E} {start : Model K E} (h : Constructed engine start)
    {ops : List (Operation K)} (hreset : ∀ op ∈ ops, op ≠ .edit .reset) :
    (∀ e ∈ start.history ops, e.Numbers ∧ e.KeepsOthers) ∧
      (∀ axis,
        (start.run ops).count axis = ((start.history ops).map (Event.added axis)).sum) ∧
      ReadsAsGiven (start.run ops) (start.history ops) := by
  have hsince := sinceReset_history (m := start) hreset
  refine ⟨fun e he => ⟨numbers (isReset_eq_false hreset he), keepsOthers e⟩, fun axis => ?_, ?_⟩
  · rw [count_run h, hsince]
  · have hreads := readsAsGiven_run h ops
    rwa [hsince] at hreads

open Exact

/-- Rows and columns by ones and twos, with names and bounds that are given, given again, taken away
and refused. -/
def growing : List (Operation Exact) :=
  [.edit (.addRows 1), .edit (.addColumn (some "x") .double (finite 0) (finite 4) (finite 7)),
    .edit (.addRow (some "r") .lower (finite 1) (finite 0)), .solve, .edit (.addColumns 2),
    .edit (.addRow none .double (finite 1) (finite 0)), .edit (.setRowName 2 (some "")),
    .edit (.setRowBound 3 .free (finite 0) (finite 0)),
    .edit (.setRowBound 1 .fixed (finite 2) (finite 0)), .edit (.setCoefficient 0 (finite 5)),
    .edit (.setColumnName 3 (some "y")), .edit (.loadMatrix [[finite 1], [finite 2]])]

theorem growing_reads :
    let start : Model Exact (Canned Exact) := ofEngine ⟨[]⟩
    Constructed ⟨[]⟩ start ∧ (∀ op ∈ growing, op ≠ .edit .reset) ∧
      ReadsAsGiven (start.run growing) (start.history growing) ∧
      (start.run growing).rowBound 1 = .ok (.fixed (finite 2)) ∧
      (start.run growing).rowName 2 = .ok none ∧
      (start.run growing).columnBound 1 = .ok (.double (finite 0) (finite 4)) ∧
      (start.run growing).columnName 3 = .ok (some "y") := by
  intro start
  have hstart : Constructed ⟨[]⟩ start := .empty
  have hreset : ∀ op ∈ growing, op ≠ .edit .reset := by decide
  obtain ⟨-, -, hreads⟩ := numbering_stable hstart hreset
  refine ⟨hstart, hreset, hreads, ?_, ?_, ?_, ?_⟩
  · refine (hreads.rowBound 1 (by decide) (by decide +kernel)).trans ?_
    decide +kernel
  · refine (hreads.rowName 2 (by decide) (by decide +kernel)).trans ?_
    decide +kernel
  · refine (hreads.columnBound 1 (by decide) (by decide +kernel)).trans ?_
    decide +kernel
  · refine (hreads.columnName 3 (by decide) (by decide +kernel)).trans ?_
    decide +kernel

end LinearProgram.Model
