import LinearProgram.Proofs.LastWrite

/-!
# What was last given

A row or a column keeps its number. What is read of it by that number, its name, its bound and, for
a column, its coefficient, is what it was last given since the model was last emptied.

* `number_of_grows`: the number that a new row or column gets.
* `Event.rowName?` and the like: what a call gives to a row or a column.
* `rowAt_after`, `columnAt_after`, `shift_after`: what one call leaves of them.
* `view_run`: from one call to a run.
* `ReadsAsGiven`: what is read is what was given.
* `readsAsGiven_run`: this holds after every run.
-/

namespace LinearProgram.Model

variable {K E α : Type} {axis : Axis} {i j : Nat}

theorem getD_append_replicate (items : List α) (n k : Nat) (fresh : α) :
    (items ++ List.replicate n fresh).getD k fresh = items.getD k fresh := by
  simp only [List.getD_eq_getElem?_getD, List.getElem?_append, List.getElem?_replicate]
  split_ifs with hk hn
  · rfl
  · rw [List.getElem?_eq_none (Nat.le_of_not_lt hk)]
    rfl
  · rw [List.getElem?_eq_none (Nat.le_of_not_lt hk)]

theorem getD_concat (items : List α) (item fresh : α) (k : Nat) :
    (items ++ [item]).getD k fresh = if k = items.length then item else items.getD k fresh := by
  simp only [List.getD_eq_getElem?_getD]
  rcases Nat.lt_trichotomy k items.length with hlt | rfl | hgt
  · rw [List.getElem?_append_left hlt, if_neg (Nat.ne_of_lt hlt)]
  · simp
  · have hpast : items.length + [item].length ≤ k := hgt
    rw [if_neg (Nat.ne_of_gt hgt), List.getElem?_eq_none (Nat.le_of_lt hgt),
      List.getElem?_eq_none (by rwa [List.length_append])]

/-- An entry that is replaced reads as its replacement, and the others as before. -/
theorem getD_set_of_lookup {items : List α} {item new fresh : α}
    (h : lookup (K := K) axis items i = .ok item) (hj : 1 ≤ j) :
    (items.set (i - 1) new).getD (j - 1) fresh =
      if i = j then new else items.getD (j - 1) fresh := by
  obtain ⟨-, hi, hlength⟩ := of_lookup h
  simp only [List.getD_eq_getElem?_getD, List.getElem?_set]
  by_cases hij : i = j
  · subst hij
    have hlt : i - 1 < items.length := by omega
    simp [hlt]
  · have hne : ¬i - 1 = j - 1 := by omega
    rw [if_neg hne, if_neg hij]

/-- Row `i`, or a new one if there is no such row. -/
def rowAt (m : Model K E) (i : Nat) : Row K := m.rows.getD (i - 1) .fresh

/-- Column `j`, or a new one if there is no such column. -/
def columnAt [Zero K] (m : Model K E) (j : Nat) : Column K := m.columns.getD (j - 1) .fresh

/-- The number of rows or of columns. -/
def count (m : Model K E) : Axis → Nat
  | .row => m.rowCount
  | .column => m.columnCount

/-- The axis on which an edit adds rows or columns. -/
def Edit.grows? : Edit K → Option Axis
  | .addRows _ | .addRow .. => some .row
  | .addColumns _ | .addColumn .. => some .column
  | _ => none

/-- The name to store: an empty one counts as none. -/
def storedName (name : Option String) : Option String := if name = some "" then none else name

theorem eq_storedName {name stored : Option String} (h : checkName (K := K) name = .ok stored) :
    stored = storedName name := by
  cases name with
  | none =>
    cases h
    rfl
  | some text =>
    simp only [checkName] at h
    split at h
    · next hempty =>
      cases h
      simp [storedName, hempty]
    next hempty =>
    split at h
    · cases h
    cases h
    simp [storedName, hempty]

variable [ExtendedScalar K]

theorem eq_ofParts {kind : Bound.Kind} {lower upper : K} {bound : Bound K}
    (h : checkBound kind lower upper = .ok bound) : bound = .ofParts kind lower upper := by
  simp only [checkBound] at h
  split at h
  · cases h
    rfl
  · cases h

variable [Engine E K]

/-- **New rows and columns get the next number.** -/
theorem number_of_grows {m next : Model K E} {e : Edit K} {value : Value K E}
    (haxis : e.grows? = some axis) (h : m.step (.edit e) = (.ok value, next)) :
    value = .number (m.count axis + 1) := by
  have h : m.edit e = .ok (value, next) := by
    simp only [step, Action.perform_eq] at h
    cases he : m.edit e with
    | error error =>
      rw [he] at h
      cases h
    | ok result =>
      rw [he] at h
      cases h
      rfl
  cases e with
  | addRows amount =>
    cases haxis
    cases h
    rfl
  | addColumns amount =>
    cases haxis
    cases h
    rfl
  | addRow name kind lower upper =>
    cases haxis
    obtain ⟨_, h, hnumbered⟩ := map_eq_ok.1 h
    obtain ⟨stored, -, h⟩ := bind_eq_ok.1 h
    obtain ⟨bound, -, h⟩ := bind_eq_ok.1 h
    cases h
    cases hnumbered
    rfl
  | addColumn name kind lower upper coefficient =>
    cases haxis
    obtain ⟨_, h, hnumbered⟩ := map_eq_ok.1 h
    obtain ⟨stored, -, h⟩ := bind_eq_ok.1 h
    obtain ⟨bound, -, h⟩ := bind_eq_ok.1 h
    cases h
    cases hnumbered
    rfl
  | _ => cases haxis

/-- **The name that a call gives** to row `i`, if it succeeds and gives it one or takes it away. -/
def Event.rowName? (i : Nat) (e : Event K E) : Option (Option String) :=
  match e.operation, e.result with
  | .edit (.addRow name ..), .ok (.number n) => if n = i then some (storedName name) else none
  | .edit (.setRowName n name), .ok _ => if n = i then some (storedName name) else none
  | _, _ => none

/-- The bound that a call gives to row `i`, if it succeeds and gives it one. -/
def Event.rowBound? (i : Nat) (e : Event K E) : Option (Bound K) :=
  match e.operation, e.result with
  | .edit (.addRow _ kind lower upper), .ok (.number n) =>
    if n = i then some (.ofParts kind lower upper) else none
  | .edit (.setRowBound n kind lower upper), .ok _ =>
    if n = i then some (.ofParts kind lower upper) else none
  | _, _ => none

/-- The name that a call gives to column `j`, if it succeeds and gives it one or takes it away. -/
def Event.columnName? (j : Nat) (e : Event K E) : Option (Option String) :=
  match e.operation, e.result with
  | .edit (.addColumn name ..), .ok (.number n) => if n = j then some (storedName name) else none
  | .edit (.setColumnName n name), .ok _ => if n = j then some (storedName name) else none
  | _, _ => none

/-- The bound that a call gives to column `j`, if it succeeds and gives it one. -/
def Event.columnBound? (j : Nat) (e : Event K E) : Option (Bound K) :=
  match e.operation, e.result with
  | .edit (.addColumn _ kind lower upper _), .ok (.number n) =>
    if n = j then some (.ofParts kind lower upper) else none
  | .edit (.setColumnBound n kind lower upper), .ok _ =>
    if n = j then some (.ofParts kind lower upper) else none
  | _, _ => none

/-- The coefficient that a call gives to column `j`, if it succeeds and gives it one. Number 0 is
the constant term. -/
def Event.coefficient? (j : Nat) (e : Event K E) : Option K :=
  match e.operation, e.result with
  | .edit (.addColumn _ _ _ _ coefficient), .ok (.number n) =>
    if n = j then some coefficient else none
  | .edit (.setCoefficient n value), .ok _ => if n = j then some value else none
  | _, _ => none

/-- **What one call leaves of a row.** -/
theorem rowAt_after (e : Event K E) (hi : 1 ≤ i) :
    e.after.rowAt i =
      if e.isReset then .fresh
      else
        { name := (e.rowName? i).getD (e.before.rowAt i).name
          bound := (e.rowBound? i).getD (e.before.rowAt i).bound } := by
  obtain ⟨m, op⟩ := e
  cases op with
  | ask q => rfl
  | solve =>
    rcases step_solve m with ⟨hs, -⟩ | ⟨reason, hs, -⟩ <;>
      simp [Event.after, hs, Event.isReset, Event.rowName?, Event.rowBound?, asked, rowAt]
  | edit e =>
    rcases step_edit m e with ⟨value, next, hs, he⟩ | ⟨error, hs⟩
    · simp only [Event.after, Event.isReset, Event.rowName?, Event.rowBound?, Event.result, hs, rowAt]
      cases he with
      | reset => simp [Model.reset, ofEngine]
      | addRows => exact getD_append_replicate ..
      | addRow hname hbound =>
        have hvalue := number_of_grows rfl hs
        have hnext : m.rowCount + 1 = i ↔ i - 1 = m.rows.length := by
          have hcount : m.rowCount = m.rows.length := rfl
          omega
        rw [eq_storedName hname, eq_ofParts hbound, getD_concat, hvalue]
        simp only [count, ← hnext]
        by_cases hnew : m.rowCount + 1 = i <;> simp [hnew]
      | @setRowName n name row stored hrow hname =>
        rw [getD_set_of_lookup hrow hi, eq_storedName hname]
        by_cases hn : n = i
        · subst hn
          simp [(lookup_eq_ok.1 hrow).2]
        · simp [hn]
      | @setRowBound n kind lower upper row bound hrow hbound =>
        rw [getD_set_of_lookup hrow hi, eq_ofParts hbound]
        by_cases hn : n = i
        · subst hn
          simp [(lookup_eq_ok.1 hrow).2]
        · simp [hn]
      | _ => rfl
    · simp only [Event.after, Event.isReset, Event.rowName?, Event.rowBound?, Event.result, hs]
      -- emptying the model is never refused
      cases e with
      | reset => cases hs
      | _ => rfl

/-- **What one call leaves of a column.** -/
theorem columnAt_after (e : Event K E) (hj : 1 ≤ j) :
    e.after.columnAt j =
      if e.isReset then .fresh
      else
        { name := (e.columnName? j).getD (e.before.columnAt j).name
          bound := (e.columnBound? j).getD (e.before.columnAt j).bound
          coefficient := (e.coefficient? j).getD (e.before.columnAt j).coefficient } := by
  obtain ⟨m, op⟩ := e
  cases op with
  | ask q => rfl
  | solve =>
    rcases step_solve m with ⟨hs, -⟩ | ⟨reason, hs, -⟩ <;>
      simp [Event.after, hs, Event.isReset, Event.columnName?, Event.columnBound?,
        Event.coefficient?, asked, columnAt]
  | edit e =>
    rcases step_edit m e with ⟨value, next, hs, he⟩ | ⟨error, hs⟩
    · simp only [Event.after, Event.isReset, Event.columnName?, Event.columnBound?,
        Event.coefficient?, Event.result, hs, columnAt]
      cases he with
      | reset => simp [Model.reset, ofEngine]
      | addColumns => exact getD_append_replicate ..
      | addColumn hname hbound =>
        have hvalue := number_of_grows rfl hs
        have hnext : m.columnCount + 1 = j ↔ j - 1 = m.columns.length := by
          have hcount : m.columnCount = m.columns.length := rfl
          omega
        rw [eq_storedName hname, eq_ofParts hbound, getD_concat, hvalue]
        simp only [count, ← hnext]
        by_cases hnew : m.columnCount + 1 = j <;> simp [hnew]
      | @setColumnName n name column stored hcolumn hname =>
        rw [getD_set_of_lookup hcolumn hj, eq_storedName hname]
        by_cases hn : n = j
        · subst hn
          simp [(lookup_eq_ok.1 hcolumn).2]
        · simp [hn]
      | @setColumnBound n kind lower upper column bound hcolumn hbound =>
        rw [getD_set_of_lookup hcolumn hj, eq_ofParts hbound]
        by_cases hn : n = j
        · subst hn
          simp [(lookup_eq_ok.1 hcolumn).2]
        · simp [hn]
      | setShift =>
        have hne : ¬0 = j := Nat.ne_of_lt hj
        simp [hne]
      | @setCoefficient n value column hn hcolumn =>
        rw [getD_set_of_lookup hcolumn hj]
        by_cases hn : n = j
        · subst hn
          simp [(lookup_eq_ok.1 hcolumn).2]
        · simp [hn]
      | _ => rfl
    · simp only [Event.after, Event.isReset, Event.columnName?, Event.columnBound?,
        Event.coefficient?, Event.result, hs]
      -- emptying the model is never refused
      cases e with
      | reset => cases hs
      | _ => rfl

/-- **What one call leaves of the constant term.** -/
theorem shift_after (e : Event K E) :
    e.after.shift = if e.isReset then 0 else (e.coefficient? 0).getD e.before.shift := by
  obtain ⟨m, op⟩ := e
  cases op with
  | ask q => rfl
  | solve =>
    rcases step_solve m with ⟨hs, -⟩ | ⟨reason, hs, -⟩ <;>
      simp [Event.after, hs, Event.isReset, Event.coefficient?, asked]
  | edit e =>
    rcases step_edit m e with ⟨value, next, hs, he⟩ | ⟨error, hs⟩
    · simp only [Event.after, Event.isReset, Event.coefficient?, Event.result, hs]
      cases he with
      | addColumn =>
        have hvalue := number_of_grows rfl hs
        simp [hvalue]
      | setCoefficient hn => simp [hn]
      | _ => rfl
    · simp only [Event.after, Event.isReset, Event.coefficient?, Event.result, hs]
      -- emptying the model is never refused
      cases e with
      | reset => cases hs
      | _ => rfl

omit [Engine E K] in
theorem rowAt_constructed {engine : E} {start : Model K E} (h : Constructed engine start) :
    start.rowAt i = .fresh := by
  obtain ⟨name, stored, direction, -, rfl⟩ := h.eq_ofEngine
  rfl

omit [Engine E K] in
theorem columnAt_constructed {engine : E} {start : Model K E} (h : Constructed engine start) :
    start.columnAt j = .fresh := by
  obtain ⟨name, stored, direction, -, rfl⟩ := h.eq_ofEngine
  rfl

/-- Row `i` as calls give it. -/
def givenRow (i : Nat) (events : List (Event K E)) : Row K where
  name := (newest (Event.rowName? i) events).getD none
  bound := (newest (Event.rowBound? i) events).getD .free

/-- Column `j` as calls give it. -/
def givenColumn (j : Nat) (events : List (Event K E)) : Column K where
  name := (newest (Event.columnName? j) events).getD none
  bound := (newest (Event.columnBound? j) events).getD (.fixed 0)
  coefficient := (newest (Event.coefficient? j) events).getD 0

/-- The constant term as calls give it. -/
def givenShift (events : List (Event K E)) : K := (newest (Event.coefficient? 0) events).getD 0

/-- **What each call carries on with holds of a run**, for the calls since the model was last
emptied. -/
theorem view_run (view : Model K E → α) (given : List (Event K E) → α) {start : Model K E}
    (hstart : view start = given [])
    (hafter : ∀ e events, view e.before = given events →
      view e.after = if e.isReset then given [] else given (events ++ [e]))
    (ops : List (Operation K)) : view (start.run ops) = given (sinceReset (start.history ops)) := by
  induction ops using List.reverseRecOn with
  | nil => exact hstart
  | append_singleton ops op ih =>
    have hcall := hafter ⟨start.run ops, op⟩ _ ih
    rw [run_concat, history_concat, sinceReset_concat, apply_ite given]
    exact hcall

/-- **A row is as it was last given** since the model was last emptied. -/
theorem rowAt_run {engine : E} {start : Model K E} (h : Constructed engine start)
    (ops : List (Operation K)) (hi : 1 ≤ i) :
    (start.run ops).rowAt i = givenRow i (sinceReset (start.history ops)) := by
  refine view_run (rowAt · i) (givenRow i) (rowAt_constructed h) (fun e events hbefore => ?_) ops
  rw [rowAt_after e hi, hbefore]
  cases e.isReset with
  | true => rfl
  | false => simp [givenRow, newest_concat]

/-- **A column is as it was last given** since the model was last emptied. -/
theorem columnAt_run {engine : E} {start : Model K E} (h : Constructed engine start)
    (ops : List (Operation K)) (hj : 1 ≤ j) :
    (start.run ops).columnAt j = givenColumn j (sinceReset (start.history ops)) := by
  refine view_run (columnAt · j) (givenColumn j) (columnAt_constructed h) (fun e events hbefore => ?_)
    ops
  rw [columnAt_after e hj, hbefore]
  cases e.isReset with
  | true => rfl
  | false => simp [givenColumn, newest_concat]

/-- **The constant term is as it was last given** since the model was last emptied. -/
theorem shift_run {engine : E} {start : Model K E} (h : Constructed engine start)
    (ops : List (Operation K)) :
    (start.run ops).shift = givenShift (sinceReset (start.history ops)) := by
  have hstart : start.shift = givenShift ([] : List (Event K E)) := by
    obtain ⟨name, stored, direction, -, rfl⟩ := h.eq_ofEngine
    rfl
  refine view_run Model.shift givenShift hstart (fun e events hbefore => ?_) ops
  rw [shift_after e, hbefore]
  cases e.isReset with
  | true => rfl
  | false => simp [givenShift, newest_concat]

/-- **What is read is what was given**: every name, bound and coefficient is the one of the newest
call that gave any, and without such a call the one of a new row or column. -/
structure ReadsAsGiven (m : Model K E) (events : List (Event K E)) : Prop where
  rowName : ∀ i, 1 ≤ i → i ≤ m.rowCount →
    m.rowName i = .ok ((newest (Event.rowName? i) events).getD none)
  rowBound : ∀ i, 1 ≤ i → i ≤ m.rowCount →
    m.rowBound i = .ok ((newest (Event.rowBound? i) events).getD .free)
  columnName : ∀ j, 1 ≤ j → j ≤ m.columnCount →
    m.columnName j = .ok ((newest (Event.columnName? j) events).getD none)
  columnBound : ∀ j, 1 ≤ j → j ≤ m.columnCount →
    m.columnBound j = .ok ((newest (Event.columnBound? j) events).getD (.fixed 0))
  coefficient : ∀ j, j ≤ m.columnCount →
    m.coefficient j = .ok ((newest (Event.coefficient? j) events).getD 0)

theorem readsAsGiven_run {engine : E} {start : Model K E} (h : Constructed engine start)
    (ops : List (Operation K)) :
    ReadsAsGiven (start.run ops) (sinceReset (start.history ops)) where
  rowName i hi hcount := by
    have hrow : (start.run ops).row i = .ok ((start.run ops).rowAt i) := lookup_of_le hi hcount _
    rw [Model.rowName, hrow, rowAt_run h ops hi]
    rfl
  rowBound i hi hcount := by
    have hrow : (start.run ops).row i = .ok ((start.run ops).rowAt i) := lookup_of_le hi hcount _
    rw [Model.rowBound, hrow, rowAt_run h ops hi]
    rfl
  columnName j hj hcount := by
    have hcolumn : (start.run ops).column j = .ok ((start.run ops).columnAt j) :=
      lookup_of_le hj hcount _
    rw [Model.columnName, hcolumn, columnAt_run h ops hj]
    rfl
  columnBound j hj hcount := by
    have hcolumn : (start.run ops).column j = .ok ((start.run ops).columnAt j) :=
      lookup_of_le hj hcount _
    rw [Model.columnBound, hcolumn, columnAt_run h ops hj]
    rfl
  coefficient j hcount := by
    rw [Model.coefficient]
    split
    · next hzero =>
      rw [hzero, shift_run h ops]
      rfl
    · next hpos =>
      have hj : 1 ≤ j := Nat.pos_of_ne_zero hpos
      have hcolumn : (start.run ops).column j = .ok ((start.run ops).columnAt j) :=
        lookup_of_le hj hcount _
      rw [hcolumn, columnAt_run h ops hj]
      rfl

end LinearProgram.Model
