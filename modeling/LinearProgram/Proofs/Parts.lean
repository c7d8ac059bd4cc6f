import LinearProgram.Engine.Canned
import LinearProgram.Proofs.WellFormed
import LinearProgram.Scalar.Exact

/-!
# Edits made of parts

A block of coefficients can be stored cell by cell, and a new row or column can be added first and
get its name, bound and coefficient then. An edit that does all of it at once comes to the same if
every part succeeds. If a part fails, the edit does nothing.

* `attempt`: operations up to the first that fails.
* `cellWrites`: the cells of a block, each written by itself.
* `HoldsBlock`, `RefusesBlock`: whether there is a place for every cell, and what is wrong if not.
* `loadMatrix_eq_cellWrites`: storing a block is storing its cells, or nothing.
* `appendRow`, `appendColumn`: a model with one more row or column, on which the parts work.
* `additions_eq_parts`: adding a row or a column is adding its parts, or nothing.
-/

namespace LinearProgram.Model

variable {K E : Type} {m : Model K E} {i j : Nat} {block : List (List K)}

/-- The cells of row `i` from column `j` on, each written by itself. -/
def rowWrites (i j : Nat) (values : List K) : List (Operation K) :=
  (values.zipIdx j).map fun (value, j) => .edit (.setMatrixCoefficient i j value)

/-- The cells of the rows from row `i` on, row by row. -/
def blockWrites (i : Nat) (block : List (List K)) : List (Operation K) :=
  (block.zipIdx i).flatMap fun (values, i) => rowWrites i 1 values

/-- **The cells of a block**, row by row, each written by itself. -/
def cellWrites (block : List (List K)) : List (Operation K) := blockWrites 1 block

/-- Whether the matrix has a place for every cell of a block. -/
def HoldsBlock (m : Model K E) (block : List (List K)) : Prop :=
  block.length ≤ m.rowCount ∧ ∀ values ∈ block, values.length ≤ m.columnCount

/-- **Why a block is refused**: it has too many rows, or else its longest row is too long. -/
inductive RefusesBlock (m : Model K E) (block : List (List K)) : Error K → Prop
  | rows (h : m.rowCount < block.length) :
    RefusesBlock m block (.blockTooLarge .row block.length m.rowCount)
  | columns {longest} (hrows : block.length ≤ m.rowCount) (hmem : longest ∈ block)
    (hlongest : ∀ values ∈ block, values.length ≤ longest.length)
    (h : m.columnCount < longest.length) :
    RefusesBlock m block (.blockTooLarge .column longest.length m.columnCount)

/-- Some row of a block is as long as the block is wide, unless the block has no width. -/
theorem exists_length_eq_blockWidth {n : Nat} (h : n < blockWidth block) :
    ∃ longest ∈ block, longest.length = blockWidth block := by
  have hwidth : blockWidth block = max 0 ((block.map List.length).max?.getD 0) := List.foldl_max
  cases hmax : (block.map List.length).max? with
  | none =>
    rw [hmax] at hwidth
    have hzero : blockWidth block = 0 := hwidth
    omega
  | some width =>
    obtain ⟨longest, hlongest, hlength⟩ := List.mem_map.1 (List.max?_mem hmax)
    refine ⟨longest, hlongest, ?_⟩
    rw [hwidth, hmax, hlength]
    exact (Nat.zero_max width).symm

/-- The model with another matrix. It keeps its solution only if no cell has been written. -/
def rewritten (m : Model K E) (matrix : SparseMatrix K) (untouched : Bool) : Model K E :=
  { m with matrix, solution := if untouched then m.solution else none }

theorem rewritten_rewritten (m : Model K E) (matrix matrix' : SparseMatrix K) (b b' : Bool) :
    (m.rewritten matrix b).rewritten matrix' b' = m.rewritten matrix' (b && b') := by
  cases b <;> cases b' <;> rfl

/-- **The parts of row `i`**: it is added, and then gets its name and its bound. -/
def rowParts (i : Nat) (name : Option String) (kind : Bound.Kind) (lower upper : K) :
    List (Operation K) :=
  [.edit (.addRows 1), .edit (.setRowName i name), .edit (.setRowBound i kind lower upper)]

/-- **The parts of column `j`**: it is added, and then gets its name, its bound and its
coefficient. -/
def columnParts (j : Nat) (name : Option String) (kind : Bound.Kind) (lower upper coefficient : K) :
    List (Operation K) :=
  [.edit (.addColumns 1), .edit (.setColumnName j name),
    .edit (.setColumnBound j kind lower upper), .edit (.setCoefficient j coefficient)]

/-- The model with one more row. -/
def appendRow (m : Model K E) (row : Row K) : Model K E :=
  { m with rows := m.rows ++ [row], solution := none, factorizationStale := true }

/-- The model with one more column. -/
def appendColumn (m : Model K E) (column : Column K) : Model K E :=
  { m with columns := m.columns ++ [column], solution := none }

/-- **The last entry of a list is changed** as a check says. -/
theorem change_last {α β : Type} (axis : Axis) (items : List α) (item : α)
    (check : Except (Error K) β) (change : α → β → α) (put : List α → Model K E) :
    (do
      let found ← lookup axis (items ++ [item]) (items.length + 1)
      let value ← check
      return put ((items ++ [item]).set items.length (change found value))) =
      check.map fun value => put (items ++ [change item value]) := by
  have hitem : lookup (K := K) axis (items ++ [item]) (items.length + 1) = .ok item :=
    lookup_eq_ok.2 ⟨Nat.succ_pos _, List.getElem?_concat_length⟩
  have hset (new : α) : (items ++ [item]).set items.length new = items ++ [new] := by simp
  rw [hitem]
  simp only [hset]
  rfl

/-- Two checks before a change, with or without the number of what is added. -/
theorem checked_numbered {α β : Type} (number : Nat) (first : Except (Error K) α)
    (second : Except (Error K) β) (put : α → β → Model K E) :
    (do
      let a ← first
      let b ← second
      return (number, put a b)).map numbered =
      (do
        let a ← first
        let b ← second
        return put a b).map fun next => numbered (number, next) := by
  cases first with
  | error error => rfl
  | ok a => cases second <;> rfl

variable [ExtendedScalar K]

/-- A block is stored if there is a place for every cell. -/
theorem loadMatrix_of_holdsBlock (h : m.HoldsBlock block) :
    m.loadMatrix block =
      .ok (m.rewritten (m.matrix.setBlock 1 block) block.flatten.isEmpty) := by
  obtain ⟨hrows, hvalues⟩ := h
  have hwidth : blockWidth block ≤ m.columnCount := by
    by_contra hlt
    obtain ⟨longest, hmem, hlength⟩ := exists_length_eq_blockWidth (Nat.lt_of_not_le hlt)
    have hle := hvalues longest hmem
    omega
  have hcells : block.flatten.isEmpty = block.all List.isEmpty := by
    rw [Bool.eq_iff_iff, ← Action.length_flatten_eq_zero_iff, List.length_eq_zero_iff,
      List.isEmpty_iff]
  rw [loadMatrix, if_neg (Nat.not_lt.2 hrows), if_neg (Nat.not_lt.2 hwidth), hcells]
  cases hempty : block.all List.isEmpty with
  | true =>
    rw [if_pos rfl, Action.setBlock_of_isEmpty _ _ hempty]
    rfl
  | false => rfl

/-- A block is refused if there is a cell without a place. -/
theorem loadMatrix_of_not_holdsBlock (h : ¬m.HoldsBlock block) :
    ∃ error, m.loadMatrix block = .error error ∧ m.RefusesBlock block error := by
  by_cases hrows : m.rowCount < block.length
  · exact ⟨_, if_pos hrows, .rows hrows⟩
  have hwidth : m.columnCount < blockWidth block := by
    by_contra hle
    refine h ⟨Nat.le_of_not_lt hrows, fun values hvalues => ?_⟩
    exact (length_le_blockWidth hvalues).trans (Nat.le_of_not_lt hle)
  obtain ⟨longest, hmem, hlength⟩ := exists_length_eq_blockWidth hwidth
  refine ⟨.blockTooLarge .column longest.length m.columnCount, ?_, ?_⟩
  · rw [loadMatrix, if_neg hrows, if_pos hwidth, hlength]
  · refine .columns (Nat.le_of_not_lt hrows) hmem (fun values hvalues => ?_) (hlength ▸ hwidth)
    rw [hlength]
    exact length_le_blockWidth hvalues

/-- One cell is written if it is there. -/
theorem setMatrixCoefficient_eq (hi : 1 ≤ i ∧ i ≤ m.rowCount) (hj : 1 ≤ j ∧ j ≤ m.columnCount)
    (value : K) :
    m.setMatrixCoefficient i j value = .ok (m.rewritten (m.matrix.set i j value) false) := by
  have hrow : m.row i = .ok (m.rows.getD (i - 1) .fresh) := lookup_of_le hi.1 hi.2 _
  have hcolumn : m.column j = .ok (m.columns.getD (j - 1) .fresh) := lookup_of_le hj.1 hj.2 _
  rw [setMatrixCoefficient, hrow, hcolumn]
  rfl

theorem edit_setRowName_appendRow (m : Model K E) (row : Row K) (name : Option String) :
    (m.appendRow row).edit (.setRowName (m.rowCount + 1) name) =
      ((checkName name).map fun name => m.appendRow { row with name }).map silent :=
  congrArg (Except.map silent) (change_last .row m.rows row (checkName name)
    (fun row name => { row with name }) fun rows => { m.appendRow row with rows })

theorem edit_setRowBound_appendRow (m : Model K E) (row : Row K) (kind : Bound.Kind)
    (lower upper : K) :
    (m.appendRow row).edit (.setRowBound (m.rowCount + 1) kind lower upper) =
      ((checkBound kind lower upper).map fun bound => m.appendRow { row with bound }).map silent :=
  congrArg (Except.map silent) (change_last .row m.rows row (checkBound kind lower upper)
    (fun row bound => { row with bound }) fun rows => { m.appendRow row with rows })

theorem edit_setColumnName_appendColumn (m : Model K E) (column : Column K)
    (name : Option String) :
    (m.appendColumn column).edit (.setColumnName (m.columnCount + 1) name) =
      ((checkName name).map fun name => m.appendColumn { column with name }).map silent :=
  congrArg (Except.map silent) (change_last .column m.columns column (checkName name)
    (fun column name => { column with name }) fun columns => { m.appendColumn column with columns })

theorem edit_setColumnBound_appendColumn (m : Model K E) (column : Column K) (kind : Bound.Kind)
    (lower upper : K) :
    (m.appendColumn column).edit (.setColumnBound (m.columnCount + 1) kind lower upper) =
      ((checkBound kind lower upper).map fun bound =>
        m.appendColumn { column with bound }).map silent :=
  congrArg (Except.map silent) (change_last .column m.columns column (checkBound kind lower upper)
    (fun column bound => { column with bound })
    fun columns => { m.appendColumn column with columns })

theorem edit_setCoefficient_appendColumn (m : Model K E) (column : Column K) (coefficient : K) :
    (m.appendColumn column).edit (.setCoefficient (m.columnCount + 1) coefficient) =
      .ok (silent (m.appendColumn { column with coefficient })) :=
  congrArg (Except.map silent) (change_last .column m.columns column (.ok coefficient)
    (fun column coefficient => { column with coefficient })
    fun columns => { m.appendColumn column with columns })

variable [Engine E K]

/-- **Operations up to the first that fails**: the model after them, or the error. -/
def attempt (m : Model K E) : List (Operation K) → Except (Error K) (Model K E)
  | [] => .ok m
  | op :: ops =>
    match m.step op with
    | (.ok _, next) => next.attempt ops
    | (.error error, _) => .error error

theorem attempt_edit (m : Model K E) (e : Edit K) (ops : List (Operation K)) :
    m.attempt (.edit e :: ops) = m.edit e >>= fun result => result.2.attempt ops := by
  cases h : m.edit e with
  | error error =>
    rw [attempt, step_edit_of_error h]
    rfl
  | ok result =>
    rw [attempt, step_edit_of_ok h]
    rfl

/-- An edit that is a check and then a change. -/
theorem attempt_checked {e : Edit K} {α : Type} {check : Except (Error K) α} {put : α → Model K E}
    (h : m.edit e = (check.map put).map silent) (ops : List (Operation K)) :
    m.attempt (.edit e :: ops) = check >>= fun a => (put a).attempt ops := by
  rw [attempt_edit, h]
  cases check <;> rfl

theorem attempt_append (m : Model K E) (ops later : List (Operation K)) :
    m.attempt (ops ++ later) = m.attempt ops >>= fun next => next.attempt later := by
  induction ops generalizing m with
  | nil => rfl
  | cons op ops ih =>
    rw [List.cons_append, attempt, attempt]
    rcases m.step op with ⟨_ | _, next⟩
    · rfl
    · exact ih next

section Blocks

/-- The cells of one row are written one after the other. -/
theorem attempt_rowWrites (hi : 1 ≤ i ∧ i ≤ m.rowCount) (hj : 1 ≤ j) (values : List K)
    (hlength : j + values.length ≤ m.columnCount + 1) :
    m.attempt (rowWrites i j values) =
      .ok (m.rewritten (m.matrix.setRow i j values) values.isEmpty) := by
  induction values generalizing m j with
  | nil => rfl
  | cons value values ih =>
    rw [List.length_cons] at hlength
    have hcell := setMatrixCoefficient_eq hi (j := j) ⟨hj, by omega⟩ value
    have hcount : (m.rewritten (m.matrix.set i j value) false).columnCount = m.columnCount := rfl
    have hcells := ih (m := m.rewritten (m.matrix.set i j value) false) hi (Nat.le_succ_of_le hj)
      (by omega)
    rw [rewritten_rewritten] at hcells
    have hwrites : rowWrites i j (value :: values) =
        .edit (.setMatrixCoefficient i j value) :: rowWrites i (j + 1) values := rfl
    rw [hwrites, attempt_edit, edit, hcell]
    exact hcells

/-- The rows of a block are written one after the other. -/
theorem attempt_blockWrites (hi : 1 ≤ i) (hlength : i + block.length ≤ m.rowCount + 1)
    (hwidth : ∀ values ∈ block, values.length ≤ m.columnCount) :
    m.attempt (blockWrites i block) =
      .ok (m.rewritten (m.matrix.setBlock i block) block.flatten.isEmpty) := by
  induction block generalizing m i with
  | nil => rfl
  | cons values block ih =>
    rw [List.length_cons] at hlength
    have hvalues := hwidth values List.mem_cons_self
    have hrow := attempt_rowWrites (m := m) ⟨hi, by omega⟩ (Nat.le_refl 1) values (by omega)
    have hcount : (m.rewritten (m.matrix.setRow i 1 values) values.isEmpty).rowCount = m.rowCount :=
      rfl
    have hrows := ih (m := m.rewritten (m.matrix.setRow i 1 values) values.isEmpty)
      (Nat.le_succ_of_le hi) (by omega) fun row hrow => hwidth row (List.mem_cons_of_mem _ hrow)
    rw [rewritten_rewritten] at hrows
    have hwrites : blockWrites i (values :: block) =
        rowWrites i 1 values ++ blockWrites (i + 1) block := rfl
    have hempty :
        (values ++ block.flatten).isEmpty = (values.isEmpty && block.flatten.isEmpty) := by
      cases values <;> rfl
    rw [hwrites, attempt_append, hrow, List.flatten_cons, hempty]
    exact hrows

/-- **Storing a block is storing its cells**, one by one and row by row, if there is a place for all
of them. The solution is lost with the first cell, whatever its value. A block with a cell without a
place is refused, and nothing is stored. -/
theorem loadMatrix_eq_cellWrites (m : Model K E) (block : List (List K)) :
    (m.HoldsBlock block → ∃ next,
      m.step (.edit (.loadMatrix block)) = (.ok .unit, next) ∧
        m.attempt (cellWrites block) = .ok next ∧
        next.solution = if block.flatten.isEmpty then m.solution else none) ∧
    (¬m.HoldsBlock block → ∃ error,
      m.step (.edit (.loadMatrix block)) = (.error error, m) ∧ m.RefusesBlock block error) := by
  constructor
  · intro h
    have hload := congrArg (Except.map silent) (loadMatrix_of_holdsBlock h)
    have hrows : 1 + block.length ≤ m.rowCount + 1 := by
      have hheld := h.1
      omega
    have hcells := attempt_blockWrites (Nat.le_refl 1) hrows h.2
    exact ⟨_, step_edit_of_ok hload, hcells, rfl⟩
  · intro h
    obtain ⟨error, herror, hrefuses⟩ := loadMatrix_of_not_holdsBlock h
    exact ⟨error, step_edit_of_error (congrArg (Except.map silent) herror), hrefuses⟩

open Exact

/-- Two rows and two columns with three coefficients, solved. -/
def threeCells : List (Operation Exact) :=
  [.edit (.addRows 2), .edit (.addColumns 2),
    .edit (.loadMatrix [[finite 1, finite 2], [finite 4]]), .solve]

theorem sameCell_tallBlock :
    let m : Model Exact (Canned Exact) := (ofEngine ⟨[]⟩).run threeCells
    (m.isSolved = true ∧ m.HoldsBlock [[], [finite 4]] ∧ ∃ next,
      m.step (.edit (.loadMatrix [[], [finite 4]])) = (.ok .unit, next) ∧
        m.attempt [.edit (.setMatrixCoefficient 2 1 (finite 4))] = .ok next ∧
        next.solution = none) ∧
    (¬m.HoldsBlock [[], [], [finite 1, finite 2, finite 3]] ∧
      m.step (.edit (.loadMatrix [[], [], [finite 1, finite 2, finite 3]])) =
        (.error (.blockTooLarge .row 3 2), m)) := by
  intro m
  have hheld : m.HoldsBlock [[], [finite 4]] := by
    refine ⟨Nat.le_refl 2, fun values hvalues => ?_⟩
    have hlength : ∀ values ∈ [[], [finite 4]], values.length ≤ 2 := by decide
    exact hlength values hvalues
  have hrows : m.rowCount = 2 := rfl
  have htall : ¬m.HoldsBlock [[], [], [finite 1, finite 2, finite 3]] := fun h => by
    have hle : 3 ≤ m.rowCount := h.1
    omega
  refine ⟨⟨rfl, hheld, (loadMatrix_eq_cellWrites m _).1 hheld⟩, htall, ?_⟩
  obtain ⟨error, hstep, hrefuses⟩ := (loadMatrix_eq_cellWrites m _).2 htall
  cases hrefuses with
  | rows => exact hstep
  | columns hle =>
    have hle : 3 ≤ m.rowCount := hle
    omega

end Blocks

section Additions

/-- **Some operations if they all succeed**, with the number of what they add, and else nothing but
the first error. -/
def allOrNothing (m : Model K E) (number : Nat) (ops : List (Operation K)) :
    Except (Error K) (Value K E) × Model K E :=
  match m.attempt ops with
  | .ok next => (.ok (.number number), next)
  | .error error => (.error error, m)

theorem step_eq_allOrNothing {e : Edit K} {number : Nat} {ops : List (Operation K)}
    (h : m.edit e = (m.attempt ops).map fun next => numbered (number, next)) :
    m.step (.edit e) = m.allOrNothing number ops := by
  rw [allOrNothing]
  cases hops : m.attempt ops with
  | error error =>
    rw [hops] at h
    exact step_edit_of_error h
  | ok next =>
    rw [hops] at h
    exact step_edit_of_ok h

/-- **A row from its parts.** -/
theorem attempt_rowParts (m : Model K E) (name : Option String) (kind : Bound.Kind)
    (lower upper : K) :
    m.attempt (rowParts (m.rowCount + 1) name kind lower upper) =
      (do
        let name ← checkName name
        let bound ← checkBound kind lower upper
        return m.appendRow { name, bound }) := by
  refine (attempt_edit ..).trans ?_
  refine (attempt_checked (edit_setRowName_appendRow m .fresh name) _).trans ?_
  refine bind_congr fun stored => ?_
  exact attempt_checked (edit_setRowBound_appendRow m ⟨stored, .free⟩ kind lower upper) []

/-- **A column from its parts.** -/
theorem attempt_columnParts (m : Model K E) (name : Option String) (kind : Bound.Kind)
    (lower upper coefficient : K) :
    m.attempt (columnParts (m.columnCount + 1) name kind lower upper coefficient) =
      (do
        let name ← checkName name
        let bound ← checkBound kind lower upper
        return m.appendColumn { name, bound, coefficient }) := by
  refine (attempt_edit ..).trans ?_
  refine (attempt_checked (edit_setColumnName_appendColumn m .fresh name) _).trans ?_
  refine bind_congr fun stored => ?_
  have hbound := edit_setColumnBound_appendColumn m ⟨stored, .fixed 0, 0⟩ kind lower upper
  refine (attempt_checked hbound _).trans ?_
  refine bind_congr fun bound => ?_
  refine (attempt_edit ..).trans ?_
  rw [edit_setCoefficient_appendColumn]
  rfl

/-- **Adding a row or a column is adding its parts**: an empty one, and then its name, its bound
and, for a column, its coefficient. If one of them is refused, so is the whole, and nothing is
added. -/
theorem additions_eq_parts (m : Model K E) (name : Option String) (kind : Bound.Kind)
    (lower upper : K) :
    ((m.step (.edit (.addRows 1))).1 = .ok (.number (m.rowCount + 1)) ∧
      m.step (.edit (.addRow name kind lower upper)) =
        m.allOrNothing (m.rowCount + 1) (rowParts (m.rowCount + 1) name kind lower upper)) ∧
    ∀ coefficient,
      (m.step (.edit (.addColumns 1))).1 = .ok (.number (m.columnCount + 1)) ∧
        m.step (.edit (.addColumn name kind lower upper coefficient)) =
          m.allOrNothing (m.columnCount + 1)
            (columnParts (m.columnCount + 1) name kind lower upper coefficient) := by
  refine ⟨⟨?_, ?_⟩, fun coefficient => ⟨?_, ?_⟩⟩
  · exact congrArg Prod.fst (step_edit_of_ok rfl)
  · refine step_eq_allOrNothing ?_
    rw [attempt_rowParts]
    exact checked_numbered ..
  · exact congrArg Prod.fst (step_edit_of_ok rfl)
  · refine step_eq_allOrNothing ?_
    rw [attempt_columnParts]
    exact checked_numbered ..

end Additions

end LinearProgram.Model
