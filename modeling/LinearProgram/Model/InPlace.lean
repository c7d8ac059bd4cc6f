import LinearProgram.Model.Edit

/-!
# Edits in place

A model is edited in place, by a sequence of checks and writes. A check that fails ends the edit,
but what was written before it stays written: an edit is all or nothing only if its checks come
before its writes.

* `Model.Action`: what can be done to a model in place.
* `Model.Action.perform`: every edit as an action.
-/

namespace LinearProgram.Model

/-- **Actions** on a model. One that fails leaves a model, too. -/
abbrev Action (K E : Type) := EStateM (Error K) (Model K E)

namespace Action

variable {K E : Type}

/-- Looks at the model, and fails or goes on with a value. -/
def check {α : Type} (f : Model K E → Except (Error K) α) : Action K E α := fun m =>
  match f m with
  | .ok a => .ok a m
  | .error e => .error e m

/-- Changes the model. -/
def write (f : Model K E → Model K E) : Action K E Unit := fun m => .ok () (f m)

/-- Changes row `i`. -/
def writeRow (i : Nat) (f : Row K → Row K) : Action K E Unit :=
  write fun m => { m with rows := m.rows.modify (i - 1) f }

/-- Changes column `j`. -/
def writeColumn (j : Nat) (f : Column K → Column K) : Action K E Unit :=
  write fun m => { m with columns := m.columns.modify (j - 1) f }

/-- Names the model, or takes its name away. -/
def setName (name : Option String) : Action K E Unit := do
  let name ← check fun _ => checkName name
  write fun m => { m with name }

/-- Sets the direction. -/
def setDirection (direction : Direction) : Action K E Unit := do
  if (← get).direction ≠ direction then
    write fun m => { m with direction }
    write invalidate

/-- Empties the model. -/
def reset [Zero K] : Action K E Unit := do
  write fun m => { m with name := none, shift := 0 }
  write fun m => { m with rows := [], columns := [], matrix := .empty }
  write invalidate
  write fun m => { m with factorizationStale := true }

/-- Adds rows, and gives the number of the first of them. As for `Model.addRows`, the amount is
assumed small enough for all rows to be allocated: an overflow of their count is not modelled. -/
def addRows (amount : Nat) : Action K E Nat := do
  let first := (← get).rowCount + 1
  if amount = 0 then return first
  write fun m => { m with rows := m.rows ++ List.replicate amount .fresh }
  write fun m => { m with factorizationStale := true }
  write invalidate
  return first

/-- Adds columns, and gives the number of the first of them. As for `Model.addColumns`, the amount
is assumed small enough for all columns to be allocated: an overflow of their count is not
modelled. -/
def addColumns [Zero K] (amount : Nat) : Action K E Nat := do
  let first := (← get).columnCount + 1
  if amount = 0 then return first
  write fun m => { m with columns := m.columns ++ List.replicate amount .fresh }
  write invalidate
  return first

/-- Names row `i`, or takes its name away. -/
def setRowName (i : Nat) (name : Option String) : Action K E Unit := do
  let _ ← check (·.row i)
  let name ← check fun _ => checkName name
  writeRow i fun row => { row with name }

/-- Names column `j`, or takes its name away. -/
def setColumnName (j : Nat) (name : Option String) : Action K E Unit := do
  let _ ← check (·.column j)
  let name ← check fun _ => checkName name
  writeColumn j fun column => { column with name }

/-- Sets the objective coefficient of column `j`; number 0 is the constant term. -/
def setCoefficient (j : Nat) (value : K) : Action K E Unit := do
  if j = 0 then write fun m => { m with shift := value }
  else
    let _ ← check (·.column j)
    writeColumn j fun column => { column with coefficient := value }
  write invalidate

variable [ExtendedScalar K]

/-- Adds a row, and gives its number. A new row is there before it gets its name and bound. -/
def addRow (name : Option String) (kind : Bound.Kind) (lower upper : K) : Action K E Nat := do
  let name ← check fun _ => checkName name
  let bound ← check fun _ => checkBound kind lower upper
  let i ← addRows 1
  writeRow i fun _ => { name, bound }
  return i

/-- Adds a column, and gives its number. -/
def addColumn (name : Option String) (kind : Bound.Kind) (lower upper coefficient : K) :
    Action K E Nat := do
  let name ← check fun _ => checkName name
  let bound ← check fun _ => checkBound kind lower upper
  let j ← addColumns 1
  writeColumn j fun _ => { name, bound, coefficient }
  return j

/-- Sets the bound of row `i`. -/
def setRowBound (i : Nat) (kind : Bound.Kind) (lower upper : K) : Action K E Unit := do
  let _ ← check (·.row i)
  let bound ← check fun _ => checkBound kind lower upper
  writeRow i fun row => { row with bound }
  write invalidate

/-- Sets the bound of column `j`. -/
def setColumnBound (j : Nat) (kind : Bound.Kind) (lower upper : K) : Action K E Unit := do
  let _ ← check (·.column j)
  let bound ← check fun _ => checkBound kind lower upper
  writeColumn j fun column => { column with bound }
  write invalidate

/-- Stores the coefficient of row `i` and column `j`. -/
def storeCell (i j : Nat) (value : K) : Action K E Unit :=
  write fun m => { m with matrix := m.matrix.set i j value }

/-- Sets the coefficient of row `i` and column `j`. -/
def setMatrixCoefficient (i j : Nat) (value : K) : Action K E Unit := do
  let _ ← check (·.row i)
  let _ ← check (·.column j)
  storeCell i j value
  write invalidate

/-- Stores the first coefficients of row `i` from column `j` on, and counts them. -/
def storeRow (i j : Nat) : List K → Action K E Nat
  | [] => return 0
  | value :: values => do
    storeCell i j value
    let count ← storeRow i (j + 1) values
    return count + 1

/-- Stores the first coefficients of the rows from row `i` on, and counts them. -/
def storeBlock (i : Nat) : List (List K) → Action K E Nat
  | [] => return 0
  | values :: block => do
    let count ← storeRow i 1 values
    let others ← storeBlock (i + 1) block
    return count + others

/-- Stores a block of coefficients. A block without cells changes nothing. -/
def loadMatrix (block : List (List K)) : Action K E Unit := do
  let m ← get
  if m.rowCount < block.length then
    throw (.blockTooLarge .row block.length m.rowCount)
  if m.columnCount < blockWidth block then
    throw (.blockTooLarge .column (blockWidth block) m.columnCount)
  let written ← storeBlock 1 block
  if 0 < written then write invalidate

/-- An action that gives nothing but the model. -/
def quiet (action : Action K E Unit) : Action K E (Value K E) := do
  action
  return .unit

/-- An action that numbers what it adds. -/
def numbered (action : Action K E Nat) : Action K E (Value K E) := do
  let first ← action
  return .number first

/-- **Every edit as an action.** -/
def perform : Edit K → Action K E (Value K E)
  | .setName name => quiet (setName name)
  | .setDirection direction => quiet (setDirection direction)
  | .reset => quiet reset
  | .addRows amount => numbered (addRows amount)
  | .addColumns amount => numbered (addColumns amount)
  | .addRow name kind lower upper => numbered (addRow name kind lower upper)
  | .addColumn name kind lower upper coefficient =>
    numbered (addColumn name kind lower upper coefficient)
  | .setRowName i name => quiet (setRowName i name)
  | .setColumnName j name => quiet (setColumnName j name)
  | .setRowBound i kind lower upper => quiet (setRowBound i kind lower upper)
  | .setColumnBound j kind lower upper => quiet (setColumnBound j kind lower upper)
  | .setCoefficient j value => quiet (setCoefficient j value)
  | .setMatrixCoefficient i j value => quiet (setMatrixCoefficient i j value)
  | .loadMatrix block => quiet (loadMatrix block)

end Action

end LinearProgram.Model
