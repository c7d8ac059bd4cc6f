import LinearProgram.Model.Query

/-!
# Edits of a model

An edit gives a new model, or an error and no model. An edit that may change the program drops the
solution; naming does not change the program. An edit that may change the rows marks the engine's
factorization as stale.

Rows and columns are counted by natural numbers. A program keeps these counts in machine words, so
what is added is assumed small enough to be allocated: no sum of a count and an amount leaves the
range of a word, and what would happen if one did is not modelled.

* `Model.checkName`, `Model.checkBound`: what may be stored.
* `Edit`, `Model.edit`: every edit, with its result as a `Value`.
-/

namespace LinearProgram.Model

variable {K E : Type}

/-- The model without its solution. -/
def invalidate (m : Model K E) : Model K E := { m with solution := none }

/-- The name to store. An empty one counts as none, and a long one is refused. -/
def checkName : Option String → Except (Error K) (Option String)
  | none => .ok none
  | some name =>
    if name = "" then .ok none
    else if maxNameLength < name.length then .error (.nameTooLong name.length)
    else .ok (some name)

/-- The model with another name, or with none. -/
def setName (m : Model K E) (name : Option String) : Except (Error K) (Model K E) := do
  let name ← checkName name
  return { m with name }

/-- The model with another direction. -/
def setDirection (m : Model K E) (direction : Direction) : Model K E :=
  if m.direction = direction then m else { m with direction, solution := none }

/-- An empty model with the same direction and engine. -/
def reset [Zero K] (m : Model K E) : Model K E :=
  { ofEngine m.engine with direction := m.direction, factorizationStale := true }

/-- The model with further rows, and the number of the first of them. The amount is assumed small
enough for all rows to be allocated: an overflow of their count is not modelled. -/
def addRows (m : Model K E) (amount : Nat) : Nat × Model K E :=
  (m.rowCount + 1,
    if amount = 0 then m
    else
      { m with
        rows := m.rows ++ List.replicate amount .fresh
        solution := none
        factorizationStale := true })

/-- The model with further columns, and the number of the first of them. The amount is assumed small
enough for all columns to be allocated: an overflow of their count is not modelled. -/
def addColumns [Zero K] (m : Model K E) (amount : Nat) : Nat × Model K E :=
  (m.columnCount + 1,
    if amount = 0 then m
    else { m with columns := m.columns ++ List.replicate amount .fresh, solution := none })

/-- The model with another name for row `i`, or with none. -/
def setRowName (m : Model K E) (i : Nat) (name : Option String) :
    Except (Error K) (Model K E) := do
  let row ← m.row i
  let name ← checkName name
  return { m with rows := m.rows.set (i - 1) { row with name } }

/-- The model with another name for column `j`, or with none. -/
def setColumnName (m : Model K E) (j : Nat) (name : Option String) :
    Except (Error K) (Model K E) := do
  let column ← m.column j
  let name ← checkName name
  return { m with columns := m.columns.set (j - 1) { column with name } }

/-- The model with another objective coefficient for column `j`; number 0 is the constant term. -/
def setCoefficient (m : Model K E) (j : Nat) (value : K) : Except (Error K) (Model K E) :=
  if j = 0 then .ok { m with shift := value, solution := none }
  else do
    let column ← m.column j
    let columns := m.columns.set (j - 1) { column with coefficient := value }
    return { m with columns, solution := none }

variable [ExtendedScalar K]

/-- The bound to store. One that is not consistent is refused. -/
def checkBound (kind : Bound.Kind) (lower upper : K) : Except (Error K) (Bound K) :=
  let bound := Bound.ofParts kind lower upper
  if bound.consistent then .ok bound else .error (.inconsistentBound lower upper)

/-- The model with one further row, and its number. -/
def addRow (m : Model K E) (name : Option String) (kind : Bound.Kind) (lower upper : K) :
    Except (Error K) (Nat × Model K E) := do
  let name ← checkName name
  let bound ← checkBound kind lower upper
  let rows := m.rows ++ [⟨name, bound⟩]
  return (m.rowCount + 1, { m with rows, solution := none, factorizationStale := true })

/-- The model with one further column, and its number. -/
def addColumn (m : Model K E) (name : Option String) (kind : Bound.Kind) (lower upper : K)
    (coefficient : K) : Except (Error K) (Nat × Model K E) := do
  let name ← checkName name
  let bound ← checkBound kind lower upper
  let columns := m.columns ++ [⟨name, bound, coefficient⟩]
  return (m.columnCount + 1, { m with columns, solution := none })

/-- The model with another bound for row `i`. -/
def setRowBound (m : Model K E) (i : Nat) (kind : Bound.Kind) (lower upper : K) :
    Except (Error K) (Model K E) := do
  let row ← m.row i
  let bound ← checkBound kind lower upper
  return { m with rows := m.rows.set (i - 1) { row with bound }, solution := none }

/-- The model with another bound for column `j`. -/
def setColumnBound (m : Model K E) (j : Nat) (kind : Bound.Kind) (lower upper : K) :
    Except (Error K) (Model K E) := do
  let column ← m.column j
  let bound ← checkBound kind lower upper
  return { m with columns := m.columns.set (j - 1) { column with bound }, solution := none }

/-- The model with another coefficient for row `i` and column `j`. -/
def setMatrixCoefficient (m : Model K E) (i j : Nat) (value : K) :
    Except (Error K) (Model K E) := do
  let _ ← m.row i
  let _ ← m.column j
  return { m with matrix := m.matrix.set i j value, solution := none }

/-- The length of the longest row of a block. -/
def blockWidth (block : List (List K)) : Nat := (block.map List.length).foldl max 0

/-- The model with the first rows and columns of its matrix replaced by a block. The rows of the
block may differ in length, and a block without cells changes nothing. -/
def loadMatrix (m : Model K E) (block : List (List K)) : Except (Error K) (Model K E) :=
  if m.rowCount < block.length then
    .error (.blockTooLarge .row block.length m.rowCount)
  else if m.columnCount < blockWidth block then
    .error (.blockTooLarge .column (blockWidth block) m.columnCount)
  else if block.all List.isEmpty then .ok m
  else .ok { m with matrix := m.matrix.setBlock 1 block, solution := none }

/-- An empty model with the given engine, name and direction. -/
def create (engine : E) (name : Option String) (direction : Direction) :
    Except (Error K) (Model K E) := do
  let m ← (ofEngine engine).setName name
  return m.setDirection direction

/-- **The edits of a model.** -/
inductive Edit (K : Type) where
  | setName (name : Option String)
  | setDirection (direction : Direction)
  | reset
  | addRows (amount : Nat)
  | addColumns (amount : Nat)
  | addRow (name : Option String) (kind : Bound.Kind) (lower upper : K)
  | addColumn (name : Option String) (kind : Bound.Kind) (lower upper coefficient : K)
  | setRowName (i : Nat) (name : Option String)
  | setColumnName (j : Nat) (name : Option String)
  | setRowBound (i : Nat) (kind : Bound.Kind) (lower upper : K)
  | setColumnBound (j : Nat) (kind : Bound.Kind) (lower upper : K)
  | setCoefficient (j : Nat) (value : K)
  | setMatrixCoefficient (i j : Nat) (value : K)
  | loadMatrix (block : List (List K))
  deriving Repr, DecidableEq

/-- The result of an edit that numbers what it adds. -/
def numbered (result : Nat × Model K E) : Value K E × Model K E := (.number result.1, result.2)

/-- The result of an edit that gives nothing but the model. -/
def silent (m : Model K E) : Value K E × Model K E := (.unit, m)

/-- **The result of an edit.** -/
def edit (m : Model K E) : Edit K → Except (Error K) (Value K E × Model K E)
  | .setName name => (m.setName name).map silent
  | .setDirection direction => .ok (silent (m.setDirection direction))
  | .reset => .ok (silent m.reset)
  | .addRows amount => .ok (numbered (m.addRows amount))
  | .addColumns amount => .ok (numbered (m.addColumns amount))
  | .addRow name kind lower upper => (m.addRow name kind lower upper).map numbered
  | .addColumn name kind lower upper coefficient =>
    (m.addColumn name kind lower upper coefficient).map numbered
  | .setRowName i name => (m.setRowName i name).map silent
  | .setColumnName j name => (m.setColumnName j name).map silent
  | .setRowBound i kind lower upper => (m.setRowBound i kind lower upper).map silent
  | .setColumnBound j kind lower upper => (m.setColumnBound j kind lower upper).map silent
  | .setCoefficient j value => (m.setCoefficient j value).map silent
  | .setMatrixCoefficient i j value => (m.setMatrixCoefficient i j value).map silent
  | .loadMatrix block => (m.loadMatrix block).map silent

end LinearProgram.Model
