import LinearProgram.Model.InPlace

/-!
# Running a model

Besides questions and edits there is one more operation, `solve`. It asks the engine exactly once,
after a stale factorization has been discarded, and keeps only an optimal solution with a value
for every column.

* `Model.Action.solve`: asks the engine.
* `Model.step`, `Model.run`: any operation, and a list of operations. An error does not end a run.
-/

namespace LinearProgram.Model

variable {K E : Type}

/-- The solution to keep of an engine's answer, if it has a value for each of `count` columns. -/
def accept (count : Nat) (answer : Solution K) : Except (Error K) (Solution K) :=
  match answer.status with
  | .failed reason => .error (.solveFailed reason)
  | .optimal =>
    if answer.columns.length = count then .ok answer else .error (.solveFailed .numerical)

namespace Action

variable [Engine E K]

/-- Tells the engine that the rows have changed, if they have. -/
def discardStale : Action K E Unit := do
  if (← get).factorizationStale then
    write fun m => { m with engine := Engine.discardFactorization m.engine }
    write fun m => { m with factorizationStale := false }

/-- Asks the engine for a solution of the linear program as it stands. -/
def askEngine : Action K E (Solution K) := do
  let m ← get
  let (answer, engine) := Engine.solve m.engine m.toProblem
  write fun m => { m with engine }
  return answer

/-- **Asks the engine**, and keeps its answer if there is nothing wrong with it. -/
def solve : Action K E Unit := do
  -- The old solution is gone from here on, even if the answer is refused.
  write invalidate
  discardStale
  let answer ← askEngine
  let s ← check fun m => accept m.columnCount answer
  write fun m => { m with solution := some s }

end Action

/-- **The operations on a model.** -/
inductive Operation (K : Type) where
  | ask (q : Query)
  | edit (e : Edit K)
  | solve
  deriving Repr, DecidableEq

/-- The result of an action, and the model it leaves. -/
def report {α : Type} :
    EStateM.Result (Error K) (Model K E) α → Except (Error K) α × Model K E
  | .ok value next => (.ok value, next)
  | .error error next => (.error error, next)

variable [ExtendedScalar K] [Engine E K]

/-- **One operation**: its result, and the model after it. -/
def step (m : Model K E) : Operation K → Except (Error K) (Value K E) × Model K E
  | .ask q => (m.answer q, m)
  | .edit e => report ((Action.perform e).run m)
  | .solve => report ((Action.quiet Action.solve).run m)

/-- **The model after a list of operations.** -/
def run (m : Model K E) (ops : List (Operation K)) : Model K E :=
  ops.foldl (fun m op => (m.step op).2) m

/-- The results of a list of operations, in order. -/
def results (m : Model K E) : List (Operation K) → List (Except (Error K) (Value K E))
  | [] => []
  | op :: ops => (m.step op).1 :: (m.step op).2.results ops

end LinearProgram.Model
