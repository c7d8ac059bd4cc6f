import LinearProgram.Engine.Recorded
import LinearProgram.Proofs.Steps
import Mathlib.Tactic.SplitIfs

/-!
# Models with a recorded engine

A model with a recorded engine does what the model without the record does, and gives the same
answers. So the record tells what the engine of any model receives.

* `Model.recorded`: a model with the calls that its engine has received.
* `Model.callsOf`: the calls that the engine receives in one operation.
* `step_recorded`, `run_recorded`: the record grows by these calls, and nothing else changes.
-/

namespace LinearProgram.Model

variable {K E F α β γ : Type}

/-- The model with another engine. -/
def withEngine (m : Model K E) (engine : F) : Model K F := { m with engine }

/-- The model with another engine, without its solution if that is dropped, and with a stale
factorization if that is marked. -/
def withUnseen (m : Model K E) (drop mark : Bool) (engine : F) : Model K F :=
  { m with
    solution := bif drop then none else m.solution
    factorizationStale := mark || m.factorizationStale
    engine }

/-- A value as the model with another engine gives it. -/
def Value.withEngine (engine : F) : Value K E → Value K F
  | .unit => .unit
  | .truth b => .truth b
  | .number n => .number n
  | .found n => .found n
  | .name text => .name text
  | .direction d => .direction d
  | .scalar x => .scalar x
  | .bound b => .bound b
  | .problem p => .problem p
  | .solution s => .solution s
  | .engine _ => .engine engine

/-- **A model with a record** of the calls that its engine has received. -/
def recorded (m : Model K E) (calls : List (Call K)) : Model K (Recorded E K) :=
  m.withEngine ⟨m.engine, calls⟩

/-- **The calls of one operation** to the engine. -/
def callsOf (m : Model K E) : Operation K → List (Call K)
  | .solve =>
    (if m.factorizationStale then [.discardFactorization] else []) ++ [.solve m.toProblem]
  | _ => []

theorem map_map (x : Except (Error K) α) (f : α → β) (g : β → γ) :
    (x.map f).map g = x.map fun a => g (f a) := by
  cases x <;> rfl

theorem map_bind (x : Except (Error K) α) (f : α → Except (Error K) β) (g : β → γ) :
    (x >>= f).map g = x >>= fun a => (f a).map g := by
  cases x <;> rfl

variable [ExtendedScalar K]

/-- Only the question for the engine depends on the engine. -/
theorem answer_withEngine (m : Model K E) (engine : F) (q : Query) :
    (m.withEngine engine).answer q = (m.answer q).map (Value.withEngine engine) := by
  cases q <;> simp only [answer, map_map] <;> rfl

/-- **An edit does not look** at the solution, at the stale mark and at the engine. -/
theorem edit_withUnseen (m : Model K E) (drop mark : Bool) (engine : F) (e : Edit K) :
    (m.withUnseen drop mark engine).edit e =
      (m.edit e).map fun r => (r.1.withEngine engine, r.2.withUnseen drop mark engine) := by
  cases e with
  | setDirection direction =>
    by_cases h : m.direction = direction <;> cases drop <;>
      simp [edit, Model.setDirection, silent, Value.withEngine, withUnseen, Except.map, h]
  | addRows amount =>
    by_cases h : amount = 0 <;> simp only [edit, Model.addRows, h, if_true, if_false] <;>
      cases drop <;> cases mark <;> rfl
  | addColumns amount =>
    by_cases h : amount = 0 <;> simp only [edit, Model.addColumns, h, if_true, if_false] <;>
      cases drop <;> rfl
  | setCoefficient j value =>
    by_cases h : j = 0
    · simp only [edit, Model.setCoefficient, h, if_true]
      cases drop <;> rfl
    · simp only [edit, Model.setCoefficient, h, if_false, map_bind]
      cases drop <;> rfl
  | loadMatrix block =>
    have hrowCount : (m.withUnseen drop mark engine).rowCount = m.rowCount := rfl
    have hcolumnCount : (m.withUnseen drop mark engine).columnCount = m.columnCount := rfl
    simp only [edit, Model.loadMatrix, hrowCount, hcolumnCount]
    split_ifs <;> cases drop <;> rfl
  -- the other edits are checks, which do not look at these parts either, before one change
  | _ =>
    simp only [edit, Model.setName, Model.addRow, Model.addColumn, Model.setRowName,
      Model.setColumnName, Model.setRowBound, Model.setColumnBound, Model.setMatrixCoefficient,
      map_bind]
    cases drop <;> cases mark <;> rfl

theorem Edits.engine_eq {m next : Model K E} {e : Edit K} (h : Edits m e next) :
    next.engine = m.engine := by
  cases h <;> rfl

variable [Engine E K]

/-- An edit leaves the engine alone. -/
theorem engine_after_edit (m : Model K E) (e : Edit K) :
    (m.step (.edit e)).2.engine = m.engine :=
  after_edit (p := fun next => next.engine = m.engine) rfl fun _ => Edits.engine_eq

/-- An edit as an operation does not look at them either. -/
theorem step_edit_withUnseen [Engine F K] (m : Model K E) (drop mark : Bool) (engine : F)
    (e : Edit K) :
    (m.withUnseen drop mark engine).step (.edit e) =
      ((m.step (.edit e)).1.map (Value.withEngine engine),
        (m.step (.edit e)).2.withUnseen drop mark engine) := by
  have hedit := edit_withUnseen m drop mark engine e
  cases h : m.edit e with
  | error error =>
    rw [h] at hedit
    rw [step_edit_of_error h, step_edit_of_error hedit]
    rfl
  | ok result =>
    rw [h] at hedit
    rw [step_edit_of_ok h, step_edit_of_ok hedit]
    rfl

omit [ExtendedScalar K] in
theorem freshEngine_recorded (m : Model K E) (calls : List (Call K)) :
    (m.recorded calls).freshEngine =
      ⟨m.freshEngine,
        calls ++ if m.factorizationStale then [.discardFactorization] else []⟩ := by
  obtain ⟨name, direction, shift, rows, columns, matrix, solution, stale, engine⟩ := m
  cases stale with
  | true => rfl
  | false => simp [recorded, withEngine, freshEngine]

omit [ExtendedScalar K] in
theorem asked_recorded (m : Model K E) (calls : List (Call K)) :
    (m.recorded calls).asked = m.asked.recorded (calls ++ m.callsOf .solve) := by
  rw [asked, freshEngine_recorded, callsOf, ← List.append_assoc]
  rfl

/-- **The record grows by the calls of an operation**, and changes neither its result nor the
model after it. -/
theorem step_recorded (m : Model K E) (calls : List (Call K)) (op : Operation K) :
    (m.recorded calls).step op =
      ((m.step op).1.map (Value.withEngine ⟨m.engine, calls⟩),
        (m.step op).2.recorded (calls ++ m.callsOf op)) := by
  cases op with
  | ask q =>
    simp only [step, callsOf, List.append_nil]
    rw [recorded, answer_withEngine]
  | edit e =>
    refine (step_edit_withUnseen (F := Recorded E K) m false false ⟨m.engine, calls⟩ e).trans ?_
    have hquiet : calls ++ m.callsOf (.edit e) = calls := List.append_nil calls
    rw [hquiet, recorded, engine_after_edit]
    rfl
  | solve =>
    have hanswer : (m.recorded calls).engineAnswer = m.engineAnswer := by
      rw [engineAnswer, freshEngine_recorded]
      rfl
    have hcount : (m.recorded calls).columnCount = m.columnCount := rfl
    rw [step_solve_eq, step_solve_eq, hanswer, hcount, asked_recorded]
    cases accept m.columnCount m.engineAnswer <;> rfl

/-- **The record of a run** holds the calls of its operations. -/
theorem run_recorded (m : Model K E) (calls : List (Call K)) (ops : List (Operation K)) :
    (m.recorded calls).run ops =
      (m.run ops).recorded
        (calls ++ (m.history ops).flatMap fun e => e.before.callsOf e.operation) := by
  induction ops generalizing m calls with
  | nil => simp [run, history]
  | cons op ops ih =>
    have hnext : ((m.recorded calls).step op).2 = _ := congrArg Prod.snd (step_recorded m calls op)
    calc (m.recorded calls).run (op :: ops)
        = ((m.recorded calls).step op).2.run ops := rfl
      _ = ((m.step op).2.recorded (calls ++ m.callsOf op)).run ops := by rw [hnext]
      _ = _ := by rw [ih, List.append_assoc]; rfl

end LinearProgram.Model
