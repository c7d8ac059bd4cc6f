import Mathlib.Data.List.DropRight
import LinearProgram.Model.Run

/-!
# Histories

A history is the list of all calls that a model has received, the oldest first, each with the model
as the call found it.

* `Event`: one call.
* `newest`: what the newest of some calls gives.
* `sinceReset`: the calls since the model was last emptied.
* `Model.history`: the calls of a run.
* `Constructed`: the models that a history can start from.
-/

namespace LinearProgram.Model

variable {K E : Type}

/-- **A call**: an operation and the model that it is called on. -/
structure Event (K E : Type) where
  before : Model K E
  operation : Operation K

/-- **What the newest call gives**, of those calls that give anything. -/
def newest {α : Type} (gives : Event K E → Option α) (events : List (Event K E)) : Option α :=
  events.reverse.findSome? gives

theorem newest_concat {α : Type} (gives : Event K E → Option α) (events : List (Event K E))
    (e : Event K E) : newest gives (events ++ [e]) = (gives e).or (newest gives events) := by
  cases h : gives e <;> simp [newest, h]

/-- Whether a call empties the model. -/
def Event.isReset (e : Event K E) : Bool :=
  match e.operation with
  | .edit .reset => true
  | _ => false

/-- The calls after the newest one that empties the model, or all of them if there is none. -/
def sinceReset (events : List (Event K E)) : List (Event K E) := events.rtakeWhile (!·.isReset)

theorem sinceReset_concat (events : List (Event K E)) (e : Event K E) :
    sinceReset (events ++ [e]) = if e.isReset then [] else sinceReset events ++ [e] := by
  cases h : e.isReset <;> simp [sinceReset, h]

variable [ExtendedScalar K]

/-- **The new models** with an engine: an empty one, and those made with a name and a direction. -/
inductive Constructed (engine : E) : Model K E → Prop
  | empty : Constructed engine (ofEngine engine)
  | named {name direction m} (h : create engine name direction = .ok m) : Constructed engine m

variable [Engine E K]

/-- The result of a call. -/
def Event.result (e : Event K E) : Except (Error K) (Value K E) := (e.before.step e.operation).1

/-- The model after a call. -/
def Event.after (e : Event K E) : Model K E := (e.before.step e.operation).2

/-- **The history of a run.** -/
def history (m : Model K E) : List (Operation K) → List (Event K E)
  | [] => []
  | op :: ops => ⟨m, op⟩ :: (m.step op).2.history ops

theorem run_append (m : Model K E) (ops later : List (Operation K)) :
    m.run (ops ++ later) = (m.run ops).run later := List.foldl_append

theorem results_append (m : Model K E) (ops later : List (Operation K)) :
    m.results (ops ++ later) = m.results ops ++ (m.run ops).results later := by
  induction ops generalizing m with
  | nil => rfl
  | cons op ops ih => exact congrArg (_ :: ·) (ih (m.step op).2)

theorem run_concat (m : Model K E) (ops : List (Operation K)) (op : Operation K) :
    m.run (ops ++ [op]) = ((m.run ops).step op).2 := by
  simp [run]

theorem history_concat (m : Model K E) (ops : List (Operation K)) (op : Operation K) :
    m.history (ops ++ [op]) = m.history ops ++ [⟨m.run ops, op⟩] := by
  induction ops generalizing m with
  | nil => rfl
  | cons first ops ih => simp [history, ih, run]

end LinearProgram.Model
