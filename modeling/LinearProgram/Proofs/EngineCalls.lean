import LinearProgram.Engine.Canned
import LinearProgram.Proofs.Recording
import LinearProgram.Scalar.Exact
import Mathlib.Data.List.DropRight

/-!
# What the engine is asked

Each solve asks the engine once. If the rows have changed since the solve before it, the engine is
told so first. Nothing else reaches the engine.

* `Event.changesRows`: the calls that change the rows.
* `protocol`: the calls that the engine is to receive in the course of a history.
* `after_stale`: one call keeps track of whether the rows have changed.
* `engine_calls`: the engine receives exactly these calls.
-/

namespace LinearProgram.Model

variable {K E : Type} [ExtendedScalar K] [Engine E K]

/-- Whether a call asks the engine. -/
def Event.isSolve (e : Event K E) : Bool :=
  match e.operation with
  | .solve => true
  | _ => false

/-- **Calls that change the rows.** One new row may be refused, and no new rows are no change. -/
def Event.changesRows (e : Event K E) : Bool :=
  match e.operation with
  | .edit .reset => true
  | .edit (.addRows amount) => 0 < amount
  | .edit (.addRow ..) => e.result.isOk
  | _ => false

/-- The calls after the newest solve, or all of them if there is none. -/
def sinceSolve (events : List (Event K E)) : List (Event K E) :=
  events.rtakeWhile (!·.isSolve)

/-- What the engine is to receive for one call that comes after others. -/
def Event.engineCalls (earlier : List (Event K E)) (e : Event K E) : List (Call K) :=
  match e.operation with
  | .solve =>
    if (sinceSolve earlier).any Event.changesRows then
      [.discardFactorization, .solve e.before.toProblem]
    else [.solve e.before.toProblem]
  | _ => []

/-- **What the engine is to receive** in the course of a history that comes after other calls. -/
def protocol (earlier : List (Event K E)) : List (Event K E) → List (Call K)
  | [] => []
  | e :: later => e.engineCalls earlier ++ protocol (earlier ++ [e]) later

omit [ExtendedScalar K] [Engine E K] in
theorem sinceSolve_concat (events : List (Event K E)) (e : Event K E) :
    sinceSolve (events ++ [e]) = if e.isSolve then [] else sinceSolve events ++ [e] := by
  cases h : e.isSolve <;> simp [sinceSolve, h]

/-- **The factorization is stale** after a call if the call has changed the rows, or if it was stale
and still is not discarded. -/
theorem after_stale (e : Event K E) :
    e.after.factorizationStale =
      (!e.isSolve && (e.before.factorizationStale || e.changesRows)) := by
  obtain ⟨m, op⟩ := e
  cases op with
  | ask q => simp [Event.after, step, Event.isSolve, Event.changesRows]
  | solve =>
    rcases step_solve m with ⟨hs, -⟩ | ⟨reason, hs, -⟩ <;>
      simp [Event.after, hs, Event.isSolve, asked]
  | edit e =>
    simp only [Event.isSolve, Bool.not_false, Bool.true_and]
    rcases step_edit m e with ⟨value, next, hs, he⟩ | ⟨error, hs⟩
    · simp only [Event.after, Event.changesRows, Event.result, hs]
      cases he with
      | reset => simp [Model.reset]
      | addRows h => simp [Nat.pos_of_ne_zero h]
      | addRow => simp [Except.isOk, Except.toBool]
      | _ => simp
    · simp only [Event.after, Event.changesRows, Event.result, hs]
      -- adding rows and emptying the model are never refused
      cases e with
      | reset => cases hs
      | addRows amount => simp [step, Action.perform_eq, edit, Action.outcome, report] at hs
      | _ => simp [Except.isOk, Except.toBool]

/-- The factorization is stale if the rows have changed since the newest solve. -/
theorem stale_concat {earlier : List (Event K E)} {e : Event K E}
    (h : e.before.factorizationStale = (sinceSolve earlier).any Event.changesRows) :
    e.after.factorizationStale = (sinceSolve (earlier ++ [e])).any Event.changesRows := by
  rw [after_stale, sinceSolve_concat, h]
  cases e.isSolve <;> simp

theorem callsOf_eq {earlier : List (Event K E)} {e : Event K E}
    (h : e.before.factorizationStale = (sinceSolve earlier).any Event.changesRows) :
    e.before.callsOf e.operation = e.engineCalls earlier := by
  obtain ⟨m, op⟩ := e
  cases op with
  | solve =>
    have h : m.factorizationStale = (sinceSolve earlier).any Event.changesRows := h
    simp only [callsOf, Event.engineCalls, ← h]
    cases m.factorizationStale <;> rfl
  | _ => rfl

/-- Calls that go by the stale mark go by the protocol. -/
theorem flatMap_callsOf_eq {m : Model K E} {earlier : List (Event K E)} (ops : List (Operation K))
    (h : m.factorizationStale = (sinceSolve earlier).any Event.changesRows) :
    (m.history ops).flatMap (fun e => e.before.callsOf e.operation) =
      protocol earlier (m.history ops) := by
  induction ops generalizing m earlier with
  | nil => rfl
  | cons op ops ih =>
    let e : Event K E := ⟨m, op⟩
    have hcalls : m.callsOf op = e.engineCalls earlier := callsOf_eq (e := e) h
    have hlater := ih (stale_concat (e := e) h)
    rw [history, List.flatMap_cons, protocol, hcalls]
    exact congrArg _ hlater

/-- **The engine receives the calls of the protocol** and no others, and a record of them changes
nothing. -/
theorem engine_calls {engine : E} {start : Model K E} (h : Constructed engine start)
    (ops : List (Operation K)) :
    (start.recorded []).run ops = (start.run ops).recorded (protocol [] (start.history ops)) := by
  have hstale : start.factorizationStale =
      (sinceSolve ([] : List (Event K E))).any Event.changesRows := by
    obtain ⟨name, stored, direction, -, rfl⟩ := h.eq_ofEngine
    rfl
  rw [run_recorded, List.nil_append, flatMap_callsOf_eq ops hstale]

open Exact

/-- Two rows, a row that is refused, a column, and a row that is not refused, with a solve after
each of them. -/
def rowByRow : List (Operation Exact) :=
  [.edit (.addRows 2), .solve, .edit (.addRow none .double (finite 1) (finite 0)), .solve,
    .edit (.addColumns 1), .solve, .edit (.addRow none .free (finite 0) (finite 0)),
    .edit (.addRows 0), .solve]

/-- The engine's answers: the first one is a failure. -/
def rowByRowAnswers : List (Solution Exact) := [.failed .infeasible]

theorem rowByRow_calls :
    let start : Model Exact (Canned Exact) := ofEngine ⟨rowByRowAnswers⟩
    let asked k := Call.solve (start.run (rowByRow.take k)).toProblem
    Constructed ⟨rowByRowAnswers⟩ start ∧
      (start.recorded []).run rowByRow =
        (start.run rowByRow).recorded
          [.discardFactorization, asked 1, asked 3, asked 5, .discardFactorization, asked 8] := by
  intro start asked
  have hstart : Constructed ⟨rowByRowAnswers⟩ start := .empty
  have hcalls : protocol [] (start.history rowByRow) =
      [.discardFactorization, asked 1, asked 3, asked 5, .discardFactorization, asked 8] := by
    decide +kernel
  exact ⟨hstart, hcalls ▸ engine_calls hstart rowByRow⟩

end LinearProgram.Model
