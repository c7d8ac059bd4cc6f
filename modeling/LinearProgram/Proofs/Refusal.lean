import LinearProgram.Engine.Canned
import LinearProgram.Proofs.Recording
import LinearProgram.Scalar.Exact

/-!
# What an error leaves behind

Questions and edits that end with an error leave the model as it was. A solve that ends with an
error has asked the engine once and given up the last solution, and leaves the rest as it was.

* `problems_callsOf`: a solve asks the engine about one program.
* `step_error`: what is left after an error.
-/

namespace LinearProgram.Model

variable {K E : Type}

/-- A solve asks the engine about the program as it stands, and does not ask again. -/
theorem problems_callsOf (m : Model K E) :
    (m.callsOf .solve).filterMap Call.problem? = [m.toProblem] := by
  rw [callsOf, List.filterMap_append]
  cases m.factorizationStale <;> rfl

variable [ExtendedScalar K] [Engine E K] {m : Model K E}

/-- **An error leaves the model as it was**, unless it comes from the engine: then the engine has
been asked once, and the last solution is gone. -/
theorem step_error {op : Operation K} {error : Error K} (h : (m.step op).1 = .error error) :
    (op ≠ .solve → (m.step op).2 = m) ∧
      (op = .solve →
        (∃ reason, error = .solveFailed reason ∧ m.Rejects reason) ∧ (m.step op).2 = m.asked ∧
          ((m.recorded []).step op).2 = m.asked.recorded (m.callsOf op) ∧
          (m.callsOf op).filterMap Call.problem? = [m.toProblem]) := by
  cases op with
  | ask q => exact ⟨fun _ => rfl, nofun⟩
  | edit e =>
    refine ⟨fun _ => ?_, nofun⟩
    rcases step_edit m e with ⟨value, next, hs, -⟩ | ⟨_, hs⟩
    · rw [hs] at h
      cases h
    · rw [hs]
  | solve =>
    refine ⟨fun hsolve => absurd rfl hsolve, fun _ => ?_⟩
    rcases step_solve m with ⟨hs, -⟩ | ⟨reason, hs, hrejects⟩
    · rw [hs] at h
      cases h
    · have hnext : (m.step .solve).2 = m.asked := congrArg Prod.snd hs
      rw [hs] at h
      cases h
      refine ⟨⟨reason, rfl, hrejects⟩, hnext, ?_, problems_callsOf m⟩
      rw [step_recorded, hnext, List.nil_append]

open Exact

/-- One row, and one column that is fixed at 3, solved. -/
def oneColumn : List (Operation Exact) :=
  [.edit (.addRows 1), .edit (.addColumn none .fixed (finite 3) (finite 0) (finite 1)), .solve]

/-- The engine answers once, and then without a value for the column. -/
def oneAnswer : Canned Exact :=
  ⟨[.optimal (finite 3) [finite 3] [finite 0], .optimal (finite 0) [] []]⟩

theorem wideBlock_shortAnswer :
    let m : Model Exact (Canned Exact) := (ofEngine oneAnswer).run oneColumn
    let load : Operation Exact := .edit (.loadMatrix [[finite 1, finite 2]])
    (m.isSolved = true ∧ (m.step load).1 = .error (.blockTooLarge .column 2 1) ∧
        (m.step load).2 = m) ∧
      (m.step .solve).1 = .error (.solveFailed .numerical) ∧ (m.step .solve).2 = m.asked := by
  intro m load
  have hload : (m.step load).1 = .error (.blockTooLarge .column 2 1) := by rfl
  have hsolve : (m.step .solve).1 = .error (.solveFailed .numerical) := by rfl
  exact ⟨⟨rfl, hload, (step_error hload).1 nofun⟩, hsolve, ((step_error hsolve).2 rfl).2.1⟩

end LinearProgram.Model
