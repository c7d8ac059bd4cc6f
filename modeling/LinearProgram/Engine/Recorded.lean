import LinearProgram.Engine

/-!
# Recorded engines

An engine together with the list of all calls it has received. The record changes no answer, so
what a client asks of an engine can be read off a run with a recorded one.
-/

namespace LinearProgram

/-- A call that an engine receives. -/
inductive Call (K : Type) where
  | solve (p : Problem K)
  | discardFactorization
  deriving Repr, DecidableEq

/-- The problem of a call to solve. -/
def Call.problem? {K : Type} : Call K → Option (Problem K)
  | .solve p => some p
  | .discardFactorization => none

/-- **An engine with its calls**, the oldest first. -/
structure Recorded (E K : Type) where
  engine : E
  calls : List (Call K) := []

namespace Recorded

variable {E K : Type}

instance [Engine E K] : Engine (Recorded E K) K where
  solve r p :=
    let (answer, engine) := Engine.solve r.engine p
    (answer, ⟨engine, r.calls ++ [.solve p]⟩)
  discardFactorization r :=
    ⟨Engine.discardFactorization r.engine, r.calls ++ [.discardFactorization]⟩

/-- The problems that the engine was given, the oldest first. -/
def problems (r : Recorded E K) : List (Problem K) := r.calls.filterMap Call.problem?

/-- The number of calls to discard a factorization. -/
def discards (r : Recorded E K) : Nat := r.calls.countP (·.problem?.isNone)

end Recorded

end LinearProgram
