import LinearProgram.Engine

/-!
# Canned answers

An engine that does not look at its problems: it gives answers from a list, in order, and when
the list is used up it calls the point zero optimal.
-/

namespace LinearProgram

/-- An engine with the answers still to be given. -/
structure Canned (K : Type) where
  answers : List (Solution K)

namespace Canned

variable {K : Type} [ExtendedScalar K]

/-- The answer after the last one of the list: zero in every column and row. -/
def fallback (p : Problem K) : Solution K :=
  .optimal p.shift (Scalar.zeros p.numColumns) (Scalar.zeros p.numRows)

instance : Engine (Canned K) K where
  solve engine p :=
    match engine.answers with
    | [] => (fallback p, engine)
    | answer :: rest => (answer, ⟨rest⟩)

end Canned

end LinearProgram
