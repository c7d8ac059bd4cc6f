import LinearProgram.Solution

/-!
# Engines

An engine answers problems. It may have a state, which every call moves: an engine might keep a
factorization of the last constraint matrix, and `discardFactorization` tells it that the rows
have changed since.

* `Engine`: the two calls an engine understands.
* `Stateless`: a function from problems to solutions as an engine.
-/

namespace LinearProgram

/-- **Engines** with states in `E` for problems over `K`. -/
class Engine (E : Type) (K : outParam Type) where
  /-- Answers a problem. -/
  solve : E → Problem K → Solution K × E
  /-- Forgets what was kept of an earlier constraint matrix. An engine that keeps nothing has
  nothing to forget. -/
  discardFactorization : E → E := id

/-- An engine without memory. -/
structure Stateless (K : Type) where
  answer : Problem K → Solution K

instance (K : Type) : Engine (Stateless K) K where
  solve engine p := (engine.answer p, engine)

end LinearProgram
