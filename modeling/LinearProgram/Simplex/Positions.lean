/-!
# Lists by position

A program that keeps its numbers in lists reads and writes them by position. Written this way, a
step that looks outside of a list has no result, so a result says that no step did.

* `below?`, `update?`, `put?`, `overwrite?`: what can be done at a position.
* `sweep`: a loop over positions.
-/

namespace LinearProgram.Simplex

variable {α σ : Type}

/-- The number one below. There is none below zero. -/
def below? (n : Nat) : Option Nat := if n = 0 then none else some (n - 1)

/-- The list with the entry at a position changed. -/
def update? (items : List α) (k : Nat) (f : α → Option α) : Option (List α) := do
  let item ← items[k]?
  let changed ← f item
  return items.set k changed

/-- The list with the entry at a position replaced. -/
def put? (items : List α) (k : Nat) (item : α) : Option (List α) :=
  update? items k fun _ => some item

/-- The list with its first entries replaced by as many others. -/
def overwrite? (items values : List α) (count : Nat) : Option (List α) :=
  if count ≤ items.length ∧ values.length = count then some (values ++ items.drop count) else none

/-- **A loop** over the positions from `start` up to `stop`, which is not included. -/
def sweep (start stop : Nat) (step : σ → Nat → Option σ) (s : σ) : Option σ :=
  (List.range' start (stop - start)).foldlM step s

end LinearProgram.Simplex
