import LinearProgram.Proofs.Budget
import LinearProgram.Proofs.Walk

/-!
# What both phases keep

All that the two phases do to a tableau is to pivot and to replace the objective row. So a property
that is kept by each of these is kept by a whole walk, by driving out artificial variables, and by
both phases, whatever the arithmetic, the tolerance and the budget, and however the phases end.

* `Kept`: properties kept by a pivot and by another objective row.
* `Kept.step`, `Kept.run`: one move, and a whole walk.
* `Kept.driveOut`, `Kept.firstPhase`, `Kept.optimize`: the other steps, and both phases.
-/

namespace LinearProgram.Simplex

variable {K : Type} [Scalar K] {tolerance : K} {P : Tableau K → Prop}

/-- **Whether a property of tableaus is kept** by every pivot, and by another objective row. -/
structure Kept (tolerance : K) (P : Tableau K → Prop) : Prop where
  pivot : ∀ {t t' : Tableau K} {r c : Nat}, t.pivot tolerance r c = some t' → P t → P t'
  objective : ∀ {t : Tableau K} (objective : Equation K), P t → P { t with objective }

namespace Kept

section Steps

variable {w last next : Walk K} {t t' : Tableau K} {limit : Nat}

theorem step (h : Kept tolerance P) (hstep : Walk.Step tolerance limit w next)
    (hw : P w.tableau) : P next.tableau := by
  unfold Walk.Step Walk.move at hstep
  -- only the last branch of a move is a pivot
  split at hstep
  · cases hstep
  split at hstep
  · cases hstep
  split at hstep
  · cases hstep
  · next hpivot =>
    cases hstep
    exact h.pivot hpivot hw

/-- **Any number of pivots** keeps what one keeps. -/
theorem reaches (h : Kept tolerance P) (hreach : Walk.Reaches tolerance limit w last)
    (hw : P w.tableau) : P last.tableau := by
  induction hreach with
  | refl => exact hw
  | tail _ hstep ih => exact h.step hstep ih

theorem run (h : Kept tolerance P) (limit budget : Nat) (hw : P w.tableau) :
    P (Walk.run tolerance limit budget w).tableau := by
  obtain ⟨last, hreach, hlast, -⟩ := Walk.run_ends tolerance limit budget w
  rw [hlast]
  exact h.reaches hreach hw

theorem driveOutRow (h : Kept tolerance P) {r : Nat} (hrow : t.driveOutRow tolerance r = some t')
    (ht : P t) : P t' := by
  unfold Tableau.driveOutRow at hrow
  split at hrow
  · cases hrow
    exact ht
  split at hrow
  · split at hrow
    · cases hrow
      exact ht
    · exact h.pivot hrow ht
  · cases hrow
    exact ht

/-- Driving out artificial variables keeps what a pivot keeps. -/
theorem driveOut (h : Kept tolerance P) (hdriven : t.driveOut tolerance = some t') (ht : P t) :
    P t' := by
  unfold Tableau.driveOut at hdriven
  generalize List.range t.rows.length = rows at hdriven
  induction rows generalizing t with
  | nil =>
    cases hdriven
    exact ht
  | cons r rows ih =>
    rw [List.foldlM_cons] at hdriven
    obtain ⟨next, hnext, hrest⟩ := Option.bind_eq_some_iff.1 hdriven
    exact ih (h.driveOutRow hnext ht) hrest

/-- The first phase keeps it, however it ends. -/
theorem firstPhase (h : Kept tolerance P) (budget : Nat) (ht : P t) :
    P (t.firstPhase tolerance budget).tableau := by
  have hsearch : P (Walk.run tolerance t.columnCount budget { tableau := t.auxiliary }).tableau :=
    h.run _ budget (h.objective _ ht)
  rw [Tableau.firstPhase, Tableau.conclude]
  split
  · exact hsearch
  · exact hsearch
  split
  · exact hsearch
  split
  · exact hsearch
  · next driven hdriven => exact h.objective _ (h.driveOut hdriven hsearch)

end Steps

/-- **Both phases keep it**, however they end. -/
theorem optimize {method : Simplex K} {t : Tableau K} (h : Kept method.tolerance P) (ht : P t) :
    P (method.optimize t).tableau := by
  have hfirst := h.firstPhase method.maxIterations ht
  unfold Simplex.optimize
  split
  · exact h.run _ _ ht
  simp only
  split
  · exact hfirst
  · exact h.run _ _ hfirst

end Kept

end LinearProgram.Simplex
