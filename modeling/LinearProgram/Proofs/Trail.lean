import LinearProgram.Proofs.Phases
import LinearProgram.Proofs.InitialTableau

/-!
# Every pivot of a run

A run within a budget comes to one place after the other. Over the rationals and without tolerance
each of these places is a dictionary again, with the vectors and the objective of the first tableau,
and from place to place the right-hand side of the objective row falls or stays.

* `Walk.trail`: the places that a run comes to.
* `isChain_trail`, `run_eq_trail`: they are one pivot apart, and the run ends at the last of them.
* `Equivalent`: what two tableaus have in common, as lists of numbers see it.
* `Lowers`: what one pivot does to the objective row.
* `run_invariant`: what holds at every place of a run.
-/

namespace LinearProgram.Simplex

open Scalar

namespace Walk

variable {K : Type} [Scalar K] {tolerance : K} {limit : ℕ}

/-- **The places that a run comes to**, after the place where it starts. -/
def trail (tolerance : K) (limit : ℕ) : ℕ → Walk K → List (Walk K)
  | 0, _ => []
  | budget + 1, w =>
    match w.move tolerance limit with
    | .pivot next => next :: trail tolerance limit budget next
    | _ => []

/-- **Each place of a run is one pivot after the one before it.** -/
theorem isChain_trail (tolerance : K) (limit budget : ℕ) (w : Walk K) :
    List.IsChain (Step tolerance limit) (w :: trail tolerance limit budget w) := by
  induction budget generalizing w with
  | zero => exact .singleton w
  | succ budget ih =>
    cases h : w.move tolerance limit with
    | pivot next =>
      simp only [trail, h]
      exact .cons_cons h (ih next)
    | _ =>
      simp only [trail, h]
      exact .singleton w

/-- **A run makes one pivot for each place and ends at the last one.** -/
theorem run_eq_trail (tolerance : K) (limit budget : ℕ) (w : Walk K) :
    (run tolerance limit budget w).pivots = (trail tolerance limit budget w).length ∧
      (run tolerance limit budget w).tableau =
        ((trail tolerance limit budget w).getLastD w).tableau := by
  induction budget generalizing w with
  | zero => cases h : w.move tolerance limit <;> simp [run, trail, h]
  | succ budget ih =>
    cases h : w.move tolerance limit with
    | pivot next =>
      obtain ⟨hpivots, htableau⟩ := ih next
      simp only [run, trail, h, List.length_cons, List.getLastD_cons]
      exact ⟨by rw [hpivots], htableau⟩
    | _ => simp [run, trail, h]

/-- Every place of a run is reached by pivots. -/
theorem reaches_of_mem_trail {budget : ℕ} {w x : Walk K}
    (h : x ∈ trail tolerance limit budget w) : Reaches tolerance limit w x := by
  induction budget generalizing w with
  | zero => cases h
  | succ budget ih =>
    cases hm : w.move tolerance limit with
    | pivot next =>
      simp only [trail, hm, List.mem_cons] at h
      rcases h with rfl | h
      · exact .single hm
      · exact .head hm (ih h)
    | _ => simp [trail, hm] at h

end Walk

/-- By how much the left side of an equation exceeds the right side at a vector. -/
def Equation.excess {K : Type} [Scalar K] (e : Equation K) (x : List K) : K :=
  dot e.coefficients x - e.rhs

namespace Tableau

variable {t t' : Tableau ℚ} {x : List ℚ}

/-- **Equivalent tableaus** have the same vectors, and their objective rows are the same linear
function there. -/
structure Equivalent (t t' : Tableau ℚ) : Prop where
  solves : ∀ x, t'.Solves x ↔ t.Solves x
  objective : ∀ x, t.Solves x → t'.objective.excess x = t.objective.excess x

theorem excess_eq_residual (e : Equation ℚ) (x : List ℚ) :
    e.excess x = e.residual fun j => x.getD j 0 := by
  rw [Equation.excess, dot_eq_sum]
  rfl

/-- A vector solves a tableau if its numbers do, one for each column. -/
theorem solves_iff :
    t.Solves x ↔ x.length = t.columnCount ∧ t.SolvedBy fun j => x.getD j 0 := by
  have hrow : ∀ row : BasicRow ℚ, row.toEquation.Holds x ↔
      row.residual (fun j => x.getD j 0) = 0 := by
    intro row
    rw [← excess_eq_residual, Equation.excess, Equation.Holds, beq_iff_eq, sub_eq_zero]
  constructor
  · rintro ⟨hlength, hholds⟩
    exact ⟨hlength, fun row hmem => (hrow row).1 (hholds row hmem)⟩
  · rintro ⟨hlength, hsolved⟩
    exact ⟨hlength, fun row hmem => (hrow row).2 (hsolved row hmem)⟩

theorem Agrees.equivalent (h : t.Agrees t') : t.Equivalent t' where
  solves x := by rw [solves_iff, solves_iff, h.columnCount, h.solvedBy]
  objective x hx := by
    rw [excess_eq_residual, excess_eq_residual, h.objective _ (solves_iff.1 hx).2]

end Tableau

/-- **What a pivot does to the objective row**: its right-hand side does not rise, and it falls
unless the right-hand side of the pivot row is zero. -/
structure Lowers (limit : ℕ) (w next : Walk ℚ) (c r : ℕ) (row : BasicRow ℚ) : Prop where
  exchange : Walk.Exchange limit w next c r row
  le : next.tableau.objective.rhs ≤ w.tableau.objective.rhs
  lt : row.rhs ≠ 0 → next.tableau.objective.rhs < w.tableau.objective.rhs

namespace Walk

variable {limit : ℕ} {w next : Walk ℚ}

theorem Step.lowers (hc : w.tableau.Canonical) (h : Step 0 limit w next) :
    ∃ c r row, Lowers limit w next c r row := by
  obtain ⟨c, r, row, hx⟩ := h.exchange hc
  exact ⟨c, r, row, hx, hx.objective_rhs_le hc, hx.objective_rhs_lt hc⟩

/-- **What holds at every place of a run** that starts at a dictionary, whatever columns may enter
and whatever the budget. -/
theorem run_invariant (t : Tableau ℚ) (ht : t.Dictionary) (limit budget : ℕ) :
    let start : Walk ℚ := { tableau := t }
    let places := trail 0 limit budget start
    ((run 0 limit budget start).pivots = places.length ∧
      (run 0 limit budget start).tableau = (places.getLastD start).tableau) ∧
    (∀ w ∈ places, w.tableau.Dictionary ∧ t.Equivalent w.tableau) ∧
    List.IsChain (fun w next => ∃ c r row, Lowers limit w next c r row) (start :: places) := by
  intro start places
  have hplaces : ∀ w ∈ places, w.tableau.Dictionary ∧ t.Equivalent w.tableau := by
    intro w hw
    obtain ⟨hd, ha⟩ := reaches_dictionary (reaches_of_mem_trail hw) ht
    exact ⟨hd, ha.equivalent⟩
  refine ⟨run_eq_trail 0 limit budget start, hplaces, ?_⟩
  -- a pivot does this where the place before it is canonical
  refine (isChain_trail 0 limit budget start).imp_of_mem_imp fun w next hw _ hstep => ?_
  refine hstep.lowers ?_
  rcases List.mem_cons.1 hw with rfl | hw
  · exact ht.toCanonical
  · exact (hplaces w hw).1.toCanonical

/-- A tableau where the first pivot makes no progress and the second one does. -/
def tightStart : Tableau ℚ :=
  .ofStandardForm
    { varCount := 2
      direction := .maximize
      objective := [2, 1]
      constraints := [⟨[1, -1], .le, 0⟩, ⟨[1, 1], .le, 4⟩]
      columns := [⟨0, [1]⟩, ⟨0, [1]⟩] }

theorem tightStart_invariant :
    let start : Walk ℚ := { tableau := tightStart }
    let places := trail 0 4 10 start
    tightStart.Dictionary ∧ places.length = 2 ∧
      (run 0 4 10 start).tableau.objective.rhs = -6 ∧
      (∀ w ∈ places, w.tableau.Dictionary ∧ tightStart.Equivalent w.tableau) ∧
      List.IsChain (fun w next => ∃ c r row, Lowers 4 w next c r row) (start :: places) := by
  intro start places
  have ht : tightStart.Dictionary := Tableau.ofStandardForm_dictionary ⟨by decide, rfl⟩
  obtain ⟨-, hplaces, hchain⟩ := run_invariant tightStart ht 4 10
  exact ⟨ht, by decide +kernel, by decide +kernel, hplaces, hchain⟩

end Walk

end LinearProgram.Simplex
