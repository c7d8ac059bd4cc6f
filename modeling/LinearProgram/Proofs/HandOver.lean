import LinearProgram.Proofs.Trail

/-!
# From the first phase to the second

When the first phase succeeds, a row that still has an artificial basic variable is idle: its
right-hand side is zero, and so are its coefficients before the artificial columns. The objective
that is put back is the old one less multiples of the rows. In the second phase no such row can
leave, and a pivot finds nothing in it to remove. So these rows stay as they are to the end, and all
artificial variables stay zero.

* `Equation.LessMultiples`: an equation less multiples of rows.
* `HandedOver`: what the second phase starts from.
* `Pivots.sameArtificialRows`, `Walk.reaches_sameArtificialRows`: what one pivot and any number of
  pivots of the second phase do to the rows with artificial basic variables.
* `AtRest`: what holds of the artificial variables at each place of the second phase.
* `phases_hand_over`: both together, for the tableau of a standard form.
-/

namespace LinearProgram.Simplex

open Scalar

/-- **Whether an equation is another one less multiples of rows**, one factor for each row. -/
def Equation.LessMultiples (rows : List (BasicRow ℚ)) (e e' : Equation ℚ) : Prop :=
  ∃ factors : List ℚ, factors.length = rows.length ∧
    (∀ j, e'.coefficient j = e.coefficient j -
      (List.zipWith (fun factor row => factor * row.coefficient j) factors rows).sum) ∧
    e'.rhs = e.rhs - (List.zipWith (fun factor row => factor * row.rhs) factors rows).sum

namespace Tableau

variable {t t' : Tableau ℚ} {row : BasicRow ℚ}

/-- **Pricing out subtracts a multiple of each row.** -/
theorem foldl_priceOut_lessMultiples {rows : List (BasicRow ℚ)} {o : Equation ℚ}
    (h : ∀ row ∈ rows, row.coefficients.length = o.coefficients.length) :
    o.LessMultiples rows (rows.foldl (priceOut 0) o) := by
  induction rows generalizing o with
  | nil => exact ⟨[], rfl, fun j => by simp, by simp⟩
  | cons row rows ih =>
    have hrow := (h row List.mem_cons_self).symm
    have hlen := Equation.length_minus hrow (o.coefficient row.basic)
    obtain ⟨factors, hcount, hcoefficient, hrhs⟩ :=
      ih (o := o.minus (o.coefficient row.basic) row.toEquation)
        fun r hr => by rw [hlen, h r (List.mem_cons_of_mem _ hr)]
    -- the factor of this row is the coefficient that it removes
    refine ⟨o.coefficient row.basic :: factors, by simp [hcount], fun j => ?_, ?_⟩
    · rw [List.foldl_cons, priceOut_eq_minus hrow, hcoefficient, Equation.coefficient_minus hrow,
        List.zipWith_cons_cons, List.sum_cons]
      ring
    · rw [List.foldl_cons, priceOut_eq_minus hrow, hrhs, List.zipWith_cons_cons, List.sum_cons]
      simp only [Equation.minus]
      ring

/-- **What the first phase hands over**: rows with artificial basic variables are idle, and the
objective row is that of `t` less multiples of the rows, without the basic variables. -/
structure HandedOver (t handed : Tableau ℚ) : Prop where
  idle : ∀ row ∈ handed.rows, handed.artificialStart ≤ row.basic →
    row.rhs = 0 ∧ ∀ j < handed.artificialStart, row.coefficient j = 0
  priced : ∀ row ∈ handed.rows, handed.objective.coefficient row.basic = 0
  objective : t.objective.LessMultiples handed.rows handed.objective

/-- A first phase that succeeds ends by putting the objective back. -/
theorem exists_driven {budget : ℕ} :
    (t.firstPhase 0 budget).status = .optimal → ∃ driven : Tableau ℚ,
      (t.firstPhase 0 budget).tableau = driven.withObjective 0 t.objective := by
  rw [firstPhase, conclude]
  split
  · intro h
    cases h
  · next hreason =>
    intro h
    rw [hreason] at h
    cases h
  split
  · intro h
    cases h
  split
  · intro h
    cases h
  · next driven _ => exact fun _ => ⟨driven, rfl⟩

/-- **A first phase that succeeds** hands over a settled dictionary. -/
theorem firstPhase_handsOver (hd : t.Dictionary) {budget : ℕ}
    (h : (t.firstPhase 0 budget).status = .optimal) :
    let handed := (t.firstPhase 0 budget).tableau
    handed.Dictionary ∧ handed.Settled ∧ t.HandedOver handed := by
  intro handed
  obtain ⟨driven, hdriven⟩ := exists_driven h
  rcases firstPhase_spec hd budget with ⟨-, hdict, hset, hagree⟩ | ⟨hs, -⟩ | ⟨hs, -⟩
  · refine ⟨hdict, hset, hset, hdict.priced, ?_⟩
    -- putting the objective back leaves the rows alone
    have hrows : handed.rows = driven.rows := (congrArg Tableau.rows hdriven :)
    have hobjective : handed.objective = driven.rows.foldl (priceOut 0) t.objective :=
      (congrArg Tableau.objective hdriven :)
    rw [hobjective, ← hrows]
    refine foldl_priceOut_lessMultiples fun row hrow => ?_
    rw [(hdict.shaped.rows row hrow).1, hagree.columnCount, hd.shaped.objective]
  · rw [h] at hs
    cases hs
  · rw [h] at hs
    cases hs

/-- **Whether two tableaus have the same rows with artificial basic variables**, at the same
places. -/
def SameArtificialRows (t t' : Tableau ℚ) : Prop :=
  ∀ (i : ℕ) (row : BasicRow ℚ), t.artificialStart ≤ row.basic →
    (t'.rows[i]? = some row ↔ t.rows[i]? = some row)

/-- **A pivot at a column before the artificial ones leaves idle rows as they are.** They have
nothing in that column, neither to divide by nor to remove. -/
theorem Pivots.sameArtificialRows {r c : ℕ} (h : t.Pivots r c row t') (hc : c < t.artificialStart)
    (hset : t.Settled) : t.SameArtificialRows t' := by
  intro i other hart
  have hplace : t'.rows[i]? = t.rows[i]?.map fun old =>
      if i = r then { row.toEquation.divide (row.coefficient c) with basic := c }
      else { old.toEquation.eliminate (row.toEquation.divide (row.coefficient c)) c with
        basic := old.basic } := by
    rw [h.eq]
    simp [exchange, List.getElem?_mapIdx]
  have hkept : ∀ old ∈ t.rows, t.artificialStart ≤ old.basic →
      ({ old.toEquation.eliminate (row.toEquation.divide (row.coefficient c)) c with
        basic := old.basic } : BasicRow ℚ) = old := by
    intro old hold hold'
    have hzero := (hset old hold hold').2 c hc
    rw [Equation.eliminate, if_pos (by simpa using hzero)]
  rw [hplace, Option.map_eq_some_iff]
  constructor
  · rintro ⟨old, hold, rfl⟩
    by_cases hi : i = r
    · simp only [if_pos hi] at hart
      omega
    · simp only [if_neg hi] at hart ⊢
      rw [hold, hkept old (List.mem_of_getElem? hold) hart]
  · intro hother
    have hmem := List.mem_of_getElem? hother
    have hi : i ≠ r := by
      rintro rfl
      obtain rfl : row = other := Option.some.inj (h.row_eq.symm.trans hother)
      exact h.ne_zero ((hset row hmem hart).2 c hc)
    exact ⟨other, hother, by rw [if_neg hi, hkept other hmem hart]⟩

/-- A row with an artificial basic variable does not leave for a column before the artificial
ones. -/
theorem basic_lt_of_leaving (hc : t.Canonical) (hset : t.Settled) {rule : PivotRule} {c r : ℕ}
    (hlt : c < t.artificialStart) (h : t.leaving 0 rule c = some r) :
    ∃ row, t.rows[r]? = some row ∧ row.basic < t.artificialStart := by
  obtain ⟨row, hrow, hpos, -⟩ := leaving_eq_some hc.nonneg h
  refine ⟨row, hrow, ?_⟩
  by_contra hart
  have hzero := (hset row (List.mem_of_getElem? hrow) (not_lt.1 hart)).2 c hlt
  exact hpos.ne' hzero

end Tableau

namespace Walk

/-- **Artificial variables at rest.** At a place of the second phase the rows with artificial basic
variables are still those of `handed`, with right-hand side zero. The row that is chosen to leave is
not one of them, and every artificial variable is zero. -/
structure AtRest (handed : Tableau ℚ) (w : Walk ℚ) : Prop where
  same : handed.SameArtificialRows w.tableau
  rhs_eq_zero : ∀ row ∈ w.tableau.rows, handed.artificialStart ≤ row.basic → row.rhs = 0
  not_chosen : ∀ c r, w.tableau.entering 0 handed.artificialStart w.rule = some c →
    w.tableau.leaving 0 w.rule c = some r →
      ∃ row, w.tableau.rows[r]? = some row ∧ row.basic < handed.artificialStart
  vertex_eq_zero : ∀ j, handed.artificialStart ≤ j → w.tableau.vertex j = 0

variable {w last : Walk ℚ} {t : Tableau ℚ}

/-- **The second phase keeps the rows with artificial basic variables.** -/
theorem reaches_sameArtificialRows (h : Reaches 0 w.tableau.artificialStart w last)
    (hd : w.tableau.Dictionary) (hset : w.tableau.Settled) :
    w.tableau.SameArtificialRows last.tableau := by
  induction h with
  | refl => exact fun _ _ _ => Iff.rfl
  | tail hreach hstep ih =>
    obtain ⟨hdict, hagree⟩ := reaches_dictionary hreach hd
    obtain ⟨c, r, row, hx⟩ := Step.exchange hdict.toCanonical hstep
    have hstart := hagree.artificialStart
    have hstay := hx.pivots.sameArtificialRows (hstart ▸ hx.lt_limit)
      (reaches_settled hreach hd hset)
    intro i other hart
    exact (hstay i other (hstart ▸ hart)).trans (ih i other hart)

/-- Wherever the second phase comes to, artificial variables are at rest. -/
theorem reaches_atRest (h : Reaches 0 t.artificialStart { tableau := t } last) (hd : t.Dictionary)
    (hset : t.Settled) : AtRest t last := by
  obtain ⟨hdict, hagree⟩ := reaches_dictionary h hd
  have hsettled : last.tableau.Settled := reaches_settled (w := { tableau := t }) h hd hset
  have hstart : last.tableau.artificialStart = t.artificialStart := hagree.artificialStart
  have hzero : ∀ row ∈ last.tableau.rows, t.artificialStart ≤ row.basic → row.rhs = 0 := by
    intro row hrow hart
    exact (hsettled row hrow (hstart ▸ hart)).1
  refine ⟨reaches_sameArtificialRows (w := { tableau := t }) h hd hset, hzero, ?_, ?_⟩
  · intro c r hentering hleaving
    have hlt := (Tableau.entering_eq_some hentering).1
    rw [← hstart] at hlt ⊢
    exact Tableau.basic_lt_of_leaving hdict.toCanonical hsettled hlt hleaving
  · intro j hj
    by_cases hbasic : ∃ row ∈ last.tableau.rows, row.basic = j
    · obtain ⟨row, hrow, rfl⟩ := hbasic
      rw [Tableau.vertex_basic hdict.toCanonical hrow]
      exact hzero row hrow hj
    · push Not at hbasic
      exact Tableau.vertex_of_ne hbasic

end Walk

/-- **From the first phase to the second.** If the first phase of a standard form succeeds, within
whatever budget, the rows that keep an artificial basic variable are idle, and the objective row is
the old one less multiples of the rows, without the basic variables. At every place that the second
phase comes to, within whatever budget, these rows are unchanged, no pivot chooses one of them, and
all artificial variables are zero. -/
theorem phases_hand_over (form : StandardForm ℚ) (hform : form.Shaped) (budget : ℕ) :
    let t := Tableau.ofStandardForm form
    let handed := (t.firstPhase 0 budget).tableau
    let start : Walk ℚ := { tableau := handed }
    (t.firstPhase 0 budget).status = .optimal → t.HandedOver handed ∧
      ∀ rest, let places := Walk.trail 0 handed.artificialStart rest start
        (secondPhase 0 rest handed).tableau = (places.getLastD start).tableau ∧
          ∀ w ∈ start :: places, Walk.AtRest handed w := by
  intro t handed start hoptimal
  obtain ⟨hdict, hset, hover⟩ :=
    Tableau.firstPhase_handsOver (Tableau.ofStandardForm_dictionary hform) hoptimal
  refine ⟨hover, fun rest => ⟨(Walk.run_eq_trail 0 handed.artificialStart rest start).2, ?_⟩⟩
  intro w hw
  refine Walk.reaches_atRest ?_ hdict hset
  rcases List.mem_cons.1 hw with rfl | hw
  · exact .refl
  · exact Walk.reaches_of_mem_trail hw

/-- A form with a constraint that repeats another one. -/
def repeated : StandardForm ℚ where
  varCount := 2
  direction := .maximize
  objective := [0, 1]
  constraints := [⟨[1, 1], .eq, 2⟩, ⟨[2, 2], .eq, 4⟩]
  columns := [⟨0, [1]⟩, ⟨0, [1]⟩]

theorem repeated_hand_over :
    let t := Tableau.ofStandardForm repeated
    let handed := (t.firstPhase 0 10).tableau
    t.artificialCount = 2 ∧ (t.firstPhase 0 10).status = .optimal ∧
      handed.rows.map BasicRow.basic = [0, 3] ∧ t.HandedOver handed ∧
      (Walk.trail 0 2 9 { tableau := handed }).length = 1 ∧
      ∀ w ∈ Walk.trail 0 2 9 { tableau := handed }, Walk.AtRest handed w := by
  intro t handed
  have hoptimal : (t.firstPhase 0 10).status = .optimal := by decide +kernel
  obtain ⟨hover, hplaces⟩ := phases_hand_over repeated ⟨by decide, rfl⟩ 10 hoptimal
  have hstart : handed.artificialStart = 2 := by decide +kernel
  refine ⟨by decide +kernel, hoptimal, by decide +kernel, hover, by decide +kernel, ?_⟩
  rw [← hstart]
  exact fun w hw => (hplaces 9).2 w (List.mem_cons_of_mem _ hw)

end LinearProgram.Simplex
