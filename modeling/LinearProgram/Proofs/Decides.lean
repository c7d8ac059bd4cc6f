import LinearProgram.Proofs.Answers

/-!
# Every problem is decided

With exact arithmetic and no tolerance, a well-formed problem is found optimal, infeasible or
unbounded as soon as the budget is large enough, and never breaks the arithmetic. The walks of both
phases come to an end: the rule of the lowest column takes over after sixteen pivots without
progress and leaves such a run of pivots, and between the runs the objective grows.

* `Walk.Sound`: walks without an endless sequence of pivots and without a pivot on a zero.
* `sound_of_dictionary`: all walks from dictionaries are sound.
* `PhasesEnd`: what this says about both phases.
* `solve_decides`: the answers.
-/

namespace LinearProgram.Simplex

open Scalar Exact

namespace Walk

variable {w : Walk ℚ} {limit : ℕ}

/-- A pivot on finite data is a pivot over the rational numbers. -/
theorem step_toExact {x : Walk Exact} (h : Step 0 limit w.toExact x) :
    ∃ next, Step 0 limit w next ∧ next.toExact = x := by
  rw [Step, toExact_move] at h
  cases hm : w.move 0 limit with
  | pivot next =>
    rw [hm] at h
    exact ⟨next, hm, Move.pivot.inj h⟩
  | _ =>
    rw [hm] at h
    cases h

theorem reaches_toExact {x : Walk Exact} (h : Reaches 0 limit w.toExact x) :
    ∃ last, Reaches 0 limit w last ∧ last.toExact = x := by
  induction h with
  | refl => exact ⟨w, .refl, rfl⟩
  | tail _ hstep ih =>
    obtain ⟨last, hreach, rfl⟩ := ih
    obtain ⟨next, hnext, rfl⟩ := step_toExact hstep
    exact ⟨next, .tail hreach hnext, rfl⟩

/-- **Sound walks**: no sequence of pivots from the start is endless, and no pivot that the rules
ask for on the way is zero. -/
structure Sound (limit : ℕ) (start : Walk Exact) : Prop where
  not_endless : ¬∃ ws : ℕ → Walk Exact, ws 0 = start ∧ ∀ k, Step 0 limit (ws k) (ws (k + 1))
  pivot_ne_zero : ∀ w c r, Reaches 0 limit start w →
    w.tableau.entering 0 limit w.rule = some c → w.tableau.leaving 0 w.rule c = some r →
    ∃ row, w.tableau.rows[r]? = some row ∧ row.coefficient c ≠ 0

/-- **Walks from dictionaries of finite numbers are sound.** -/
theorem sound_of_dictionary (hd : w.tableau.Dictionary) (limit : ℕ) : Sound limit w.toExact where
  not_endless := by
    rintro ⟨ws, hstart, hstep⟩
    -- the sequence is the one that the same moves make over the rational numbers
    have hlift : ∀ k, ((advance 0 limit)^[k] w).toExact = ws k := by
      intro k
      induction k with
      | zero => exact hstart.symm
      | succ k ih =>
        have h := hstep k
        rw [← ih] at h
        obtain ⟨next, hnext, heq⟩ := step_toExact h
        rw [Function.iterate_succ_apply', hnext.advance_eq, heq]
    refine not_endless_of_dictionary hd limit ⟨fun k => (advance 0 limit)^[k] w, rfl, fun k => ?_⟩
    have h := hstep k
    rw [← hlift k] at h
    obtain ⟨next, hnext, -⟩ := step_toExact h
    simp only [Function.iterate_succ_apply', hnext.advance_eq]
    exact hnext
  pivot_ne_zero x c r hreach hc hr := by
    obtain ⟨last, hlast, rfl⟩ := reaches_toExact hreach
    obtain ⟨hdl, -⟩ := reaches_dictionary hlast hd
    have hr : last.tableau.leaving 0 last.rule c = some r :=
      (last.tableau.toExact_leaving last.rule c).symm.trans hr
    obtain ⟨row, hrow, hpos, -⟩ := Tableau.leaving_eq_some hdl.nonneg hr
    refine ⟨row.toExact, ?_, ?_⟩
    · rw [toExact_tableau, Tableau.toExact_getElem?, hrow]
      rfl
    · rw [BasicRow.toExact_toEquation, Equation.toExact_coefficient, zero_eq]
      exact fun h => hpos.ne' (Exact.finite.inj h)

end Walk

/-- The walk of the first phase. -/
def firstWalk (t : Tableau Exact) (budget : ℕ) : Outcome Exact :=
  Walk.run 0 t.columnCount budget { tableau := t.auxiliary }

/-- **Both phases end**: every walk of theirs is sound, the walk of the first phase does not find
its objective unbounded, and the exchange of artificial variables after it meets no zero. -/
structure PhasesEnd (t : Tableau Exact) : Prop where
  first : Walk.Sound t.columnCount { tableau := t.auxiliary }
  first_ne_unbounded : ∀ budget, (firstWalk t budget).status ≠ .failed .unbounded
  driveOut_ne_none : ∀ budget, (firstWalk t budget).status = .optimal →
    (firstWalk t budget).tableau.artificialRemains 0 = false →
    (firstWalk t budget).tableau.driveOut 0 ≠ none
  second : ∀ budget, (t.firstPhase 0 budget).status = .optimal →
    Walk.Sound (t.firstPhase 0 budget).tableau.artificialStart
      { tableau := (t.firstPhase 0 budget).tableau }
  second_alone : t.artificialCount = 0 → Walk.Sound t.artificialStart { tableau := t }

/-- Without an exchange of the artificial variables the first phase breaks down. -/
theorem firstPhase_of_driveOut_eq_none {t : Tableau Exact} {budget : ℕ}
    (hs : (firstWalk t budget).status = .optimal)
    (hremains : (firstWalk t budget).tableau.artificialRemains 0 = false)
    (hnone : (firstWalk t budget).tableau.driveOut 0 = none) :
    (t.firstPhase 0 budget).status = .failed .numerical := by
  unfold firstWalk at hs hremains hnone
  unfold Tableau.firstPhase Tableau.conclude
  simp only [hs, hremains, hnone, Bool.false_eq_true, if_false]

/-- **The phases end from every dictionary of finite numbers.** -/
theorem phasesEnd_of_dictionary {t : Tableau ℚ} (hd : t.Dictionary) : PhasesEnd t.toExact := by
  have hc := hd.toCanonical
  have ha := Tableau.auxiliary_dictionary hc
  have hstart : ({ tableau := t.toExact.auxiliary } : Walk Exact) =
      Walk.toExact { tableau := t.auxiliary } := by
    rw [Tableau.toExact_auxiliary]
    rfl
  refine ⟨?_, fun budget => ?_, fun budget hs hremains hnone => ?_, fun budget h => ?_, fun _ => ?_⟩
  · rw [hstart]
    exact Walk.sound_of_dictionary ha t.columnCount
  · rw [firstWalk, hstart, Tableau.toExact_columnCount, Walk.toExact_run]
    obtain ⟨last, hreach, -, hexp⟩ :=
      Walk.run_ends (0 : ℚ) t.columnCount budget { tableau := t.auxiliary }
    obtain ⟨hdl, hal⟩ := Walk.reaches_dictionary hreach ha
    intro h
    have h : (Walk.run 0 t.columnCount budget { tableau := t.auxiliary }).status =
        .failed .unbounded := h
    rw [h] at hexp
    obtain ⟨c, -, hcost, hcol⟩ := Walk.column_of_unbounded hdl.toCanonical hexp
    exact Tableau.not_unlimited_auxiliary hc hdl hal hcost hcol
  · have hbreak := firstPhase_of_driveOut_eq_none hs hremains hnone
    rw [Tableau.toExact_firstPhase] at hbreak
    have hbreak : (t.firstPhase 0 budget).status = .failed .numerical := hbreak
    rcases Tableau.firstPhase_spec hd budget with ⟨hs, -⟩ | ⟨hs, -⟩ | ⟨hs, -⟩ <;>
      exact absurd (hbreak.symm.trans hs) (by decide)
  · rw [Tableau.toExact_firstPhase] at h ⊢
    have h : (t.firstPhase 0 budget).status = .optimal := h
    rcases Tableau.firstPhase_spec hd budget with ⟨-, hd', -⟩ | ⟨hs, -⟩ | ⟨hs, -⟩
    · exact Walk.sound_of_dictionary (w := { tableau := (t.firstPhase 0 budget).tableau }) hd' _
    · exact absurd (h.symm.trans hs) (by decide)
    · exact absurd (h.symm.trans hs) (by decide)
  · exact Walk.sound_of_dictionary (w := { tableau := t }) hd t.artificialStart

/-- **Both phases on a standard form decide**, given enough budget. -/
theorem outcome_decides {form : StandardForm ℚ} (hform : form.Shaped) :
    ∃ enough, ∀ n ≥ enough, (outcome form n).status = .optimal ∨
      (outcome form n).status = .failed .infeasible ∨
      (outcome form n).status = .failed .unbounded := by
  have hd := Tableau.ofStandardForm_dictionary hform
  obtain ⟨enough, henough⟩ := exists_optimize_budget hd
  refine ⟨enough, fun n hn => ?_⟩
  rw [show outcome form n = outcome form enough from optimize_of_le hn henough]
  rcases optimize_spec hd enough with ⟨hs, -⟩ | ⟨hs, -⟩ | ⟨hs, -⟩ | hs
  · exact .inl hs
  · exact .inr (.inl hs)
  · exact .inr (.inr hs)
  · exact absurd hs henough

/-- Both phases on a standard form never break down. -/
theorem outcome_ne_numerical {form : StandardForm ℚ} (hform : form.Shaped) (n : ℕ) :
    (outcome form n).status ≠ .failed .numerical := by
  intro hs
  have htells := outcome_tells hform n
  rwa [Tells, hs] at htells

/-- **Every well-formed problem is decided.** -/
theorem solve_decides (p : Problem Exact) (hwf : p.wellFormed = true) :
    (∃ enough, ∀ n ≥ enough,
      ((withBudget n).solve p).status = .optimal ∨
      ((withBudget n).solve p).status = .failed .infeasible ∨
      ((withBudget n).solve p).status = .failed .unbounded) ∧
    (∀ n, ((withBudget n).solve p).status ≠ .failed .numerical) ∧
    ∀ form, StandardForm.ofProblem p = some form → PhasesEnd (Tableau.ofStandardForm form) := by
  rcases solve_cases p with ⟨hbad, -⟩ | ⟨-, -, hof, hs⟩ | ⟨-, form, hform, hof, hs⟩
  · rw [hwf] at hbad
    cases hbad
  · refine ⟨⟨0, fun n _ => .inr (.inl ?_)⟩, fun n => ?_, fun form h => ?_⟩
    · rw [hs]
      rfl
    · rw [hs]
      exact nofun
    · rw [hof] at h
      cases h
  · simp only [hs, answer_status]
    refine ⟨outcome_decides hform.shaped, outcome_ne_numerical hform.shaped, fun other h => ?_⟩
    rw [hof, Option.some.injEq] at h
    rw [← h, Tableau.toExact_ofStandardForm]
    exact phasesEnd_of_dictionary (Tableau.ofStandardForm_dictionary hform.shaped)

/-- A problem on which the rule of the largest coefficient alone goes round in circles. -/
def cycling : Problem Exact where
  direction := .maximize
  shift := finite 0
  objective := [finite (3 / 4), finite (-150), finite (1 / 50), finite (-6)]
  rowBounds := [.upper (finite 0), .upper (finite 0), .upper (finite 1)]
  columnBounds := List.replicate 4 (.lower (finite 0))
  entries :=
    [⟨1, 1, finite (1 / 4)⟩, ⟨1, 2, finite (-60)⟩, ⟨1, 3, finite (-1 / 25)⟩, ⟨1, 4, finite 9⟩,
      ⟨2, 1, finite (1 / 2)⟩, ⟨2, 2, finite (-90)⟩, ⟨2, 3, finite (-1 / 50)⟩, ⟨2, 4, finite 3⟩,
      ⟨3, 3, finite 1⟩]

theorem cycling_decides : cycling.wellFormed = true ∧
    ∃ enough, ∀ n ≥ enough,
      ((withBudget n).solve cycling).status = .optimal ∨
      ((withBudget n).solve cycling).status = .failed .infeasible ∨
      ((withBudget n).solve cycling).status = .failed .unbounded :=
  ⟨by decide +kernel, (solve_decides cycling (by decide +kernel)).1⟩

end LinearProgram.Simplex
