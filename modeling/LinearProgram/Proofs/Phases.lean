import LinearProgram.Proofs.Artificial
import LinearProgram.Proofs.Bland
import LinearProgram.Simplex.Solve

/-!
# The two phases

What the answers of the two phases say about the feasible vectors of a tableau, over the rationals
and without tolerance.

* `firstPhase_of_le`, `optimize_of_le`: a larger budget does not change an answer that was reached.
* `firstPhase_spec`: the first phase ends at a settled dictionary that says the same, or no vector
  is feasible, or the budget ran out.
* `secondPhase_spec`: the second phase ends at a best vertex or at an unlimited ray, or the budget
  ran out.
* `optimize_spec`, `exists_optimize_budget`: both phases, and enough budget for them.
-/

namespace LinearProgram.Simplex

open Scalar Finset

section Budget

variable {K : Type} [Scalar K] {tolerance : K} {t : Tableau K}

/-- **A larger budget does not change what the first phase has found.** -/
theorem Tableau.firstPhase_of_le {budget budget' : ℕ} (hb : budget ≤ budget')
    (h : (t.firstPhase tolerance budget).status ≠ .failed .iterationLimit) :
    t.firstPhase tolerance budget' = t.firstPhase tolerance budget := by
  have hw : (Walk.run tolerance t.columnCount budget { tableau := t.auxiliary }).status ≠
      .failed .iterationLimit := by
    intro hw
    simp [firstPhase, conclude, hw] at h
  simp only [firstPhase, Walk.run_of_le hb hw]

/-- **A larger budget does not change an answer that was reached.** -/
theorem optimize_of_le {n n' : ℕ} (hn : n ≤ n')
    (h : ((Simplex.mk n tolerance).optimize t).status ≠ .failed .iterationLimit) :
    (Simplex.mk n' tolerance).optimize t = (Simplex.mk n tolerance).optimize t := by
  by_cases ha : t.artificialCount = 0
  · simp only [optimize, if_pos ha] at h ⊢
    exact Walk.run_of_le hn h
  · simp only [optimize, if_neg ha] at h ⊢
    have hf : (t.firstPhase tolerance n).status ≠ .failed .iterationLimit := by
      intro hf
      simp [hf] at h
    rw [Tableau.firstPhase_of_le hn hf]
    cases hs : (t.firstPhase tolerance n).status with
    | failed reason => rfl
    | optimal =>
      simp only [hs] at h ⊢
      unfold secondPhase at h ⊢
      rw [Walk.run_of_le (Nat.sub_le_sub_right hn _) h]

end Budget

namespace Tableau

variable {t t' : Tableau ℚ} {v : ℕ → ℚ}

/-- **Feasible vectors of a tableau**: vectors that are not negative and have no artificial
part. -/
structure Feasible (t : Tableau ℚ) (v : ℕ → ℚ) : Prop where
  nonneg : ∀ j, 0 ≤ v j
  artificial : ∀ j < t.columnCount, t.artificialStart ≤ j → v j = 0
  solvedBy : t.SolvedBy v

theorem Agrees.feasible_iff (h : t.Agrees t') : t'.Feasible v ↔ t.Feasible v := by
  constructor
  · rintro ⟨h1, h2, h3⟩
    refine ⟨h1, ?_, (h.solvedBy v).1 h3⟩
    rwa [h.columnCount, h.artificialStart] at h2
  · rintro ⟨h1, h2, h3⟩
    refine ⟨h1, ?_, (h.solvedBy v).2 h3⟩
    rwa [h.columnCount, h.artificialStart]

/-- The vertex of a settled tableau has no artificial part. -/
theorem vertex_feasible (hc : t.Canonical) (hset : t.Settled) : t.Feasible t.vertex where
  nonneg := vertex_nonneg hc
  artificial j _ hj := by
    by_cases h : ∃ row ∈ t.rows, row.basic = j
    · obtain ⟨row, hrow, rfl⟩ := h
      rw [vertex_basic hc hrow]
      exact (hset row hrow hj).1
    · push Not at h
      exact vertex_of_ne h
  solvedBy := vertex_solvedBy hc

/-- **Idle rows do not block a ray.** If no row limits a column before the artificial ones, the
whole ray is feasible. -/
theorem ray_feasible (hd : t.Dictionary) (hset : t.Settled) {c : ℕ} (hc : c < t.artificialStart)
    (hcost : 0 < t.objective.coefficient c) (hcol : ∀ row ∈ t.rows, row.coefficient c ≤ 0) {θ : ℚ}
    (hθ : 0 ≤ θ) : t.Feasible (t.ray c θ) := by
  have hne := basic_ne_of_cost hd.priced hcost.ne'
  refine ⟨ray_nonneg hd.toCanonical hne hcol hθ, fun j _ hj => ?_, ray_solvedBy hd.toCanonical c θ⟩
  by_cases h : ∃ row ∈ t.rows, row.basic = j
  · obtain ⟨row, hrow, rfl⟩ := h
    obtain ⟨hrhs, hzero⟩ := hset row hrow hj
    rw [ray_basic hne hd.toCanonical hrow, hrhs, hzero c hc]
    ring
  · push Not at h
    exact ray_of_ne h (by omega) θ

/-- **The auxiliary objective has an upper limit**, so the walk of the first phase does not find a
ray. -/
theorem not_unlimited_auxiliary (hc : t.Canonical) (hd : t'.Dictionary)
    (ha : t.auxiliary.Agrees t') {c : ℕ} (hcost : 0 < t'.objective.coefficient c)
    (hcol : ∀ row ∈ t'.rows, row.coefficient c ≤ 0) : False := by
  have hne := basic_ne_of_cost hd.priced hcost.ne'
  -- far enough along the ray the objective would be positive
  set θ : ℚ := (|t'.objective.rhs| + 1) / t'.objective.coefficient c with hθ
  have hθ0 : 0 ≤ θ := div_nonneg (by positivity) hcost.le
  have hsol : t.SolvedBy (t'.ray c θ) := (ha.solvedBy _).1 (ray_solvedBy hd.toCanonical c θ)
  have hobj := ha.objective _ hsol
  rw [residual_auxiliary hc hsol, objective_ray hd, hθ, mul_div_cancel₀ _ hcost.ne'] at hobj
  have hsum : 0 ≤ ∑ k ∈ range t.artificialCount, t'.ray c θ (t.artificialStart + k) :=
    Finset.sum_nonneg fun k _ => ray_nonneg hd.toCanonical hne hcol hθ0 _
  have := le_abs_self t'.objective.rhs
  linarith

/-- **The first phase has minimised the artificial variables**: if one of them is left at its best
vertex, no vector is feasible. -/
theorem not_feasible_of_remains (hc : t.Canonical) (hd : t'.Dictionary)
    (ha : t.auxiliary.Agrees t') (hcost : ∀ j < t'.columnCount, t'.objective.coefficient j ≤ 0)
    {row : BasicRow ℚ} (hrow : row ∈ t'.rows) (hart : t'.artificialStart ≤ row.basic)
    (hne : row.rhs ≠ 0) : ¬t.Feasible v := by
  intro hv
  have hstart : t'.artificialStart = t.artificialStart := ha.artificialStart
  have hcount : t'.columnCount = t.columnCount := ha.columnCount
  have hle := objective_le_vertex hd hcost hv.nonneg fun j hj hj' => absurd hj (by omega)
  have hvert := vertex_solvedBy hd.toCanonical
  rw [ha.objective v hv.solvedBy, ha.objective _ ((ha.solvedBy _).1 hvert),
    residual_auxiliary hc hv.solvedBy, residual_auxiliary hc ((ha.solvedBy _).1 hvert)] at hle
  -- a feasible vector has auxiliary objective zero, the most there is
  have hzero : ∑ k ∈ range t.artificialCount, v (t.artificialStart + k) = 0 :=
    Finset.sum_eq_zero fun k hk => by
      rw [mem_range] at hk
      exact hv.artificial _ (by unfold columnCount; omega) (by omega)
  -- the artificial variable of the row is one term of the sum at the vertex
  have hb := (hd.shaped.rows row hrow).2
  have hk : row.basic - t.artificialStart ∈ range t.artificialCount := by
    rw [mem_range]
    unfold columnCount at hb hcount
    omega
  have hterm := Finset.single_le_sum
    (f := fun k => t'.vertex (t.artificialStart + k))
    (fun k _ => vertex_nonneg hd.toCanonical _) hk
  simp only [show t.artificialStart + (row.basic - t.artificialStart) = row.basic by omega] at hterm
  rw [vertex_basic hd.toCanonical hrow] at hterm
  have hpos : 0 < row.rhs := lt_of_le_of_ne (hd.nonneg row hrow) hne.symm
  linarith

theorem artificialRemains_iff : t.artificialRemains 0 = true ↔
    ∃ row ∈ t.rows, t.artificialStart ≤ row.basic ∧ row.rhs ≠ 0 := by
  simp [artificialRemains, isArtificial, magnitude_pos_iff]

/-- **The end of the first phase**: from a dictionary where all artificial variables are zero, it
settles the tableau and puts the objective back. -/
theorem driveOut_withObjective (hd : t.Dictionary) (hd' : t'.Dictionary)
    (ha : t.auxiliary.Agrees t')
    (hlevel : ∀ row ∈ t'.rows, t'.artificialStart ≤ row.basic → row.rhs = 0) :
    ∃ driven, t'.driveOut 0 = some driven ∧ (driven.withObjective 0 t.objective).Dictionary ∧
      (driven.withObjective 0 t.objective).Settled ∧
      t.Agrees (driven.withObjective 0 t.objective) := by
  obtain ⟨driven, hrun, hcd, had, hset⟩ := driveOut_spec hd'.toCanonical hlevel
  have had : t.auxiliary.Agrees driven := ha.trans had
  have hlen : t.objective.coefficients.length = driven.columnCount :=
    hd.shaped.objective.trans had.columnCount.symm
  refine ⟨driven, hrun, withObjective_dictionary hcd hlen, hset, ?_⟩
  exact ⟨had.varCount, had.slackCount, had.artificialCount, had.solvedBy, fun v hv =>
    residual_withObjective hcd hlen ((had.solvedBy v).2 hv)⟩

/-- **What the first phase finds.** -/
theorem firstPhase_spec (hd : t.Dictionary) (budget : ℕ) :
    ((t.firstPhase 0 budget).status = .optimal ∧ (t.firstPhase 0 budget).tableau.Dictionary ∧
      (t.firstPhase 0 budget).tableau.Settled ∧ t.Agrees (t.firstPhase 0 budget).tableau) ∨
    ((t.firstPhase 0 budget).status = .failed .infeasible ∧ ∀ v, ¬t.Feasible v) ∨
    ((t.firstPhase 0 budget).status = .failed .iterationLimit ∧
      (Walk.run 0 t.columnCount budget { tableau := t.auxiliary }).status =
        .failed .iterationLimit) := by
  have hc := hd.toCanonical
  obtain ⟨last, hreach, htab, hexp⟩ :=
    Walk.run_ends (0 : ℚ) t.columnCount budget { tableau := t.auxiliary }
  obtain ⟨hdl, hal⟩ := Walk.reaches_dictionary hreach (auxiliary_dictionary hc)
  have hal : t.auxiliary.Agrees last.tableau := hal
  have hcount : last.tableau.columnCount = t.columnCount := hal.columnCount
  unfold firstPhase conclude
  cases hs : (Walk.run 0 t.columnCount budget { tableau := t.auxiliary }).status with
  | failed reason =>
    rw [hs] at hexp
    cases reason with
    | infeasible => exact hexp.elim
    | unbounded =>
      obtain ⟨c, -, hcost, hcol⟩ := Walk.column_of_unbounded hdl.toCanonical hexp
      exact (not_unlimited_auxiliary hc hdl hal hcost hcol).elim
    | numerical => exact (Walk.move_ne_breakdown hdl.toCanonical hexp).elim
    | iterationLimit => exact .inr (.inr ⟨by simp [hs], rfl⟩)
  | optimal =>
    rw [hs] at hexp
    have hcost := Walk.cost_nonpos_of_optimal hexp
    simp only [htab]
    -- the walk is over: either an artificial variable is left, or all of them are zero
    by_cases hrem : last.tableau.artificialRemains 0 = true
    · rw [if_pos hrem]
      obtain ⟨row, hrow, hart, hne⟩ := artificialRemains_iff.1 hrem
      rw [← hcount] at hcost
      exact .inr (.inl ⟨rfl, fun v => not_feasible_of_remains hc hdl hal hcost hrow hart hne⟩)
    · rw [if_neg hrem]
      have hlevel : ∀ row ∈ last.tableau.rows,
          last.tableau.artificialStart ≤ row.basic → row.rhs = 0 := by
        intro row hrow hart
        by_contra hne
        exact hrem (artificialRemains_iff.2 ⟨row, hrow, hart, hne⟩)
      obtain ⟨driven, hrun, hdict, hset, hagree⟩ := driveOut_withObjective hd hdl hal hlevel
      rw [hrun]
      exact .inl ⟨rfl, hdict, hset, hagree⟩

/-- **Settled best tableaus**: no column before the artificial ones has a positive cost. -/
structure Best (t : Tableau ℚ) : Prop extends t.Dictionary where
  settled : t.Settled
  cost_nonpos : ∀ j < t.artificialStart, t.objective.coefficient j ≤ 0

/-- **Unlimited columns** of a settled tableau: a positive cost, and no row that limits it. -/
structure Unlimited (t : Tableau ℚ) (c : ℕ) : Prop extends t.Dictionary where
  settled : t.Settled
  lt_artificialStart : c < t.artificialStart
  cost_pos : 0 < t.objective.coefficient c
  coefficient_nonpos : ∀ row ∈ t.rows, row.coefficient c ≤ 0

/-- **The vertex of a best tableau is a best feasible vector.** -/
theorem Best.isBest (h : t.Best) (hv : t.Feasible v) :
    t.objective.residual v ≤ t.objective.residual t.vertex :=
  objective_le_vertex h.toDictionary h.cost_nonpos hv.nonneg hv.artificial

/-- **Along an unlimited column the objective exceeds every number.** -/
theorem Unlimited.exists_gt {c : ℕ} (h : t.Unlimited c) (bound : ℚ) :
    ∃ v, t.Feasible v ∧ bound < t.objective.residual v := by
  set θ : ℚ := (|bound + t.objective.rhs| + 1) / t.objective.coefficient c with hθ
  have hθ0 : 0 ≤ θ := div_nonneg (by positivity) h.cost_pos.le
  refine ⟨t.ray c θ, ray_feasible h.toDictionary h.settled h.lt_artificialStart h.cost_pos
    h.coefficient_nonpos hθ0, ?_⟩
  rw [objective_ray h.toDictionary, hθ, mul_div_cancel₀ _ h.cost_pos.ne']
  have := le_abs_self (bound + t.objective.rhs)
  linarith

end Tableau

variable {t : Tableau ℚ}

/-- A pivot of the second phase keeps a tableau settled. -/
theorem Walk.reaches_settled {w last : Walk ℚ} (h : Walk.Reaches 0 w.tableau.artificialStart w last)
    (hd : w.tableau.Dictionary) (hset : w.tableau.Settled) : last.tableau.Settled := by
  induction h with
  | refl => exact hset
  | tail hreach hstep ih =>
    obtain ⟨hd', ha⟩ := Walk.reaches_dictionary hreach hd
    obtain ⟨c, r, row, hx⟩ := Walk.Step.exchange hd'.toCanonical hstep
    intro new hnew
    -- the column that enters lies before the artificial ones
    obtain ⟨i, hi⟩ := List.getElem?_of_mem hnew
    have hlt := (List.getElem?_eq_some_iff.1 hi).1
    rw [hx.pivots.length_rows] at hlt
    have hc := hx.lt_limit
    rw [← ha.artificialStart] at hc
    exact hx.pivots.settledRow hd'.shaped hc (List.getElem?_eq_getElem hlt) hi
      (ih _ (List.getElem_mem hlt))

/-- **What the second phase finds.** -/
theorem secondPhase_spec (hd : t.Dictionary) (hset : t.Settled) (budget : ℕ) :
    ((secondPhase 0 budget t).status = .optimal ∧ (secondPhase 0 budget t).tableau.Best ∧
      t.Agrees (secondPhase 0 budget t).tableau) ∨
    ((secondPhase 0 budget t).status = .failed .unbounded ∧
      ∃ t' c, t.Agrees t' ∧ t'.Unlimited c) ∨
    (secondPhase 0 budget t).status = .failed .iterationLimit := by
  obtain ⟨last, hreach, htab, hexp⟩ :=
    Walk.run_ends (0 : ℚ) t.artificialStart budget { tableau := t }
  obtain ⟨hdl, hal⟩ := Walk.reaches_dictionary hreach hd
  have hsl := Walk.reaches_settled (w := { tableau := t }) hreach hd hset
  have hstart := hal.artificialStart
  unfold secondPhase
  rw [htab]
  cases hs : (Walk.run 0 t.artificialStart budget { tableau := t }).status with
  | optimal =>
    rw [hs] at hexp
    refine .inl ⟨rfl, ⟨hdl, hsl, ?_⟩, hal⟩
    rw [hstart]
    exact Walk.cost_nonpos_of_optimal hexp
  | failed reason =>
    rw [hs] at hexp
    cases reason with
    | infeasible => exact hexp.elim
    | unbounded =>
      obtain ⟨c, hc, hcost, hcol⟩ := Walk.column_of_unbounded hdl.toCanonical hexp
      exact .inr (.inl ⟨rfl, last.tableau, c, hal, ⟨hdl, hsl, hstart ▸ hc, hcost, hcol⟩⟩)
    | numerical => exact (Walk.move_ne_breakdown hdl.toCanonical hexp).elim
    | iterationLimit => exact .inr (.inr rfl)

/-- Without artificial columns there is nothing to settle. -/
theorem settled_of_artificialCount (hd : t.Dictionary) (h : t.artificialCount = 0) : t.Settled := by
  intro row hrow hart
  have := (hd.shaped.rows row hrow).2
  unfold Tableau.columnCount at this
  omega

/-- **What both phases find.** They never break down. -/
theorem optimize_spec (hd : t.Dictionary) (n : ℕ) :
    (((Simplex.mk n 0).optimize t).status = .optimal ∧
      ((Simplex.mk n 0).optimize t).tableau.Best ∧
      t.Agrees ((Simplex.mk n 0).optimize t).tableau) ∨
    (((Simplex.mk n 0).optimize t).status = .failed .infeasible ∧ ∀ v, ¬t.Feasible v) ∨
    (((Simplex.mk n 0).optimize t).status = .failed .unbounded ∧
      ∃ t' c, t.Agrees t' ∧ t'.Unlimited c) ∨
    ((Simplex.mk n 0).optimize t).status = .failed .iterationLimit := by
  by_cases ha : t.artificialCount = 0
  · simp only [optimize, if_pos ha]
    rcases secondPhase_spec hd (settled_of_artificialCount hd ha) n with h | h | h
    · exact .inl h
    · exact .inr (.inr (.inl h))
    · exact .inr (.inr (.inr h))
  · simp only [optimize, if_neg ha]
    rcases Tableau.firstPhase_spec hd n with ⟨hs, hd', hset, hagree⟩ | ⟨hs, hv⟩ | ⟨hs, -⟩
    · simp only [hs]
      rcases secondPhase_spec hd' hset (n - (t.firstPhase 0 n).pivots) with
        ⟨h1, h2, h3⟩ | ⟨h1, t', c, h2, h3⟩ | h
      · exact .inl ⟨h1, h2, hagree.trans h3⟩
      · exact .inr (.inr (.inl ⟨h1, t', c, hagree.trans h2, h3⟩))
      · exact .inr (.inr (.inr h))
    · simp only [hs]
      exact .inr (.inl ⟨trivial, hv⟩)
    · simp only [hs]
      exact .inr (.inr (.inr trivial))

/-- **Enough budget for both phases.** -/
theorem exists_optimize_budget (hd : t.Dictionary) :
    ∃ n, ((Simplex.mk n 0).optimize t).status ≠ .failed .iterationLimit := by
  by_cases ha : t.artificialCount = 0
  · simp only [optimize, if_pos ha]
    obtain ⟨n, hn⟩ := Walk.exists_budget_of_dictionary (w := { tableau := t }) hd t.artificialStart
    exact ⟨n, hn n le_rfl⟩
  · simp only [optimize, if_neg ha]
    obtain ⟨n₁, hn₁⟩ := Walk.exists_budget_of_dictionary (w := { tableau := t.auxiliary })
      (Tableau.auxiliary_dictionary hd.toCanonical) t.columnCount
    have hf : (t.firstPhase 0 n₁).status ≠ .failed .iterationLimit := by
      rcases Tableau.firstPhase_spec hd n₁ with ⟨hs, -⟩ | ⟨hs, -⟩ | ⟨-, hw⟩
      · simp [hs]
      · simp [hs]
      · exact absurd hw (hn₁ n₁ le_rfl)
    rcases Tableau.firstPhase_spec hd n₁ with ⟨hs, hd', -⟩ | ⟨hs, -⟩ | ⟨hs, -⟩
    · obtain ⟨n₂, hn₂⟩ := Walk.exists_budget_of_dictionary
        (w := { tableau := (t.firstPhase 0 n₁).tableau }) hd' (t.firstPhase 0 n₁).tableau.artificialStart
      -- the second phase has what the first one leaves
      refine ⟨n₁ + (t.firstPhase 0 n₁).pivots + n₂, ?_⟩
      rw [Tableau.firstPhase_of_le (by omega) hf]
      simp only [hs]
      exact hn₂ _ (by omega)
    · exact ⟨n₁, by simp [hs]⟩
    · exact absurd hs hf

end LinearProgram.Simplex
