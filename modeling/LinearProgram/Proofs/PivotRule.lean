import LinearProgram.Proofs.Equation
import LinearProgram.Simplex.PivotRule

/-!
# What the pivot rules choose

Over the rationals and without tolerance, a column may enter if its cost is positive, and the row
to leave has a positive coefficient and a least ratio. The rule `lowest` takes the lowest column
with a positive cost, and among rows of equal ratio the one with the lowest basic variable.

* `entering_eq_none`, `entering_eq_some`: the choice of a column.
* `leaving_eq_none`, `leaving_eq_some`: the choice of a row, when no right-hand side is negative.
-/

namespace LinearProgram.Simplex

open Scalar

namespace Candidate

variable {rule : PivotRule} {x y z : Candidate ℚ}

theorem beats_self (x : Candidate ℚ) : x.beats rule x = false := by
  cases rule <;> simp [beats]

theorem beats_asymm (h : x.beats rule y = true) : y.beats rule x = false := by
  cases rule with
  | largest =>
    simp only [beats, decide_eq_true_eq, decide_eq_false_iff_not] at h ⊢
    exact h.le.not_gt
  | lowest =>
    simp only [beats, Bool.or_eq_true, Bool.and_eq_true, decide_eq_true_eq, beq_iff_eq,
      Bool.or_eq_false_iff, Bool.and_eq_false_iff, decide_eq_false_iff_not, beq_eq_false_iff_ne]
      at h ⊢
    rcases h with h | ⟨h, hb⟩
    · exact ⟨h.le.not_gt, .inl h.ne'⟩
    · exact ⟨h.le.not_gt, .inr (by omega)⟩

/-- Not to be preferred is transitive: candidates are compared by a key. -/
theorem beats_trans (hxy : x.beats rule y = false) (hyz : y.beats rule z = false) :
    x.beats rule z = false := by
  cases rule with
  | largest =>
    simp only [beats, decide_eq_false_iff_not, not_lt] at hxy hyz ⊢
    exact hyz.trans hxy
  | lowest =>
    simp only [beats, Bool.or_eq_false_iff, Bool.and_eq_false_iff, decide_eq_false_iff_not,
      beq_eq_false_iff_ne, not_lt] at hxy hyz ⊢
    refine ⟨hyz.1.trans hxy.1, ?_⟩
    by_cases hxz : x.ratio = z.ratio
    · -- the three ratios are equal, so the basic variables decide
      have h1 : x.ratio = y.ratio := le_antisymm (hxz ▸ hyz.1) hxy.1
      have h2 : y.ratio = z.ratio := h1.symm.trans hxz
      have := hxy.2.resolve_left (fun h => h h1)
      have := hyz.2.resolve_left (fun h => h h2)
      exact .inr (by omega)
    · exact .inl hxz

/-- The candidate that stands at the end is one of the candidates, and none beats it. -/
theorem foldl_beats (rule : PivotRule) (first : Candidate ℚ) (others : List (Candidate ℚ)) :
    others.foldl (fun best c => if c.beats rule best then c else best) first ∈ first :: others ∧
      ∀ x ∈ first :: others,
        x.beats rule (others.foldl (fun best c => if c.beats rule best then c else best) first) =
          false := by
  induction others generalizing first with
  | nil => simp [beats_self]
  | cons y others ih =>
    simp only [List.foldl_cons]
    by_cases hy : y.beats rule first = true
    · rw [if_pos hy]
      obtain ⟨hmem, hbest⟩ := ih y
      refine ⟨List.mem_cons_of_mem _ hmem, fun x hx => ?_⟩
      rcases List.mem_cons.1 hx with rfl | hx
      · exact beats_trans (beats_asymm hy) (hbest y List.mem_cons_self)
      · exact hbest x hx
    · rw [if_neg hy]
      obtain ⟨hmem, hbest⟩ := ih first
      have hfirst := hbest first List.mem_cons_self
      refine ⟨?_, fun x hx => ?_⟩
      · rcases List.mem_cons.1 hmem with h | h
        · rw [h]; exact List.mem_cons_self
        · exact List.mem_cons_of_mem _ (List.mem_cons_of_mem _ h)
      · rcases List.mem_cons.1 hx with rfl | hx
        · exact hfirst
        · rcases List.mem_cons.1 hx with rfl | hx
          · exact beats_trans (by simpa using hy) hfirst
          · exact hbest x (List.mem_cons_of_mem _ hx)

end Candidate

namespace Tableau

variable {t : Tableau ℚ} {rule : PivotRule} {limit c r : ℕ}

/-- The fold of `argmaxAbove`, from any place and any best number so far. -/
theorem foldl_argmax (costs : List ℚ) (k : ℕ) (best : ℚ × Option ℕ) :
    let last := (costs.zipIdx k).foldl
      (fun best (cost, j) => if best.1 < cost then (cost, some j) else best) best
    best.1 ≤ last.1 ∧ (∀ x ∈ costs, x ≤ last.1) ∧
      (last = best ∨ ∃ j, costs[j]? = some last.1 ∧ last.2 = some (k + j) ∧ best.1 < last.1) := by
  induction costs generalizing k best with
  | nil => simp
  | cons cost costs ih =>
    simp only [List.zipIdx_cons, List.foldl_cons]
    by_cases hc : best.1 < cost
    · rw [if_pos hc]
      obtain ⟨h1, h2, h3⟩ := ih (k + 1) (cost, some k)
      refine ⟨hc.le.trans h1, List.forall_mem_cons.2 ⟨h1, h2⟩, .inr ?_⟩
      rcases h3 with h3 | ⟨j, hj, hk, hlt⟩
      · exact ⟨0, by rw [h3]; rfl, by rw [h3]; rfl, by rw [h3]; exact hc⟩
      · exact ⟨j + 1, by simpa using hj, by rw [hk]; congr 1; omega, hc.trans hlt⟩
    · rw [if_neg hc]
      obtain ⟨h1, h2, h3⟩ := ih (k + 1) best
      refine ⟨h1, List.forall_mem_cons.2 ⟨(not_lt.1 hc).trans h1, h2⟩, ?_⟩
      rcases h3 with h3 | ⟨j, hj, hk, hlt⟩
      · exact .inl h3
      · exact .inr ⟨j + 1, by simpa using hj, by rw [hk]; congr 1; omega, hlt⟩

/-- A cost before the limit is the coefficient of its column. -/
theorem coefficient_of_getElem?_take {e : Equation ℚ} {j : ℕ} {x : ℚ}
    (h : (e.coefficients.take limit)[j]? = some x) : j < limit ∧ e.coefficient j = x := by
  rw [List.getElem?_take] at h
  split at h
  · rename_i hj
    exact ⟨hj, by rw [Equation.coefficient, List.getD_eq_getElem?_getD, h]; rfl⟩
  · cases h

/-- A coefficient before the limit is zero or is among the costs. -/
theorem coefficient_eq_zero_or_mem_take (e : Equation ℚ) {j : ℕ} (hj : j < limit) :
    e.coefficient j = 0 ∨ (e.coefficients.take limit)[j]? = some (e.coefficient j) := by
  rcases lt_or_ge j e.coefficients.length with h | h
  · right
    rw [List.getElem?_take, if_pos hj, Equation.coefficient, List.getD_eq_getElem _ _ h,
      List.getElem?_eq_getElem h]
  · exact .inl (Equation.coefficient_of_le h)

/-- If no column enters, no cost before the limit is positive. -/
theorem entering_eq_none (h : t.entering 0 limit rule = none) :
    ∀ j < limit, t.objective.coefficient j ≤ 0 := by
  intro j hj
  rcases coefficient_eq_zero_or_mem_take t.objective hj with h0 | hmem
  · exact h0.le
  have hmem := List.mem_of_getElem? hmem
  cases rule with
  | largest =>
    simp only [entering, argmaxAbove] at h
    obtain ⟨-, hle, hlast⟩ := foldl_argmax (t.objective.coefficients.take limit) 0 (0, none)
    rcases hlast with hlast | ⟨k, -, hk, -⟩
    · have := hle _ hmem
      rwa [hlast] at this
    · rw [h] at hk; cases hk
  | lowest =>
    simp only [entering, List.findIdx?_eq_none_iff, decide_eq_false_iff_not, not_lt] at h
    exact h _ hmem

/-- **The column that enters** has a positive cost; by the rule `lowest` it is the first such. -/
theorem entering_eq_some (h : t.entering 0 limit rule = some c) :
    c < limit ∧ 0 < t.objective.coefficient c ∧
      (rule = .lowest → ∀ j < c, t.objective.coefficient j ≤ 0) := by
  cases rule with
  | largest =>
    simp only [entering, argmaxAbove] at h
    obtain ⟨-, -, hlast⟩ := foldl_argmax (t.objective.coefficients.take limit) 0 (0, none)
    rcases hlast with hlast | ⟨k, hk, hk2, hpos⟩
    · rw [hlast] at h; cases h
    · rw [h, Nat.zero_add, Option.some.injEq] at hk2
      obtain ⟨hlt, heq⟩ := coefficient_of_getElem?_take hk
      rw [hk2]
      exact ⟨hlt, by rw [heq]; exact hpos, nofun⟩
  | lowest =>
    simp only [entering, List.findIdx?_eq_some_iff_getElem, decide_eq_true_eq, not_lt] at h
    obtain ⟨hc, hpos, hbefore⟩ := h
    obtain ⟨hlt, heq⟩ := coefficient_of_getElem?_take (List.getElem?_eq_getElem hc)
    refine ⟨hlt, heq ▸ hpos, fun _ j hj => ?_⟩
    have hj' := List.getElem?_eq_getElem (hj.trans hc)
    rw [(coefficient_of_getElem?_take hj').2]
    exact hbefore j hj

/-- The candidates are the rows with a positive coefficient. -/
theorem mem_candidates_iff (hn : ∀ row ∈ t.rows, 0 ≤ row.rhs) {x : Candidate ℚ} :
    x ∈ t.candidates 0 c ↔ ∃ i row, t.rows[i]? = some row ∧ 0 < row.coefficient c ∧
      x = ⟨i, row.rhs / row.coefficient c, row.basic⟩ := by
  have hcand : ∀ row ∈ t.rows, ∀ i, candidate? 0 c row i = some x ↔
      0 < row.coefficient c ∧ x = ⟨i, row.rhs / row.coefficient c, row.basic⟩ := by
    intro row hrow i
    unfold candidate?
    rcases le_or_gt (row.coefficient c) 0 with ha | ha
    · simp [ha, ha.not_gt]
    · have hratio : ¬ row.rhs / row.coefficient c < 0 := (div_nonneg (hn row hrow) ha.le).not_gt
      simp only [if_neg ha.not_ge, if_neg hratio, Option.some.injEq, ha, true_and]
      exact eq_comm
  simp only [candidates, List.mem_filterMap, Prod.exists, List.mem_zipIdx_iff_getElem?]
  constructor
  · rintro ⟨row, i, hrow, hx⟩
    exact ⟨i, row, hrow, (hcand row (List.mem_of_getElem? hrow) i).1 hx⟩
  · rintro ⟨i, row, hrow, hx⟩
    exact ⟨row, i, hrow, (hcand row (List.mem_of_getElem? hrow) i).2 hx⟩

/-- If no row leaves, no coefficient in the column is positive. -/
theorem leaving_eq_none (hn : ∀ row ∈ t.rows, 0 ≤ row.rhs) (h : t.leaving 0 rule c = none) :
    ∀ row ∈ t.rows, row.coefficient c ≤ 0 := by
  intro row hrow
  obtain ⟨i, hi⟩ := List.getElem?_of_mem hrow
  by_contra hpos
  have hmem := (mem_candidates_iff hn).2 ⟨i, row, hi, not_le.1 hpos, rfl⟩
  unfold leaving at h
  split at h
  · rename_i hnil
    rw [hnil] at hmem; cases hmem
  · cases h

/-- **The row that leaves** has a positive coefficient and a least ratio; by the rule `lowest` it
has the lowest basic variable among the rows of that ratio. -/
theorem leaving_eq_some (hn : ∀ row ∈ t.rows, 0 ≤ row.rhs) (h : t.leaving 0 rule c = some r) :
    ∃ row, t.rows[r]? = some row ∧ 0 < row.coefficient c ∧
      ∀ other ∈ t.rows, 0 < other.coefficient c →
        row.rhs / row.coefficient c ≤ other.rhs / other.coefficient c ∧
        (rule = .lowest → row.rhs / row.coefficient c = other.rhs / other.coefficient c →
          row.basic ≤ other.basic) := by
  unfold leaving at h
  split at h
  · cases h
  rename_i first others hlist
  -- the candidate that stands at the end comes from a row, and none beats it
  obtain ⟨hmem, hbest⟩ := Candidate.foldl_beats rule first others
  rw [← hlist] at hmem hbest
  obtain ⟨i, row, hi, hpos, hx⟩ := (mem_candidates_iff hn).1 hmem
  rw [hx, Option.some.injEq] at h
  rw [hx] at hbest
  refine ⟨row, h ▸ hi, hpos, fun other hother hpos' => ?_⟩
  obtain ⟨j, hj⟩ := List.getElem?_of_mem hother
  have hb := hbest _ ((mem_candidates_iff hn).2 ⟨j, other, hj, hpos', rfl⟩)
  cases rule with
  | largest =>
    simp only [Candidate.beats, decide_eq_false_iff_not, not_lt] at hb
    exact ⟨hb, nofun⟩
  | lowest =>
    simp only [Candidate.beats, Bool.or_eq_false_iff, Bool.and_eq_false_iff,
      decide_eq_false_iff_not, beq_eq_false_iff_ne, not_lt] at hb
    exact ⟨hb.1, fun _ heq => hb.2.resolve_left fun hne => hne heq.symm⟩

end Tableau

end LinearProgram.Simplex
