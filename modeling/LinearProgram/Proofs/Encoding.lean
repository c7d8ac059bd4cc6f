import LinearProgram.Proofs.Trail

/-!
# What the first tableau says

The first tableau says what the constraints of a standard form say. There is one equation for each
constraint, and each column after the variables of the form belongs to one equation only. A slack
variable makes up for the distance between the two sides of its constraint. So a point of the form,
with these distances behind it and zeros for the artificial variables, is a vector of the tableau.

* `Tableau.existsUnique_uses`: one equation alone uses a column after those of the variables.
* `Tableau.joined_eq`, `Tableau.feasible_joined`: feasible vectors, put together from their parts.
* `Tableau.forall_holds_iff`: points of the form against vectors of the first tableau.
* `StandardForm.Encodes`: when a tableau says what a standard form says.
* `ofStandardForm_encodes`: the first tableau does.
-/

namespace LinearProgram.Simplex

open Scalar

namespace Tableau

variable {form : StandardForm ℚ} {t : Tableau ℚ} {v : ℕ → ℚ} {y slacks : List ℚ} {i j k : ℕ}

/-- **Whether equation `i` uses column `j`**: its coefficient there is not zero. -/
def Uses (t : Tableau ℚ) (i j : ℕ) : Prop :=
  ∃ row, t.rows[i]? = some row ∧ row.coefficient j ≠ 0

theorem uses_iff : (ofStandardForm form).Uses i j ↔
    ∃ c, form.normalized[i]? = some c ∧ (constraintRow form i c).coefficient j ≠ 0 := by
  simp [Uses, ofStandardForm_getElem?]

section Used

variable (h : ∀ c ∈ form.constraints, c.coefficients.length = form.varCount)
include h

/-- Slack column `k` is used by the constraint with `k` slack variables before its own. -/
theorem uses_slack_iff (hk : k < countSlacks form.normalized) :
    (ofStandardForm form).Uses i (form.varCount + k) ↔
      ∃ c, form.normalized[i]? = some c ∧ c.relation.hasSlack = true ∧
        slackIndex form.normalized i = k := by
  rw [uses_iff]
  refine exists_congr fun c => and_congr_right fun hc => ?_
  have hlen := StandardForm.length_of_mem_normalized h (List.mem_of_getElem? hc)
  rw [constraintRow, coefficient_initialRow_slack hlen hk, ite_ne_right_iff,
    Relation.slackSign_ne_zero_iff, and_comm, eq_comm (a := k)]

/-- Artificial column `k` is used by the constraint with `k` artificial variables before its
own. -/
theorem uses_artificial_iff (hk : k < countArtificials form.normalized) :
    (ofStandardForm form).Uses i (form.varCount + countSlacks form.normalized + k) ↔
      ∃ c, form.normalized[i]? = some c ∧ c.relation.hasArtificial = true ∧
        artificialIndex form.normalized i = k := by
  rw [uses_iff]
  refine exists_congr fun c => and_congr_right fun hc => ?_
  have hlen := StandardForm.length_of_mem_normalized h (List.mem_of_getElem? hc)
  rw [constraintRow, coefficient_initialRow_artificial hlen hk, ite_ne_right_iff,
    Relation.artificialSign_ne_zero_iff, and_comm, eq_comm (a := k)]

/-- **One equation alone uses a column** after those of the variables. -/
theorem existsUnique_uses (hj : form.varCount ≤ j) (hlt : j < (ofStandardForm form).columnCount) :
    ∃! i, (ofStandardForm form).Uses i j := by
  rw [ofStandardForm_columnCount] at hlt
  obtain ⟨k, rfl⟩ := Nat.exists_eq_add_of_le hj
  rcases lt_or_ge k (countSlacks form.normalized) with hk | hk
  · have hslack : k < form.normalized.countP (·.relation.hasSlack) := hk
    refine (existsUnique_congr fun i => ?_).1 (existsUnique_countPBefore hslack)
    exact (uses_slack_iff h hk).symm
  · obtain ⟨k, rfl⟩ := Nat.exists_eq_add_of_le hk
    have hk : k < countArtificials form.normalized := by omega
    have hartificial : k < form.normalized.countP (·.relation.hasArtificial) := hk
    refine (existsUnique_congr fun i => ?_).1 (existsUnique_countPBefore hartificial)
    rw [← add_assoc]
    exact (uses_artificial_iff h hk).symm

end Used

/-- **A vector put together** from values of the variables and values of the slack variables. The
artificial variables are zero. -/
def joined (t : Tableau ℚ) (y slacks : List ℚ) : List ℚ :=
  y ++ slacks ++ zeros t.artificialCount

/-- The values of the slack variables in a vector. -/
def slackPoint (t : Tableau ℚ) (v : ℕ → ℚ) : List ℚ :=
  (List.range t.slackCount).map fun k => v (t.varCount + k)

/-- **A feasible vector is put together** from its variables and its slack variables. -/
theorem joined_eq (hv : t.Feasible v) :
    t.joined (t.formPoint v) (t.slackPoint v) = (List.range t.columnCount).map v := by
  have hzeros : (List.range t.artificialCount).map (fun k => v (t.varCount + t.slackCount + k)) =
      zeros t.artificialCount := by
    refine List.eq_replicate_iff.2 ⟨by simp, fun x hx => ?_⟩
    obtain ⟨k, hk, rfl⟩ := List.mem_map.1 hx
    have hlt : t.varCount + t.slackCount + k < t.columnCount :=
      Nat.add_lt_add_left (List.mem_range.1 hk) _
    exact hv.artificial _ hlt (Nat.le_add_right _ _)
  simp only [columnCount, artificialStart, List.range_add, List.map_append, List.map_map]
  rw [joined, ← hzeros]
  rfl

/-- A vector solves the equations if its numbers do. -/
theorem solves_map_range
    (hrows : ∀ row ∈ t.rows, row.coefficients.length = t.columnCount) (hv : t.SolvedBy v) :
    t.Solves ((List.range t.columnCount).map v) := by
  refine solves_iff.2 ⟨by simp, fun row hrow => ?_⟩
  have hsub := row.residual_sub (fun j => ((List.range t.columnCount).map v).getD j 0) v
  rw [hv row hrow, sub_zero, Finset.sum_eq_zero] at hsub
  · exact hsub
  · intro j hj
    rw [hrows row hrow, Finset.mem_range] at hj
    simp [List.getD_eq_getElem?_getD, hj]

section Joined

variable (hy : y.length = t.varCount)
include hy

theorem formPoint_joined (slacks : List ℚ) :
    t.formPoint (fun j => (t.joined y slacks).getD j 0) = y := by
  refine List.ext_getElem (by simp [formPoint, hy]) fun j _ hj => ?_
  simp [formPoint, joined, List.getElem?_append_left hj, hj]

/-- **A solution that is put together is feasible**, if none of its numbers is negative. -/
theorem feasible_joined (hs : slacks.length = t.slackCount) (hy0 : ∀ x ∈ y, 0 ≤ x)
    (hs0 : ∀ x ∈ slacks, 0 ≤ x) (h : t.Solves (t.joined y slacks)) :
    t.Feasible fun j => (t.joined y slacks).getD j 0 where
  nonneg j := by
    have hall : ∀ x ∈ t.joined y slacks, 0 ≤ x := by
      intro x hx
      rcases List.mem_append.1 hx with hx | hx
      · exact (List.mem_append.1 hx).elim (hy0 x) (hs0 x)
      · exact (List.eq_of_mem_replicate hx).ge
    rcases lt_or_ge j (t.joined y slacks).length with hj | hj
    · rw [List.getD_eq_getElem _ _ hj]
      exact hall _ (List.getElem_mem hj)
    · rw [List.getD_eq_default _ _ hj]
  artificial j _ hj := by
    have hle : (y ++ slacks).length ≤ j := by
      rw [List.length_append, hy, hs]
      exact hj
    rw [joined, List.getD_append_right _ _ _ _ hle, getD_zeros]
  solvedBy := (solves_iff.1 h).2

end Joined

/-- **Points of the standard form extend to vectors of the first tableau**, and only they do. -/
theorem forall_holds_iff (h : ∀ c ∈ form.constraints, c.coefficients.length = form.varCount)
    (hy : y.length = form.varCount) (hy0 : ∀ x ∈ y, 0 ≤ x) :
    (∀ c ∈ form.constraints, c.Holds y) ↔
      ∃ slacks, slacks.length = (ofStandardForm form).slackCount ∧ (∀ x ∈ slacks, 0 ≤ x) ∧
        (ofStandardForm form).Solves ((ofStandardForm form).joined y slacks) := by
  constructor
  · intro hholds
    have hv := feasible_extend h ⟨hy, hy0, hholds⟩
    have hsolves := solves_map_range (fun row hrow => (ofStandardForm_row h hrow).1) hv.solvedBy
    rw [← joined_eq hv, formPoint_extend hy] at hsolves
    refine ⟨(ofStandardForm form).slackPoint (form.extend y), by simp [slackPoint], ?_, hsolves⟩
    intro x hx
    obtain ⟨k, -, rfl⟩ := List.mem_map.1 hx
    exact hv.nonneg _
  · rintro ⟨slacks, hs, hs0, hsolves⟩
    have hpoint := satisfies_of_feasible h (feasible_joined hy hs hy0 hs0 hsolves)
    rw [formPoint_joined hy] at hpoint
    exact hpoint.holds

end Tableau

/-- **When a tableau says what a standard form says.** Each constraint has an equation and each
equation a basic variable of its own, with a right-hand side that is not negative. Each column after
those of the variables is used by one equation. A vector that is not negative is a point of the form
exactly if it extends by values of the slack variables, with all artificial variables zero, to a
vector of the tableau. -/
structure StandardForm.Encodes (form : StandardForm ℚ) (t : Tableau ℚ) : Prop where
  varCount : t.varCount = form.varCount
  length_rows : t.rows.length = form.constraints.length
  rhs_nonneg : ∀ row ∈ t.rows, 0 ≤ row.rhs
  distinct : (t.rows.map BasicRow.basic).Nodup
  unit : ∀ (i j : ℕ) (row other : BasicRow ℚ), t.rows[i]? = some row → t.rows[j]? = some other →
    other.coefficient row.basic = if i = j then 1 else 0
  used : ∀ j, t.varCount ≤ j → j < t.columnCount → ∃! i, t.Uses i j
  points : ∀ y : List ℚ, y.length = form.varCount → (∀ x ∈ y, 0 ≤ x) →
    ((∀ c ∈ form.constraints, c.Holds y) ↔
      ∃ slacks, slacks.length = t.slackCount ∧ (∀ x ∈ slacks, 0 ≤ x) ∧
        t.Solves (y ++ slacks ++ zeros t.artificialCount))

/-- **The first tableau of a standard form says what the form says**, whatever its constraints are,
as long as each has a coefficient for every variable. -/
theorem ofStandardForm_encodes (form : StandardForm ℚ)
    (h : ∀ c ∈ form.constraints, c.coefficients.length = form.varCount) :
    form.Encodes (Tableau.ofStandardForm form) where
  varCount := rfl
  length_rows := (length_initialRows ..).trans (List.length_map _)
  rhs_nonneg _ hrow := Tableau.ofStandardForm_rhs_nonneg hrow
  distinct := Tableau.nodup_basic_of_unit fun _ _ _ _ => Tableau.ofStandardForm_unit h
  unit _ _ _ _ := Tableau.ofStandardForm_unit h
  used _ hj hlt := Tableau.existsUnique_uses h hj hlt
  points _ hy hy0 := Tableau.forall_holds_iff h hy hy0

/-- Constraints of every relation, three of them with a negative right-hand side. -/
def everyRelation : StandardForm ℚ where
  varCount := 2
  direction := .minimize
  objective := [1, 2]
  constraints :=
    [⟨[1, 1], .le, 4⟩, ⟨[1, -1], .le, -1⟩, ⟨[1, 0], .ge, -2⟩, ⟨[0, 1], .ge, 1⟩, ⟨[1, -2], .eq, -5⟩]
  columns := [⟨0, [1]⟩, ⟨0, [1]⟩]

theorem everyRelation_encodes :
    let t := Tableau.ofStandardForm everyRelation
    (∀ c ∈ everyRelation.constraints, c.coefficients.length = 2) ∧ everyRelation.Encodes t ∧
      t.rows.map BasicRow.basic = [2, 6, 4, 7, 8] ∧
      (∀ j, 2 ≤ j → j < 9 → ∃! i, t.Uses i j) ∧
      (∃ slacks, slacks.length = 4 ∧ (∀ x ∈ slacks, 0 ≤ x) ∧
        t.Solves ([1, 3] ++ slacks ++ [0, 0, 0])) ∧
      ¬∃ slacks, slacks.length = 4 ∧ (∀ x ∈ slacks, 0 ≤ x) ∧
        t.Solves ([0, 0] ++ slacks ++ [0, 0, 0]) := by
  intro t
  have hlength : ∀ c ∈ everyRelation.constraints, c.coefficients.length = 2 := by decide
  have ht : everyRelation.Encodes t := ofStandardForm_encodes everyRelation hlength
  have hinside : ∀ c ∈ everyRelation.constraints, c.Holds [1, 3] := by decide +kernel
  have houtside : ¬∀ c ∈ everyRelation.constraints, c.Holds [0, 0] := by decide +kernel
  refine ⟨hlength, ht, by decide +kernel, ht.used, ?_, ?_⟩
  · exact (ht.points [1, 3] rfl (by decide)).1 hinside
  · exact fun hslacks => houtside ((ht.points [0, 0] rfl (by decide)).2 hslacks)

end LinearProgram.Simplex
