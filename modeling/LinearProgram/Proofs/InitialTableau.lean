import LinearProgram.Proofs.InitialRows
import LinearProgram.Proofs.Phases

/-!
# The first tableau

The equation of each constraint is described without running numbers: constraint `i` has the slack
column whose number is the count of slacks before `i`, and likewise for its artificial column. So
the first tableau is a dictionary, and its feasible vectors are the points of the standard form,
extended by the distances between the sides of the constraints.

* `initialRows_getElem?`: the equations one by one.
* `Constraint.normalize_holds`: the change of sign keeps the points.
* `ofStandardForm_dictionary`: the first tableau is a dictionary.
* `satisfies_of_feasible`, `feasible_extend`: points of the standard form against feasible vectors.
-/

namespace LinearProgram.Simplex

open Scalar Finset

variable {n k j : ℕ} {x : ℚ} {y : List ℚ} {c : Constraint ℚ} {cs : List (Constraint ℚ)}

theorem getD_single : (single n k x).getD j 0 = if j = k ∧ j < n then x else 0 := by
  rw [single, List.getD_eq_getElem?_getD, List.getElem?_set]
  rcases eq_or_ne k j with rfl | hne
  · by_cases hk : k < n <;> simp [hk, zeros]
  · rw [if_neg hne, if_neg fun h => hne h.1.symm]
    by_cases hj : j < n <;> simp [zeros, hj]

theorem single_zero : single n k (0 : ℚ) = zeros n := by
  refine List.ext_getElem (by simp [zeros]) fun i _ _ => ?_
  simp [single, zeros]

section Count

variable {α : Type} {l : List α} {p : α → Bool} {i i' : ℕ} {u u' : α}

theorem countPBefore_lt_countP (hi : l[i]? = some u) (h : p u = true) :
    l.countPBefore p i < l.countP p := by
  obtain ⟨hlt, rfl⟩ := List.getElem?_eq_some_iff.1 hi
  exact List.countPBefore_lt_countP_of_lt_length_of_pos h

/-- The number of elements with a property before such an element tells its place. -/
theorem findIdxNth_countPBefore (hi : l[i]? = some u) (h : p u = true) :
    l.findIdxNth p (l.countPBefore p i) = i := by
  obtain ⟨hlt, rfl⟩ := List.getElem?_eq_some_iff.1 hi
  exact List.findIdxNth_countPBefore_of_lt_length_of_pos h

/-- Two elements with a property do not have equally many such elements before them. -/
theorem countPBefore_inj (hi : l[i]? = some u) (h : p u = true) (hi' : l[i']? = some u')
    (h' : p u' = true) (he : l.countPBefore p i = l.countPBefore p i') : i = i' := by
  rw [← findIdxNth_countPBefore hi h, he, findIdxNth_countPBefore hi' h']

/-- **An element with a property is told by how many come before it**, as long as there are more
than that. -/
theorem existsUnique_countPBefore {k : ℕ} (hk : k < l.countP p) :
    ∃! i, ∃ u, l[i]? = some u ∧ p u = true ∧ l.countPBefore p i = k := by
  have hlt : l.findIdxNth p k < l.length := List.findIdxNth_lt_length_of_lt_countP hk
  refine ⟨l.findIdxNth p k, ⟨l[l.findIdxNth p k], List.getElem?_eq_getElem hlt,
    List.pos_findIdxNth_getElem, List.countPBefore_findIdxNth_of_lt_countP hk⟩, ?_⟩
  rintro i ⟨u, hi, hu, rfl⟩
  exact (findIdxNth_countPBefore hi hu).symm

end Count

namespace Relation

/-- The coefficient that a constraint has in its slack column. -/
def slackSign : Relation → ℚ
  | .le => 1
  | .ge => -1
  | .eq => 0

/-- The coefficient that a constraint has in its artificial column. -/
def artificialSign : Relation → ℚ
  | .le => 0
  | .ge | .eq => 1

/-- A constraint without an artificial variable starts with its slack variable in the basis. -/
theorem slack_of_not_artificial {r : Relation} (h : r.hasArtificial = false) :
    r.hasSlack = true ∧ r.slackSign = 1 ∧ r.artificialSign = 0 := by
  cases r <;> simp_all [hasArtificial, hasSlack, slackSign, artificialSign]

theorem artificialSign_of_artificial {r : Relation} (h : r.hasArtificial = true) :
    r.artificialSign = 1 := by
  cases r <;> simp_all [hasArtificial, artificialSign]

theorem slackSign_of_not_slack {r : Relation} (h : r.hasSlack = false) : r.slackSign = 0 := by
  cases r <;> simp_all [hasSlack, slackSign]

theorem slackSign_ne_zero_iff {r : Relation} : r.slackSign ≠ 0 ↔ r.hasSlack = true := by
  cases r <;> simp [slackSign, hasSlack]

theorem artificialSign_ne_zero_iff {r : Relation} :
    r.artificialSign ≠ 0 ↔ r.hasArtificial = true := by
  cases r <;> simp [artificialSign, hasArtificial]

end Relation

namespace Constraint

/-- **The value of the slack variable** at a point: the distance between the two sides. -/
def slack (c : Constraint ℚ) (y : List ℚ) : ℚ :=
  c.relation.slackSign * (c.rhs - dot c.coefficients y)

/-- A constraint holds if its slack is not negative and makes up for the distance. -/
theorem holds_iff_slack : c.Holds y ↔
    0 ≤ c.slack y ∧ dot c.coefficients y + c.relation.slackSign * c.slack y = c.rhs := by
  obtain ⟨a, r, b⟩ := c
  cases r with
  | le => simp [Holds, slack, Relation.slackSign]
  | ge => simp [Holds, slack, Relation.slackSign]
  | eq => simp [Holds, slack, Relation.slackSign]

/-- Any slack that is not negative will do. -/
theorem holds_of_slack {s : ℚ} (hs : 0 ≤ s)
    (h : dot c.coefficients y + c.relation.slackSign * s = c.rhs) : c.Holds y := by
  obtain ⟨a, r, b⟩ := c
  cases r with
  | le => simp only [Relation.slackSign] at h; exact show dot a y ≤ b by linarith
  | ge => simp only [Relation.slackSign] at h; exact show b ≤ dot a y by linarith
  | eq =>
    simp only [Relation.slackSign] at h
    exact beq_iff_eq.2 (by linarith)

theorem normalize_rhs_nonneg (c : Constraint ℚ) : 0 ≤ c.normalize.rhs := by
  unfold normalize
  split
  · rename_i h
    exact (neg_pos.2 h).le
  · rename_i h
    exact not_lt.1 h

/-- **The change of sign keeps the points.** -/
theorem normalize_holds (c : Constraint ℚ) (y : List ℚ) : c.normalize.Holds y ↔ c.Holds y := by
  unfold normalize
  split
  · obtain ⟨a, r, b⟩ := c
    cases r <;> simp [Holds, Relation.flip, dot_map_neg]
  · rfl

end Constraint

namespace Tableau

variable {V S A s a i : ℕ} {v : ℕ → ℚ}

/-- **The equation of a constraint** whose slack variable has number `s` and whose artificial
variable has number `a` among its own sort. -/
def initialRow (V S A s a : ℕ) (c : Constraint ℚ) : BasicRow ℚ where
  coefficients := c.coefficients ++ single S s c.relation.slackSign ++
    single A a c.relation.artificialSign
  rhs := c.rhs
  basic := if c.relation.hasArtificial then V + S + a else V + s

/-- The number of constraints with a slack variable before constraint `i`. -/
def slackIndex (cs : List (Constraint ℚ)) (i : ℕ) : ℕ := cs.countPBefore (·.relation.hasSlack) i

/-- The number of constraints with an artificial variable before constraint `i`. -/
def artificialIndex (cs : List (Constraint ℚ)) (i : ℕ) : ℕ :=
  cs.countPBefore (·.relation.hasArtificial) i

theorem slackIndex_lt (hi : cs[i]? = some c) (h : c.relation.hasSlack = true) :
    slackIndex cs i < countSlacks cs :=
  countPBefore_lt_countP hi h

theorem artificialIndex_lt (hi : cs[i]? = some c) (h : c.relation.hasArtificial = true) :
    artificialIndex cs i < countArtificials cs :=
  countPBefore_lt_countP hi h

/-- **A column for each constraint of a sort is a unit column.** The constraints of the sort `p` have
running numbers, and constraint `i'` has its coefficient in the column with its own number. -/
theorem coefficient_numbered {p : Relation → Bool} {sign : Relation → ℚ} {i' : ℕ}
    {c' : Constraint ℚ} (hi : cs[i]? = some c) (hi' : cs[i']? = some c')
    (hp : p c.relation = true) (hone : sign c.relation = 1)
    (hzero : p c'.relation = false → sign c'.relation = 0) :
    (if cs.countPBefore (p ·.relation) i = cs.countPBefore (p ·.relation) i'
      then sign c'.relation else 0) = if i = i' then 1 else 0 := by
  by_cases hii : i = i'
  · subst hii
    obtain rfl : c = c' := Option.some.inj (hi.symm.trans hi')
    rw [if_pos rfl, if_pos rfl, hone]
  · rw [if_neg hii]
    cases hp' : p c'.relation
    · rw [hzero hp', ite_self]
    · exact if_neg fun he => hii (countPBefore_inj hi hp hi' hp' he)

/-- **The equations one by one.** -/
theorem initialRows_getElem? (V S A s a : ℕ) (cs : List (Constraint ℚ)) (i : ℕ) :
    (initialRows V S A s a cs)[i]? =
      cs[i]?.map (initialRow V S A (s + slackIndex cs i) (a + artificialIndex cs i)) := by
  induction cs generalizing s a i with
  | nil => rfl
  | cons c cs ih =>
    obtain ⟨l, r, b⟩ := c
    cases i with
    | zero =>
      cases r <;> simp [initialRows, initialRow, slackIndex, artificialIndex, single_zero,
        Relation.slackSign, Relation.artificialSign, Relation.hasArtificial]
    | succ i =>
      cases r <;> simp [initialRows, ih, slackIndex, artificialIndex, Relation.hasSlack,
        Relation.hasArtificial, add_assoc, add_comm 1]

section Row

variable (hlen : c.coefficients.length = V)
include hlen

theorem length_initialRow :
    (initialRow V S A s a c).coefficients.length = V + S + A := by
  simp [initialRow, hlen, add_assoc]

theorem coefficient_initialRow_var (hj : j < V) :
    (initialRow V S A s a c).coefficient j = c.coefficients.getD j 0 := by
  unfold Equation.coefficient initialRow
  rw [List.getD_append _ _ _ _ (by simp; omega), List.getD_append _ _ _ _ (by omega)]

theorem coefficient_initialRow_slack (hj : j < S) :
    (initialRow V S A s a c).coefficient (V + j) =
      if j = s then c.relation.slackSign else 0 := by
  unfold Equation.coefficient initialRow
  rw [List.getD_append _ _ _ _ (by simp; omega), List.getD_append_right _ _ _ _ (by omega),
    hlen, Nat.add_sub_cancel_left, getD_single]
  simp [hj]

theorem coefficient_initialRow_artificial (hj : j < A) :
    (initialRow V S A s a c).coefficient (V + S + j) =
      if j = a then c.relation.artificialSign else 0 := by
  unfold Equation.coefficient initialRow
  rw [List.getD_append_right _ _ _ _ (by simp; omega), List.length_append, length_single, hlen,
    Nat.add_sub_cancel_left, getD_single]
  simp [hj]

/-- **The residual of an equation** at variables, slacks and artificials. -/
theorem residual_initialRow (hs : c.relation.hasSlack = true → s < S)
    (ha : c.relation.hasArtificial = true → a < A) (v : ℕ → ℚ) :
    (initialRow V S A s a c).residual v =
      ∑ j ∈ range V, c.coefficients.getD j 0 * v j + c.relation.slackSign * v (V + s) +
        c.relation.artificialSign * v (V + S + a) - c.rhs := by
  unfold Equation.residual
  -- the three groups of columns one after the other, with one term each in the last two
  rw [length_initialRow hlen, Finset.sum_range_add, Finset.sum_range_add]
  congr 1
  congr 1
  · congr 1
    · refine Finset.sum_congr rfl fun j hj => ?_
      rw [coefficient_initialRow_var hlen (mem_range.1 hj)]
    · rw [Finset.sum_congr rfl fun j hj => by
        rw [coefficient_initialRow_slack hlen (mem_range.1 hj)]]
      cases h : c.relation.hasSlack
      · simp [Relation.slackSign_of_not_slack h]
      · simp [hs h]
  · rw [Finset.sum_congr rfl fun j hj => by
      rw [coefficient_initialRow_artificial hlen (mem_range.1 hj)]]
    cases h : c.relation.hasArtificial
    · simp [(Relation.slack_of_not_artificial h).2.2]
    · simp [ha h]

end Row

end Tableau

namespace StandardForm

variable {form : StandardForm ℚ} {v : ℕ → ℚ}

/-- **Forms in shape**: every linear form has a coefficient for each variable. -/
structure Shaped (form : StandardForm ℚ) : Prop where
  constraints : ∀ c ∈ form.constraints, c.coefficients.length = form.varCount
  objective : form.objective.length = form.varCount

/-- The constraints of the first tableau: no right-hand side is negative. -/
def normalized (form : StandardForm ℚ) : List (Constraint ℚ) :=
  form.constraints.map Constraint.normalize

theorem length_of_mem_normalized
    (h : ∀ c ∈ form.constraints, c.coefficients.length = form.varCount)
    (hc : c ∈ form.normalized) : c.coefficients.length = form.varCount := by
  obtain ⟨d, hd, rfl⟩ := List.mem_map.1 hc
  rw [Constraint.length_normalize, h d hd]

/-- **The objective as a number to be made large.** -/
def gain (form : StandardForm ℚ) (y : List ℚ) : ℚ :=
  match form.direction with
  | .minimize => -dot form.objective y
  | .maximize => dot form.objective y

/-- **A point with the slacks of the constraints**, as a vector of the first tableau. -/
def extend (form : StandardForm ℚ) (y : List ℚ) (j : ℕ) : ℚ :=
  if j < form.varCount then y.getD j 0
  else
    (form.normalized[form.normalized.findIdxNth (·.relation.hasSlack)
      (j - form.varCount)]?).elim 0 (·.slack y)

end StandardForm

namespace Tableau

variable {form : StandardForm ℚ} {v : ℕ → ℚ} {y : List ℚ} {i : ℕ} {row : BasicRow ℚ}

/-- **The equation of constraint `i`** in the first tableau. -/
def constraintRow (form : StandardForm ℚ) (i : ℕ) (c : Constraint ℚ) : BasicRow ℚ :=
  initialRow form.varCount (countSlacks form.normalized) (countArtificials form.normalized)
    (slackIndex form.normalized i) (artificialIndex form.normalized i) c

theorem ofStandardForm_getElem? (form : StandardForm ℚ) (i : ℕ) :
    (ofStandardForm form).rows[i]? = form.normalized[i]?.map (constraintRow form i) := by
  have h := initialRows_getElem? form.varCount (countSlacks form.normalized)
    (countArtificials form.normalized) 0 0 form.normalized i
  rw [zero_add, zero_add] at h
  exact h

/-- Every equation of the first tableau belongs to a constraint. -/
theorem exists_constraint (h : (ofStandardForm form).rows[i]? = some row) :
    ∃ c, form.normalized[i]? = some c ∧ constraintRow form i c = row := by
  rwa [ofStandardForm_getElem?, Option.map_eq_some_iff] at h

theorem ofStandardForm_columnCount (form : StandardForm ℚ) :
    (ofStandardForm form).columnCount = form.varCount + countSlacks form.normalized +
      countArtificials form.normalized := rfl

/-- No right-hand side is negative. -/
theorem ofStandardForm_rhs_nonneg (hrow : row ∈ (ofStandardForm form).rows) : 0 ≤ row.rhs := by
  obtain ⟨i, hi⟩ := List.getElem?_of_mem hrow
  obtain ⟨c, hc, rfl⟩ := exists_constraint hi
  obtain ⟨d, -, rfl⟩ := List.mem_map.1 (List.mem_of_getElem? hc)
  exact d.normalize_rhs_nonneg

/-- The basic variable of an equation comes after the variables of the standard form. -/
theorem exists_basic (hi : form.normalized[i]? = some c) :
    ∃ k, (constraintRow form i c).basic = form.varCount + k ∧
      k < countSlacks form.normalized + countArtificials form.normalized := by
  unfold constraintRow initialRow
  cases ha : c.relation.hasArtificial
  · have hs := slackIndex_lt hi (Relation.slack_of_not_artificial ha).1
    exact ⟨slackIndex form.normalized i, by simp, by omega⟩
  · have ha := artificialIndex_lt hi ha
    exact ⟨countSlacks form.normalized + artificialIndex form.normalized i,
      by simp [add_assoc], by omega⟩

section Rows

variable (h : ∀ c ∈ form.constraints, c.coefficients.length = form.varCount)
include h

/-- The slack variable of a constraint without an artificial variable has a unit column. -/
theorem coefficient_constraintRow_slack {i' : ℕ} {c' : Constraint ℚ}
    (hc : form.normalized[i]? = some c) (hc' : form.normalized[i']? = some c')
    (ha : c.relation.hasArtificial = false) :
    (constraintRow form i' c').coefficient (constraintRow form i c).basic =
      if i = i' then 1 else 0 := by
  have hlen := StandardForm.length_of_mem_normalized h (List.mem_of_getElem? hc')
  obtain ⟨hs, hsign, -⟩ := Relation.slack_of_not_artificial ha
  have hbasic : (constraintRow form i c).basic = form.varCount + slackIndex form.normalized i := by
    simp [constraintRow, initialRow, ha]
  rw [hbasic, constraintRow, coefficient_initialRow_slack hlen (slackIndex_lt hc hs)]
  exact coefficient_numbered hc hc' hs hsign Relation.slackSign_of_not_slack

/-- The artificial variable of a constraint has a unit column. -/
theorem coefficient_constraintRow_artificial {i' : ℕ} {c' : Constraint ℚ}
    (hc : form.normalized[i]? = some c) (hc' : form.normalized[i']? = some c')
    (ha : c.relation.hasArtificial = true) :
    (constraintRow form i' c').coefficient (constraintRow form i c).basic =
      if i = i' then 1 else 0 := by
  have hlen := StandardForm.length_of_mem_normalized h (List.mem_of_getElem? hc')
  have hbasic : (constraintRow form i c).basic = form.varCount + countSlacks form.normalized +
      artificialIndex form.normalized i := by simp [constraintRow, initialRow, ha]
  rw [hbasic, constraintRow, coefficient_initialRow_artificial hlen (artificialIndex_lt hc ha)]
  exact coefficient_numbered hc hc' ha (Relation.artificialSign_of_artificial ha) fun ha' =>
    (Relation.slack_of_not_artificial ha').2.2

/-- **Basic variables have unit columns**: each is the slack variable or the artificial variable
of one constraint only. -/
theorem ofStandardForm_unit {i' : ℕ} {row other : BasicRow ℚ}
    (hi : (ofStandardForm form).rows[i]? = some row)
    (hi' : (ofStandardForm form).rows[i']? = some other) :
    other.coefficient row.basic = if i = i' then 1 else 0 := by
  obtain ⟨c, hc, rfl⟩ := exists_constraint hi
  obtain ⟨c', hc', rfl⟩ := exists_constraint hi'
  cases ha : c.relation.hasArtificial
  · exact coefficient_constraintRow_slack h hc hc' ha
  · exact coefficient_constraintRow_artificial h hc hc' ha

/-- Each equation has a coefficient for every column, and its basic variable is a column. -/
theorem ofStandardForm_row (hrow : row ∈ (ofStandardForm form).rows) :
    row.coefficients.length = (ofStandardForm form).columnCount ∧
      row.basic < (ofStandardForm form).columnCount := by
  have hlength : ∀ c ∈ form.normalized, c.coefficients.length = form.varCount :=
    fun c hc => StandardForm.length_of_mem_normalized h hc
  exact initialRows_shaped hlength (Nat.zero_add _) (Nat.zero_add _) row hrow

end Rows

/-- The coefficients of the first objective row. -/
theorem ofStandardForm_cost (h : form.Shaped) (j : ℕ) :
    (ofStandardForm form).objective.coefficient j =
      match form.direction with
      | .minimize => -form.objective.getD j 0
      | .maximize => form.objective.getD j 0 := by
  have hout : form.varCount ≤ j → form.objective.getD j 0 = 0 :=
    fun hj => List.getD_eq_default _ _ (h.objective.le.trans hj)
  unfold Equation.coefficient ofStandardForm
  cases form.direction with
  | minimize =>
    rcases lt_or_ge j form.varCount with hj | hj
    · rw [List.getD_append _ _ _ _ (by simpa [h.objective] using hj), getD_map_zero neg_zero]
    · rw [List.getD_append_right _ _ _ _ (by simpa [h.objective] using hj), getD_zeros, hout hj,
        neg_zero]
  | maximize =>
    rcases lt_or_ge j form.varCount with hj | hj
    · rw [List.getD_append _ _ _ _ (by simpa [h.objective] using hj)]
    · rw [List.getD_append_right _ _ _ _ (by simpa [h.objective] using hj), getD_zeros, hout hj]

/-- **The first tableau is a dictionary.** -/
theorem ofStandardForm_dictionary (h : form.Shaped) : (ofStandardForm form).Dictionary where
  shaped := by
    refine ⟨fun row hrow => ofStandardForm_row h.constraints hrow, ?_⟩
    rw [ofStandardForm_columnCount]
    unfold ofStandardForm
    cases form.direction <;> simp [h.objective, StandardForm.normalized, add_assoc]
  distinct := nodup_basic_of_unit fun _ _ _ _ => ofStandardForm_unit h.constraints
  unit _ _ _ _ := ofStandardForm_unit h.constraints
  nonneg _ hrow := ofStandardForm_rhs_nonneg hrow
  priced row hrow := by
    obtain ⟨i, hi⟩ := List.getElem?_of_mem hrow
    obtain ⟨c, hc, rfl⟩ := exists_constraint hi
    obtain ⟨k, hk, -⟩ := exists_basic hc
    rw [ofStandardForm_cost h, hk, List.getD_eq_default _ _ (by rw [h.objective]; omega)]
    cases form.direction <;> simp

/-- The linear form of a list at the values of the variables. -/
theorem dot_formPoint {a : List ℚ} {t : Tableau ℚ} (ha : a.length = t.varCount) (v : ℕ → ℚ) :
    dot a (t.formPoint v) = ∑ j ∈ range t.varCount, a.getD j 0 * v j := by
  rw [dot_eq_sum, ha]
  refine Finset.sum_congr rfl fun j hj => ?_
  rw [mem_range] at hj
  simp [formPoint, List.getD_eq_getElem?_getD, hj]

/-- **The residual of the first objective row is the objective.** -/
theorem residual_objective (h : form.Shaped) (v : ℕ → ℚ) :
    (ofStandardForm form).objective.residual v =
      form.gain ((ofStandardForm form).formPoint v) := by
  have hlen : (ofStandardForm form).objective.coefficients.length =
      form.varCount + (countSlacks form.normalized + countArtificials form.normalized) := by
    rw [(ofStandardForm_dictionary h).shaped.objective, ofStandardForm_columnCount, add_assoc]
  have hrest : ∀ k, form.objective.getD (form.varCount + k) 0 = 0 := fun k =>
    List.getD_eq_default _ _ (by rw [h.objective]; omega)
  unfold Equation.residual StandardForm.gain
  rw [hlen, Finset.sum_range_add, dot_formPoint (t := ofStandardForm form) h.objective]
  simp only [ofStandardForm_cost h, hrest]
  cases form.direction <;> simp [ofStandardForm]

/-- The variables of an extended point are the point. -/
theorem formPoint_extend (hy : y.length = form.varCount) :
    (ofStandardForm form).formPoint (form.extend y) = y := by
  refine List.ext_getElem (by simp [formPoint, ofStandardForm, hy]) fun j _ hj => ?_
  simp [formPoint, StandardForm.extend, hy ▸ hj, hj]

/-- The value of a slack variable in an extended point. -/
theorem extend_slack (hi : form.normalized[i]? = some c) (hs : c.relation.hasSlack = true) :
    form.extend y (form.varCount + slackIndex form.normalized i) = c.slack y := by
  have hplace : form.normalized.findIdxNth (·.relation.hasSlack)
      (slackIndex form.normalized i) = i := findIdxNth_countPBefore hi hs
  simp [StandardForm.extend, hplace, hi]

section Points

variable (h : ∀ c ∈ form.constraints, c.coefficients.length = form.varCount)
include h

/-- The residual of the equation of a constraint. -/
theorem residual_constraint (hi : (ofStandardForm form).rows[i]? = some row)
    (hc : form.normalized[i]? = some c) (v : ℕ → ℚ) :
    row.residual v = dot c.coefficients ((ofStandardForm form).formPoint v) +
      c.relation.slackSign * v (form.varCount + slackIndex form.normalized i) +
      c.relation.artificialSign * v (form.varCount + countSlacks form.normalized +
        artificialIndex form.normalized i) - c.rhs := by
  have hlen := StandardForm.length_of_mem_normalized h (List.mem_of_getElem? hc)
  rw [ofStandardForm_getElem?, hc, Option.map_some, Option.some.injEq] at hi
  subst hi
  rw [constraintRow, residual_initialRow hlen (slackIndex_lt hc) (artificialIndex_lt hc),
    dot_formPoint (t := ofStandardForm form) hlen]
  rfl

/-- **A feasible vector of the first tableau gives a point of the standard form.** -/
theorem satisfies_of_feasible (hv : (ofStandardForm form).Feasible v) :
    form.Satisfies ((ofStandardForm form).formPoint v) where
  length_eq := by simp [formPoint, ofStandardForm]
  nonneg x hx := by
    obtain ⟨j, -, rfl⟩ := List.mem_map.1 hx
    exact hv.nonneg j
  holds d hd := by
    rw [← d.normalize_holds]
    have hmem : d.normalize ∈ form.normalized := List.mem_map_of_mem hd
    obtain ⟨i, hi⟩ := List.getElem?_of_mem hmem
    have hrow := ofStandardForm_getElem? form i
    rw [hi, Option.map_some] at hrow
    have hres := hv.solvedBy _ (List.mem_of_getElem? hrow)
    rw [residual_constraint h hrow hi] at hres
    -- what the artificial variable adds is zero, so the slack makes up the whole distance
    have hzero : d.normalize.relation.artificialSign * v (form.varCount +
        countSlacks form.normalized + artificialIndex form.normalized i) = 0 := by
      cases ha : d.normalize.relation.hasArtificial
      · rw [(Relation.slack_of_not_artificial ha).2.2, zero_mul]
      · have hlt := artificialIndex_lt hi ha
        have hcolumn : form.varCount + countSlacks form.normalized +
            artificialIndex form.normalized i < (ofStandardForm form).columnCount := by
          rw [ofStandardForm_columnCount]
          omega
        rw [hv.artificial _ hcolumn (Nat.le_add_right _ _), mul_zero]
    refine Constraint.holds_of_slack
      (hv.nonneg (form.varCount + slackIndex form.normalized i)) ?_
    linarith

/-- **A point of the standard form extends to a feasible vector of the first tableau.** -/
theorem feasible_extend (hy : form.Satisfies y) :
    (ofStandardForm form).Feasible (form.extend y) := by
  have hnormal : ∀ c ∈ form.normalized, c.Holds y := by
    intro c hc
    obtain ⟨d, hd, rfl⟩ := List.mem_map.1 hc
    exact (d.normalize_holds y).2 (hy.holds d hd)
  have hstart : ∀ j, form.varCount + countSlacks form.normalized ≤ j → form.extend y j = 0 := by
    intro j hj
    -- there is no constraint with such a slack number
    have hnone : form.normalized.findIdxNth (·.relation.hasSlack) (j - form.varCount) =
        form.normalized.length :=
      List.findIdxNth_eq_length_iff.2 (Nat.le_sub_of_add_le' hj)
    simp [StandardForm.extend, hnone, show ¬j < form.varCount by omega]
  refine ⟨fun j => ?_, fun j _ hj => hstart j hj, fun row hrow => ?_⟩
  · unfold StandardForm.extend
    split
    · rename_i hj
      rw [List.getD_eq_getElem _ _ (hy.length_eq ▸ hj)]
      exact hy.nonneg _ (List.getElem_mem _)
    · cases hc : form.normalized[form.normalized.findIdxNth (·.relation.hasSlack)
        (j - form.varCount)]? with
      | none => exact le_rfl
      | some c => exact (Constraint.holds_iff_slack.1 (hnormal c (List.mem_of_getElem? hc))).1
  · obtain ⟨i, hi⟩ := List.getElem?_of_mem hrow
    obtain ⟨c, hc, -⟩ := exists_constraint hi
    rw [residual_constraint h hi hc, formPoint_extend hy.length_eq,
      hstart _ (Nat.le_add_right _ _)]
    have hslack : c.relation.slackSign * form.extend y (form.varCount +
        slackIndex form.normalized i) = c.relation.slackSign * c.slack y := by
      cases hs : c.relation.hasSlack
      · rw [Relation.slackSign_of_not_slack hs, zero_mul, zero_mul]
      · rw [extend_slack hc hs]
    rw [hslack, (Constraint.holds_iff_slack.1 (hnormal c (List.mem_of_getElem? hc))).2]
    ring

end Points

end Tableau

end LinearProgram.Simplex
