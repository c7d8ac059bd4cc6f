import LinearProgram.Proofs.Pivot

/-!
# Vertices and rays

A canonical tableau gives the basic variables in terms of the others. So any values of the other
variables extend to one vector of the tableau (`resolve`). All zeros give the **vertex**; one
variable moving away from zero gives a **ray**.

* `resolve_solvedBy`, `objective_resolve`: the extended vector belongs to the tableau, and the
  objective there is read off the objective row.
* `objective_le_vertex`: with no column left to enter, the vertex is best.
* `ray_basic`, `objective_ray`: the basic variables and the objective along a ray.
* `objective_rhs_eq`: tableaus that say the same and have the same basis have the same value.
* `basicPoint_eq`: the point that is read off a tableau is its vertex.
-/

namespace LinearProgram.Simplex

open Scalar Finset

/-- A sum over a list of which only one term is not zero. -/
theorem sum_map_eq_single {α : Type} {l : List α} {i : ℕ} {a : α} (h : l[i]? = some a) {φ : α → ℚ}
    (hφ : ∀ j b, l[j]? = some b → j ≠ i → φ b = 0) : (l.map φ).sum = φ a := by
  obtain ⟨hi, rfl⟩ := List.getElem?_eq_some_iff.1 h
  rw [← Fin.sum_univ_fun_getElem, Finset.sum_eq_single ⟨i, hi⟩]
  · intro j _ hj
    exact hφ j _ (List.getElem?_eq_getElem j.2) fun hji => hj (Fin.ext hji)
  · intro hn; exact absurd (Finset.mem_univ _) hn

namespace Equation

theorem residual_zero (e : Equation ℚ) : e.residual 0 = -e.rhs := by simp [residual]

theorem residual_single (e : Equation ℚ) (c : ℕ) (θ : ℚ) :
    e.residual (Pi.single c θ) = e.coefficient c * θ - e.rhs := by
  unfold residual
  rw [Finset.sum_eq_single c]
  · rw [Pi.single_eq_same]
  · intro j _ hj
    rw [Pi.single_eq_of_ne hj, mul_zero]
  · intro hc
    rw [coefficient_of_le (by simpa using hc), zero_mul]

end Equation

namespace Tableau

variable {t t' : Tableau ℚ} {row : BasicRow ℚ}

/-- **The vector with given values outside the basis.** Each basic variable is corrected by the
residual of its row. -/
def resolve (t : Tableau ℚ) (g : ℕ → ℚ) (j : ℕ) : ℚ :=
  g j - (t.rows.map fun row => if row.basic = j then row.residual g else 0).sum

/-- **The vertex of a tableau**: all variables outside the basis are zero. -/
def vertex (t : Tableau ℚ) : ℕ → ℚ := t.resolve 0

/-- **The ray of a column**: its variable has value `θ`, and all others outside the basis are
zero. -/
def ray (t : Tableau ℚ) (c : ℕ) (θ : ℚ) : ℕ → ℚ := t.resolve (Pi.single c θ)

theorem sum_coefficient_mul (rows : List (BasicRow ℚ)) (φ : BasicRow ℚ → ℚ) (e : Equation ℚ)
    (h : ∀ row ∈ rows, row.basic < e.coefficients.length) :
    ∑ j ∈ range e.coefficients.length,
        e.coefficient j * (rows.map fun row => if row.basic = j then φ row else 0).sum =
      (rows.map fun row => φ row * e.coefficient row.basic).sum := by
  induction rows with
  | nil => simp
  | cons row rows ih =>
    have hrow : row.basic ∈ range e.coefficients.length := mem_range.2 (h row List.mem_cons_self)
    simp only [List.map_cons, List.sum_cons, mul_add, Finset.sum_add_distrib]
    rw [ih fun r hr => h r (List.mem_cons_of_mem _ hr)]
    congr 1
    simp only [mul_ite, mul_zero]
    rw [Finset.sum_ite_eq, if_pos hrow]
    ring

/-- The residual of an equation at the extended vector. -/
theorem residual_resolve (hs : t.Shaped) {e : Equation ℚ}
    (he : e.coefficients.length = t.columnCount) (g : ℕ → ℚ) : e.residual (t.resolve g) =
      e.residual g - (t.rows.map fun row => row.residual g * e.coefficient row.basic).sum := by
  have hb : ∀ row ∈ t.rows, row.basic < e.coefficients.length := fun row hrow => by
    rw [he]; exact (hs.rows row hrow).2
  rw [← sum_coefficient_mul t.rows (fun row => row.residual g) e hb]
  have h := e.residual_sub g (t.resolve g)
  simp only [resolve, sub_sub_cancel] at h
  linarith

/-- **The extended vector belongs to the tableau.** -/
theorem resolve_solvedBy (hc : t.Canonical) (g : ℕ → ℚ) : t.SolvedBy (t.resolve g) := by
  intro row hrow
  obtain ⟨i, hi⟩ := List.getElem?_of_mem hrow
  rw [residual_resolve hc.shaped (hc.shaped.rows row hrow).1, sum_map_eq_single hi]
  · rw [hc.unit i i row row hi hi, if_pos rfl]; ring
  · intro j other hj hji
    rw [hc.unit j i other row hj hi, if_neg hji, mul_zero]

/-- The objective at the extended vector is the objective row at the given values. -/
theorem objective_resolve (hd : t.Dictionary) (g : ℕ → ℚ) :
    t.objective.residual (t.resolve g) = t.objective.residual g := by
  rw [residual_resolve hd.shaped hd.shaped.objective]
  have h0 : (t.rows.map fun row => row.residual g * t.objective.coefficient row.basic) =
      t.rows.map fun _ => 0 :=
    List.map_congr_left fun row hrow => by rw [hd.priced row hrow, mul_zero]
  rw [h0]; simp

/-- Outside the basis the given values stay. -/
theorem resolve_of_ne {j : ℕ} (h : ∀ row ∈ t.rows, row.basic ≠ j) (g : ℕ → ℚ) :
    t.resolve g j = g j := by
  have h0 : (t.rows.map fun row => if row.basic = j then row.residual g else 0) =
      t.rows.map fun _ => 0 := List.map_congr_left fun row hrow => if_neg (h row hrow)
  rw [resolve, h0]; simp

/-- A basic variable is corrected by the residual of its row. -/
theorem resolve_basic (hc : t.Canonical) (hrow : row ∈ t.rows) (g : ℕ → ℚ) :
    t.resolve g row.basic = g row.basic - row.residual g := by
  obtain ⟨i, hi⟩ := List.getElem?_of_mem hrow
  rw [resolve, sum_map_eq_single hi, if_pos rfl]
  intro j other hj hji
  exact if_neg fun hb => hji (index_eq_of_unit hc.unit hj hi hb)

theorem vertex_solvedBy (hc : t.Canonical) : t.SolvedBy t.vertex := resolve_solvedBy hc 0

theorem vertex_of_ne {j : ℕ} (h : ∀ row ∈ t.rows, row.basic ≠ j) : t.vertex j = 0 :=
  resolve_of_ne h 0

theorem vertex_basic (hc : t.Canonical) (hrow : row ∈ t.rows) : t.vertex row.basic = row.rhs := by
  rw [vertex, resolve_basic hc hrow, Equation.residual_zero]
  simp

/-- The vertex of a canonical tableau is not negative. -/
theorem vertex_nonneg (hc : t.Canonical) (j : ℕ) : 0 ≤ t.vertex j := by
  by_cases h : ∃ row ∈ t.rows, row.basic = j
  · obtain ⟨row, hrow, rfl⟩ := h
    rw [vertex_basic hc hrow]
    exact hc.nonneg row hrow
  · push Not at h
    rw [vertex_of_ne h]

theorem objective_vertex (hd : t.Dictionary) : t.objective.residual t.vertex = -t.objective.rhs := by
  rw [vertex, objective_resolve hd, Equation.residual_zero]

/-- **No vector beats the vertex** once no column before `limit` has a positive cost, among the
non-negative vectors that are zero from `limit` on. -/
theorem objective_le_vertex (hd : t.Dictionary) {limit : ℕ}
    (hcost : ∀ j < limit, t.objective.coefficient j ≤ 0) {v : ℕ → ℚ} (hv : ∀ j, 0 ≤ v j)
    (hz : ∀ j < t.columnCount, limit ≤ j → v j = 0) :
    t.objective.residual v ≤ t.objective.residual t.vertex := by
  rw [objective_vertex hd, Equation.residual]
  have hsum : ∑ j ∈ range t.objective.coefficients.length, t.objective.coefficient j * v j ≤ 0 := by
    refine Finset.sum_nonpos fun j hj => ?_
    rw [mem_range, hd.shaped.objective] at hj
    rcases lt_or_ge j limit with h | h
    · exact mul_nonpos_of_nonpos_of_nonneg (hcost j h) (hv j)
    · rw [hz j hj h, mul_zero]
  linarith

/-- A column with a cost is not basic. -/
theorem basic_ne_of_cost (hp : t.Priced) {c : ℕ} (hc : t.objective.coefficient c ≠ 0) :
    ∀ row ∈ t.rows, row.basic ≠ c := by
  rintro row hrow rfl
  exact hc (hp row hrow)

theorem ray_solvedBy (hc : t.Canonical) (c : ℕ) (θ : ℚ) : t.SolvedBy (t.ray c θ) :=
  resolve_solvedBy hc _

section Ray

variable {c : ℕ} (hc : ∀ row ∈ t.rows, row.basic ≠ c)
include hc

theorem ray_self (θ : ℚ) : t.ray c θ c = θ := by
  rw [ray, resolve_of_ne hc, Pi.single_eq_same]

/-- **Basic variables along a ray** move against their coefficients in the column. -/
theorem ray_basic (hcan : t.Canonical) (hrow : row ∈ t.rows) (θ : ℚ) :
    t.ray c θ row.basic = row.rhs - row.coefficient c * θ := by
  rw [ray, resolve_basic hcan hrow, Equation.residual_single, Pi.single_eq_of_ne (hc row hrow)]
  ring

end Ray

theorem ray_of_ne {c j : ℕ} (h : ∀ row ∈ t.rows, row.basic ≠ j) (hj : j ≠ c) (θ : ℚ) :
    t.ray c θ j = 0 := by
  rw [ray, resolve_of_ne h, Pi.single_eq_of_ne hj]

/-- **The objective along a ray** grows with the cost of the column. -/
theorem objective_ray (hd : t.Dictionary) (c : ℕ) (θ : ℚ) :
    t.objective.residual (t.ray c θ) = t.objective.coefficient c * θ - t.objective.rhs := by
  rw [ray, objective_resolve hd, Equation.residual_single]

/-- A ray stays non-negative as long as no positive coefficient of the column limits it. -/
theorem ray_nonneg (hcan : t.Canonical) {c : ℕ} (hc : ∀ row ∈ t.rows, row.basic ≠ c)
    (hcol : ∀ row ∈ t.rows, row.coefficient c ≤ 0) {θ : ℚ} (hθ : 0 ≤ θ) (j : ℕ) :
    0 ≤ t.ray c θ j := by
  by_cases h : ∃ row ∈ t.rows, row.basic = j
  · obtain ⟨row, hrow, rfl⟩ := h
    rw [ray_basic hc hcan hrow]
    have h1 := hcan.nonneg row hrow
    have h2 := mul_nonpos_of_nonpos_of_nonneg (hcol row hrow) hθ
    linarith
  · push Not at h
    by_cases hj : j = c
    · rw [hj, ray_self hc]; exact hθ
    · rw [ray_of_ne h hj]

/-- **The basis determines the value.** Dictionaries that say the same and have the same basic
variables have the same right-hand side of the objective row. -/
theorem objective_rhs_eq (hd : t.Dictionary) (hd' : t'.Dictionary) (ha : t.Agrees t')
    (hb : ∀ row ∈ t.rows, ∃ row' ∈ t'.rows, row'.basic = row.basic) :
    t'.objective.rhs = t.objective.rhs := by
  have h1 := ha.objective _ (vertex_solvedBy hd.toCanonical)
  -- at the vertex every term of the other objective has a factor zero
  rw [objective_vertex hd, Equation.residual, Finset.sum_eq_zero] at h1
  · linarith
  · intro j _
    by_cases h : ∃ row ∈ t.rows, row.basic = j
    · obtain ⟨row, hrow, rfl⟩ := h
      obtain ⟨row', hrow', heq⟩ := hb row hrow
      rw [← heq, hd'.priced row' hrow', zero_mul]
    · push Not at h
      rw [vertex_of_ne h, mul_zero]

/-- The values of the variables of the standard form in a vector. -/
def formPoint (t : Tableau ℚ) (v : ℕ → ℚ) : List ℚ := (List.range t.varCount).map v

/-- Writing distinct places one after the other. -/
theorem getD_foldl_set {rows : List (BasicRow ℚ)} (hnd : (rows.map BasicRow.basic).Nodup)
    (y : List ℚ) {j : ℕ} (hj : j < y.length) :
    (rows.foldl (fun y row => y.set row.basic row.rhs) y).getD j 0 =
      ((rows.find? (·.basic = j)).map (·.rhs)).getD (y.getD j 0) := by
  induction rows generalizing y with
  | nil => rfl
  | cons row rows ih =>
    rw [List.map_cons, List.nodup_cons] at hnd
    rw [List.foldl_cons, ih hnd.2 _ (by simpa using hj)]
    rcases eq_or_ne row.basic j with rfl | hne
    · -- no later row writes this place again
      have hnone : rows.find? (·.basic = row.basic) = none := by
        rw [List.find?_eq_none]
        intro other hother he
        exact hnd.1 (List.mem_map.2 ⟨other, hother, by simpa using he⟩)
      simp [hnone, hj]
    · simp [hne]

/-- **The point read off a canonical tableau is its vertex.** -/
theorem basicPoint_eq (hc : t.Canonical) : t.basicPoint = t.formPoint t.vertex := by
  refine List.ext_getElem (by simp [length_basicPoint, formPoint]) fun j hj hj' => ?_
  have hvertex : (t.formPoint t.vertex)[j] = t.vertex j := by simp [formPoint]
  rw [hvertex, ← List.getD_eq_getElem _ 0 hj]
  rw [length_basicPoint] at hj
  rw [basicPoint, getD_foldl_set hc.distinct _ (by simpa using hj)]
  cases hfind : t.rows.find? (·.basic = j) with
  | none =>
    rw [List.find?_eq_none] at hfind
    rw [vertex_of_ne fun row hrow he => hfind row hrow (by simpa using he)]
    simp [zeros]
  | some row =>
    have hb : row.basic = j := by simpa using List.find?_some hfind
    rw [← hb, vertex_basic hc (List.mem_of_find?_eq_some hfind)]
    rfl

end Tableau

end LinearProgram.Simplex
