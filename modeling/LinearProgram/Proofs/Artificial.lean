import LinearProgram.Proofs.Vertex
import LinearProgram.Simplex.FirstPhase

/-!
# Artificial variables

The three steps of the first phase besides the walk, over the rationals and without tolerance.

* `auxiliary_dictionary`, `residual_auxiliary`: the auxiliary objective is priced, and it is the
  negated sum of the artificial variables at every vector of the tableau.
* `driveOut_spec`: once the basic artificial variables are zero, driving them out succeeds and
  leaves only **idle** rows to them, which say nothing about the other variables.
* `withObjective_dictionary`, `residual_withObjective`: the objective that is put back is priced,
  and nothing but its form has changed.
-/

namespace LinearProgram.Simplex.Tableau

open Scalar Finset

variable {t t' : Tableau ℚ} {row : BasicRow ℚ} {v : ℕ → ℚ}

theorem isArtificial_iff : t.isArtificial row = true ↔ t.artificialStart ≤ row.basic := by
  simp [isArtificial]

/-- **Idle rows** say nothing about the variables before the artificial ones. -/
def IdleRow (t : Tableau ℚ) (row : BasicRow ℚ) : Prop :=
  row.rhs = 0 ∧ ∀ j < t.artificialStart, row.coefficient j = 0

/-- Whether a row is idle if its basic variable is artificial. -/
def SettledRow (t : Tableau ℚ) (row : BasicRow ℚ) : Prop :=
  t.artificialStart ≤ row.basic → t.IdleRow row

/-- Whether all rows with artificial basic variables are idle. -/
def Settled (t : Tableau ℚ) : Prop := ∀ row ∈ t.rows, t.SettledRow row

/-- **A pivot at a column before the artificial ones keeps a row settled.** The pivot row gets
another basic variable, and an idle row has nothing in that column to remove. -/
theorem Pivots.settledRow {r c i : ℕ} {old new : BasicRow ℚ} (h : t.Pivots r c row t')
    (hs : t.Shaped) (hc : c < t.artificialStart) (hold : t.rows[i]? = some old)
    (hnew : t'.rows[i]? = some new) (hset : t.SettledRow old) : t'.SettledRow new := by
  intro hart
  rw [h.artificialStart] at hart
  rcases h.row_cases hs hnew with ⟨-, -, hb⟩ | ⟨-, old', hold', hb, he⟩
  · omega
  obtain rfl : old' = old := Option.some.inj (hold'.symm.trans hold)
  obtain ⟨hrhs, hzero⟩ := hset (hb ▸ hart)
  have hlen := h.length_eq hs (hs.rows old' (List.mem_of_getElem? hold)).1
  refine ⟨?_, fun j hj => ?_⟩
  · rw [he]
    simp [Equation.minus, hrhs, hzero c hc]
  · rw [h.artificialStart] at hj
    rw [he, Equation.coefficient_minus hlen, hzero j hj, hzero c hc, zero_mul, sub_zero]

section Auxiliary

theorem coefficient_foldl_plus {rows : List (BasicRow ℚ)} {e : Equation ℚ}
    (h : ∀ row ∈ rows, row.coefficients.length = e.coefficients.length) :
    (rows.foldl (fun objective row => objective.plus row.toEquation) e).coefficients.length =
        e.coefficients.length ∧
      (∀ j, (rows.foldl (fun objective row => objective.plus row.toEquation) e).coefficient j =
        e.coefficient j + (rows.map (·.coefficient j)).sum) ∧
      ∀ v, (rows.foldl (fun objective row => objective.plus row.toEquation) e).residual v =
        e.residual v + (rows.map (·.residual v)).sum := by
  induction rows generalizing e with
  | nil => simp
  | cons row rows ih =>
    have hrow := (h row List.mem_cons_self).symm
    have hplus := Equation.length_plus hrow
    obtain ⟨h1, h2, h3⟩ := ih (e := e.plus row.toEquation) fun r hr => by
      rw [hplus, h r (List.mem_cons_of_mem _ hr)]
    simp only [List.foldl_cons, List.map_cons, List.sum_cons]
    refine ⟨h1.trans hplus, fun j => ?_, fun v => ?_⟩
    · rw [h2, Equation.coefficient_plus hrow, add_assoc]
    · rw [h3, Equation.residual_plus hrow, add_assoc]

/-- The sum over the rows that pass a test, as a sum over all rows. -/
theorem sum_map_filter {α : Type} (l : List α) (p : α → Bool) (φ : α → ℚ) :
    ((l.filter p).map φ).sum = (l.map fun a => if p a then φ a else 0).sum := by
  induction l with
  | nil => rfl
  | cons a l ih => by_cases h : p a <;> simp [h, ih]

theorem coefficient_plainAuxiliary {j : ℕ} (hj : j < t.columnCount) :
    t.plainAuxiliary.coefficient j = if t.artificialStart ≤ j then -1 else 0 := by
  unfold columnCount at hj
  unfold plainAuxiliary Equation.coefficient
  split
  · rename_i h
    rw [List.getD_append_right _ _ _ _ (by simpa using h), length_zeros,
      List.getD_replicate _ (by omega)]
  · rename_i h
    rw [List.getD_append _ _ _ _ (by simpa using h), getD_zeros]

theorem residual_plainAuxiliary (t : Tableau ℚ) (v : ℕ → ℚ) : t.plainAuxiliary.residual v =
    -∑ k ∈ range t.artificialCount, v (t.artificialStart + k) := by
  have hlen := t.length_plainAuxiliary
  rw [Equation.residual, hlen, columnCount, Finset.sum_range_add, Finset.sum_eq_zero, zero_add,
    ← Finset.sum_neg_distrib, show t.plainAuxiliary.rhs = 0 from rfl, sub_zero]
  · refine Finset.sum_congr rfl fun k hk => ?_
    rw [mem_range] at hk
    rw [coefficient_plainAuxiliary (by unfold columnCount; omega), if_pos (by omega)]
    ring
  · intro j hj
    rw [mem_range] at hj
    rw [coefficient_plainAuxiliary (by unfold columnCount; omega), if_neg (by omega), zero_mul]

variable (hc : t.Canonical)
include hc

/-- The rows that are added to the auxiliary objective have its length. -/
theorem length_filter_rows : ∀ row ∈ t.rows.filter t.isArtificial,
    row.coefficients.length = t.plainAuxiliary.coefficients.length := fun row hrow => by
  rw [length_plainAuxiliary]
  exact (hc.shaped.rows row (List.mem_of_mem_filter hrow)).1

/-- **The auxiliary objective at a vector of the tableau** is the negated sum of the artificial
variables. -/
theorem residual_auxiliary (hv : t.SolvedBy v) : t.auxiliary.objective.residual v =
    -∑ k ∈ range t.artificialCount, v (t.artificialStart + k) := by
  have h := (coefficient_foldl_plus (length_filter_rows hc)).2.2 v
  have h0 : ((t.rows.filter t.isArtificial).map (·.residual v)).sum = 0 := by
    refine List.sum_eq_zero fun x hx => ?_
    obtain ⟨row, hrow, rfl⟩ := List.mem_map.1 hx
    exact hv row (List.mem_of_mem_filter hrow)
  rw [h0, add_zero, residual_plainAuxiliary] at h
  exact h

/-- **The tableau of the first phase is a dictionary.** Each basic artificial variable is
expressed by its own row, and no other row has it. -/
theorem auxiliary_dictionary : t.auxiliary.Dictionary where
  shaped := ⟨hc.shaped.rows,
    (coefficient_foldl_plus (length_filter_rows hc)).1.trans t.length_plainAuxiliary⟩
  distinct := hc.distinct
  unit := hc.unit
  nonneg := hc.nonneg
  priced := by
    intro row hrow
    have hrow : row ∈ t.rows := hrow
    obtain ⟨i, hi⟩ := List.getElem?_of_mem hrow
    have h := (coefficient_foldl_plus (length_filter_rows hc)).2.1 row.basic
    -- of the rows that were added, only this one has the variable, and there it cancels the `-1`
    rw [coefficient_plainAuxiliary (hc.shaped.rows row hrow).2, sum_map_filter,
      sum_map_eq_single hi] at h
    · rw [hc.unit i i row row hi hi, if_pos rfl] at h
      refine h.trans ?_
      by_cases ha : t.artificialStart ≤ row.basic
      · rw [if_pos ha, if_pos (isArtificial_iff.2 ha)]; ring
      · rw [if_neg ha, if_neg (fun h => ha (isArtificial_iff.1 h))]; ring
    · intro j other hj hji
      have hu := hc.unit i j row other hi hj
      rw [if_neg (Ne.symm hji)] at hu
      rw [hu, ite_self]

end Auxiliary

section DriveOut

theorem magnitude_pos_iff {x : ℚ} : 0 < magnitude x ↔ x ≠ 0 := by
  unfold magnitude
  split
  · rename_i h
    exact ⟨fun _ => h.ne, fun _ => neg_pos.2 h⟩
  · rename_i h
    exact ⟨fun h => h.ne', fun h' => lt_of_le_of_ne (not_lt.1 h) h'.symm⟩

/-- A row without a replacement has no coefficient before the artificial columns. -/
theorem replacement_eq_none (h : t.replacement 0 row = none) :
    ∀ j < t.artificialStart, row.coefficient j = 0 := by
  intro j hj
  unfold replacement at h
  simp only [List.findIdx?_eq_none_iff, decide_eq_false_iff_not, magnitude_pos_iff, not_not] at h
  rcases lt_or_ge j row.coefficients.length with hlt | hge
  · have hmem : row.coefficients[j] ∈ row.coefficients.take t.artificialStart :=
      List.mem_iff_getElem?.2 ⟨j, by rw [List.getElem?_take, if_pos hj, List.getElem?_eq_getElem hlt]⟩
    rw [Equation.coefficient, List.getD_eq_getElem _ _ hlt]
    exact h _ hmem
  · exact Equation.coefficient_of_le hge

/-- A replacement is a column before the artificial ones with a coefficient. -/
theorem replacement_eq_some {c : ℕ} (h : t.replacement 0 row = some c) :
    c < t.artificialStart ∧ row.coefficient c ≠ 0 := by
  unfold replacement at h
  simp only [List.findIdx?_eq_some_iff_getElem, decide_eq_true_eq, magnitude_pos_iff] at h
  obtain ⟨hc, hne, -⟩ := h
  have hc' : c < t.artificialStart ∧ c < row.coefficients.length := by simpa using hc
  refine ⟨hc'.1, ?_⟩
  rw [Equation.coefficient, List.getD_eq_getElem _ _ hc'.2]
  simpa using hne

/-- **The tableau after `k` rows have been driven out**: it says the same as before, basic
artificial variables are zero, and the rows so far are settled. -/
structure Driven (t : Tableau ℚ) (k : ℕ) (t' : Tableau ℚ) : Prop where
  canonical : t'.Canonical
  agrees : t.Agrees t'
  length_rows : t'.rows.length = t.rows.length
  level : ∀ row ∈ t'.rows, t'.artificialStart ≤ row.basic → row.rhs = 0
  settled : ∀ i < k, ∀ row, t'.rows[i]? = some row → t'.SettledRow row

/-- A pivot at a row with an artificial basic variable that is zero. -/
theorem Driven.pivot {t'' : Tableau ℚ} {k c : ℕ} (h : t.Driven k t')
    (hp : t'.Pivots k c row t'') (hc : c < t'.artificialStart) (hz : row.rhs = 0) :
    t.Driven (k + 1) t'' := by
  have hs := h.canonical.shaped
  -- the pivot row has right-hand side zero, so no right-hand side moves
  have hrhs : ∀ (i : ℕ) (new : BasicRow ℚ), t''.rows[i]? = some new →
      ∃ old : BasicRow ℚ, t'.rows[i]? = some old ∧ new.rhs = old.rhs := by
    intro i new hnew
    have hlt : i < t'.rows.length := by
      rw [← hp.length_rows]; exact (List.getElem?_eq_some_iff.1 hnew).1
    exact ⟨_, List.getElem?_eq_getElem hlt,
      hp.rhs_eq_of_zero hs hz (List.getElem?_eq_getElem hlt) hnew⟩
  -- row `k` is no longer artificial, and the others keep their basic variables
  have hset : ∀ (i : ℕ) (new : BasicRow ℚ), t''.rows[i]? = some new → t''.artificialStart ≤ new.basic →
      i ≠ k ∧ ∃ old : BasicRow ℚ, t'.rows[i]? = some old ∧ t'.artificialStart ≤ old.basic := by
    intro i new hnew hart
    rw [hp.artificialStart] at hart
    rcases hp.row_cases hs hnew with ⟨-, -, hb⟩ | ⟨hik, old, hold, hb, -⟩
    · omega
    · exact ⟨hik, old, hold, hb ▸ hart⟩
  refine ⟨hp.canonical h.canonical fun new hnew => ?_, h.agrees.trans (hp.agrees hs),
    hp.length_rows.trans h.length_rows, fun new hnew hart => ?_, fun i hi new hnew hart => ?_⟩
  · obtain ⟨i, hi⟩ := List.getElem?_of_mem hnew
    obtain ⟨old, hold, heq⟩ := hrhs i new hi
    rw [heq]
    exact h.canonical.nonneg old (List.mem_of_getElem? hold)
  · obtain ⟨i, hi⟩ := List.getElem?_of_mem hnew
    obtain ⟨-, old, hold, hart'⟩ := hset i new hi hart
    obtain ⟨old', hold', heq⟩ := hrhs i new hi
    obtain rfl : old' = old := Option.some.inj (hold'.symm.trans hold)
    rw [heq]
    exact h.level old' (List.mem_of_getElem? hold) hart'
  · obtain ⟨hik, old, hold, hart'⟩ := hset i new hnew hart
    exact hp.settledRow hs hc hold hnew (h.settled i (by omega) old hold) hart

/-- **Driving out one row** always succeeds. -/
theorem Driven.driveOutRow {k : ℕ} (h : t.Driven k t') (hk : k < t.rows.length) :
    ∃ t'', t'.driveOutRow 0 k = some t'' ∧ t.Driven (k + 1) t'' := by
  have hk' : k < t'.rows.length := by rw [h.length_rows]; exact hk
  have hrow := List.getElem?_eq_getElem hk'
  have hmem := List.getElem_mem hk'
  -- a row that is already settled needs no pivot
  have hstay : t'.SettledRow t'.rows[k] → t.Driven (k + 1) t' := fun hset =>
    ⟨h.canonical, h.agrees, h.length_rows, h.level, fun i hi row hi' => by
      rcases Nat.lt_succ_iff_lt_or_eq.1 hi with hlt | rfl
      · exact h.settled i hlt row hi'
      · rw [hrow, Option.some.injEq] at hi'
        exact hi' ▸ hset⟩
  unfold Tableau.driveOutRow
  rw [hrow]
  by_cases hart : t'.isArtificial t'.rows[k] = true
  · have hz := h.level _ hmem (isArtificial_iff.1 hart)
    simp only [hart, if_true]
    cases hrep : t'.replacement 0 t'.rows[k] with
    | none => exact ⟨t', rfl, hstay fun _ => ⟨hz, replacement_eq_none hrep⟩⟩
    | some c =>
      obtain ⟨hc, hne⟩ := replacement_eq_some hrep
      have hp : t'.Pivots k c t'.rows[k] _ := ⟨hrow, hne, rfl⟩
      exact ⟨_, pivot_zero_iff.2 ⟨_, hp⟩, h.pivot hp hc hz⟩
  · simp only [hart]
    exact ⟨t', rfl, hstay fun ha => absurd (isArtificial_iff.2 ha) hart⟩

/-- **Driving out all rows** succeeds and settles every row. -/
theorem driveOut_spec (hc : t.Canonical)
    (hl : ∀ row ∈ t.rows, t.artificialStart ≤ row.basic → row.rhs = 0) :
    ∃ t', t.driveOut 0 = some t' ∧ t'.Canonical ∧ t.Agrees t' ∧ t'.Settled := by
  have key : ∀ n ≤ t.rows.length, ∃ t',
      (List.range n).foldlM (driveOutRow 0) t = some t' ∧ t.Driven n t' := by
    intro n
    induction n with
    | zero => exact fun _ => ⟨t, rfl, hc, .refl t, rfl, hl, fun i hi => by omega⟩
    | succ n ih =>
      intro hn
      obtain ⟨t', hrun, hdriven⟩ := ih (by omega)
      obtain ⟨t'', hrow, hdriven'⟩ := hdriven.driveOutRow (by omega)
      refine ⟨t'', ?_, hdriven'⟩
      rw [List.range_succ, List.foldlM_append, hrun]
      simpa using hrow
  obtain ⟨t', hrun, hdriven⟩ := key t.rows.length le_rfl
  refine ⟨t', hrun, hdriven.canonical, hdriven.agrees, fun row hrow => ?_⟩
  obtain ⟨i, hi⟩ := List.getElem?_of_mem hrow
  refine hdriven.settled i ?_ row hi
  rw [← hdriven.length_rows]
  exact (List.getElem?_eq_some_iff.1 hi).1

end DriveOut

section Price

/-- An objective without the variable is left alone, which is the same as subtracting nothing. -/
theorem priceOut_eq_minus {o : Equation ℚ}
    (h : o.coefficients.length = row.coefficients.length) :
    priceOut 0 o row = o.minus (o.coefficient row.basic) row.toEquation := by
  unfold priceOut
  simp only [magnitude_pos_iff]
  split
  · rfl
  · rename_i h0
    have := Equation.eliminate_eq_minus h row.basic
    rw [← this, Equation.eliminate, if_pos (by simpa using h0)]

/-- The objective with some variables removed: its length, the coefficients that no row has, and
its value where the rows hold. -/
theorem foldl_priceOut {rows : List (BasicRow ℚ)} {o : Equation ℚ}
    (h : ∀ row ∈ rows, row.coefficients.length = o.coefficients.length) :
    (rows.foldl (priceOut 0) o).coefficients.length = o.coefficients.length ∧
      (∀ j, (∀ row ∈ rows, row.coefficient j = 0) →
        (rows.foldl (priceOut 0) o).coefficient j = o.coefficient j) ∧
      ∀ v, (∀ row ∈ rows, row.residual v = 0) →
        (rows.foldl (priceOut 0) o).residual v = o.residual v := by
  induction rows generalizing o with
  | nil => simp
  | cons row rows ih =>
    have hrow := (h row List.mem_cons_self).symm
    have hlen := Equation.length_minus hrow (o.coefficient row.basic)
    obtain ⟨h1, h2, h3⟩ := ih (o := o.minus (o.coefficient row.basic) row.toEquation)
      fun r hr => by rw [hlen, h r (List.mem_cons_of_mem _ hr)]
    rw [List.foldl_cons, priceOut_eq_minus hrow]
    refine ⟨h1.trans hlen, fun j hj => ?_, fun v hv => ?_⟩
    · rw [h2 j fun r hr => hj r (List.mem_cons_of_mem _ hr), Equation.coefficient_minus hrow,
        hj row List.mem_cons_self, mul_zero, sub_zero]
    · rw [h3 v fun r hr => hv r (List.mem_cons_of_mem _ hr), Equation.residual_minus hrow,
        hv row List.mem_cons_self, mul_zero, sub_zero]

/-- Each basic variable is removed by its own row, and no later row brings it back. -/
theorem coefficient_foldl_priceOut {rows : List (BasicRow ℚ)} {o : Equation ℚ}
    (h : ∀ row ∈ rows, row.coefficients.length = o.coefficients.length)
    (hself : ∀ row ∈ rows, row.coefficient row.basic = 1)
    (hother : rows.Pairwise fun row later => later.coefficient row.basic = 0) :
    ∀ row ∈ rows, (rows.foldl (priceOut 0) o).coefficient row.basic = 0 := by
  induction rows generalizing o with
  | nil => simp
  | cons first rows ih =>
    have hfirst := (h first List.mem_cons_self).symm
    have hlen := Equation.length_minus hfirst (o.coefficient first.basic)
    have hrest : ∀ row ∈ rows, row.coefficients.length =
        (o.minus (o.coefficient first.basic) first.toEquation).coefficients.length := fun r hr => by
      rw [hlen, h r (List.mem_cons_of_mem _ hr)]
    obtain ⟨hp, hpair⟩ := List.pairwise_cons.1 hother
    intro row hrow
    rw [List.foldl_cons, priceOut_eq_minus hfirst]
    rcases List.mem_cons.1 hrow with rfl | hrow
    · -- the rows that follow lack the variable
      rw [(foldl_priceOut hrest).2.1 row.basic hp, Equation.coefficient_minus hfirst,
        hself row List.mem_cons_self]
      ring
    · exact ih hrest (fun r hr => hself r (List.mem_cons_of_mem _ hr)) hpair row hrow

variable {o : Equation ℚ} (hc : t.Canonical) (ho : o.coefficients.length = t.columnCount)
include hc ho

theorem length_rows_eq : ∀ row ∈ t.rows, row.coefficients.length = o.coefficients.length :=
  fun row hrow => (hc.shaped.rows row hrow).1.trans ho.symm

/-- **The objective that is put back is priced.** -/
theorem withObjective_dictionary : (t.withObjective 0 o).Dictionary where
  shaped := ⟨hc.shaped.rows, (foldl_priceOut (length_rows_eq hc ho)).1.trans ho⟩
  distinct := hc.distinct
  unit := hc.unit
  nonneg := hc.nonneg
  priced := by
    have hlen : ∀ row ∈ t.rows, row.coefficients.length = o.coefficients.length :=
      length_rows_eq hc ho
    refine coefficient_foldl_priceOut hlen (fun row hrow => ?_) ?_
    · obtain ⟨i, hi⟩ := List.getElem?_of_mem hrow
      rw [hc.unit i i row row hi hi, if_pos rfl]
    · rw [List.pairwise_iff_getElem]
      intro i j hi hj hij
      rw [hc.unit i j _ _ (List.getElem?_eq_getElem hi) (List.getElem?_eq_getElem hj),
        if_neg hij.ne]

/-- It has its old value at every vector of the tableau. -/
theorem residual_withObjective (hv : t.SolvedBy v) :
    (t.withObjective 0 o).objective.residual v = o.residual v :=
  (foldl_priceOut (length_rows_eq hc ho)).2.2 v hv

end Price

end LinearProgram.Simplex.Tableau
