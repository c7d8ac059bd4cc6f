import LinearProgram.Proofs.Vertex
import LinearProgram.Proofs.Walk

/-!
# No walk is endless

Suppose that a walk over the rationals never ends. There are finitely many bases, and the basis
determines the value of a dictionary; so the value, which never rises, is constant from some pivot
on. From there on all pivots are without progress, and after sixteen of them the rule is `lowest`.

The rest is Bland's argument. Let `q` be the largest variable that enters again and again. Take a
dictionary where `q` enters, and a later one where `q` leaves while `s` enters. Going along the ray
of `s`, the objective of the later dictionary rises, so the objective of the earlier one does. But
none of its terms does: `q` falls, variables above `q` do not move any more, and a variable below
`q` that had a positive cost would have entered instead, one that falls would have left instead.

* `Endless.exists_stall`: from some pivot on there is no progress.
* `exists_last_peak`: a bounded sequence of numbers has a largest value among those that recur.
* `Endless.elim`: there is no endless walk.
* `not_endless_of_dictionary`, `exists_budget_of_dictionary`: from a dictionary every walk ends, and
  so does every run with enough budget.
-/

namespace LinearProgram.Simplex.Walk

open Scalar Finset

/-- Whether a variable is basic at a place. -/
def IsBasic (w : Walk ℚ) (j : ℕ) : Prop := ∃ row ∈ w.tableau.rows, row.basic = j

variable {limit : ℕ}

/-- **How a pivot changes the basis.** -/
theorem Exchange.isBasic_iff {w next : Walk ℚ} {c r : ℕ} {row : BasicRow ℚ}
    (h : Exchange limit w next c r row) (hc : w.tableau.Canonical) {j : ℕ} :
    next.IsBasic j ↔ j = c ∨ (w.IsBasic j ∧ j ≠ row.basic) := by
  constructor
  · rintro ⟨new, hnew, rfl⟩
    obtain ⟨i, hi⟩ := List.getElem?_of_mem hnew
    rcases h.pivots.row_cases hc.shaped hi with ⟨-, -, hb⟩ | ⟨hir, old, hold, hb, -⟩
    · exact .inl hb
    · refine .inr ⟨⟨old, List.mem_of_getElem? hold, hb.symm⟩, fun heq => hir ?_⟩
      exact Tableau.index_eq_of_unit hc.unit hold h.pivots.row_eq (hb.symm.trans heq)
  · rintro (rfl | ⟨⟨old, hold, rfl⟩, hne⟩)
    · obtain ⟨new, hnew⟩ := h.pivots.exists_row h.pivots.row_eq
      rcases h.pivots.row_cases hc.shaped hnew with ⟨-, -, hb⟩ | ⟨hrr, -⟩
      · exact ⟨new, List.mem_of_getElem? hnew, hb⟩
      · exact absurd rfl hrr
    · obtain ⟨i, hi⟩ := List.getElem?_of_mem hold
      obtain ⟨new, hnew⟩ := h.pivots.exists_row hi
      rcases h.pivots.row_cases hc.shaped hnew with ⟨hir, -⟩ | ⟨-, old', hold', hb, -⟩
      · subst hir
        obtain rfl : old = row := Option.some.inj (hi.symm.trans h.pivots.row_eq)
        exact absurd rfl hne
      · obtain rfl : old' = old := Option.some.inj (hold'.symm.trans hi)
        exact ⟨new, List.mem_of_getElem? hnew, hb⟩

/-- **An endless walk**: at step `k` column `c k` enters and row `r k` leaves. -/
structure Endless (limit : ℕ) (ws : ℕ → Walk ℚ) (c r : ℕ → ℕ) (row : ℕ → BasicRow ℚ) : Prop where
  dictionary : ∀ k, (ws k).tableau.Dictionary
  exchange : ∀ k, Exchange limit (ws k) (ws (k + 1)) (c k) (r k) (row k)

/-- A falling sequence with finitely many values is constant from some place on. -/
theorem exists_eventually_const {z : ℕ → ℚ} (hz : Antitone z) (hfin : (Set.range z).Finite) :
    ∃ K, ∀ k ≥ K, z k = z K := by
  obtain ⟨_, ⟨K, rfl⟩, hmin⟩ :=
    Set.exists_min_image (Set.range z) id hfin ⟨z 0, Set.mem_range_self 0⟩
  exact ⟨K, fun k hk => le_antisymm (hz hk) (hmin _ (Set.mem_range_self k))⟩

/-- A bounded sequence of numbers has a value that recurs for ever and is not exceeded from some
place on. -/
theorem exists_last_peak {f : ℕ → ℕ} {n : ℕ} (hf : ∀ k, f k ≤ n) (K : ℕ) :
    ∃ q L, K ≤ L ∧ (∀ k ≥ L, f k ≤ q) ∧ ∀ M, ∃ k ≥ M, f k = q := by
  classical
  have hex : ∃ q L, K ≤ L ∧ ∀ k ≥ L, f k ≤ q := ⟨n, K, le_rfl, fun k _ => hf k⟩
  obtain ⟨L, hKL, hL⟩ := Nat.find_spec hex
  refine ⟨Nat.find hex, L, hKL, hL, fun M => ?_⟩
  by_contra hM
  push Not at hM
  -- otherwise a smaller bound holds from some place on
  rcases Nat.eq_zero_or_pos (Nat.find hex) with h0 | hpos
  · refine hM (max L M) (le_max_right _ _) ?_
    have := hL (max L M) (le_max_left _ _)
    omega
  · refine Nat.find_min hex (m := Nat.find hex - 1) (by omega)
      ⟨max L M, hKL.trans (le_max_left _ _), fun k hk => ?_⟩
    have h1 := hL k ((le_max_left _ _).trans hk)
    have h2 := hM k ((le_max_right _ _).trans hk)
    omega

namespace Endless

variable {ws : ℕ → Walk ℚ} {c r : ℕ → ℕ} {row : ℕ → BasicRow ℚ}

theorem agrees (h : Endless limit ws c r row) {k l : ℕ} (hkl : k ≤ l) :
    (ws k).tableau.Agrees (ws l).tableau := by
  induction l, hkl using Nat.le_induction with
  | base => exact .refl _
  | succ l _ ih => exact ih.trans ((h.exchange l).pivots.agrees (h.dictionary l).shaped)

/-- The columns that enter are among finitely many. -/
theorem lt_columnCount (h : Endless limit ws c r row) (k : ℕ) : c k < (ws 0).tableau.columnCount := by
  rw [← (h.agrees (Nat.zero_le k)).columnCount]
  exact (h.exchange k).pivots.lt_columnCount (h.dictionary k).shaped

/-- The value never rises. -/
theorem antitone_rhs (h : Endless limit ws c r row) :
    Antitone fun k => (ws k).tableau.objective.rhs :=
  antitone_nat_of_succ_le fun k => (h.exchange k).objective_rhs_le (h.dictionary k).toCanonical

/-- There are finitely many bases, so there are finitely many values. -/
theorem finite_range_rhs (h : Endless limit ws c r row) :
    (Set.range fun k => (ws k).tableau.objective.rhs).Finite := by
  let basis : ℕ → Finset ℕ := fun k => ((ws k).tableau.rows.map BasicRow.basic).toFinset
  have hfin : (Set.range basis).Finite := by
    refine ((range (ws 0).tableau.columnCount).powerset.finite_toSet).subset ?_
    rintro _ ⟨k, rfl⟩
    rw [mem_coe, mem_powerset]
    intro j hj
    simp only [basis, List.mem_toFinset, List.mem_map] at hj
    obtain ⟨other, hother, rfl⟩ := hj
    rw [mem_range, ← (h.agrees (Nat.zero_le k)).columnCount]
    exact ((h.dictionary k).shaped.rows other hother).2
  have hdet : Function.FactorsThrough (fun k => (ws k).tableau.objective.rhs) basis := by
    -- the same basis at two places gives the same value
    have key : ∀ k l, k ≤ l → basis k = basis l →
        (ws k).tableau.objective.rhs = (ws l).tableau.objective.rhs := by
      intro k l hkl hb
      refine (Tableau.objective_rhs_eq (h.dictionary k) (h.dictionary l) (h.agrees hkl) ?_).symm
      intro other hother
      have hmem : other.basic ∈ basis l := by
        rw [← hb]
        exact List.mem_toFinset.2 (List.mem_map_of_mem hother)
      simpa [basis] using hmem
    intro k l hb
    rcases le_total k l with hkl | hkl
    · exact key k l hkl hb
    · exact (key l k hkl hb.symm).symm
  rw [← hdet.extend_comp (fun _ => 0), Set.range_comp]
  exact hfin.image _

/-- **From some pivot on there is no progress.** -/
theorem exists_stall (h : Endless limit ws c r row) : ∃ K, ∀ k ≥ K, (row k).rhs = 0 := by
  obtain ⟨K, hK⟩ := exists_eventually_const h.antitone_rhs h.finite_range_rhs
  refine ⟨K, fun k hk => ?_⟩
  by_contra hne
  -- a pivot with progress would lower a value that is constant by now
  have hlt := (h.exchange k).objective_rhs_lt (h.dictionary k).toCanonical hne
  have h1 := hK k hk
  have h2 := hK (k + 1) (by omega)
  linarith

/-- Sixteen pivots without progress make the rule `lowest`. -/
theorem rule_lowest (h : Endless limit ws c r row) {K : ℕ} (hK : ∀ k ≥ K, (row k).rhs = 0) :
    ∀ k ≥ K + patience, (ws k).rule = .lowest := by
  -- the count of pivots without progress is never reset after `K`
  have hst : ∀ m, m ≤ (ws (K + m)).stalled := by
    intro m
    induction m with
    | zero => exact Nat.zero_le _
    | succ m ih =>
      rw [← Nat.add_assoc, (h.exchange (K + m)).stalled, if_pos (hK (K + m) (by omega))]
      omega
  intro k hk
  obtain ⟨m, rfl⟩ : ∃ m, k = K + m := ⟨k - K, by omega⟩
  have := hst m
  exact if_pos (by omega)

/-- A variable that becomes basic has entered in between. -/
theorem exists_enter (h : Endless limit ws c r row) {i k j : ℕ} (hik : i ≤ k)
    (hi : ¬(ws i).IsBasic j) (hk : (ws k).IsBasic j) : ∃ l, i ≤ l ∧ l < k ∧ c l = j := by
  induction k, hik using Nat.le_induction with
  | base => exact absurd hk hi
  | succ k hk' ih =>
    rcases ((h.exchange k).isBasic_iff (h.dictionary k).toCanonical).1 hk with hj | ⟨hj, -⟩
    · exact ⟨k, hk', Nat.lt_succ_self k, hj.symm⟩
    · obtain ⟨l, h1, h2, h3⟩ := ih hj
      exact ⟨l, h1, by omega, h3⟩

/-- A variable that stops being basic has left in between. -/
theorem exists_leave (h : Endless limit ws c r row) {i k j : ℕ} (hik : i ≤ k)
    (hi : (ws i).IsBasic j) (hk : ¬(ws k).IsBasic j) :
    ∃ l, i ≤ l ∧ l < k ∧ (row l).basic = j := by
  induction k, hik using Nat.le_induction with
  | base => exact absurd hi hk
  | succ k hk' ih =>
    by_cases hj : (ws k).IsBasic j
    · refine ⟨k, hk', Nat.lt_succ_self k, ?_⟩
      by_contra hne
      exact hk (((h.exchange k).isBasic_iff (h.dictionary k).toCanonical).2
        (.inr ⟨hj, fun heq => hne heq.symm⟩))
    · obtain ⟨l, h1, h2, h3⟩ := ih hj
      exact ⟨l, h1, by omega, h3⟩

/-- Without progress, a variable that was not basic stays at zero. -/
theorem rhs_eq_zero (h : Endless limit ws c r row) {i k j : ℕ}
    (hstall : ∀ k ≥ i, (row k).rhs = 0) (hi : ¬(ws i).IsBasic j) (hik : i ≤ k) :
    ∀ other ∈ (ws k).tableau.rows, other.basic = j → other.rhs = 0 := by
  induction k, hik using Nat.le_induction with
  | base =>
    intro other hother hb
    exact absurd ⟨other, hother, hb⟩ hi
  | succ k hk ih =>
    intro new hnew hb
    have hs := (h.dictionary k).shaped
    have hx := (h.exchange k).pivots
    obtain ⟨m, hm⟩ := List.getElem?_of_mem hnew
    rcases hx.row_cases hs hm with ⟨rfl, -, -⟩ | ⟨-, old, hold, hb', -⟩
    · rw [hx.rhs_eq_of_zero hs (hstall k hk) hx.row_eq hm, hstall k hk]
    · rw [hx.rhs_eq_of_zero hs (hstall k hk) hold hm]
      exact ih old (List.mem_of_getElem? hold) (hb'.symm.trans hb)

/-- **The objective rises in some variable.** Along the ray of the variable that enters at a later
place, some term of the objective at an earlier place is positive: that of a basic variable of the
later place, or that of the variable itself. -/
theorem exists_rising (h : Endless limit ws c r row) {i l : ℕ} (hil : i ≤ l) :
    0 < (ws i).tableau.objective.coefficient (c l) ∨
      ∃ other ∈ (ws l).tableau.rows,
        (ws i).tableau.objective.coefficient other.basic * other.coefficient (c l) < 0 := by
  have hd := h.dictionary l
  have hc := (h.exchange l).basic_ne hd
  have ha := h.agrees hil
  have hray := ha.objective _ ((ha.solvedBy _).1 (Tableau.ray_solvedBy hd.toCanonical (c l) 1))
  have hvert := ha.objective _ ((ha.solvedBy _).1 (Tableau.vertex_solvedBy hd.toCanonical))
  rw [Tableau.objective_ray hd] at hray
  rw [Tableau.objective_vertex hd] at hvert
  -- the two values of the objective differ by the cost at `l`, which is positive
  have hsum := (ws i).tableau.objective.residual_sub ((ws l).tableau.ray (c l) 1) (ws l).tableau.vertex
  by_contra hn
  push Not at hn
  obtain ⟨hself, hothers⟩ := hn
  have hle : ∑ j ∈ range (ws i).tableau.objective.coefficients.length,
      (ws i).tableau.objective.coefficient j *
        ((ws l).tableau.ray (c l) 1 j - (ws l).tableau.vertex j) ≤ 0 := by
    refine Finset.sum_nonpos fun j _ => ?_
    by_cases hj : (ws l).IsBasic j
    · obtain ⟨other, hother, rfl⟩ := hj
      rw [Tableau.ray_basic hc hd.toCanonical hother, Tableau.vertex_basic hd.toCanonical hother]
      have := hothers other hother
      linarith
    · have hne : ∀ other ∈ (ws l).tableau.rows, other.basic ≠ j := fun other ho hb =>
        hj ⟨other, ho, hb⟩
      rw [Tableau.vertex_of_ne hne]
      by_cases hjc : j = c l
      · rw [hjc, Tableau.ray_self hc]; linarith
      · rw [Tableau.ray_of_ne hne hjc]; simp
  have := (h.exchange l).cost_pos
  linarith

/-- **There is no endless walk.** -/
theorem elim (h : Endless limit ws c r row) : False := by
  obtain ⟨K, hK⟩ := h.exists_stall
  obtain ⟨q, L, hKL, hle, hrec⟩ :=
    exists_last_peak (fun k => (h.lt_columnCount k).le) (K + patience)
  -- `q` enters at `i`, and leaves at `l` before it enters again
  obtain ⟨i, hLi, hci⟩ := hrec L
  obtain ⟨k, hik, hck⟩ := hrec (i + 1)
  have hqi : ¬(ws i).IsBasic q := by
    rintro ⟨other, hother, hb⟩
    exact (h.exchange i).basic_ne (h.dictionary i) other hother (hb.trans hci.symm)
  have hqk : ¬(ws k).IsBasic q := by
    rintro ⟨other, hother, hb⟩
    exact (h.exchange k).basic_ne (h.dictionary k) other hother (hb.trans hck.symm)
  have hqi' : (ws (i + 1)).IsBasic q :=
    ((h.exchange i).isBasic_iff (h.dictionary i).toCanonical).2 (.inl hci.symm)
  obtain ⟨l, hil, -, hbl⟩ := h.exists_leave hik hqi' hqk
  have hrow := (h.exchange l).pivots.mem
  -- at `i` no variable below `q` has a positive cost
  have hbelow : ∀ j < q, (ws i).tableau.objective.coefficient j ≤ 0 := by
    rw [← hci]
    exact (h.exchange i).lowest_column (h.rule_lowest hK i (by omega))
  rcases h.exists_rising (i := i) (l := l) (by omega) with hpos | ⟨other, hother, hneg⟩
  · have hcl : c l ≤ q := hle l (by omega)
    rcases Nat.lt_or_ge (c l) q with hlt | hge
    · exact absurd hpos (hbelow _ hlt).not_gt
    · exact (h.exchange l).basic_ne (h.dictionary l) _ hrow (by omega)
  · -- `other` is a variable that was not basic at `i`, so it has entered since and is zero
    have hnb : ¬(ws i).IsBasic other.basic := by
      rintro ⟨row', hrow', hb⟩
      rw [← hb, (h.dictionary i).priced row' hrow', zero_mul] at hneg
      exact lt_irrefl _ hneg
    obtain ⟨m, him, hml, hcm⟩ := h.exists_enter (k := l) (by omega) hnb ⟨other, hother, rfl⟩
    have hoq : other.basic ≤ q := by rw [← hcm]; exact hle m (by omega)
    have hcost := (h.exchange i).cost_pos
    rw [hci] at hcost
    rcases Nat.lt_or_ge other.basic q with hlt | hge
    · have ha : 0 < other.coefficient (c l) := by
        by_contra hna
        have := mul_nonneg_of_nonpos_of_nonpos (hbelow _ hlt) (not_lt.1 hna)
        linarith
      have hz : other.rhs = 0 :=
        h.rhs_eq_zero (fun k hk => hK k (by omega)) hnb (by omega) other hother rfl
      have := (h.exchange l).lowest_basic (h.rule_lowest hK l (by omega)) other hother ha
        (by rw [hK l (by omega), hz, zero_div, zero_div])
      omega
    · -- `q` itself leaves at `l`, so its coefficient is positive there
      obtain ⟨m', hm'⟩ := List.getElem?_of_mem hother
      have heq : other.basic = (row l).basic := by omega
      have hmr := Tableau.index_eq_of_unit (h.dictionary l).unit hm' (h.exchange l).pivots.row_eq heq
      rw [hmr] at hm'
      obtain rfl : row l = other := Option.some.inj ((h.exchange l).pivots.row_eq.symm.trans hm')
      have := mul_pos (hbl ▸ hcost) (h.exchange l).coefficient_pos
      linarith

end Endless

/-- **No walk from a dictionary is endless**, whatever the pivots without progress on the way. -/
theorem not_endless_of_dictionary {w : Walk ℚ} (hd : w.tableau.Dictionary) (limit : ℕ) :
    ¬∃ ws : ℕ → Walk ℚ, ws 0 = w ∧ ∀ k, Step 0 limit (ws k) (ws (k + 1)) := by
  rintro ⟨ws, rfl, hstep⟩
  have hdict : ∀ k, (ws k).tableau.Dictionary := by
    intro k
    induction k with
    | zero => exact hd
    | succ k ih =>
      obtain ⟨c, r, row, hx⟩ := Step.exchange ih.toCanonical (hstep k)
      exact hx.dictionary ih
  choose c r row hx using fun k => Step.exchange (hdict k).toCanonical (hstep k)
  exact Endless.elim ⟨hdict, hx⟩

/-- **Every run from a dictionary ends**, given enough budget. -/
theorem exists_budget_of_dictionary {w : Walk ℚ} (hd : w.tableau.Dictionary) (limit : ℕ) :
    ∃ enough, ∀ budget ≥ enough, (run 0 limit budget w).status ≠ .failed .iterationLimit :=
  exists_budget (not_endless_of_dictionary hd limit)

end LinearProgram.Simplex.Walk
