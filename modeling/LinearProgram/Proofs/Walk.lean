import LinearProgram.Proofs.Pivot
import LinearProgram.Proofs.PivotRule
import LinearProgram.Simplex.Walk

/-!
# Walks and their invariants

A walk is a sequence of pivots, and its budget only says where it is cut off.

* `run_ends`: the place where a run ends is reached by pivots, and the status says what would
  happen next there.
* `run_of_le`: a larger budget does not change an answer that was reached.
* `exists_budget`: if the pivots come to an end, so does every run with a large enough budget.
* `Step.exchange`: over the rationals and without tolerance, all that one pivot of a walk does.
* `reaches_dictionary`: a walk keeps a dictionary and changes nothing that it says.
-/

namespace LinearProgram.Simplex.Walk

section Budget

variable {K : Type} [Scalar K] {tolerance : K} {limit : ℕ} {w next : Walk K}

/-- Whether the move at a place is the pivot to another place. -/
def Step (tolerance : K) (limit : ℕ) (w next : Walk K) : Prop :=
  w.move tolerance limit = .pivot next

/-- Whether one place is reached from another by pivots. -/
def Reaches (tolerance : K) (limit : ℕ) : Walk K → Walk K → Prop :=
  Relation.ReflTransGen (Step tolerance limit)

/-- Whether a walk that ends with the given status would move like this. Walks never find a
problem infeasible. -/
def Explains (m : Move K) : Status → Prop
  | .optimal => m = .optimal
  | .failed .unbounded => m = .unbounded
  | .failed .numerical => m = .breakdown
  | .failed .iterationLimit => m ≠ .optimal
  | .failed .infeasible => False

/-- **Where a run ends.** -/
theorem run_ends (tolerance : K) (limit budget : ℕ) (w : Walk K) : ∃ last,
    Reaches tolerance limit w last ∧ (run tolerance limit budget w).tableau = last.tableau ∧
      Explains (last.move tolerance limit) (run tolerance limit budget w).status := by
  induction budget generalizing w with
  | zero => cases h : w.move tolerance limit <;> exact ⟨w, .refl, by simp [run, h, Explains]⟩
  | succ budget ih =>
    cases h : w.move tolerance limit with
    | optimal => exact ⟨w, .refl, by simp [run, h, Explains]⟩
    | unbounded => exact ⟨w, .refl, by simp [run, h, Explains]⟩
    | breakdown => exact ⟨w, .refl, by simp [run, h, Explains]⟩
    | pivot next =>
      obtain ⟨last, hreach, ht, hs⟩ := ih next
      exact ⟨last, .head h hreach, by simpa [run, h] using ht, by simpa [run, h] using hs⟩

/-- **A larger budget does not change an answer that was reached.** -/
theorem run_of_le {budget budget' : ℕ} (hb : budget ≤ budget')
    (h : (run tolerance limit budget w).status ≠ .failed .iterationLimit) :
    run tolerance limit budget' w = run tolerance limit budget w := by
  induction budget generalizing w budget' with
  | zero => cases hm : w.move tolerance limit <;> cases budget' <;> simp_all [run]
  | succ budget ih =>
    obtain ⟨budget', rfl⟩ : ∃ b, budget' = b + 1 := ⟨budget' - 1, by omega⟩
    cases hm : w.move tolerance limit with
    | pivot next =>
      have hn : (run tolerance limit budget next).status ≠ .failed .iterationLimit := by
        simpa [run, hm] using h
      simp [run, hm, ih (Nat.le_of_succ_le_succ hb) hn]
    | _ => simp [run, hm]

/-- The place after one move. A place without a pivot stays. -/
def advance (tolerance : K) (limit : ℕ) (w : Walk K) : Walk K :=
  match w.move tolerance limit with
  | .pivot next => next
  | _ => w

theorem Step.advance_eq (h : Step tolerance limit w next) : advance tolerance limit w = next := by
  rw [Step] at h
  simp only [advance, h]

/-- A run that is cut off has made as many pivots as its budget. -/
theorem step_of_iterationLimit {budget : ℕ}
    (h : (run tolerance limit budget w).status = .failed .iterationLimit) :
    ∀ k < budget, Step tolerance limit ((advance tolerance limit)^[k] w)
      ((advance tolerance limit)^[k + 1] w) := by
  -- any other move ends the run with a status of its own
  induction budget generalizing w with
  | zero => intro k hk; omega
  | succ budget ih =>
    cases hm : w.move tolerance limit with
    | pivot next =>
      have hadv : advance tolerance limit w = next := by simp [advance, hm]
      have hn := ih (w := next) (by simpa [run, hm] using h)
      intro k hk
      cases k with
      | zero => simpa [Step, hadv] using hm
      | succ k =>
        simp only [Function.iterate_succ_apply, hadv]
        exact hn k (by omega)
    | _ => simp [run, hm] at h

/-- **Enough budget.** If no sequence of pivots is infinite, every run with a large enough budget
comes to an end of its own. -/
theorem exists_budget
    (h : ¬ ∃ ws : ℕ → Walk K, ws 0 = w ∧ ∀ k, Step tolerance limit (ws k) (ws (k + 1))) :
    ∃ enough, ∀ budget ≥ enough,
      (run tolerance limit budget w).status ≠ .failed .iterationLimit := by
  by_contra hn
  push Not at hn
  refine h ⟨fun k => (advance tolerance limit)^[k] w, rfl, fun k => ?_⟩
  obtain ⟨budget, hb, hs⟩ := hn (k + 1)
  exact step_of_iterationLimit hs k (by omega)

end Budget

open Scalar

variable {w next last : Walk ℚ} {limit : ℕ}

/-- **One pivot of a walk**: column `c` enters, row `r` leaves, and both are what the pivot rules
ask for. -/
structure Exchange (limit : ℕ) (w next : Walk ℚ) (c r : ℕ) (row : BasicRow ℚ) : Prop where
  pivots : w.tableau.Pivots r c row next.tableau
  lt_limit : c < limit
  cost_pos : 0 < w.tableau.objective.coefficient c
  coefficient_pos : 0 < row.coefficient c
  least : ∀ other ∈ w.tableau.rows, 0 < other.coefficient c →
    row.rhs / row.coefficient c ≤ other.rhs / other.coefficient c
  lowest_column : w.rule = .lowest → ∀ j < c, w.tableau.objective.coefficient j ≤ 0
  lowest_basic : w.rule = .lowest → ∀ other ∈ w.tableau.rows, 0 < other.coefficient c →
    row.rhs / row.coefficient c = other.rhs / other.coefficient c → row.basic ≤ other.basic
  stalled : next.stalled = if row.rhs = 0 then w.stalled + 1 else 0

/-- A chosen row can be pivoted: its coefficient is positive. -/
theorem pivot_of_leaving (hc : w.tableau.Canonical) {c r : ℕ}
    (h : w.tableau.leaving 0 w.rule c = some r) : ∃ t', w.tableau.pivot 0 r c = some t' := by
  obtain ⟨row, hrow, hpos, -⟩ := Tableau.leaving_eq_some hc.nonneg h
  exact ⟨_, Tableau.pivot_zero_iff.2 ⟨row, hrow, hpos.ne', rfl⟩⟩

/-- **What one pivot of a walk does.** -/
theorem Step.exchange (hc : w.tableau.Canonical) (h : Step 0 limit w next) :
    ∃ c r row, Exchange limit w next c r row := by
  unfold Step move at h
  -- only the last branch of a move is a pivot
  split at h
  · cases h
  rename_i c hent
  split at h
  · cases h
  rename_i r hleave
  split at h
  · cases h
  rename_i t' hpiv
  obtain ⟨row, hp⟩ := Tableau.pivot_zero_iff.1 hpiv
  obtain ⟨hlt, hcost, hlow⟩ := Tableau.entering_eq_some hent
  obtain ⟨row', hrow', hpos, hleast⟩ := Tableau.leaving_eq_some hc.nonneg hleave
  obtain rfl : row' = row := Option.some.inj (hrow'.symm.trans hp.row_eq)
  obtain rfl : ⟨t', w.stalledAfter r⟩ = next := Move.pivot.inj h
  exact ⟨c, r, row', {
    pivots := hp
    lt_limit := hlt
    cost_pos := hcost
    coefficient_pos := hpos
    least := fun other ho hpo => (hleast other ho hpo).1
    lowest_column := hlow
    lowest_basic := fun hr other ho hpo => (hleast other ho hpo).2 hr
    stalled := by simp [stalledAfter, hrow'] }⟩

/-- No column with a positive cost is left where a walk is optimal. -/
theorem cost_nonpos_of_optimal (h : w.move 0 limit = .optimal) :
    ∀ j < limit, w.tableau.objective.coefficient j ≤ 0 := by
  unfold move at h
  split at h
  · rename_i hent
    exact Tableau.entering_eq_none hent
  · split at h
    · cases h
    · split at h <;> cases h

/-- Where a walk is unbounded, a column has a positive cost and no positive coefficient. -/
theorem column_of_unbounded (hc : w.tableau.Canonical) (h : w.move 0 limit = .unbounded) :
    ∃ c < limit, 0 < w.tableau.objective.coefficient c ∧
      ∀ row ∈ w.tableau.rows, row.coefficient c ≤ 0 := by
  unfold move at h
  split at h
  · cases h
  rename_i c hent
  split at h
  · rename_i hleave
    obtain ⟨hlt, hcost, -⟩ := Tableau.entering_eq_some hent
    exact ⟨c, hlt, hcost, Tableau.leaving_eq_none hc.nonneg hleave⟩
  · split at h <;> cases h

/-- **Exact arithmetic never breaks down.** -/
theorem move_ne_breakdown (hc : w.tableau.Canonical) : w.move 0 limit ≠ .breakdown := by
  intro h
  unfold move at h
  split at h
  · cases h
  split at h
  · cases h
  rename_i c _ r hleave
  obtain ⟨t', ht'⟩ := pivot_of_leaving hc hleave
  rw [ht'] at h
  cases h

namespace Exchange

variable {c r : ℕ} {row : BasicRow ℚ}

/-- A pivot of a walk keeps a dictionary. -/
theorem dictionary (h : Exchange limit w next c r row) (hd : w.tableau.Dictionary) :
    next.tableau.Dictionary where
  toCanonical := h.pivots.canonical hd.toCanonical
    (h.pivots.rhs_nonneg hd.toCanonical h.coefficient_pos h.least)
  priced := h.pivots.priced hd.toCanonical hd.priced

/-- **A pivot of a walk never raises the right-hand side of the objective row.** -/
theorem objective_rhs_le (h : Exchange limit w next c r row) (hc : w.tableau.Canonical) :
    next.tableau.objective.rhs ≤ w.tableau.objective.rhs := by
  rw [h.pivots.objective_rhs hc.shaped]
  have hratio := div_nonneg (hc.nonneg row h.pivots.mem) h.coefficient_pos.le
  have := mul_nonneg h.cost_pos.le hratio
  linarith

/-- It lowers it, unless the right-hand side of the pivot row is zero. -/
theorem objective_rhs_lt (h : Exchange limit w next c r row) (hc : w.tableau.Canonical)
    (hne : row.rhs ≠ 0) : next.tableau.objective.rhs < w.tableau.objective.rhs := by
  rw [h.pivots.objective_rhs hc.shaped]
  have hratio := div_pos (lt_of_le_of_ne (hc.nonneg row h.pivots.mem) hne.symm) h.coefficient_pos
  have := mul_pos h.cost_pos hratio
  linarith

/-- The column that enters was not basic. -/
theorem basic_ne (h : Exchange limit w next c r row) (hd : w.tableau.Dictionary) :
    ∀ other ∈ w.tableau.rows, other.basic ≠ c := by
  rintro other hother rfl
  exact h.cost_pos.ne' (hd.priced other hother)

end Exchange

/-- **A walk keeps a dictionary and changes nothing that it says.** -/
theorem reaches_dictionary (h : Reaches 0 limit w last) (hd : w.tableau.Dictionary) :
    last.tableau.Dictionary ∧ w.tableau.Agrees last.tableau := by
  induction h with
  | refl => exact ⟨hd, .refl _⟩
  | tail _ hstep ih =>
    obtain ⟨c, r, row, hx⟩ := Step.exchange ih.1.toCanonical hstep
    exact ⟨hx.dictionary ih.1, ih.2.trans (hx.pivots.agrees ih.1.shaped)⟩

end LinearProgram.Simplex.Walk
