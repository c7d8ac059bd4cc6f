import LinearProgram.Scalar.Exact
import LinearProgram.Simplex.Solve

/-!
# What the budget of pivots decides

A budget only says where a sequence of pivots is cut off. An answer that was reached stays the answer
when the budget grows, and a budget that does not cover the pivots of an answer is spent to the last
pivot. This holds for any arithmetic and any tolerance.

* `Budgeted`: what it means that a budget decides nothing else.
* `Walk.run_budgeted`: one walk is budgeted.
* `Budgeted.map`, `Budgeted.andThen`: so is what is read off an answer, and so are two phases that
  share a budget.
* `solve_budget`: the answers to a problem under different budgets.
-/

namespace LinearProgram.Simplex

variable {α β K : Type}

/-- **Answers that differ in their budget only.** Each answer has a status and has spent some of its
budget. -/
structure Budgeted (status : α → Status) (spent : α → Nat) (answer : Nat → α) : Prop where
  /-- No answer spends more than its budget. -/
  spent_le : ∀ n, spent (answer n) ≤ n
  /-- What is cut off has spent all of it. -/
  spent_eq : ∀ n, status (answer n) = .failed .iterationLimit → spent (answer n) = n
  /-- An answer that is not cut off is given by every budget of more than it has spent. -/
  settled : ∀ n n', status (answer n) ≠ .failed .iterationLimit → spent (answer n) < n' →
    answer n' = answer n
  /-- An optimal answer is also recognised when the budget is just spent. -/
  settled_of_optimal : ∀ n n', status (answer n) = .optimal → spent (answer n) ≤ n' →
    answer n' = answer n
  /-- A budget of less than an answer has spent is cut off. -/
  cut : ∀ n n', n' < spent (answer n) → status (answer n') = .failed .iterationLimit

namespace Budgeted

variable {status : α → Status} {spent : α → Nat} {answer : Nat → α}

/-- An answer that takes no pivots is the same for every budget. -/
theorem const {a : α} (hstatus : status a ≠ .failed .iterationLimit) (hspent : spent a = 0) :
    Budgeted status spent fun _ => a where
  spent_le n := by simp only [hspent, Nat.zero_le]
  spent_eq n hs := absurd hs hstatus
  settled n n' _ _ := rfl
  settled_of_optimal n n' _ _ := rfl
  cut n n' hn := by
    rw [hspent] at hn
    exact absurd hn (Nat.not_lt_zero n')

/-- **A larger budget does not change an answer that was reached.** -/
theorem eq_of_le (h : Budgeted status spent answer) {n n' : Nat} (hn : n ≤ n')
    (hs : status (answer n) ≠ .failed .iterationLimit) : answer n' = answer n := by
  rcases Nat.eq_or_lt_of_le hn with rfl | hlt
  · rfl
  · exact h.settled n n' hs (Nat.lt_of_le_of_lt (h.spent_le n) hlt)

/-- **What is read off an answer is budgeted** if it is cut off where the answer is, is optimal only
where the answer is, and counts the same pivots. -/
theorem map {status' : β → Status} {spent' : β → Nat} {f : α → β} (h : Budgeted status spent answer)
    (hcut : ∀ a, status' (f a) = .failed .iterationLimit ↔ status a = .failed .iterationLimit)
    (hoptimal : ∀ a, status' (f a) = .optimal → status a = .optimal)
    (hspent : ∀ a, spent' (f a) = spent a) : Budgeted status' spent' fun n => f (answer n) where
  spent_le n := by
    rw [hspent]
    exact h.spent_le n
  spent_eq n hs := by
    rw [hspent]
    exact h.spent_eq n ((hcut _).1 hs)
  settled n n' hs hn := by
    rw [hspent] at hn
    rw [h.settled n n' (fun hs' => hs ((hcut _).2 hs')) hn]
  settled_of_optimal n n' hs hn := by
    rw [hspent] at hn
    rw [h.settled_of_optimal n n' (hoptimal _ hs) hn]
  cut n n' hn := by
    rw [hspent] at hn
    exact (hcut _).2 (h.cut n n' hn)

end Budgeted

section Phases

variable [Scalar K] {tolerance : K} {limit : Nat} {w : Walk K} {t : Tableau K}

/-- Whether the outcomes under all budgets are budgeted in their pivots. -/
abbrev BudgetedOutcome (outcome : Nat → Outcome K) : Prop :=
  Budgeted Outcome.status Outcome.pivots outcome

namespace Walk

theorem pivots_run_le (budget : Nat) : (run tolerance limit budget w).pivots ≤ budget := by
  induction budget generalizing w with
  | zero => cases h : w.move tolerance limit <;> simp [run, h]
  | succ budget ih =>
    cases h : w.move tolerance limit with
    | pivot next =>
      simp only [run, h]
      exact Nat.succ_le_succ ih
    | _ => simp [run, h]

theorem pivots_run_eq {budget : Nat}
    (hs : (run tolerance limit budget w).status = .failed .iterationLimit) :
    (run tolerance limit budget w).pivots = budget := by
  induction budget generalizing w with
  | zero => exact Nat.le_zero.1 (pivots_run_le 0)
  | succ budget ih =>
    cases h : w.move tolerance limit with
    | pivot next =>
      simp only [run, h] at hs ⊢
      rw [ih hs]
    | _ => simp [run, h] at hs

/-- A run that comes to an end of its own does so with every budget of more than its pivots. -/
theorem run_eq_of_pivots_lt {budget budget' : Nat}
    (hs : (run tolerance limit budget w).status ≠ .failed .iterationLimit)
    (hb : (run tolerance limit budget w).pivots < budget') :
    run tolerance limit budget' w = run tolerance limit budget w := by
  -- by induction on the budget of the run, one pivot of both budgets at a time
  obtain ⟨rest, rfl⟩ : ∃ rest, budget' = rest + 1 := ⟨budget' - 1, by omega⟩
  induction budget generalizing w rest with
  | zero => cases h : w.move tolerance limit <;> simp_all [run]
  | succ budget ih =>
    cases h : w.move tolerance limit with
    | pivot next =>
      simp only [run, h] at hs hb ⊢
      obtain ⟨rest, rfl⟩ : ∃ rest', rest = rest' + 1 := ⟨rest - 1, by omega⟩
      rw [ih hs rest (Nat.lt_of_succ_lt_succ hb)]
    | _ => simp [run, h]

/-- A run that ends at an optimal tableau does so with every budget that covers its pivots. -/
theorem run_eq_of_optimal {budget budget' : Nat}
    (hs : (run tolerance limit budget w).status = .optimal)
    (hb : (run tolerance limit budget w).pivots ≤ budget') :
    run tolerance limit budget' w = run tolerance limit budget w := by
  induction budget generalizing w budget' with
  | zero => cases h : w.move tolerance limit <;> cases budget' <;> simp_all [run]
  | succ budget ih =>
    cases h : w.move tolerance limit with
    | optimal => cases budget' <;> simp [run, h]
    | pivot next =>
      simp only [run, h] at hs hb
      obtain ⟨rest, rfl⟩ : ∃ rest, budget' = rest + 1 := ⟨budget' - 1, by omega⟩
      simp only [run, h, ih hs (Nat.le_of_succ_le_succ hb)]
    | _ => simp [run, h] at hs

/-- A run with a budget of less than its pivots is cut off. -/
theorem status_run_of_lt {budget budget' : Nat}
    (hb : budget' < (run tolerance limit budget w).pivots) :
    (run tolerance limit budget' w).status = .failed .iterationLimit := by
  induction budget generalizing w budget' with
  | zero =>
    have hle : (run tolerance limit 0 w).pivots ≤ 0 := pivots_run_le 0
    exact absurd hb (by omega)
  | succ budget ih =>
    cases h : w.move tolerance limit with
    | pivot next =>
      cases budget' with
      | zero => simp [run, h]
      | succ rest =>
        simp only [run, h] at hb ⊢
        exact ih (Nat.lt_of_succ_lt_succ hb)
    | _ => simp [run, h] at hb

/-- **A walk is budgeted.** -/
theorem run_budgeted (tolerance : K) (limit : Nat) (w : Walk K) :
    BudgetedOutcome fun budget => run tolerance limit budget w where
  spent_le := pivots_run_le
  spent_eq _ hs := pivots_run_eq hs
  settled _ _ hs hn := run_eq_of_pivots_lt hs hn
  settled_of_optimal _ _ hs hn := run_eq_of_optimal hs hn
  cut _ _ hn := status_run_of_lt hn

end Walk

/-- A second phase after a first one that was optimal, with the budget that this has left. -/
def Outcome.andThen (first : Outcome K) (second : Tableau K → Outcome K) : Outcome K :=
  match first.status with
  | .failed _ => first
  | .optimal =>
    let last := second first.tableau
    { last with pivots := first.pivots + last.pivots }

omit [Scalar K] in
theorem Outcome.andThen_of_optimal {first : Outcome K} (second : Tableau K → Outcome K)
    (h : first.status = .optimal) :
    first.andThen second =
      { second first.tableau with pivots := first.pivots + (second first.tableau).pivots } := by
  simp only [andThen, h]

omit [Scalar K] in
theorem Outcome.andThen_of_failed {first : Outcome K} (second : Tableau K → Outcome K)
    (h : first.status ≠ .optimal) : first.andThen second = first := by
  unfold andThen
  split
  · rfl
  · next hs => exact absurd hs h

omit [Scalar K] in
/-- **Two phases with one budget are budgeted** if each of them is. -/
theorem Budgeted.andThen {first : Nat → Outcome K} {second : Tableau K → Nat → Outcome K}
    (hfirst : BudgetedOutcome first) (hsecond : ∀ t, BudgetedOutcome (second t)) :
    BudgetedOutcome fun n =>
      (first n).andThen fun t => second t (n - (first n).pivots) where
  spent_le n := by
    have hle := hfirst.spent_le n
    by_cases hs : (first n).status = .optimal
    · have hle₂ := (hsecond (first n).tableau).spent_le (n - (first n).pivots)
      simp only [Outcome.andThen_of_optimal _ hs]
      omega
    · rwa [Outcome.andThen_of_failed _ hs]
  spent_eq n h := by
    have hle := hfirst.spent_le n
    by_cases hs : (first n).status = .optimal
    · simp only [Outcome.andThen_of_optimal _ hs] at h ⊢
      have heq := (hsecond (first n).tableau).spent_eq _ h
      omega
    · rw [Outcome.andThen_of_failed _ hs] at h ⊢
      exact hfirst.spent_eq n h
  settled n n' h hn := by
    by_cases hs : (first n).status = .optimal
    · simp only [Outcome.andThen_of_optimal _ hs] at h hn
      rw [hfirst.settled_of_optimal n n' hs (by omega)]
      simp only [Outcome.andThen_of_optimal _ hs]
      rw [(hsecond (first n).tableau).settled _ (n' - (first n).pivots) h (by omega)]
    · rw [Outcome.andThen_of_failed _ hs] at h hn ⊢
      rw [hfirst.settled n n' h hn, Outcome.andThen_of_failed _ hs]
  settled_of_optimal n n' h hn := by
    by_cases hs : (first n).status = .optimal
    · simp only [Outcome.andThen_of_optimal _ hs] at h hn
      rw [hfirst.settled_of_optimal n n' hs (by omega)]
      simp only [Outcome.andThen_of_optimal _ hs]
      rw [(hsecond (first n).tableau).settled_of_optimal _ (n' - (first n).pivots) h (by omega)]
    · rw [Outcome.andThen_of_failed _ hs] at h
      exact absurd h hs
  cut n n' hn := by
    by_cases hs : (first n).status = .optimal
    · simp only [Outcome.andThen_of_optimal _ hs] at hn
      -- the smaller budget may run out in either phase
      by_cases hlt : n' < (first n).pivots
      · have hcut := hfirst.cut n n' hlt
        rwa [Outcome.andThen_of_failed _ (by rw [hcut]; exact nofun)]
      · rw [hfirst.settled_of_optimal n n' hs (by omega)]
        simp only [Outcome.andThen_of_optimal _ hs]
        exact (hsecond (first n).tableau).cut (n - (first n).pivots) _ (by omega)
    · rw [Outcome.andThen_of_failed _ hs] at hn
      have hcut := hfirst.cut n n' hn
      rwa [Outcome.andThen_of_failed _ (by rw [hcut]; exact nofun)]

/-- The conclusion counts the pivots of the walk, and its status comes from that of the walk. -/
theorem Tableau.conclude_cases (tolerance : K) (t : Tableau K) (search : Outcome K) :
    (t.conclude tolerance search).pivots = search.pivots ∧
      ((t.conclude tolerance search).status = .failed .iterationLimit ↔
        search.status = .failed .iterationLimit) ∧
      ((t.conclude tolerance search).status = .optimal → search.status = .optimal) := by
  unfold conclude
  split
  · next hs => simp [hs]
  · next hs => simp [hs]
  · next hs =>
    split
    · simp [hs]
    · split <;> simp [hs]

/-- The first phase is budgeted. -/
theorem Tableau.firstPhase_budgeted (tolerance : K) (t : Tableau K) :
    BudgetedOutcome fun budget => t.firstPhase tolerance budget := by
  have hwalk := Walk.run_budgeted tolerance t.columnCount { tableau := t.auxiliary }
  have hconclude := t.conclude_cases tolerance
  simp only [firstPhase]
  exact hwalk.map (fun search => (hconclude search).2.1) (fun search => (hconclude search).2.2)
    fun search => (hconclude search).1

/-- **Both phases are budgeted.** -/
theorem optimize_budgeted (tolerance : K) (t : Tableau K) :
    BudgetedOutcome fun n => (Simplex.mk n tolerance).optimize t := by
  have hsecond (t : Tableau K) : BudgetedOutcome fun n => secondPhase tolerance n t :=
    Walk.run_budgeted tolerance t.artificialStart { tableau := t }
  by_cases h : t.artificialCount = 0
  · simp only [optimize, if_pos h]
    exact hsecond t
  · simp only [optimize, if_neg h]
    exact (t.firstPhase_budgeted tolerance).andThen hsecond

end Phases

variable [ExtendedScalar K]

/-- The solution that the end of both phases stands for. -/
def solutionOf (p : Problem K) (form : StandardForm K) (o : Outcome K) : Solution K :=
  match o.status with
  | .failed reason => (Solution.failed reason).withIterations o.pivots
  | .optimal => (solutionAt p (form.point o.tableau.basicPoint)).withIterations o.pivots

theorem status_solutionOf (p : Problem K) (form : StandardForm K) (o : Outcome K) :
    (solutionOf p form o).status = o.status := by
  unfold solutionOf
  cases o.status <;> rfl

theorem iterations_solutionOf (p : Problem K) (form : StandardForm K) (o : Outcome K) :
    (solutionOf p form o).iterations = o.pivots := by
  unfold solutionOf
  cases o.status <;> rfl

/-- **The three ways to an answer**: the data are not fit for numerical work, a bound is not
consistent, or both phases come to an end on the standard form. -/
theorem solve_exits (method : Simplex K) (p : Problem K) :
    (p.wellFormed = false ∧ method.solve p = .failed .numerical) ∨
    (p.wellFormed = true ∧ StandardForm.ofProblem p = none ∧
      method.solve p = .failed .infeasible) ∨
    (p.wellFormed = true ∧ ∃ form, StandardForm.ofProblem p = some form ∧
      method.solve p = solutionOf p form (method.optimize (.ofStandardForm form))) := by
  unfold solve
  cases p.wellFormed with
  | false => exact .inl ⟨rfl, rfl⟩
  | true =>
    refine .inr ?_
    cases StandardForm.ofProblem p with
    | none => exact .inl ⟨rfl, rfl, rfl⟩
    | some form => exact .inr ⟨rfl, form, rfl, rfl⟩

/-- A failure without any pivots is the same for every budget. -/
theorem failed_budgeted {reason : Failure} (h : reason ≠ .iterationLimit) :
    Budgeted Solution.status Solution.iterations fun _ => (Solution.failed reason : Solution K) :=
  .const (fun hs => h (Status.failed.inj hs)) rfl

/-- **The answers to a problem are budgeted** in their iterations. -/
theorem solve_budgeted (tolerance : K) (p : Problem K) :
    Budgeted Solution.status Solution.iterations fun n => (Simplex.mk n tolerance).solve p := by
  unfold solve
  cases p.wellFormed with
  | false => exact failed_budgeted nofun
  | true =>
    cases StandardForm.ofProblem p with
    | none => exact failed_budgeted nofun
    | some form =>
      exact (optimize_budgeted tolerance (.ofStandardForm form)).map (f := solutionOf p form)
        (fun o => by rw [status_solutionOf]) (fun o => by rw [status_solutionOf]; exact id)
        (iterations_solutionOf p form)

/-- **What the budget decides**: an answer spends at most its budget, and all of it if it is cut off;
more budget does not change an answer that is not cut off; and with less than it has spent, an
answer is cut off when that is used up. -/
theorem solve_budget (tolerance : K) (p : Problem K) (n : Nat) :
    let s := (Simplex.mk n tolerance).solve p
    s.iterations ≤ n ∧
      (s.status = .failed .iterationLimit → s.iterations = n) ∧
      (s.status ≠ .failed .iterationLimit → ∀ n' ≥ n, (Simplex.mk n' tolerance).solve p = s) ∧
      ∀ n' < s.iterations,
        ((Simplex.mk n' tolerance).solve p).status = .failed .iterationLimit ∧
          ((Simplex.mk n' tolerance).solve p).iterations = n' := by
  have h := solve_budgeted tolerance p
  refine ⟨h.spent_le n, h.spent_eq n, fun hs n' hn => h.eq_of_le hn hs, fun n' hn => ?_⟩
  have hcut := h.cut n n' hn
  exact ⟨hcut, h.spent_eq n' hcut⟩

open Exact

/-- A problem with one pivot in the first phase and one in the second. -/
def bothPhases : Problem Exact where
  direction := .maximize
  shift := finite 0
  objective := [finite 1]
  rowBounds := [.lower (finite 1)]
  columnBounds := [.double (finite 0) (finite 3)]
  entries := [⟨1, 1, finite 1⟩]

theorem bothPhases_budget :
    let s := (Simplex.mk 10 0).solve bothPhases
    s.status = .optimal ∧ s.iterations = 2 ∧ (∀ n ≥ 10, (Simplex.mk n 0).solve bothPhases = s) ∧
      ((Simplex.mk 1 0).solve bothPhases).status = .failed .iterationLimit := by
  intro s
  have hs : s.status = .optimal := by decide +kernel
  have hspent : s.iterations = 2 := by decide +kernel
  obtain ⟨-, -, hmore, hless⟩ := solve_budget 0 bothPhases 10
  exact ⟨hs, hspent, hmore (hs ▸ nofun), (hless 1 (hspent ▸ Nat.lt_succ_self 1)).1⟩

end LinearProgram.Simplex
