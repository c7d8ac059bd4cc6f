import LinearProgram.Proofs.Equation
import LinearProgram.Simplex.Solve

/-!
# Finite data

Arithmetic on finite extended numbers is rational arithmetic, as long as no divisor is zero. The
simplex method divides by pivots only, and no pivot is zero. So on data that are all finite it does
over the extended numbers what it does over the rationals, move by move.

* `toExact`: the same equation, tableau, place on a walk or form over the extended numbers.
* `toExact_pivot`, `toExact_move`, `toExact_run`: one pivot, one move, a whole walk.
* `toExact_optimize`, `toExact_ofStandardForm`: both phases, and the tableau they start from.
-/

namespace LinearProgram

open Scalar Exact

namespace Exact

variable {p q : ℚ}

theorem zero_eq : (0 : Exact) = finite 0 := rfl

theorem one_eq : (1 : Exact) = finite 1 := rfl

@[simp]
theorem finite_neg : -finite p = finite (-p) := rfl

@[simp]
theorem finite_add : finite p + finite q = finite (p + q) := rfl

@[simp]
theorem finite_sub : finite p - finite q = finite (p - q) :=
  congrArg finite (sub_eq_add_neg p q).symm

@[simp]
theorem finite_mul : finite p * finite q = finite (p * q) := rfl

theorem finite_div (h : q ≠ 0) : finite p / finite q = finite (p / q) := if_neg h

@[simp]
theorem finite_lt : finite p < finite q ↔ p < q := decide_eq_true_iff

@[simp]
theorem finite_beq : (finite p == finite q) = (p == q) := rfl

@[simp]
theorem finite_le : finite p ≤ finite q ↔ p ≤ q := by
  rw [show (finite p ≤ finite q) = ((decide (p < q) || (p == q)) = true) from rfl]
  simp [le_iff_lt_or_eq]

@[simp]
theorem isFinite_finite : Scalar.isFinite (finite p) = true := rfl

@[simp]
theorem isFinite_rat : Scalar.isFinite p = true := rfl

@[simp]
theorem magnitude_finite : magnitude (finite p) = finite (magnitude p) := by
  simp only [magnitude, zero_eq, finite_lt, finite_neg, apply_ite finite]

@[simp]
theorem sum_map_finite (l : List ℚ) : sum (l.map finite) = finite (sum l) := by
  unfold sum
  rw [List.foldl_map]
  exact List.foldl_hom finite fun _ _ => rfl

@[simp]
theorem dot_map_finite (a x : List ℚ) : dot (a.map finite) (x.map finite) = finite (dot a x) := by
  simp only [dot, ← sum_map_finite, List.zipWith_map, List.map_zipWith, finite_mul]

theorem zeros_eq (n : ℕ) : (zeros n : List Exact) = (zeros n).map finite := by
  simp [zeros, zero_eq]

theorem single_eq (n k : ℕ) (x : ℚ) : single n k (finite x) = (single n k x).map finite := by
  simp [single, zeros_eq, List.map_set]

end Exact

namespace Simplex

/-- The same equation over the extended numbers. -/
def Equation.toExact (e : Equation ℚ) : Equation Exact := ⟨e.coefficients.map finite, finite e.rhs⟩

/-- The same equation with its basic variable. -/
def BasicRow.toExact (row : BasicRow ℚ) : BasicRow Exact :=
  { row.toEquation.toExact with basic := row.basic }

/-- The same tableau over the extended numbers. -/
def Tableau.toExact (t : Tableau ℚ) : Tableau Exact :=
  ⟨t.rows.map BasicRow.toExact, t.objective.toExact, t.varCount, t.slackCount, t.artificialCount⟩

/-- The same candidate over the extended numbers. -/
def Candidate.toExact (c : Candidate ℚ) : Candidate Exact := ⟨c.row, finite c.ratio, c.basic⟩

/-- The same place over the extended numbers. -/
def Walk.toExact (w : Walk ℚ) : Walk Exact := ⟨w.tableau.toExact, w.stalled⟩

/-- The same move over the extended numbers. -/
def Move.toExact : Move ℚ → Move Exact
  | .optimal => .optimal
  | .unbounded => .unbounded
  | .breakdown => .breakdown
  | .pivot next => .pivot next.toExact

/-- The same end of a walk over the extended numbers. -/
def Outcome.toExact (o : Outcome ℚ) : Outcome Exact := ⟨o.status, o.tableau.toExact, o.pivots⟩

namespace Equation

variable (e other : Equation ℚ) (j : ℕ) (x : ℚ)

@[simp]
theorem toExact_coefficients : e.toExact.coefficients = e.coefficients.map finite := rfl

@[simp]
theorem toExact_rhs : e.toExact.rhs = finite e.rhs := rfl

@[simp]
theorem toExact_coefficient : e.toExact.coefficient j = finite (e.coefficient j) :=
  List.getD_map _ 0 finite

theorem toExact_divide (hx : x ≠ 0) : e.toExact.divide (finite x) = (e.divide x).toExact := by
  simp [toExact, divide, finite_div hx]

@[simp]
theorem toExact_plus : e.toExact.plus other.toExact = (e.plus other).toExact := by
  simp [toExact, plus, List.zipWith_map, List.map_zipWith]

@[simp]
theorem toExact_minus : e.toExact.minus (finite x) other.toExact = (e.minus x other).toExact := by
  simp [toExact, minus, List.zipWith_map, List.map_zipWith]

@[simp]
theorem toExact_eliminate : e.toExact.eliminate other.toExact j = (e.eliminate other j).toExact := by
  simp only [eliminate, toExact_coefficient, zero_eq, finite_beq, toExact_minus, apply_ite toExact]

@[simp]
theorem toExact_settle : e.toExact.settle 0 = (e.settle 0).toExact := by
  simp only [settle, toExact_rhs, magnitude_finite, zero_eq, finite_lt, apply_ite toExact]
  rfl

end Equation

@[simp]
theorem BasicRow.toExact_toEquation (row : BasicRow ℚ) :
    row.toExact.toEquation = row.toEquation.toExact := rfl

@[simp]
theorem BasicRow.toExact_basic (row : BasicRow ℚ) : row.toExact.basic = row.basic := rfl

namespace Tableau

variable (t : Tableau ℚ) (row : BasicRow ℚ) (rule : PivotRule) (c r limit : ℕ)

@[simp]
theorem toExact_rows : t.toExact.rows = t.rows.map BasicRow.toExact := rfl

@[simp]
theorem toExact_objective : t.toExact.objective = t.objective.toExact := rfl

@[simp]
theorem toExact_artificialCount : t.toExact.artificialCount = t.artificialCount := rfl

@[simp]
theorem toExact_artificialStart : t.toExact.artificialStart = t.artificialStart := rfl

@[simp]
theorem toExact_columnCount : t.toExact.columnCount = t.columnCount := rfl

@[simp]
theorem toExact_getElem? : t.toExact.rows[r]? = t.rows[r]?.map BasicRow.toExact :=
  List.getElem?_map

@[simp]
theorem toExact_isArtificial : t.toExact.isArtificial row.toExact = t.isArtificial row := rfl

theorem finiteRhs_rat : t.finiteRhs = true := by simp [finiteRhs]

theorem finiteRhs_toExact : t.toExact.finiteRhs = true := by
  simp [finiteRhs, toExact, BasicRow.toExact, Equation.toExact]

theorem toExact_exchange (source : Equation ℚ) :
    t.toExact.exchange r c source.toExact = (t.exchange r c source).toExact := by
  have hrows : (t.toExact.exchange r c source.toExact).rows =
      (t.exchange r c source).rows.map BasicRow.toExact := by
    refine List.ext_getElem? fun i => ?_
    simp only [exchange, List.getElem?_mapIdx, List.getElem?_map, toExact_getElem?,
      Option.map_map]
    congr 1
    funext row
    simp only [Function.comp_apply]
    split
    · rfl
    · rw [BasicRow.toExact_toEquation, Equation.toExact_eliminate]
      rfl
  have hobjective := t.objective.toExact_eliminate source c
  simp only [toExact, exchange] at hrows hobjective ⊢
  rw [hrows, hobjective]

theorem toExact_settle : t.toExact.settle 0 = (t.settle 0).toExact := by
  simp only [settle, toExact, List.map_map]
  congr 1
  refine List.map_congr_left fun row _ => ?_
  have := row.toEquation.toExact_settle
  simp only [Function.comp_apply, BasicRow.toExact]
  rw [this]

/-- **A pivot on finite data.** -/
theorem toExact_pivot : t.toExact.pivot 0 r c = (t.pivot 0 r c).map toExact := by
  unfold pivot
  rw [toExact_getElem?]
  cases t.rows[r]? with
  | none => rfl
  | some row =>
    simp only [Option.map_some, BasicRow.toExact_toEquation, Equation.toExact_coefficient,
      isFinite_finite, isFinite_rat, zero_eq, finite_beq]
    -- a zero is refused on both sides, and anything else can be divided by
    by_cases hz : row.coefficient c = 0
    · simp [hz]
    · rw [row.toEquation.toExact_divide _ hz, toExact_exchange, ← zero_eq, toExact_settle]
      simp [hz, finiteRhs_rat, finiteRhs_toExact]

theorem toExact_argmaxAbove (bound : ℚ) (costs : List ℚ) :
    argmaxAbove (finite bound) (costs.map finite) = argmaxAbove bound costs := by
  let lift : ℚ × Option ℕ → Exact × Option ℕ := fun best => (finite best.1, best.2)
  unfold argmaxAbove
  rw [List.zipIdx_map, List.foldl_map, show (finite bound, none) = lift (bound, none) from rfl,
    List.foldl_hom lift]
  intro best place
  simp only [lift, Prod.map_fst, Prod.map_snd, finite_lt, id]
  split <;> rfl

/-- **The same column enters.** -/
theorem toExact_entering : t.toExact.entering 0 limit rule = t.entering 0 limit rule := by
  unfold entering
  rw [show t.toExact.objective.coefficients.take limit =
    (t.objective.coefficients.take limit).map finite from List.map_take.symm]
  cases rule with
  | largest => exact toExact_argmaxAbove 0 _
  | lowest => simp [List.findIdx?_map, zero_eq, Function.comp_def]

theorem toExact_candidate? (i : ℕ) :
    candidate? 0 c row.toExact i = (candidate? 0 c row i).map Candidate.toExact := by
  unfold candidate?
  by_cases ha : row.coefficient c ≤ 0
  · simp [zero_eq, ha]
  · -- the divisor is above the tolerance
    have hne : row.coefficient c ≠ 0 := fun h => ha h.le
    simp only [BasicRow.toExact_toEquation, Equation.toExact_coefficient, Equation.toExact_rhs,
      zero_eq, finite_le, finite_div hne, finite_lt, if_neg ha]
    split <;> rfl

theorem toExact_candidates :
    t.toExact.candidates 0 c = (t.candidates 0 c).map Candidate.toExact := by
  unfold candidates
  rw [toExact_rows, List.zipIdx_map, List.filterMap_map, List.map_filterMap]
  congr 1
  funext place
  exact toExact_candidate? place.1 c place.2

theorem toExact_beats (a b : Candidate ℚ) : a.toExact.beats rule b.toExact = a.beats rule b := by
  cases rule with
  | largest => simp [Candidate.beats, Candidate.toExact]
  | lowest =>
    simp only [Candidate.beats, Candidate.toExact, finite_lt, finite_beq]
    rfl

/-- **The same row leaves.** -/
theorem toExact_leaving : t.toExact.leaving 0 rule c = t.leaving 0 rule c := by
  unfold leaving
  rw [toExact_candidates]
  cases t.candidates 0 c with
  | nil => rfl
  | cons first others =>
    simp only [List.map_cons, List.foldl_map]
    refine congrArg (fun best => some best.row) (List.foldl_hom Candidate.toExact ?_)
    intro best other
    rw [toExact_beats]
    split <;> rfl

end Tableau

namespace Walk

variable (w : Walk ℚ) (limit : ℕ)

@[simp]
theorem toExact_tableau : w.toExact.tableau = w.tableau.toExact := rfl

@[simp]
theorem toExact_rule : w.toExact.rule = w.rule := rfl

theorem toExact_stalledAfter (r : ℕ) : w.toExact.stalledAfter r = w.stalledAfter r := by
  unfold stalledAfter
  rw [toExact_tableau, Tableau.toExact_getElem?]
  cases w.tableau.rows[r]? <;> rfl

/-- **One move on finite data.** -/
theorem toExact_move : w.toExact.move 0 limit = (w.move 0 limit).toExact := by
  unfold move
  rw [toExact_tableau, toExact_rule, Tableau.toExact_entering]
  cases w.tableau.entering 0 limit w.rule with
  | none => rfl
  | some c =>
    simp only [Tableau.toExact_leaving]
    cases w.tableau.leaving 0 w.rule c with
    | none => rfl
    | some r =>
      simp only [Tableau.toExact_pivot, toExact_stalledAfter]
      cases w.tableau.pivot 0 r c <;> rfl

/-- **A whole walk on finite data.** -/
theorem toExact_run (budget : ℕ) :
    run 0 limit budget w.toExact = (run 0 limit budget w).toExact := by
  induction budget generalizing w with
  | zero =>
    unfold run
    rw [toExact_move]
    cases w.move 0 limit <;> rfl
  | succ budget ih =>
    unfold run
    rw [toExact_move]
    cases w.move 0 limit with
    | pivot next =>
      simp only [Move.toExact, ih]
      rfl
    | _ => rfl

end Walk

namespace Tableau

variable (t : Tableau ℚ) (row : BasicRow ℚ) (r : ℕ)

theorem toExact_plainAuxiliary : t.toExact.plainAuxiliary = t.plainAuxiliary.toExact := by
  simp [plainAuxiliary, Equation.toExact, zeros_eq, zero_eq, one_eq]

theorem toExact_auxiliary : t.toExact.auxiliary = t.auxiliary.toExact := by
  have hobjective : t.toExact.auxiliaryObjective = t.auxiliaryObjective.toExact := by
    unfold auxiliaryObjective
    rw [toExact_rows, List.filter_map, List.foldl_map, toExact_plainAuxiliary,
      List.foldl_hom Equation.toExact]
    · rfl
    · exact fun objective row => Equation.toExact_plus _ _
  simp only [auxiliary, hobjective]
  rfl

theorem toExact_artificialRemains : t.toExact.artificialRemains 0 = t.artificialRemains 0 := by
  unfold artificialRemains
  rw [toExact_rows, List.any_map]
  congr 1
  funext row
  simp [zero_eq]

theorem toExact_replacement : t.toExact.replacement 0 row.toExact = t.replacement 0 row := by
  unfold replacement
  rw [BasicRow.toExact_toEquation, Equation.toExact_coefficients, ← List.map_take,
    List.findIdx?_map]
  simp [zero_eq, Function.comp_def]

theorem toExact_driveOutRow :
    t.toExact.driveOutRow 0 r = (t.driveOutRow 0 r).map toExact := by
  unfold driveOutRow
  rw [toExact_getElem?]
  cases t.rows[r]? with
  | none => rfl
  | some row =>
    simp only [Option.map_some, toExact_isArtificial, toExact_replacement]
    split
    · cases t.replacement 0 row with
      | none => rfl
      | some c => exact t.toExact_pivot c r
    · rfl

theorem toExact_driveOut : t.toExact.driveOut 0 = (t.driveOut 0).map toExact := by
  have hfold : ∀ (l : List ℕ) (t : Tableau ℚ),
      l.foldlM (driveOutRow 0) t.toExact = (l.foldlM (driveOutRow 0) t).map toExact := by
    intro l
    induction l with
    | nil => exact fun _ => rfl
    | cons r l ih =>
      intro t
      rw [List.foldlM_cons, List.foldlM_cons, toExact_driveOutRow]
      cases t.driveOutRow 0 r with
      | none => rfl
      | some next => exact ih next
  unfold driveOut
  rw [show t.toExact.rows.length = t.rows.length from List.length_map _]
  exact hfold _ t

theorem toExact_priceOut (objective : Equation ℚ) :
    priceOut 0 objective.toExact row.toExact = (priceOut 0 objective row).toExact := by
  unfold priceOut
  simp only [BasicRow.toExact_basic, BasicRow.toExact_toEquation, Equation.toExact_coefficient,
    Equation.toExact_minus, magnitude_finite, zero_eq, finite_lt]
  split <;> rfl

theorem toExact_withObjective (objective : Equation ℚ) :
    t.toExact.withObjective 0 objective.toExact = (t.withObjective 0 objective).toExact := by
  have hfold : t.toExact.rows.foldl (priceOut 0) objective.toExact =
      (t.rows.foldl (priceOut 0) objective).toExact := by
    rw [toExact_rows, List.foldl_map]
    exact List.foldl_hom Equation.toExact fun objective row => toExact_priceOut row objective
  simp only [withObjective, hfold]
  rfl

theorem toExact_conclude (search : Outcome ℚ) :
    t.toExact.conclude 0 search.toExact = (t.conclude 0 search).toExact := by
  simp only [conclude, Outcome.toExact]
  cases hs : search.status with
  | failed reason => cases reason <;> simp [hs]
  | optimal =>
    simp only [toExact_artificialRemains, toExact_driveOut]
    split
    · rfl
    · cases search.tableau.driveOut 0 with
      | none => rfl
      | some driven =>
        simp only [Option.map_some]
        rw [toExact_objective, toExact_withObjective]

/-- **The first phase on finite data.** -/
theorem toExact_firstPhase (budget : ℕ) :
    t.toExact.firstPhase 0 budget = (t.firstPhase 0 budget).toExact := by
  have hrun := Walk.toExact_run { tableau := t.auxiliary } t.columnCount budget
  rw [show Walk.toExact { tableau := t.auxiliary } = { tableau := t.auxiliary.toExact } from rfl]
    at hrun
  rw [firstPhase, toExact_auxiliary, toExact_columnCount, hrun, toExact_conclude]
  rfl

end Tableau

theorem toExact_secondPhase (budget : ℕ) (t : Tableau ℚ) :
    secondPhase 0 budget t.toExact = (secondPhase 0 budget t).toExact :=
  Walk.toExact_run { tableau := t } t.artificialStart budget

/-- **Both phases on finite data.** -/
theorem toExact_optimize (n : ℕ) (t : Tableau ℚ) :
    (Simplex.mk n (0 : Exact)).optimize t.toExact =
      ((Simplex.mk n (0 : ℚ)).optimize t).toExact := by
  unfold optimize
  rw [Tableau.toExact_artificialCount]
  split
  · exact toExact_secondPhase n t
  · simp only [Tableau.toExact_firstPhase, Outcome.toExact]
    cases hs : (t.firstPhase 0 n).status with
    | failed reason => simp only [hs]
    | optimal =>
      simp only [toExact_secondPhase]
      rfl

/-- The same constraint over the extended numbers. -/
def Constraint.toExact (c : Constraint ℚ) : Constraint Exact :=
  ⟨c.coefficients.map finite, c.relation, finite c.rhs⟩

/-- The same substitution over the extended numbers. -/
def Substitution.toExact (s : Substitution ℚ) : Substitution Exact :=
  ⟨finite s.offset, s.signs.map finite⟩

/-- The same form over the extended numbers. -/
def StandardForm.toExact (form : StandardForm ℚ) : StandardForm Exact :=
  ⟨form.varCount, form.direction, form.objective.map finite,
    form.constraints.map Constraint.toExact, form.columns.map Substitution.toExact⟩

theorem Constraint.toExact_normalize (c : Constraint ℚ) :
    c.toExact.normalize = c.normalize.toExact := by
  simp only [normalize, toExact, zero_eq, finite_lt, finite_neg]
  split <;> simp

theorem Substitution.toExact_value (s : Substitution ℚ) (y : List ℚ) :
    s.toExact.value (y.map finite) = finite (s.value y) := by
  simp [value, toExact]

namespace StandardForm

theorem toExact_varTotal (columns : List (Substitution ℚ)) :
    varTotal (columns.map Substitution.toExact) = varTotal columns := by
  induction columns with
  | nil => rfl
  | cons s columns ih =>
    have harity : s.toExact.arity = s.arity := List.length_map _
    simp only [List.map_cons, varTotal, harity, ih]

theorem toExact_columnValues (columns : List (Substitution ℚ)) (y : List ℚ) :
    columnValues (columns.map Substitution.toExact) (y.map finite) =
      (columnValues columns y).map finite := by
  induction columns generalizing y with
  | nil => rfl
  | cons s columns ih =>
    have harity : s.toExact.arity = s.arity := List.length_map _
    simp only [List.map_cons, columnValues, harity, ← List.map_take, ← List.map_drop,
      Substitution.toExact_value, ih]

theorem toExact_spread (columns : List (Substitution ℚ)) (a : List ℚ) :
    spread (columns.map Substitution.toExact) (a.map finite) = (spread columns a).map finite := by
  have hone : ∀ (s : Substitution ℚ) (x : ℚ),
      s.toExact.spread (finite x) = (s.spread x).map finite := fun s x => by
    simp [Substitution.spread, Substitution.toExact, zero_eq, Function.comp_def]
  induction columns generalizing a with
  | nil => rfl
  | cons s columns ih =>
    cases a with
    | nil => simp only [List.map_cons, List.map_nil, spread, zero_eq, hone, List.map_append, ← ih]
    | cons x a => simp only [List.map_cons, spread, hone, List.map_append, ih]

theorem toExact_constant (columns : List (Substitution ℚ)) (a : List ℚ) :
    constant (columns.map Substitution.toExact) (a.map finite) = finite (constant columns a) := by
  have hzip : List.zipWith (fun s x => x * s.offset) (columns.map Substitution.toExact)
      (a.map finite) = (List.zipWith (fun s x => x * s.offset) columns a).map finite := by
    simp [List.zipWith_map, List.map_zipWith, Substitution.toExact]
  unfold constant
  rw [hzip, List.foldl_map]
  exact List.foldl_hom finite fun _ _ => rfl

theorem toExact_point (form : StandardForm ℚ) (y : List ℚ) :
    form.toExact.point (y.map finite) = (form.point y).map finite :=
  toExact_columnValues form.columns y

end StandardForm

namespace Tableau

theorem toExact_initialRows (V S A s a : ℕ) (cs : List (Constraint ℚ)) :
    initialRows V S A s a (cs.map Constraint.toExact) =
      (initialRows V S A s a cs).map BasicRow.toExact := by
  induction cs generalizing s a with
  | nil => rfl
  | cons c cs ih =>
    obtain ⟨coefficients, relation, rhs⟩ := c
    cases relation <;>
      simp [initialRows, Constraint.toExact, ih, BasicRow.toExact, Equation.toExact, zeros_eq,
        single_eq, one_eq]

theorem toExact_countSlacks (cs : List (Constraint ℚ)) :
    countSlacks (cs.map Constraint.toExact) = countSlacks cs := List.countP_map

theorem toExact_countArtificials (cs : List (Constraint ℚ)) :
    countArtificials (cs.map Constraint.toExact) = countArtificials cs := List.countP_map

/-- **The first tableau of finite data.** -/
theorem toExact_ofStandardForm (form : StandardForm ℚ) :
    ofStandardForm form.toExact = (ofStandardForm form).toExact := by
  have hcs : form.toExact.constraints.map Constraint.normalize =
      (form.constraints.map Constraint.normalize).map Constraint.toExact := by
    simp only [StandardForm.toExact, List.map_map]
    exact List.map_congr_left fun c _ => c.toExact_normalize
  unfold ofStandardForm
  simp only [hcs, toExact_countSlacks, toExact_countArtificials]
  rw [show form.toExact.varCount = form.varCount from rfl, toExact_initialRows]
  simp only [StandardForm.toExact, toExact, Equation.toExact]
  cases form.direction <;> simp [zeros_eq, zero_eq, Function.comp_def]

theorem toExact_basicPoint (t : Tableau ℚ) : t.toExact.basicPoint = t.basicPoint.map finite := by
  unfold basicPoint
  rw [toExact_rows, List.foldl_map, zeros_eq]
  exact List.foldl_hom (List.map finite) fun y row => List.map_set.symm

end Tableau

end Simplex

end LinearProgram
