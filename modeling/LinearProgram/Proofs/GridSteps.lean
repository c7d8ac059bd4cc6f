import LinearProgram.Proofs.Grid
import LinearProgram.Simplex.FirstPhase

/-!
# The steps of the simplex method by position

Besides pivots, the simplex method chooses columns and rows, changes the objective, and reads off
the values of the variables. By position, too, all this is within range, and comes to the same.

* `entering?_toGrid`, `leaving?_toGrid`: the choice of a pivot.
* `auxiliary?_toGrid`, `restore?_toGrid`: the two objectives of the first phase.
* `remains?_toGrid`, `replacement?_toGrid`: what becomes of artificial variables.
* `point?_toGrid`: the values of the variables.
-/

namespace LinearProgram.Simplex.Tableau

variable {K : Type} [Scalar K] {t : Tableau K} {row : BasicRow K} {c i : Nat}

open Scalar

section Entering

variable {limit : Nat}

/-- The largest coefficient so far with its column, after one more coefficient. -/
def larger (best : K × Option Nat) (entry : K × Nat) : K × Option Nat :=
  if best.1 < entry.1 then (entry.1, some entry.2) else best

/-- **The column to enter is found by position**, and it is one of the first `limit`. -/
theorem entering?_toGrid (tolerance : K) (rule : PivotRule) (ht : t.Shaped)
    (hlimit : limit ≤ t.columnCount) :
    t.toGrid.entering? tolerance limit rule = some (t.entering tolerance limit rule) ∧
      ∀ c, t.entering tolerance limit rule = some c → c < limit := by
  have hlength : (t.objective.coefficients.take limit).length = limit := by
    rw [List.length_take, ht.objective]
    omega
  have hcells : ∀ {j x}, (t.objective.coefficients.take limit)[j]? = some x →
      j < limit ∧ t.objective.cells[j]? = some x := by
    intro j x hx
    have hj := (List.getElem?_eq_some_iff.1 hx).1
    rw [List.length_take] at hj
    rw [List.getElem?_take_of_lt (by omega)] at hx
    refine ⟨by omega, ?_⟩
    rw [Equation.cells, List.getElem?_append_left (by omega), hx]
  rw [Grid.entering?, objectiveRow?_toGrid]
  simp only [some_bind, cells_toGrid_objective]
  cases rule with
  | lowest =>
    have hfind := findM?_range (t.objective.coefficients.take limit)
      (fun x => decide (tolerance < x)) (fun j => do return tolerance < (← t.objective.cells[j]?))
      (Nat.le_of_eq hlength.symm) fun j x _ hx => by
        rw [(hcells hx).2]
        rfl
    rw [List.take_take, Nat.min_self] at hfind
    refine ⟨hfind, fun c hc => ?_⟩
    have hlt := (List.findIdx?_eq_some_iff_getElem.1 hc).1
    omega
  | largest =>
    -- the best place so far is one of the first
    have hsweep := sweep_foldl (t.objective.coefficients.take limit).zipIdx
      (Grid.larger? t.objective.cells) id larger (fun best => ∀ j, best.2 = some j → j < limit)
      (s := (tolerance, none)) (by rw [List.length_zipIdx, hlength])
      (fun j hj => absurd hj.symm (Option.some_ne_none j)) fun best i item hbest hitem => by
        obtain ⟨x, j⟩ := item
        rw [List.getElem?_zipIdx, Option.map_eq_some_iff] at hitem
        obtain ⟨_, hx, hpair⟩ := hitem
        cases hpair
        obtain ⟨hi, hcell⟩ := hcells hx
        rw [Nat.zero_add]
        refine ⟨?_, ?_⟩
        · rw [Grid.larger?, id_eq, hcell]
          rfl
        · unfold larger
          split
          · intro j hj
            cases hj
            exact hi
          · exact hbest
    refine ⟨?_, hsweep.2⟩
    have hbest := hsweep.1
    simp only [id_eq] at hbest
    simp only [hbest, some_bind]
    rfl

end Entering

section Leaving

/-- The candidate to prefer, the best one so far or the next one. -/
def preferred (rule : PivotRule) (best : Option (Candidate K)) (next : Candidate K) : Candidate K :=
  match best with
  | none => next
  | some best => if next.beats rule best then next else best

/-- The best candidate so far after one more row. -/
def bestAfter (tolerance : K) (rule : PivotRule) (c : Nat) (best : Option (Candidate K))
    (row : BasicRow K × Nat) : Option (Candidate K) :=
  match candidate? tolerance c row.1 row.2 with
  | none => best
  | some next => some (preferred rule best next)

theorem leaving_eq (tolerance : K) (rule : PivotRule) (c : Nat) (t : Tableau K) :
    t.leaving tolerance rule c =
      (t.rows.zipIdx.foldl (bestAfter tolerance rule c) none).map Candidate.row := by
  have hcandidates : ∀ (rows : List (BasicRow K × Nat)) (best : Option (Candidate K)),
      rows.foldl (bestAfter tolerance rule c) best =
        (rows.filterMap fun row => candidate? tolerance c row.1 row.2).foldl
          (fun best next => some (preferred rule best next)) best := by
    intro rows
    induction rows with
    | nil => intro best; rfl
    | cons row rows ih =>
      intro best
      rw [List.foldl_cons, ih, List.filterMap_cons, bestAfter]
      cases candidate? tolerance c row.1 row.2 <;> rfl
  have hfirst : ∀ (others : List (Candidate K)) (first : Candidate K),
      others.foldl (fun best next => some (preferred rule best next)) (some first) =
        some (others.foldl (fun best c => if c.beats rule best then c else best) first) := by
    intro others
    induction others with
    | nil => intro first; rfl
    | cons next others ih => intro first; exact ih _
  rw [hcandidates, leaving, candidates]
  cases t.rows.zipIdx.filterMap fun row => candidate? tolerance c row.1 row.2 with
  | nil => rfl
  | cons first others =>
    rw [List.foldl_cons]
    exact (congrArg (Option.map Candidate.row) (hfirst others first)).symm

/-- Whether a candidate is to be preferred is found by position. -/
theorem wins?_toGrid (rule : PivotRule) (ratio : K) {best : Candidate K} {other : BasicRow K}
    (hrow : t.rows[i]? = some row) (hother : t.rows[best.row]? = some other)
    (hbasic : best.basic = other.basic) :
    t.toGrid.wins? rule ratio i best.ratio best.row =
      some (Candidate.beats rule ⟨i, ratio, row.basic⟩ best) := by
  cases rule with
  | largest => rfl
  | lowest =>
    simp only [Grid.wins?, Candidate.beats, basics_toGrid hrow, basics_toGrid hother, hbasic]
    by_cases hlt : ratio < best.ratio
    · simp [hlt]
    · by_cases heq : (ratio == best.ratio) = true <;> simp [hlt, heq]

/-- What is remembered of the best candidate. -/
def remembered (best : Option (Candidate K)) : Option (K × Nat) :=
  best.map fun candidate => (candidate.ratio, candidate.row)

/-- Whether the best candidate so far stands for its row. -/
def Stands (t : Tableau K) (best : Option (Candidate K)) : Prop :=
  ∀ candidate, best = some candidate →
    ∃ row, t.rows[candidate.row]? = some row ∧ candidate.basic = row.basic

/-- **One more row is looked at by position.** -/
theorem better?_toGrid (tolerance : K) (rule : PivotRule) (ht : t.Shaped) (hc : c < t.columnCount)
    {best : Option (Candidate K)} (hbest : t.Stands best) (hrow : t.rows[i]? = some row) :
    t.toGrid.better? tolerance rule c t.columnCount (remembered best) i =
        some (remembered (bestAfter tolerance rule c best (row, i))) ∧
      t.Stands (bestAfter tolerance rule c best (row, i)) := by
  have hnew : ∀ ratio, t.Stands (some ⟨i, ratio, row.basic⟩) := by
    intro ratio candidate hcandidate
    cases hcandidate
    exact ⟨row, hrow, rfl⟩
  rw [bestAfter, candidate?, Grid.better?, cell?_toGrid ht hrow hc, cell?_toGrid_rhs ht hrow]
  simp only [some_bind]
  by_cases hsmall : row.coefficient c ≤ tolerance
  · simp only [if_pos hsmall]
    exact ⟨rfl, hbest⟩
  by_cases hnegative : row.rhs / row.coefficient c < 0
  · simp only [if_neg hsmall, if_pos hnegative]
    exact ⟨rfl, hbest⟩
  simp only [if_neg hsmall, if_neg hnegative]
  cases best with
  | none => exact ⟨rfl, hnew _⟩
  | some best =>
    obtain ⟨other, hother, hbasic⟩ := hbest best rfl
    have hwins := wins?_toGrid rule (row.rhs / row.coefficient c) hrow hother hbasic
    simp only [remembered, Option.map_some, hwins, some_bind, preferred]
    by_cases hbeats : Candidate.beats rule ⟨i, row.rhs / row.coefficient c, row.basic⟩ best = true
    · simp only [if_pos hbeats]
      exact ⟨rfl, hnew _⟩
    · simp only [if_neg hbeats]
      exact ⟨rfl, hbest⟩

/-- **The row to leave is found by position**, and it is one of the rows. -/
theorem leaving?_toGrid (tolerance : K) (rule : PivotRule) (ht : t.Shaped)
    (hc : c < t.columnCount) :
    t.toGrid.leaving? tolerance rule c = some (t.leaving tolerance rule c) ∧
      ∀ r, t.leaving tolerance rule c = some r → r < t.rows.length := by
  have hsweep := sweep_foldl t.rows.zipIdx (t.toGrid.better? tolerance rule c t.columnCount)
    remembered (bestAfter tolerance rule c) t.Stands (s := none) List.length_zipIdx nofun
    fun best i item hbest hitem => by
      obtain ⟨row, j⟩ := item
      rw [List.getElem?_zipIdx, Option.map_eq_some_iff] at hitem
      obtain ⟨_, hrow, hpair⟩ := hitem
      rw [Nat.zero_add] at hpair
      cases hpair
      exact better?_toGrid tolerance rule ht hc hbest hrow
  obtain ⟨hbest, hinv⟩ := hsweep
  rw [leaving_eq]
  refine ⟨?_, fun r hr => ?_⟩
  · rw [Grid.leaving?, rhsColumn?_toGrid ht, objectiveRow?_toGrid]
    have hstart : (remembered none : Option (K × Nat)) = none := rfl
    rw [hstart] at hbest
    simp only [some_bind, hbest, remembered]
    cases t.rows.zipIdx.foldl (bestAfter tolerance rule c) none <;> rfl
  · obtain ⟨candidate, hcandidate, rfl⟩ := Option.map_eq_some_iff.1 hr
    obtain ⟨row, hrow, -⟩ := hinv candidate hcandidate
    exact lt_length hrow

end Leaving

section Phases

variable {objective : Equation K}

omit [Scalar K] in
/-- Replacing the row of the objective replaces the objective. -/
theorem put?_objective (t : Tableau K) (objective : Equation K) :
    put? t.toGrid.cells t.rows.length objective.cells =
      some ({ t with objective } : Tableau K).toGrid.cells := by
  have hlt : t.rows.length < t.toGrid.cells.length := by
    rw [length_cells_toGrid]
    exact Nat.lt_succ_self _
  rw [put?_eq hlt, toGrid, List.set_append_right _ _ (Nat.le_of_eq (List.length_map _))]
  simp [toGrid]

/-- The objective of the first phase by position, before the basic variables are expressed by the
others. -/
theorem sweep_plainAuxiliary (t : Tableau K) :
    sweep t.artificialStart (t.artificialStart + t.artificialCount)
      (fun objective j => put? objective j (-1)) (zeros (t.columnCount + 1)) =
        some t.plainAuxiliary.cells := by
  have hlength := Equation.length_cells t.length_plainAuxiliary
  have hcolumns : t.columnCount = t.artificialStart + t.artificialCount := rfl
  simp only [put?]
  refine sweep_update (hlength.trans (length_zeros _).symm) (Nat.le_add_right _ _) ?_
    (fun i item target hi hlt _ htarget => ?_) fun i hi => ?_
  · rw [length_zeros]
    omega
  · have hplace : i - t.artificialStart < t.artificialCount := by omega
    rw [Equation.cells, plainAuxiliary, List.append_assoc,
      List.getElem?_append_right (by rwa [length_zeros]), length_zeros,
      List.getElem?_append_left (by rwa [List.length_replicate]), List.getElem?_replicate,
      if_pos hplace] at htarget
    exact htarget
  · rcases hi with hi | hi
    · rw [Equation.cells, plainAuxiliary, List.append_assoc,
        List.getElem?_append_left (by rwa [length_zeros]), zeros, zeros, List.getElem?_replicate,
        List.getElem?_replicate, if_pos hi, if_pos (by omega)]
    rcases Nat.lt_or_eq_of_le hi with hi | rfl
    · rw [List.getElem?_eq_none (by omega), List.getElem?_eq_none (by rw [length_zeros]; omega)]
    · rw [← hcolumns, Equation.cells_getElem?_rhs t.length_plainAuxiliary, zeros,
        List.getElem?_replicate, if_pos (Nat.lt_succ_self _)]
      rfl

/-- The objective of the first phase after one more row. -/
def withRow (t : Tableau K) (objective : Equation K) (row : BasicRow K) : Equation K :=
  if t.isArtificial row then objective.plus row.toEquation else objective

/-- A row is added to the objective by position. -/
theorem addRow?_toGrid (ht : t.Shaped) (hobjective : objective.coefficients.length = t.columnCount)
    (hrow : t.rows[i]? = some row) :
    t.toGrid.addRow? (t.columnCount + 1) objective.cells i =
        some (t.withRow objective row).cells ∧
      (t.withRow objective row).coefficients.length = t.columnCount := by
  have hlength := ht.length_row hrow
  simp only [Grid.addRow?, basics_toGrid hrow, cells_toGrid_of_row hrow, some_bind,
    artificialStart_toGrid, Equation.cells_plus hobjective hlength]
  by_cases hartificial : row.basic < t.artificialStart
  · have hno : t.isArtificial row = false := decide_eq_false (Nat.not_le.2 hartificial)
    rw [if_pos hartificial, withRow, hno]
    exact ⟨rfl, hobjective⟩
  · have hyes : t.isArtificial row = true := decide_eq_true (Nat.le_of_not_lt hartificial)
    rw [if_neg hartificial, withRow, hyes]
    exact ⟨rfl, (Equation.length_plus (hobjective.trans hlength.symm)).trans hobjective⟩

/-- **The objective of the first phase is put together by position.** -/
theorem auxiliary?_toGrid (ht : t.Shaped) :
    t.toGrid.auxiliary? = some t.auxiliary.toGrid ∧ t.auxiliary.Shaped := by
  have hsweep := sweep_foldl t.rows (t.toGrid.addRow? (t.columnCount + 1)) Equation.cells t.withRow
    (·.coefficients.length = t.columnCount) rfl t.length_plainAuxiliary
    fun _ _ _ hobjective hrow => addRow?_toGrid ht hobjective hrow
  have hobjective : t.auxiliaryObjective = t.rows.foldl t.withRow t.plainAuxiliary :=
    List.foldl_filter
  rw [← hobjective] at hsweep
  have hcount : t.toGrid.artificialCount = t.artificialCount := rfl
  refine ⟨?_, ht.rows, hsweep.2⟩
  rw [Grid.auxiliary?, width?_toGrid ht, objectiveRow?_toGrid]
  simp only [some_bind, artificialStart_toGrid, hcount, sweep_plainAuxiliary, hsweep.1,
    put?_objective]
  rfl

/-- Whether some artificial variable is not zero is found by position. -/
theorem remains?_toGrid (tolerance : K) (ht : t.Shaped) :
    t.toGrid.remains? tolerance = some (t.artificialRemains tolerance) := by
  rw [Grid.remains?, rhsColumn?_toGrid ht, objectiveRow?_toGrid]
  refine anyM_range rfl fun i row hrow => ?_
  simp only [basics_toGrid hrow, cell?_toGrid_rhs ht hrow, some_bind, artificialStart_toGrid]
  by_cases hartificial : row.basic < t.artificialStart
  · have hno : t.isArtificial row = false := decide_eq_false (Nat.not_le.2 hartificial)
    simp only [if_pos hartificial, hno]
    rfl
  · have hyes : t.isArtificial row = true := decide_eq_true (Nat.le_of_not_lt hartificial)
    simp only [if_neg hartificial, hyes, Bool.true_and]
    rfl

/-- The column to take the place of an artificial variable is found by position. -/
theorem replacement?_toGrid (tolerance : K) (ht : t.Shaped) (hrow : t.rows[i]? = some row) :
    t.toGrid.replacement? tolerance i = some (t.replacement tolerance row) ∧
      ∀ c, t.replacement tolerance row = some c → c < t.artificialStart := by
  have hlength := ht.length_row hrow
  have hle : t.toGrid.artificialStart ≤ t.columnCount := Nat.le_add_right _ _
  refine ⟨findM?_range _ _ _ (hlength ▸ hle) fun j x hj hx => ?_, fun c hc => ?_⟩
  · have hvalue : row.coefficient j = x := by
      rw [Equation.coefficient, List.getD_eq_getElem?_getD, hx]
      rfl
    rw [cell?_toGrid ht hrow (by omega : j < t.columnCount), hvalue]
    rfl
  · have hlt := (List.findIdx?_eq_some_iff_getElem.1 hc).1
    rw [List.length_take] at hlt
    omega

/-- A basic variable is removed from the objective by position. -/
theorem priceOut?_toGrid (tolerance : K) (ht : t.Shaped)
    (hobjective : objective.coefficients.length = t.columnCount) (hrow : t.rows[i]? = some row) :
    t.toGrid.priceOut? tolerance (t.columnCount + 1) objective.cells i =
        some (priceOut tolerance objective row).cells ∧
      (priceOut tolerance objective row).coefficients.length = t.columnCount := by
  have hlength := ht.length_row hrow
  simp only [Grid.priceOut?, basics_toGrid hrow, cells_toGrid_of_row hrow, some_bind, priceOut,
    Equation.cells_getElem? hobjective (ht.basic_lt hrow), Equation.cells_minus hobjective hlength]
  split
  · exact ⟨rfl, (Equation.length_minus (hobjective.trans hlength.symm) _).trans hobjective⟩
  · exact ⟨rfl, hobjective⟩

/-- **The objective is put back by position.** -/
theorem restore?_toGrid (tolerance : K) (ht : t.Shaped)
    (hobjective : objective.coefficients.length = t.columnCount) :
    t.toGrid.restore? tolerance objective.cells =
        some (t.withObjective tolerance objective).toGrid ∧
      (t.withObjective tolerance objective).Shaped := by
  have hsweep := sweep_foldl t.rows (t.toGrid.priceOut? tolerance (t.columnCount + 1))
    Equation.cells (priceOut tolerance) (·.coefficients.length = t.columnCount) rfl hobjective
    fun _ _ _ hobjective hrow => priceOut?_toGrid tolerance ht hobjective hrow
  refine ⟨?_, ht.rows, hsweep.2⟩
  rw [Grid.restore?, width?_toGrid ht, objectiveRow?_toGrid]
  simp only [some_bind, hsweep.1, put?_objective]
  rfl

omit [Scalar K] in
/-- The value of a basic variable is read off by position. -/
theorem setBasic?_toGrid (ht : t.Shaped) {y : List K} (hy : y.length = t.varCount)
    (hrow : t.rows[i]? = some row) :
    t.toGrid.setBasic? t.columnCount y i = some (y.set row.basic row.rhs) ∧
      (y.set row.basic row.rhs).length = t.varCount := by
  have hcount : t.toGrid.varCount = t.varCount := rfl
  refine ⟨?_, List.length_set.trans hy⟩
  simp only [Grid.setBasic?, basics_toGrid hrow, cell?_toGrid_rhs ht hrow, some_bind, hcount]
  split
  · next hlt => exact put?_eq (hy ▸ hlt) _
  · next hge =>
    have hout : y.length ≤ row.basic := by omega
    rw [List.set_eq_of_length_le hout]
    rfl

/-- **The values of the variables are read off by position.** -/
theorem point?_toGrid (ht : t.Shaped) :
    t.toGrid.point? = some t.basicPoint ∧ t.basicPoint.length = t.varCount := by
  have hsweep := sweep_foldl t.rows (t.toGrid.setBasic? t.columnCount) id
    (fun y row => y.set row.basic row.rhs) (·.length = t.varCount) (s := zeros t.varCount)
    (List.length_map BasicRow.basic).symm (length_zeros _)
    fun _ _ _ hy hrow => setBasic?_toGrid ht hy hrow
  rw [Grid.point?, rhsColumn?_toGrid ht]
  exact hsweep

end Phases

end LinearProgram.Simplex.Tableau
