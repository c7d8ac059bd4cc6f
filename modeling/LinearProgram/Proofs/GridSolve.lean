import LinearProgram.Simplex.GridSolve
import LinearProgram.Proofs.FirstGrid
import LinearProgram.Proofs.GridSteps

/-!
# The simplex method by position is within range

The method by position takes the same steps as the one on equations. Each step is within range at a
tableau in shape and leads to a tableau in shape of the same size, so no step of the whole method
looks outside of a list, whatever the numbers are.

* `Gives`: a program by position has a result, and everything that it notes has the right shape.
* `Follows`: what it gives is what the method on equations gives.
* `MovesInRange`, `move_inRange`: one move of a walk.
* `walk_follows`, `driveOut_gives`: the loops that pivot.
* `firstPhase_follows`, `optimizeByPosition_follows`: the phases.
* `solve_in_range`: the method as a whole.
-/

namespace LinearProgram.Simplex

variable {K α β : Type}

/-- **A program by position gives a result**, and everything that it notes has the right shape. -/
def Gives (x : Noting K α) (a : α) : Prop :=
  ∀ log, ∃ more, x.run log = some (a, log ++ more) ∧ ∀ note ∈ more, note.Fits

namespace Gives

variable {x : Noting K α} {f : α → Noting K β} {a : α} {b : β}

theorem pure (a : α) : Gives (pure a : Noting K α) a :=
  fun log => ⟨[], by rw [List.append_nil]; rfl, nofun⟩

theorem bind (hx : Gives x a) (hf : Gives (f a) b) : Gives (x >>= f) b := by
  intro log
  obtain ⟨first, hfirst, hfits⟩ := hx log
  obtain ⟨second, hsecond, hfits'⟩ := hf (log ++ first)
  refine ⟨first ++ second, ?_, fun note hnote => ?_⟩
  · rw [StateT.run_bind, hfirst, some_bind, hsecond, List.append_assoc]
  · rcases List.mem_append.1 hnote with hnote | hnote
    · exact hfits note hnote
    · exact hfits' note hnote

/-- What a position holds is read. -/
theorem read {y : Option α} (hy : y = some a) (hf : Gives (f a) b) :
    Gives ((liftM y : Noting K α) >>= f) b := by
  subst hy
  exact hf

/-- What a program passes through is noted. -/
theorem note {note : Note K} {f : Unit → Noting K β} (hnote : note.Fits) (hf : Gives (f ()) b) :
    Gives (noting note >>= f) b := by
  refine bind (a := ()) (fun log => ⟨[note], rfl, fun other hother => ?_⟩) hf
  rw [List.mem_singleton.1 hother]
  exact hnote

end Gives

/-- The end of a walk with its tableau as a matrix. -/
def Outcome.toEnding (o : Outcome K) : Ending K := ⟨o.status, o.tableau.toGrid, o.pivots⟩

/-- **A program by position follows the method on equations** from a tableau to its outcome: it
gives the same end, at a tableau in shape of the same size. -/
structure Follows (t : Tableau K) (x : Noting K (Ending K)) (o : Outcome K) : Prop where
  gives : Gives x o.toEnding
  shaped : o.tableau.Shaped
  sameSize : t.SameSize o.tableau

variable [Scalar K] {limit : Nat} {t : Tableau K}

namespace Tableau

/-- **What a move reads and writes** at a tableau in shape, after `stalled` pivots without
progress. -/
inductive MovesInRange (tolerance : K) (limit : Nat) (t : Tableau K) (stalled : Nat) :
    Move K → Prop where
  | optimal
    (hentering : t.toGrid.entering? tolerance limit (Walk.rule ⟨t, stalled⟩) = some none) :
    MovesInRange tolerance limit t stalled .optimal
  | unbounded {c : Nat}
    (hentering : t.toGrid.entering? tolerance limit (Walk.rule ⟨t, stalled⟩) = some (some c))
    (hleaving : t.toGrid.leaving? tolerance (Walk.rule ⟨t, stalled⟩) c = some none) :
    MovesInRange tolerance limit t stalled .unbounded
  | breakdown {c r : Nat} {rhs : K} {next : Tableau K}
    (hentering : t.toGrid.entering? tolerance limit (Walk.rule ⟨t, stalled⟩) = some (some c))
    (hleaving : t.toGrid.leaving? tolerance (Walk.rule ⟨t, stalled⟩) c = some (some r))
    (hrhs : t.toGrid.cell? r t.columnCount = some rhs)
    (hpivot : t.toGrid.pivot? tolerance r c = some (next.toGrid, false)) (hnext : next.Shaped) :
    MovesInRange tolerance limit t stalled .breakdown
  | pivot {c r : Nat} {rhs : K} {next : Tableau K}
    (hentering : t.toGrid.entering? tolerance limit (Walk.rule ⟨t, stalled⟩) = some (some c))
    (hleaving : t.toGrid.leaving? tolerance (Walk.rule ⟨t, stalled⟩) c = some (some r))
    (hrhs : t.toGrid.cell? r t.columnCount = some rhs)
    (hpivot : t.toGrid.pivot? tolerance r c = some (next.toGrid, true)) (hnext : next.Shaped)
    (hsize : t.SameSize next) :
    MovesInRange tolerance limit t stalled (.pivot ⟨next, if rhs == 0 then stalled + 1 else 0⟩)

/-- **Every move is within range.** -/
theorem move_inRange (tolerance : K) (stalled : Nat) (ht : t.Shaped)
    (hlimit : limit ≤ t.columnCount) :
    MovesInRange tolerance limit t stalled (Walk.move tolerance limit ⟨t, stalled⟩) := by
  obtain ⟨hentering, hlt⟩ := entering?_toGrid tolerance (Walk.rule ⟨t, stalled⟩) ht hlimit
  unfold Walk.move
  cases henter : t.entering tolerance limit (Walk.rule ⟨t, stalled⟩) with
  | none => exact .optimal (henter ▸ hentering)
  | some c =>
    have hc : c < t.columnCount := Nat.lt_of_lt_of_le (hlt c henter) hlimit
    obtain ⟨hleaving, hrow⟩ := leaving?_toGrid tolerance (Walk.rule ⟨t, stalled⟩) ht hc
    rw [henter] at hentering
    cases hleave : t.leaving tolerance (Walk.rule ⟨t, stalled⟩) c with
    | none =>
      simp only [hleave]
      exact .unbounded hentering (hleave ▸ hleaving)
    | some r =>
      have hr : r < t.rows.length := hrow r hleave
      have hrhs := cell?_toGrid_rhs ht (List.getElem?_eq_getElem hr)
      have hpivot := pivot?_toGrid tolerance ht hr hc
      obtain ⟨hshaped, hsize⟩ := afterPivot_keeps tolerance ht r hc
      have hstalled : (⟨t, stalled⟩ : Walk K).stalledAfter r =
          if t.rows[r].rhs == 0 then stalled + 1 else 0 := by
        simp [Walk.stalledAfter, List.getElem?_eq_getElem hr]
      rw [hleave] at hleaving
      cases hnext : t.pivot tolerance r c with
      | none =>
        rw [hnext] at hpivot
        simp only [hleave, hnext]
        exact .breakdown hentering hleaving hrhs hpivot hshaped
      | some next =>
        obtain rfl := pivot_eq_afterPivot hnext
        rw [hnext] at hpivot
        simp only [hleave, hnext, hstalled]
        exact .pivot hentering hleaving hrhs hpivot hshaped hsize

/-- **A walk by position follows the walk.** -/
theorem walk_follows (tolerance : K) (budget stalled : Nat) (ht : t.Shaped)
    (hlimit : limit ≤ t.columnCount) :
    Follows t (t.toGrid.walk tolerance limit t.columnCount budget stalled)
      (Walk.run tolerance limit budget ⟨t, stalled⟩) := by
  induction budget generalizing t stalled with
  | zero =>
    have hmove := move_inRange tolerance stalled ht hlimit
    rw [Grid.walk, Walk.run]
    generalize Walk.move tolerance limit ⟨t, stalled⟩ = move at hmove
    -- the budget is only asked for when a column may enter
    cases hmove with
    | optimal hentering => exact ⟨.read hentering (.pure _), ht, .refl t⟩
    | unbounded hentering => exact ⟨.read hentering (.pure _), ht, .refl t⟩
    | breakdown hentering => exact ⟨.read hentering (.pure _), ht, .refl t⟩
    | pivot hentering => exact ⟨.read hentering (.pure _), ht, .refl t⟩
  | succ budget ih =>
    have hmove := move_inRange tolerance stalled ht hlimit
    rw [Grid.walk, Walk.run]
    generalize Walk.move tolerance limit ⟨t, stalled⟩ = move at hmove
    cases hmove with
    | optimal hentering => exact ⟨.read hentering (.pure _), ht, .refl t⟩
    | unbounded hentering hleaving =>
      exact ⟨.read hentering (.read hleaving (.pure _)), ht, .refl t⟩
    | breakdown hentering hleaving hrhs hpivot hnext =>
      exact ⟨.read hentering (.read hleaving (.read hrhs (.read hpivot
        (.note hnext.toGrid_fits (.pure _))))), ht, .refl t⟩
    | @pivot c r rhs next hentering hleaving hrhs hpivot hnext hsize =>
      have hrest := ih (if rhs == 0 then stalled + 1 else 0) hnext (hsize.columnCount.symm ▸ hlimit)
      rw [hsize.columnCount] at hrest
      exact ⟨.read hentering (.read hleaving (.read hrhs (.read hpivot
        (.note hnext.toGrid_fits (.bind hrest.gives (.pure _)))))), hrest.shaped,
        hsize.trans hrest.sameSize⟩

/-- **One row is driven out by position.** -/
theorem driveOutRow_gives {i : Nat} (tolerance : K) (ht : t.Shaped) (hi : i < t.rows.length) :
    Gives (t.toGrid.driveOutRow tolerance i) ((t.driveOutRow tolerance i).map toGrid) ∧
      ∀ next, t.driveOutRow tolerance i = some next → next.Shaped ∧ t.SameSize next := by
  have hrow : t.rows[i]? = some t.rows[i] := List.getElem?_eq_getElem hi
  have hbasic := basics_toGrid hrow
  obtain ⟨hreplacement, hlt⟩ := replacement?_toGrid tolerance ht hrow
  have hstay : ∀ next, some t = some next → next.Shaped ∧ t.SameSize next := by
    rintro next ⟨⟩
    exact ⟨ht, .refl t⟩
  rw [driveOutRow, hrow, Grid.driveOutRow]
  by_cases hartificial : t.rows[i].basic < t.artificialStart
  · have hno : t.isArtificial t.rows[i] = false := decide_eq_false (Nat.not_le.2 hartificial)
    simp only [hno, Bool.false_eq_true, if_false]
    refine ⟨.read hbasic ?_, hstay⟩
    rw [artificialStart_toGrid, if_pos hartificial]
    exact .pure _
  have hyes : t.isArtificial t.rows[i] = true := decide_eq_true (Nat.le_of_not_lt hartificial)
  simp only [hyes, if_true]
  cases hreplace : t.replacement tolerance t.rows[i] with
  | none =>
    rw [hreplace] at hreplacement
    refine ⟨.read hbasic ?_, hstay⟩
    rw [artificialStart_toGrid, if_neg hartificial]
    exact .read hreplacement (.pure _)
  | some c =>
    rw [hreplace] at hreplacement
    have hc : c < t.columnCount := Nat.lt_of_lt_of_le (hlt c hreplace) (Nat.le_add_right ..)
    have hpivot := pivot?_toGrid tolerance ht hi hc
    have hkeeps := afterPivot_keeps tolerance ht i hc
    refine ⟨.read hbasic ?_, fun next hnext => pivot_eq_afterPivot hnext ▸ hkeeps⟩
    rw [artificialStart_toGrid, if_neg hartificial]
    refine .read hreplacement (.read hpivot (.note hkeeps.1.toGrid_fits ?_))
    cases hnext : t.pivot tolerance i c with
    | none =>
      simp only [hnext]
      exact .pure _
    | some next =>
      obtain rfl := pivot_eq_afterPivot hnext
      simp only [hnext]
      exact .pure _

/-- **Driving out by position** gives the tableau after the same rows have been driven out. -/
theorem driveOut_gives (tolerance : K) {rows : List Nat} (ht : t.Shaped)
    (hrows : ∀ i ∈ rows, i < t.rows.length) :
    Gives (t.toGrid.driveOut tolerance rows)
        ((rows.foldlM (driveOutRow tolerance) t).map toGrid) ∧
      ∀ driven, rows.foldlM (driveOutRow tolerance) t = some driven →
        driven.Shaped ∧ t.SameSize driven := by
  induction rows generalizing t with
  | nil =>
    refine ⟨.pure _, ?_⟩
    rintro driven ⟨⟩
    exact ⟨ht, .refl t⟩
  | cons i rows ih =>
    have hothers : ∀ j ∈ rows, j < t.rows.length :=
      fun j hj => hrows j (List.mem_cons_of_mem i hj)
    obtain ⟨hgives, hkeeps⟩ := driveOutRow_gives tolerance ht (hrows i List.mem_cons_self)
    rw [Grid.driveOut, List.foldlM_cons]
    cases hnext : t.driveOutRow tolerance i with
    | none =>
      rw [hnext] at hgives
      exact ⟨.bind hgives (.pure _), nofun⟩
    | some next =>
      rw [hnext] at hgives
      obtain ⟨hshaped, hsize⟩ := hkeeps next hnext
      obtain ⟨hrest, hdriven⟩ := ih hshaped (hsize.rows.symm ▸ hothers)
      refine ⟨.bind hgives hrest, fun driven h => ?_⟩
      obtain ⟨hfinal, hsizes⟩ := hdriven driven h
      exact ⟨hfinal, hsize.trans hsizes⟩

/-- **What comes after the walk of the first phase**, by position. -/
theorem conclude_follows (tolerance : K) {search : Outcome K} (ht : t.Shaped)
    (hshaped : search.tableau.Shaped) (hsize : t.SameSize search.tableau) :
    Follows t (Grid.conclude tolerance t.rows.length t.objective.cells search.toEnding)
      (t.conclude tolerance search) := by
  obtain ⟨status, last, pivots⟩ := search
  cases status with
  | failed reason => cases reason <;> exact ⟨.pure _, hshaped, hsize⟩
  | optimal =>
    have hremains := remains?_toGrid tolerance hshaped
    rw [conclude, Grid.conclude]
    cases hartificial : last.artificialRemains tolerance with
    | true =>
      rw [hartificial] at hremains
      exact ⟨.read hremains (.pure _), hshaped, hsize⟩
    | false =>
      rw [hartificial] at hremains
      obtain ⟨hgives, hkeeps⟩ := driveOut_gives tolerance hshaped fun i hi =>
        (List.mem_range.1 hi : i < last.rows.length)
      rw [← hsize.rows]
      cases hdriven : last.driveOut tolerance with
      | none =>
        rw [driveOut] at hdriven
        rw [hdriven] at hgives
        rw [if_neg Bool.false_ne_true]
        exact ⟨.read hremains (.bind hgives (.pure _)), hshaped, hsize⟩
      | some driven =>
        obtain ⟨hshaped', hsize'⟩ := hkeeps driven hdriven
        rw [driveOut] at hdriven
        rw [hdriven] at hgives
        have hsizes := hsize.trans hsize'
        obtain ⟨hrestore, hrestored⟩ := restore?_toGrid tolerance hshaped'
          (ht.objective.trans hsizes.columnCount.symm)
        rw [if_neg Bool.false_ne_true]
        exact ⟨.read hremains (.bind hgives (.read hrestore
          (.note hrestored.toGrid_fits (.pure _)))), hrestored, hsizes.trans ⟨rfl, rfl, rfl, rfl⟩⟩

/-- **The first phase by position** follows the first phase. -/
theorem firstPhase_follows (tolerance : K) (budget : Nat) (ht : t.Shaped) :
    Follows t (t.toGrid.firstPhase tolerance budget) (t.firstPhase tolerance budget) := by
  obtain ⟨hauxiliary, hshaped⟩ := auxiliary?_toGrid ht
  have hsize : t.SameSize t.auxiliary := ⟨rfl, rfl, rfl, rfl⟩
  have hwalk := walk_follows tolerance budget 0 hshaped (Nat.le_refl t.auxiliary.columnCount)
  have hrest := conclude_follows tolerance ht hwalk.shaped (hsize.trans hwalk.sameSize)
  rw [Tableau.firstPhase]
  exact ⟨.read (objectiveRow?_toGrid t) (.read (cells_toGrid_objective t) (.read hauxiliary
    (.note hshaped.toGrid_fits (.read (rhsColumn?_toGrid hshaped)
      (.bind hwalk.gives hrest.gives))))), hrest.shaped, hrest.sameSize⟩

/-- **The second phase by position** follows the second phase. -/
theorem secondPhase_follows (tolerance : K) (budget : Nat) (ht : t.Shaped) :
    Follows t (t.toGrid.secondPhase tolerance budget) (secondPhase tolerance budget t) := by
  have hwalk := walk_follows tolerance budget 0 ht
    (Nat.le_add_right t.artificialStart t.artificialCount)
  exact ⟨.read (rhsColumn?_toGrid ht) hwalk.gives, hwalk.shaped, hwalk.sameSize⟩

/-- **Both phases by position** follow both phases. -/
theorem optimizeByPosition_follows (method : Simplex K) (ht : t.Shaped) :
    Follows t (method.optimizeByPosition t.toGrid) (method.optimize t) := by
  unfold optimizeByPosition optimize
  by_cases hnone : t.artificialCount = 0
  · have hnone' : t.toGrid.artificialCount = 0 := hnone
    rw [if_pos hnone, if_pos hnone']
    exact secondPhase_follows method.tolerance method.maxIterations ht
  have hsome : ¬t.toGrid.artificialCount = 0 := hnone
  rw [if_neg hnone, if_neg hsome]
  obtain ⟨hgives, hshaped, hsize⟩ :=
    firstPhase_follows method.tolerance method.maxIterations ht
  generalize t.firstPhase method.tolerance method.maxIterations = first at *
  obtain ⟨status, last, pivots⟩ := first
  cases status with
  | failed reason => exact ⟨.bind hgives (.pure _), hshaped, hsize⟩
  | optimal =>
    have hsecond := secondPhase_follows method.tolerance (method.maxIterations - pivots) hshaped
    exact ⟨.bind hgives (.bind hsecond.gives (.pure _)), hsecond.shaped,
      hsize.trans hsecond.sameSize⟩

end Tableau

end LinearProgram.Simplex

namespace LinearProgram.Simplex

variable {K : Type} [ExtendedScalar K]

/-- **No step looks outside of a list.** Whatever the numbers of a problem are, wherever its entries
point, and whatever the tolerance and the budget are, the simplex method by position has a result,
which is the answer of the simplex method. Every tableau on the way has a cell for each column and
one for the right-hand side in each row, and a basic variable that is one of the columns for each
constraint; and the columns of the problem are written in variables that exist. -/
theorem solve_in_range (method : Simplex K) (p : Problem K) :
    ∃ notes, (method.solveByPosition p).run [] = some (method.solve p, notes) ∧
      ∀ note ∈ notes, note.Fits := by
  suffices hgives : Gives (method.solveByPosition p) (method.solve p) from hgives []
  unfold solveByPosition solve
  cases p.wellFormed with
  | false => exact .pure _
  | true =>
    refine .read p.dense?_eq (.read (NumberedForm.ofProblem?_eq p) ?_)
    cases hform : StandardForm.ofProblem p with
    | none => exact .pure _
    | some form =>
      have hsized := StandardForm.ofProblem_sized hform
      obtain ⟨hfirst, hshaped⟩ := Grid.ofForm?_numbered hsized
      obtain ⟨hgives, hlast, hsize⟩ := Tableau.optimizeByPosition_follows method hshaped
      refine .note hsized.fits (.read hfirst (.note hshaped.toGrid_fits (.bind hgives ?_)))
      simp only [Bool.not_true, Bool.false_eq_true, if_false]
      generalize method.optimize (.ofStandardForm form) = outcome at *
      obtain ⟨status, last, pivots⟩ := outcome
      cases status with
      | failed reason => exact .pure _
      | optimal =>
        obtain ⟨hpoint, hlength⟩ := Tableau.point?_toGrid hlast
        have hcolumns : form.numbered.columns.mapM (·.value? last.basicPoint) =
            some (form.point last.basicPoint) := by
          refine mapM_value?_placed ?_
          rw [Nat.zero_add, hlength, hsize.varCount, ← hsized.varCount]
          exact Nat.le_refl _
        exact .read hpoint (.read hcolumns (.pure _))

end LinearProgram.Simplex
