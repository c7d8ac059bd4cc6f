import Mathlib.Data.List.Basic
import LinearProgram.Proofs.Grid
import LinearProgram.Proofs.InitialRows
import LinearProgram.Proofs.NumberedForm

/-!
# The first tableau by position

The matrix of the first tableau is filled row by row, with running numbers for the slack and the
artificial columns. These numbers never exceed the counts that were taken before, so the matrix has
a cell wherever one is written.

* `Filling.foldlM_add?`: the rows that are filled are the equations of the constraints.
* `Grid.ofForm?_numbered`: the matrix is the first tableau.
-/

namespace LinearProgram.Simplex

variable {α K : Type}

/-- Replacing the entry after some others. -/
theorem put?_middle {front : List α} {i : Nat} (hfront : front.length = i) (old new : α)
    (back : List α) : put? (front ++ old :: back) i new = some (front ++ new :: back) := by
  subst hfront
  rw [put?_eq (by simp)]
  simp

/-- Changing the last entry. -/
theorem update?_last {front : List α} {i : Nat} (hfront : front.length = i) {f : α → Option α}
    {old new : α} (hf : f old = some new) :
    update? (front ++ [old]) i f = some (front ++ [new]) := by
  subst hfront
  rw [update?_eq (by simp) hf]
  simp

variable {V S A s a i : Nat} {c : Constraint K} {cs : List (Constraint K)}

section Fill

variable {front slacks artificials rest : List K} (hfront : front.length = V)
  (hslacks : slacks.length = S)
include hfront hslacks

/-- Writing a slack column. -/
theorem put?_slack (hs : s < S) (x : K) :
    put? (front ++ (slacks ++ rest)) (V + s) x = some (front ++ (slacks.set s x ++ rest)) := by
  have hlt : V + s < (front ++ (slacks ++ rest)).length := by
    simp only [List.length_append]
    omega
  have hplace : V + s - front.length = s := by omega
  rw [put?_eq hlt, List.set_append_right _ _ (by omega), hplace,
    List.set_append_left _ _ (by omega)]

/-- Writing an artificial column. -/
theorem put?_artificial (hartificials : artificials.length = A) (ha : a < A) (x : K) :
    put? (front ++ (slacks ++ (artificials ++ rest))) (V + S + a) x =
      some (front ++ (slacks ++ (artificials.set a x ++ rest))) := by
  have hlt : V + S + a < (front ++ (slacks ++ (artificials ++ rest))).length := by
    simp only [List.length_append]
    omega
  have hplace : V + S + a - front.length - slacks.length = a := by omega
  rw [put?_eq hlt, List.set_append_right _ _ (by omega), List.set_append_right _ _ (by omega),
    hplace, List.set_append_left _ _ (by omega)]

end Fill

variable [Scalar K]

open Scalar

/-- A new row with the coefficients of a constraint. -/
theorem overwrite?_zeros {coefficients : List K} (h : coefficients.length = V) :
    overwrite? (zeros (V + S + A + 1)) coefficients V =
      some (coefficients ++ (zeros S ++ (zeros A ++ [0]))) := by
  have hdrop : (zeros (V + S + A + 1) : List K).drop V = zeros S ++ (zeros A ++ [0]) := by
    have hcount : V + S + A + 1 - V = S + (A + 1) := by omega
    rw [zeros, List.drop_replicate, hcount, List.replicate_add, List.replicate_add]
    rfl
  have hle : coefficients.length ≤ (zeros (V + S + A + 1) : List K).length := by
    rw [length_zeros]
    omega
  have hover := overwrite?_eq hle
  rw [h, hdrop] at hover
  exact hover

/-- Writing the right-hand side. -/
theorem put?_rhs {coefficients : List K} (h : coefficients.length = V) (x : K) :
    put? (coefficients ++ (zeros S ++ (zeros A ++ [0]))) (V + S + A) x =
      some (coefficients ++ (zeros S ++ (zeros A ++ [x]))) := by
  have hfront : (coefficients ++ (zeros S ++ zeros A)).length = V + S + A := by
    simp only [List.length_append, length_zeros]
    omega
  have hmiddle := put?_middle hfront 0 x []
  simpa only [List.append_assoc] using hmiddle

section Row

variable (hlength : c.coefficients.length = V) (hs : nextSlack s c ≤ S)
  (ha : nextArtificial a c ≤ A)
include hlength hs ha

/-- **One row is filled** with the equation of its constraint. -/
theorem Filling.add?_eq {cells : List (List K)} {basics : List Nat} (hcells : cells.length = i)
    (hbasics : basics.length = i) (moreCells : List (List K)) (moreBasics : List Nat) :
    Filling.add? V (V + S + A + 1)
      { cells := cells ++ zeros (V + S + A + 1) :: moreCells
        basics := basics ++ 0 :: moreBasics
        slack := V + s
        artificial := V + S + a } c i =
      some
        { cells := cells ++ (firstRow V S A s a c).cells :: moreCells
          basics := basics ++ (firstRow V S A s a c).basic :: moreBasics
          slack := V + nextSlack s c
          artificial := V + S + nextArtificial a c } := by
  have hrow : (cells ++ zeros (V + S + A + 1) :: moreCells)[i]? = some (zeros (V + S + A + 1)) := by
    subst hcells
    simp
  have hartificial : ∀ slacks : List K, slacks.length = S → a < A →
      put? (c.coefficients ++ (slacks ++ (zeros A ++ [c.rhs]))) (V + S + a) 1 =
        some (c.coefficients ++ (slacks ++ (single A a 1 ++ [c.rhs]))) :=
    fun slacks hslacks ha => put?_artificial hlength hslacks (length_zeros A) ha 1
  have hslack : ∀ x : K, s < S →
      put? (c.coefficients ++ (zeros S ++ (zeros A ++ [c.rhs]))) (V + s) x =
        some (c.coefficients ++ (single S s x ++ (zeros A ++ [c.rhs]))) :=
    fun x hs => put?_slack hlength (length_zeros S) hs x
  simp only [Filling.add?, hrow, overwrite?_zeros hlength, below?_succ, put?_rhs hlength, some_bind]
  cases hrelation : c.relation <;>
    simp only [nextSlack, nextArtificial, hrelation, Relation.hasSlack, Relation.hasArtificial,
      if_true, Bool.false_eq_true, if_false] at hs ha ⊢
  case le =>
    simp only [hslack _ hs, put?_middle hcells, put?_middle hbasics, some_bind, firstRow, hrelation,
      Equation.cells, List.append_assoc]
    rfl
  case ge =>
    simp only [hslack _ hs, hartificial _ (length_single ..) ha, put?_middle hcells,
      put?_middle hbasics, some_bind, firstRow, hrelation, Equation.cells, List.append_assoc]
    rfl
  case eq =>
    simp only [hartificial _ (length_zeros _) ha, put?_middle hcells, put?_middle hbasics, some_bind,
      firstRow, hrelation, Equation.cells, List.append_assoc]
    rfl

end Row

/-- **The rows that are filled are the equations of the constraints.** -/
theorem Filling.foldlM_add? (hcs : ∀ c ∈ cs, c.coefficients.length = V)
    (hs : s + Tableau.countSlacks cs = S) (ha : a + Tableau.countArtificials cs = A)
    {cells : List (List K)} {basics : List Nat} (hcells : cells.length = i)
    (hbasics : basics.length = i) :
    (cs.zipIdx i).foldlM (fun filling (c, i) => filling.add? V (V + S + A + 1) c i)
      { cells := cells ++ List.replicate (cs.length + 1) (zeros (V + S + A + 1))
        basics := basics ++ List.replicate cs.length 0
        slack := V + s
        artificial := V + S + a : Filling K } =
      some
        { cells := cells ++ ((Tableau.initialRows V S A s a cs).map (·.toEquation.cells) ++
            [zeros (V + S + A + 1)])
          basics := basics ++ (Tableau.initialRows V S A s a cs).map BasicRow.basic
          slack := V + S
          artificial := V + S + A } := by
  induction cs generalizing s a i cells basics with
  | nil =>
    have hs : s = S := hs
    have ha : a = A := ha
    subst hs ha
    simp [Tableau.initialRows]
  | cons c cs ih =>
    have hothers : ∀ c ∈ cs, c.coefficients.length = V :=
      fun other hother => hcs other (List.mem_cons_of_mem c hother)
    rw [← nextSlack_add] at hs
    rw [← nextArtificial_add] at ha
    have hadd := Filling.add?_eq (s := s) (a := a) (S := S) (A := A) (hcs c List.mem_cons_self)
      (by omega) (by omega) hcells hbasics
      (List.replicate (cs.length + 1) (zeros (V + S + A + 1))) (List.replicate cs.length 0)
    have hcells' : (cells ++ [(firstRow V S A s a c).cells]).length = i + 1 := by
      rw [List.length_append, hcells]
      rfl
    have hbasics' : (basics ++ [(firstRow V S A s a c).basic]).length = i + 1 := by
      rw [List.length_append, hbasics]
      rfl
    have hrest := ih hothers hs ha hcells' hbasics'
    rw [List.zipIdx_cons, List.foldlM_cons]
    refine (congrArg (· >>= _) hadd).trans ?_
    simpa only [some_bind, initialRows_cons, List.append_assoc, List.singleton_append,
      List.map_cons, List.cons_append, List.nil_append] using hrest

/-- Writing the objective into the last row. -/
theorem update?_costs (sign : K → K) {objective : List K} (h : objective.length = V)
    {cells : List (List K)} (hcells : cells.length = i) :
    update? (cells ++ [zeros (V + S + A + 1)]) i (fun row =>
      sweep 0 objective.length (fun row j => update? row j fun _ => do
        let cost ← objective[j]?
        return sign cost) row) =
      some (cells ++ [objective.map sign ++ zeros (S + A) ++ [0]]) := by
  have hsplit : (zeros (V + S + A + 1) : List K) = zeros V ++ (zeros (S + A) ++ [0]) := by
    rw [zeros, Nat.add_assoc V, List.replicate_add, List.replicate_add, List.append_assoc]
    rfl
  refine update?_last hcells ?_
  rw [List.append_assoc]
  refine sweep_update ?_ (Nat.zero_le _) ?_ (fun j item target _ hj _ htarget => ?_) fun j hj => ?_
  · simp [h, Nat.add_assoc]
  · rw [length_zeros]
    omega
  · rw [List.getElem?_append_left (by rwa [List.length_map]), List.getElem?_map,
      List.getElem?_eq_getElem hj] at htarget
    rw [List.getElem?_eq_getElem hj]
    exact htarget
  · have hzeros : (zeros V : List K).length = (objective.map sign).length := by simp [h]
    have hle : (objective.map sign).length ≤ j := by
      rw [List.length_map]
      omega
    refine (List.getElem?_append_right hle).trans ?_
    rw [hsplit, ← hzeros]
    exact (List.getElem?_append_right (hzeros ▸ hle)).symm

/-- **The matrix of the first tableau is the first tableau**, which is in shape. -/
theorem Grid.ofForm?_numbered {form : StandardForm K} (h : form.Sized) :
    Grid.ofForm? form.numbered = some (Tableau.ofStandardForm form).toGrid ∧
      (Tableau.ofStandardForm form).Shaped := by
  have hlength : ∀ c ∈ form.constraints.map Constraint.normalize,
      c.coefficients.length = form.varCount := by
    intro c hc
    obtain ⟨original, horiginal, rfl⟩ := List.mem_map.1 hc
    rw [Constraint.length_normalize, h.constraints _ horiginal]
  constructor
  · have hrows := Filling.foldlM_add? hlength (Nat.zero_add _) (Nat.zero_add _)
      (List.length_nil : ([] : List (List K)).length = 0) List.length_nil
    rw [List.nil_append, List.nil_append, List.nil_append, List.nil_append] at hrows
    have hcount := fun S A => (List.length_map (·.toEquation.cells)).trans <|
      length_initialRows form.varCount S A 0 0 (form.constraints.map Constraint.normalize)
    unfold Grid.ofForm?
    refine (congrArg (· >>= _) hrows).trans ?_
    unfold Tableau.ofStandardForm StandardForm.numbered
    cases form.direction with
    | minimize =>
      refine (congrArg (· >>= _) (update?_costs (-·) h.objective (hcount ..))).trans ?_
      rfl
    | maximize =>
      refine (congrArg (· >>= _) (update?_costs id h.objective (hcount ..))).trans ?_
      rw [List.map_id]
      rfl
  · refine ⟨Tableau.initialRows_shaped hlength (Nat.zero_add _) (Nat.zero_add _), ?_⟩
    unfold Tableau.ofStandardForm
    cases form.direction <;>
      simp [Tableau.columnCount, Tableau.artificialStart, h.objective, Nat.add_assoc]

end LinearProgram.Simplex
