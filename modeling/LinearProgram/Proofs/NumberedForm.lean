import LinearProgram.Proofs.Positions
import LinearProgram.Simplex.NumberedForm

/-!
# The standard form by position

The standard form that is put together by position is the standard form, with its variables
numbered. So all numbers are in range.

* `Problem.dense?_eq`: the matrix, filled cell by cell.
* `Substitution.placed`, `placed`: substitutions with their variables numbered.
* `Layout.ofBounds?_eq`: the running number is the number of variables so far.
* `spread?_placed`: adding by number spreads a linear form over the variables.
* `NumberedForm.ofProblem?_eq`: the standard form with its variables numbered.
-/

namespace LinearProgram

variable {K : Type}

section Dense

variable [ExtendedScalar K]

open Simplex

/-- Filling a matrix cell by cell. -/
theorem Problem.foldlM_accumulate (p : Problem K) (entries : List (Entry K))
    {matrix : List (List K)} (hrows : matrix.length = p.numRows)
    (hcolumns : ∀ row ∈ matrix, row.length = p.numColumns) :
    entries.foldlM (fun matrix e => do
      if p.covers e then
        let column ← below? e.column
        update? matrix (← below? e.row) fun row =>
          update? row column fun x => some (x + e.value)
      else return matrix) matrix = some ((entries.filter p.covers).foldl accumulate matrix) := by
  induction entries generalizing matrix with
  | nil => rfl
  | cons e entries ih =>
    rw [List.foldlM_cons]
    by_cases hcovers : p.covers e = true
    · have hinside := hcovers
      simp only [covers, Bool.and_eq_true, decide_eq_true_eq] at hinside
      have hrow : e.row - 1 < matrix.length := by omega
      have hlength := hcolumns matrix[e.row - 1] (List.getElem_mem hrow)
      have hcell : update? matrix[e.row - 1] (e.column - 1) (fun x => some (x + e.value)) =
          some (matrix[e.row - 1].modify (e.column - 1) (· + e.value)) :=
        update?_modify (by omega) rfl
      have hupdate : update? matrix (e.row - 1) (fun row =>
          update? row (e.column - 1) fun x => some (x + e.value)) = some (accumulate matrix e) :=
        update?_modify hrow hcell
      have hrest := @ih (accumulate matrix e) (by simpa using hrows)
        (length_of_mem_accumulate hcolumns)
      have hbelowRow : below? e.row = some (e.row - 1) := if_neg (by omega)
      have hbelowColumn : below? e.column = some (e.column - 1) := if_neg (by omega)
      simp only [hcovers, if_true, hbelowRow, hbelowColumn, Option.bind_eq_bind, Option.bind_some,
        hupdate, List.filter_cons_of_pos, List.foldl_cons]
      exact hrest
    · simp only [hcovers, Bool.false_eq_true, if_false, Option.pure_def, Option.bind_eq_bind,
        Option.bind_some, not_false_eq_true, List.filter_cons_of_neg]
      exact ih hrows hcolumns

/-- **The matrix filled cell by cell is the matrix.** -/
theorem Problem.dense?_eq (p : Problem K) : p.dense? = some p.dense := by
  refine p.foldlM_accumulate p.entries (List.length_replicate ..) fun row hrow => ?_
  rw [List.eq_of_mem_replicate hrow, Scalar.length_zeros]

end Dense

namespace Simplex

open Scalar StandardForm

variable {bounds : List (Bound K)} {columns : List (Substitution K)} {first n : Nat}

/-- **A substitution with its variables numbered** from `first` on. -/
def Substitution.placed (s : Substitution K) (first : Nat) : Placement K :=
  ⟨s.offset, (s.signs.zipIdx first).map Prod.swap⟩

/-- Substitutions with their variables numbered, one column after the other. -/
def placed : Nat → List (Substitution K) → List (Placement K)
  | _, [] => []
  | first, s :: columns => s.placed first :: placed (first + s.arity) columns

/-- **A standard form with its variables numbered.** -/
def StandardForm.numbered (form : StandardForm K) : NumberedForm K :=
  { varCount := form.varCount
    direction := form.direction
    objective := form.objective
    constraints := form.constraints
    columns := placed 0 form.columns }

/-- **Standard forms of the right size**: the variables are those of the columns, and every linear
form has a coefficient for each of them. -/
structure StandardForm.Sized (form : StandardForm K) : Prop where
  varCount : form.varCount = varTotal form.columns
  objective : form.objective.length = form.varCount
  constraints : ∀ c ∈ form.constraints, c.coefficients.length = form.varCount

theorem lt_of_mem_placed {column : Placement K} (hcolumn : column ∈ placed first columns)
    {term : Nat × K} (hterm : term ∈ column.terms) : term.1 < first + varTotal columns := by
  induction columns generalizing first with
  | nil => exact absurd hcolumn List.not_mem_nil
  | cons s columns ih =>
    rw [varTotal]
    rcases List.mem_cons.1 hcolumn with rfl | hcolumn
    · obtain ⟨⟨sign, k⟩, hk, rfl⟩ := List.mem_map.1 hterm
      have hlt := (List.mem_zipIdx hk).2.1
      have harity : s.arity = s.signs.length := rfl
      exact show k < _ by omega
    · have hlt := ih hcolumn
      omega

/-- The numbers of the variables are below their count. -/
theorem StandardForm.Sized.fits {form : StandardForm K} (h : form.Sized) : form.numbered.Fits := by
  intro column hcolumn term hterm
  have hlt := lt_of_mem_placed hcolumn hterm
  rw [Nat.zero_add, ← h.varCount] at hlt
  exact hlt

section Placements

variable [Scalar K]

/-- Adding a column puts the signs of its variables, `a` times, in the place of zeros. -/
theorem addTo?_placed (s : Substitution K) (a : K) (front : List K) (n : Nat) :
    (s.placed front.length).addTo? a (front ++ zeros (s.arity + n)) =
      some (front ++ s.spread a ++ zeros n) := by
  obtain ⟨offset, signs⟩ := s
  simp only [Substitution.placed, Placement.addTo?, Substitution.arity, Substitution.spread,
    List.foldlM_map, Prod.fst_swap, Prod.snd_swap]
  induction signs generalizing front with
  | nil => simp
  | cons sign signs ih =>
    have hzeros : (zeros (signs.length + 1 + n) : List K) = 0 :: zeros (signs.length + n) := by
      rw [Nat.add_right_comm]
      rfl
    have hplace : (front ++ 0 :: zeros (signs.length + n) : List K)[front.length]? = some 0 := by
      simp
    have hset : (front ++ 0 :: zeros (signs.length + n)).set front.length (0 + a * sign) =
        (front ++ [0 + a * sign]) ++ zeros (signs.length + n) := by
      simp
    have hupdate : update? (front ++ 0 :: zeros (signs.length + n)) front.length
        (fun x => some (x + a * sign)) = some ((front ++ [0 + a * sign]) ++ zeros (signs.length + n)) := by
      rw [update?_some (· + a * sign) hplace, hset]
    have hrest := ih (front ++ [0 + a * sign])
    rw [List.length_append, List.length_singleton] at hrest
    rw [List.zipIdx_cons, List.foldlM_cons, List.length_cons, hzeros, hupdate]
    refine hrest.trans ?_
    simp

/-- **Adding by number spreads a linear form** over the variables. -/
theorem spread?_placed (columns : List (Substitution K)) (coefficients front : List K) :
    spread? (placed front.length columns) coefficients (front ++ zeros (varTotal columns)) =
      some (front ++ spread columns coefficients) := by
  induction columns generalizing coefficients front with
  | nil => simp [placed, spread?, spread, varTotal, zeros]
  | cons s columns ih =>
    have hadd := addTo?_placed s (coefficients.headD 0) front (varTotal columns)
    have hrest := ih coefficients.tail (front ++ s.spread (coefficients.headD 0))
    have hlength : (front ++ s.spread (coefficients.headD 0)).length = front.length + s.arity := by
      simp [Substitution.spread, Substitution.arity]
    have hspread : spread (s :: columns) coefficients =
        s.spread (coefficients.headD 0) ++ spread columns coefficients.tail := by
      cases coefficients <;> rfl
    rw [hlength] at hrest
    rw [placed, spread?, varTotal, hadd, hspread, ← List.append_assoc]
    exact hrest

theorem spread?_eq (columns : List (Substitution K)) (coefficients : List K) :
    spread? (placed 0 columns) coefficients (zeros (varTotal columns)) =
      some (spread columns coefficients) :=
  spread?_placed columns coefficients []

theorem fixedPart_eq (columns : List (Substitution K)) (coefficients : List K) :
    fixedPart (placed first columns) coefficients = constant columns coefficients := by
  have hzip : List.zipWith (fun column a => a * column.offset) (placed first columns) coefficients =
      List.zipWith (fun s a => a * s.offset) columns coefficients := by
    induction columns generalizing first coefficients with
    | nil => rfl
    | cons s columns ih =>
      cases coefficients with
      | nil => rfl
      | cons a coefficients =>
        rw [placed, List.zipWith_cons_cons, List.zipWith_cons_cons, ih]
        rfl
  rw [fixedPart, constant, hzip]

/-- The products of signs with the variables that are looked up by number. -/
theorem mapM_products (signs : List K) {first : Nat} {y : List K}
    (h : first + signs.length ≤ y.length) :
    ((signs.zipIdx first).map Prod.swap).mapM (fun (k, sign) => do return sign * (← y[k]?)) =
      some (List.zipWith (· * ·) signs ((y.drop first).take signs.length)) := by
  induction signs generalizing first with
  | nil => rfl
  | cons sign signs ih =>
    rw [List.length_cons] at h
    have hlt : first < y.length := by omega
    have hrest := @ih (first + 1) (by omega)
    rw [List.zipIdx_cons, List.map_cons, List.mapM_cons, hrest, List.drop_eq_getElem_cons hlt,
      List.length_cons, List.take_succ_cons, List.zipWith_cons_cons, Prod.swap_prod_mk]
    simp only [List.getElem?_eq_getElem hlt]
    rfl

/-- **A column has its value** where its variables are looked up by number. -/
theorem value?_placed (s : Substitution K) {first : Nat} {y : List K}
    (h : first + s.arity ≤ y.length) :
    (s.placed first).value? y = some (s.value ((y.drop first).take s.arity)) := by
  have hproducts := mapM_products s.signs h
  simp only [Placement.value?, Substitution.placed, hproducts]
  rfl

/-- The values of columns, where their variables are looked up by number. -/
theorem mapM_value?_placed {first : Nat} {y : List K} (h : first + varTotal columns ≤ y.length) :
    (placed first columns).mapM (·.value? y) = some (columnValues columns (y.drop first)) := by
  induction columns generalizing first with
  | nil => rfl
  | cons s columns ih =>
    rw [varTotal] at h
    have hvalue := @value?_placed K _ s first y (by omega)
    have hrest := @ih (first + s.arity) (by omega)
    rw [placed, List.mapM_cons, hvalue, hrest, columnValues, List.drop_drop]
    rfl

end Placements

variable [ExtendedScalar K]

theorem ofBound_arity_of_width {b : Bound K} {width : K} (h : width? b = some width) :
    (Substitution.ofBound b).arity = 1 := by
  unfold width? at h
  unfold Substitution.ofBound
  split at h
  · next hl hu =>
    simp only [hl, hu]
    split at h
    · cases h
    · next hne => rw [if_neg hne]; rfl
  · cases h

/-- The variables of columns with two different sides, and their greatest values. -/
def numberedWidths : Nat → List (Bound K) → List (Nat × K)
  | _, [] => []
  | first, b :: bounds =>
    ((width? b).map (first, ·)).toList ++
      numberedWidths (first + (Substitution.ofBound b).arity) bounds

theorem Layout.add_eq (layout : Layout K) (b : Bound K) :
    layout.add b =
      { varCount := layout.varCount + (Substitution.ofBound b).arity
        widths := layout.widths ++ ((width? b).map (layout.varCount, ·)).toList
        columns := layout.columns ++ [(Substitution.ofBound b).placed layout.varCount] } := by
  unfold Layout.add Substitution.ofBound width?
  cases hl : b.lower? with
  | none => cases hu : b.upper? <;> simp [Substitution.placed, Substitution.arity]
  | some l =>
    cases hu : b.upper? with
    | none => simp [Substitution.placed, Substitution.arity]
    | some u => by_cases heq : (l == u) = true <;> simp [heq, Substitution.placed, Substitution.arity]

/-- The layout of columns after others. -/
theorem Layout.foldlM_add (layout : Layout K) (bounds : List (Bound K)) :
    bounds.foldlM (fun layout b => if b.consistent then some (layout.add b) else none) layout =
      if bounds.all Bound.consistent then
        some
          { varCount := layout.varCount + varTotal (bounds.map Substitution.ofBound)
            widths := layout.widths ++ numberedWidths layout.varCount bounds
            columns := layout.columns ++
              placed layout.varCount (bounds.map Substitution.ofBound) }
      else none := by
  induction bounds generalizing layout with
  | nil => simp [varTotal, numberedWidths, placed]
  | cons b bounds ih =>
    cases hb : b.consistent with
    | false => simp [hb]
    | true =>
      rw [List.foldlM_cons, if_pos hb]
      refine (ih (layout.add b)).trans ?_
      rw [Layout.add_eq]
      simp [hb, varTotal, numberedWidths, placed, Nat.add_assoc]

/-- **The running number is the number of variables so far.** -/
theorem Layout.ofBounds?_eq (bounds : List (Bound K)) :
    Layout.ofBounds? bounds =
      if bounds.all Bound.consistent then
        some
          { varCount := varTotal (bounds.map Substitution.ofBound)
            widths := numberedWidths 0 bounds
            columns := placed 0 (bounds.map Substitution.ofBound) }
      else none := by
  refine (Layout.foldlM_add {} bounds).trans ?_
  simp

/-- The constraints from columns with two different sides. -/
theorem mapM_widths (h : first + varTotal (bounds.map Substitution.ofBound) ≤ n) :
    (numberedWidths first bounds).mapM (NumberedForm.widthConstraint? n) =
      some (widthConstraints n first bounds) := by
  induction bounds generalizing first with
  | nil => rfl
  | cons b bounds ih =>
    rw [List.map_cons, varTotal] at h
    have hrest := @ih (first + (Substitution.ofBound b).arity) (by omega)
    rw [numberedWidths, widthConstraints, List.mapM_append, hrest]
    cases hwidth : width? b with
    | none => rfl
    | some width =>
      have harity := ofBound_arity_of_width hwidth
      have hput : put? (zeros n) first (1 : K) = some (single n first 1) :=
        put?_eq (by rw [length_zeros]; omega) 1
      simp [NumberedForm.widthConstraint?, hput]

namespace NumberedForm

theorem rowConstraints?_eq (widths : List (Nat × K)) (columns : List (Substitution K))
    (coefficients : List K) (b : Bound K) :
    rowConstraints? ⟨varTotal columns, widths, placed 0 columns⟩ coefficients b =
      some (rowConstraints columns coefficients b) := by
  simp only [rowConstraints?, spread?_eq, fixedPart_eq, Option.bind_eq_bind, Option.bind_some,
    rowConstraints]
  cases b.lower? with
  | none => cases b.upper? <;> rfl
  | some l =>
    cases b.upper? with
    | none => rfl
    | some u => by_cases heq : (l == u) = true <;> simp [heq]

theorem allRowConstraints?_eq (widths : List (Nat × K)) (columns : List (Substitution K))
    (rows : List (List K × Bound K)) :
    allRowConstraints? ⟨varTotal columns, widths, placed 0 columns⟩ rows =
      some (if rows.all (·.2.consistent) then
        some (rows.flatMap fun row => rowConstraints columns row.1 row.2) else none) := by
  induction rows with
  | nil => rfl
  | cons row rows ih =>
    obtain ⟨coefficients, b⟩ := row
    rw [allRowConstraints?]
    cases hb : b.consistent with
    | false => simp [hb]
    | true =>
      simp only [rowConstraints?_eq, ih, hb, List.all_cons, List.flatMap_cons, Bool.true_and,
        Option.bind_eq_bind, Option.bind_some, Bool.not_true, Bool.false_eq_true, if_false]
      cases rows.all (·.2.consistent) <;> rfl

/-- **The standard form by position** is the standard form with its variables numbered. -/
theorem ofProblem?_eq (p : Problem K) :
    ofProblem? p p.dense = some ((StandardForm.ofProblem p).map StandardForm.numbered) := by
  have hall : (p.dense.zip p.rowBounds).all (·.2.consistent) = p.rowBounds.all Bound.consistent :=
    calc (p.dense.zip p.rowBounds).all (·.2.consistent)
        = ((p.dense.zip p.rowBounds).map Prod.snd).all Bound.consistent := by
          rw [List.all_map]
          rfl
      _ = p.rowBounds.all Bound.consistent := by
        rw [List.map_snd_zip (Nat.le_of_eq p.length_dense.symm)]
  rw [ofProblem?, Layout.ofBounds?_eq, StandardForm.ofProblem]
  cases hcolumns : p.columnBounds.all Bound.consistent with
  | false => simp
  | true =>
    have hwidths : (numberedWidths 0 p.columnBounds).mapM
        (widthConstraint? (varTotal (p.columnBounds.map Substitution.ofBound))) =
          some (widthConstraints (varTotal (p.columnBounds.map Substitution.ofBound)) 0
            p.columnBounds) := mapM_widths (by omega)
    simp only [if_true, spread?_eq, hwidths, allRowConstraints?_eq, hall, Option.bind_eq_bind,
      Option.bind_some, Bool.true_and]
    cases p.rowBounds.all Bound.consistent with
    | false => rfl
    | true =>
      simp only [if_true, Option.map_some, StandardForm.numbered, StandardForm.ofConsistent,
        List.flatMap_def, List.zip_eq_zipWith, List.map_zipWith]
      rfl

end NumberedForm

theorem length_of_mem_widthConstraints {c : Constraint K} (h : c ∈ widthConstraints n first bounds) :
    c.coefficients.length = n := by
  induction bounds generalizing first with
  | nil => exact absurd h List.not_mem_nil
  | cons b bounds ih =>
    rw [widthConstraints] at h
    split at h
    · rcases List.mem_cons.1 h with rfl | h
      · exact length_single ..
      · exact ih h
    · exact ih h

theorem length_of_mem_rowConstraints {coefficients : List K} {b : Bound K} {c : Constraint K}
    (h : c ∈ rowConstraints columns coefficients b) :
    c.coefficients.length = varTotal columns := by
  have hform : ∀ c ∈ rowConstraints columns coefficients b,
      c.coefficients = spread columns coefficients := by
    intro c hc
    rw [rowConstraints] at hc
    split at hc
    · exact absurd hc List.not_mem_nil
    · rw [List.mem_singleton.1 hc]
    · rw [List.mem_singleton.1 hc]
    · split at hc
      · rw [List.mem_singleton.1 hc]
      · rcases List.mem_cons.1 hc with rfl | hc
        · rfl
        · rw [List.mem_singleton.1 hc]
  rw [hform c h, length_spread]

/-- **The standard form of a problem has the right size.** -/
theorem StandardForm.ofProblem_sized {p : Problem K} {form : StandardForm K}
    (h : StandardForm.ofProblem p = some form) : form.Sized := by
  unfold StandardForm.ofProblem at h
  split at h
  · cases h
    refine ⟨rfl, length_spread _ _, fun c hc => ?_⟩
    rcases List.mem_append.1 hc with hc | hc
    · exact length_of_mem_widthConstraints hc
    · obtain ⟨constraints, hrow, hc⟩ := List.mem_flatten.1 hc
      rw [← List.map_uncurry_zip_eq_zipWith] at hrow
      obtain ⟨row, -, rfl⟩ := List.mem_map.1 hrow
      exact length_of_mem_rowConstraints hc
  · cases h

end Simplex

end LinearProgram
