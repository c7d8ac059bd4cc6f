import LinearProgram.Engine.Canned
import LinearProgram.Proofs.DoubleOrder
import LinearProgram.Proofs.Padding
import LinearProgram.Proofs.WellFormed

/-!
# Bounds that are stored allow some value

A bound is checked before it is stored. In doubles the check accepts a bound exactly if a finite
number satisfies it, with one exception: a value that is not a number is noticed only where two sides
are compared with each other, so a bound of another kind is accepted with it although nothing
satisfies it.

* `Bound.Satisfiable`, `Bound.Unnoticed`: what a bound allows, and the exception.
* `Bound.consistent_double_iff`: the check accepts these bounds and no others.
* `Edits.checked`, `run_checked`: every stored bound has passed the check.
* `edit_refuses_bound`: the edits that are refused for their bound.
* `stored_bounds_admit`: all this for models over doubles.
* `nan_row_stored`: the exception is met.
-/

namespace LinearProgram

open ExtendedScalar Scalar

namespace Bound

variable {K : Type} [ExtendedScalar K]

/-- **Whether some finite number satisfies the bound.** -/
def Satisfiable (b : Bound K) : Prop := ∃ x, isFinite x = true ∧ b.Admits x

/-- Whether the bound holds a value that is not a number, and has no two sides that would be
compared with each other. -/
def Unnoticed (b : Bound K) : Prop := b.hasNaN = true ∧ b.kind ≠ .double

theorem bne_infinity_iff {x : Float} : (x != infinity) = true ↔ x ≠ infinity := by
  rw [bne, Bool.not_eq_true', ← Bool.not_eq_true, Double.beq_infinity_iff]

theorem bne_neg_infinity_iff {x : Float} : (x != -infinity) = true ↔ x ≠ -infinity := by
  rw [bne, Bool.not_eq_true', ← Bool.not_eq_true, Double.beq_neg_infinity_iff]

/-- A check that looks at one number `x`, and accepts it when it is not a number. -/
theorem accepts_iff {b : Bound Float} {accepts : Prop} {x : Float}
    (hroom : b.Satisfiable ↔ accepts ∧ x ≠ nan) (hnan : b.Unnoticed ↔ x = nan)
    (haccepts : x = nan → accepts) : accepts ↔ b.Satisfiable ∨ b.Unnoticed := by
  rw [hroom, hnan]
  by_cases h : x = nan
  · simp [h, haccepts h]
  · simp [h]

/-- **A bound is consistent** if some finite number satisfies it, or if it holds a value that is not
a number and the check does not notice. -/
theorem consistent_double_iff (b : Bound Float) :
    b.consistent = true ↔ b.Satisfiable ∨ b.Unnoticed := by
  cases b with
  | free =>
    have hzero : isFinite (0 : Float) = true := by decide
    exact ⟨fun _ => .inl ⟨0, hzero, trivial⟩, fun _ => rfl⟩
  | lower l =>
    have hnan : (lower l).Unnoticed ↔ l = nan := by
      simp [Unnoticed, hasNaN, kind, Double.isNaN_iff]
    have hinf : (nan : Float) ≠ infinity := by decide
    rw [consistent, bne_infinity_iff]
    exact accepts_iff Double.exists_ge_iff hnan fun h => h ▸ hinf
  | upper u =>
    have hnan : (upper u).Unnoticed ↔ u = nan := by
      simp [Unnoticed, hasNaN, kind, Double.isNaN_iff]
    have hinf : (nan : Float) ≠ -infinity := by decide
    rw [consistent, bne_neg_infinity_iff]
    exact accepts_iff Double.exists_le_iff hnan fun h => h ▸ hinf
  | double l u =>
    -- two sides are compared with each other, and then a value that is not a number is noticed
    have hroom : (double l u).Satisfiable ↔ l ≤ u ∧ l ≠ infinity ∧ u ≠ -infinity :=
      Double.exists_between_iff
    have hnan : ¬(double l u).Unnoticed := fun h => h.2 rfl
    rw [hroom, or_iff_left hnan, consistent, Bool.and_eq_true, Bool.and_eq_true,
      decide_eq_true_iff, bne_infinity_iff, bne_neg_infinity_iff, and_assoc]
  | fixed v =>
    have hnan : (fixed v).Unnoticed ↔ v = nan := by
      simp [Unnoticed, hasNaN, kind, Double.isNaN_iff]
    have hinf : isInfinite (nan : Float) = false := by decide
    rw [consistent, Bool.not_eq_true']
    exact accepts_iff Double.exists_beq_iff hnan fun h => h ▸ hinf

end Bound

namespace Model

variable {K E α β : Type} {m next : Model K E}

/-- Only a number out of range is not found. -/
theorem lookup_eq_error {axis : Axis} {items : List α} {i : Nat} {error : Error K} :
    lookup axis items i = .error error ↔
      ¬(1 ≤ i ∧ i ≤ items.length) ∧ error = .indexOutOfRange axis i items.length := by
  cases i with
  | zero => simp [lookup, eq_comm]
  | succ position =>
    by_cases h : position < items.length
    · have hin : 1 ≤ position + 1 ∧ position + 1 ≤ items.length := ⟨Nat.succ_pos position, h⟩
      simp [lookup, h, hin]
    · have hout : ¬position + 1 ≤ items.length := h
      simp [lookup, h, hout, eq_comm]

/-- Whether a name is short enough. -/
def ShortName (name : Option String) : Prop :=
  ∀ text, name = some text → text.length ≤ maxNameLength

/-- Only a long name is refused. -/
theorem checkName_eq_error {name : Option String} {error : Error K} :
    checkName name = .error error ↔ ∃ text, name = some text ∧ maxNameLength < text.length ∧
      error = .nameTooLong text.length := by
  cases name with
  | none => simp [checkName]
  | some text =>
    simp only [checkName, Option.some.injEq, exists_eq_left']
    split
    · next hempty =>
      subst hempty
      simp
    split
    · next hlong => simp [hlong, eq_comm]
    · next hshort => simp [hshort]

/-- A name passes the check if it is short enough. -/
theorem checkName_eq_ok_iff {name : Option String} :
    (∃ stored, checkName (K := K) name = .ok stored) ↔ ShortName name := by
  cases h : checkName (K := K) name with
  | ok stored =>
    refine iff_of_true ⟨stored, rfl⟩ fun text htext => Nat.le_of_not_lt fun hlong => ?_
    have herror : checkName (K := K) name = .error (.nameTooLong text.length) :=
      checkName_eq_error.2 ⟨text, htext, hlong, rfl⟩
    rw [h] at herror
    cases herror
  | error error =>
    obtain ⟨text, htext, hlong, -⟩ := checkName_eq_error.1 h
    exact iff_of_false nofun fun hshort => Nat.not_lt.2 (hshort text htext) hlong

/-- What has a number within range is found. -/
theorem lookup_eq_ok_iff {axis : Axis} {items : List α} {i : Nat} :
    (∃ item, lookup (K := K) axis items i = .ok item) ↔ 1 ≤ i ∧ i ≤ items.length := by
  cases h : lookup (K := K) axis items i with
  | ok item => exact iff_of_true ⟨item, rfl⟩ (of_lookup h).2
  | error error => exact iff_of_false nofun (lookup_eq_error.1 h).1

/-- **The bound that an edit offers**, by its kind and its sides, if it offers one. -/
def Edit.offer : Edit K → Option (Bound.Kind × K × K)
  | .addRow _ kind lower upper
  | .addColumn _ kind lower upper _
  | .setRowBound _ kind lower upper
  | .setColumnBound _ kind lower upper => some (kind, lower, upper)
  | _ => none

/-- **Whether an edit that offers a bound is valid otherwise**: a new name is short enough, and
there is a row or column to give the bound to. -/
def Edit.OtherwiseValid (m : Model K E) : Edit K → Prop
  | .addRow name .. | .addColumn name .. => ShortName name
  | .setRowBound i .. => 1 ≤ i ∧ i ≤ m.rowCount
  | .setColumnBound j .. => 1 ≤ j ∧ j ≤ m.columnCount
  | _ => True

variable [ExtendedScalar K]

theorem checkBound_eq_error {kind : Bound.Kind} {lower upper : K} {error : Error K} :
    checkBound kind lower upper = .error error ↔
      (Bound.ofParts kind lower upper).consistent = false ∧
        error = .inconsistentBound lower upper := by
  simp only [checkBound]
  split
  · next h => simp [h]
  · next h => simp [h, eq_comm]

theorem consistent_of_checkBound {kind : Bound.Kind} {lower upper : K} {bound : Bound K}
    (h : checkBound kind lower upper = .ok bound) : bound.consistent = true := by
  simp only [checkBound] at h
  split at h
  · next hbound =>
    cases h
    exact hbound
  · cases h

/-- After a check that does not concern the bound, an offered bound is refused if the check is
passed and the bound is not consistent. -/
theorem refuses_offer {x : Except (Error K) α} {valid : Prop} {kind : Bound.Kind}
    {l u lower upper : K} {f : α → Bound K → β} (hvalid : (∃ a, x = .ok a) ↔ valid)
    (hx : x ≠ .error (.inconsistentBound lower upper)) :
    (do let a ← x
        let bound ← checkBound kind l u
        return f a bound) = Except.error (.inconsistentBound lower upper) ↔
      ∃ k, some (kind, l, u) = some (k, lower, upper) ∧ valid ∧
        (Bound.ofParts k lower upper).consistent = false := by
  simp only [bind_eq_error, checkBound_eq_error, pure, Except.pure, ← hvalid]
  constructor
  · rintro (h | ⟨a, ha, ⟨hbound, h⟩ | ⟨bound, -, h⟩⟩)
    · exact absurd h hx
    · cases h
      exact ⟨kind, rfl, ⟨a, ha⟩, hbound⟩
    · cases h
  · rintro ⟨k, h, ⟨a, ha⟩, hbound⟩
    cases h
    exact .inr ⟨a, ha, .inl ⟨hbound, rfl⟩⟩

/-- **An edit is refused for a bound** if it offers that bound, is valid otherwise, and the bound is
not consistent. -/
theorem edit_refuses_bound {e : Edit K} {lower upper : K} :
    m.edit e = .error (.inconsistentBound lower upper) ↔
      ∃ kind, e.offer = some (kind, lower, upper) ∧ e.OtherwiseValid m ∧
        (Bound.ofParts kind lower upper).consistent = false := by
  have hname (name : Option String) : checkName name ≠ .error (.inconsistentBound lower upper) := by
    simp [checkName_eq_error]
  have hrow (i : Nat) : m.row i ≠ .error (.inconsistentBound lower upper) := by
    simp [row, lookup_eq_error]
  have hcolumn (j : Nat) : m.column j ≠ .error (.inconsistentBound lower upper) := by
    simp [column, lookup_eq_error]
  cases e with
  | addRow name kind l u =>
    exact map_eq_error.trans (refuses_offer checkName_eq_ok_iff (hname name))
  | addColumn name kind l u coefficient =>
    exact map_eq_error.trans (refuses_offer checkName_eq_ok_iff (hname name))
  | setRowBound i kind l u => exact map_eq_error.trans (refuses_offer lookup_eq_ok_iff (hrow i))
  | setColumnBound j kind l u =>
    exact map_eq_error.trans (refuses_offer lookup_eq_ok_iff (hcolumn j))
  -- the other edits offer no bound and make no check of one
  | setDirection | reset | addRows | addColumns => exact iff_of_false nofun nofun
  | setName name =>
    refine iff_of_false (mt map_eq_error.1 ?_) nofun
    exact bind_ne_error (hname name) fun _ => pure_ne_error
  | setRowName i name =>
    refine iff_of_false (mt map_eq_error.1 ?_) nofun
    exact bind_ne_error (hrow i) fun _ => bind_ne_error (hname name) fun _ => pure_ne_error
  | setColumnName j name =>
    refine iff_of_false (mt map_eq_error.1 ?_) nofun
    exact bind_ne_error (hcolumn j) fun _ => bind_ne_error (hname name) fun _ => pure_ne_error
  | setCoefficient j value =>
    refine iff_of_false (mt map_eq_error.1 ?_) nofun
    unfold setCoefficient
    split
    · exact nofun
    · exact bind_ne_error (hcolumn j) fun _ => pure_ne_error
  | setMatrixCoefficient i j value =>
    refine iff_of_false (mt map_eq_error.1 ?_) nofun
    exact bind_ne_error (hrow i) fun _ => bind_ne_error (hcolumn j) fun _ => pure_ne_error
  | loadMatrix block =>
    refine iff_of_false (mt map_eq_error.1 ?_) nofun
    unfold loadMatrix
    split_ifs <;> exact nofun

theorem step_edit_eq_error [Engine E K] {e : Edit K} {error : Error K} :
    (m.step (.edit e)).1 = .error error ↔ m.edit e = .error error := by
  simp only [step, Action.perform_eq]
  cases m.edit e <;> simp [Action.outcome, report]

/-- **Models whose bounds have all passed the check.** -/
structure Checked (m : Model K E) : Prop where
  rows : ∀ row ∈ m.rows, row.bound.consistent = true
  columns : ∀ column ∈ m.columns, column.bound.consistent = true

theorem ofEngine_checked (engine : E) : (ofEngine engine : Model K E).Checked where
  rows := nofun
  columns := nofun

theorem Constructed.checked {engine : E} (h : Constructed engine m) : m.Checked := by
  obtain ⟨name, stored, direction, -, rfl⟩ := h.eq_ofEngine
  exact { ofEngine_checked engine with }

section Invariant

variable [NeutralZero K]

/-- **An edit keeps all bounds checked.** -/
theorem Edits.checked {e : Edit K} (h : Edits m e next) (hm : m.Checked) : next.Checked := by
  cases h with
  | reset => exact { ofEngine_checked m.engine with }
  | addRows =>
    have hfresh : (Row.fresh : Row K).bound.consistent = true := rfl
    exact { hm with rows := forall_mem_append_replicate hm.rows hfresh _ }
  | addColumns =>
    have hfresh : (Column.fresh : Column K).bound.consistent = true := Bound.consistent_fixed_zero
    exact { hm with columns := forall_mem_append_replicate hm.columns hfresh _ }
  | addRow hname hbound =>
    have hnew := consistent_of_checkBound hbound
    exact { hm with rows := forall_mem_append_replicate hm.rows hnew 1 }
  | addColumn hname hbound =>
    have hnew := consistent_of_checkBound hbound
    exact { hm with columns := forall_mem_append_replicate hm.columns hnew 1 }
  | setRowName hrow =>
    have hold := hm.rows _ (of_lookup hrow).1
    refine { hm with rows := forall_mem_set hm.rows ?_ _ }
    exact hold
  | setColumnName hcolumn =>
    have hold := hm.columns _ (of_lookup hcolumn).1
    refine { hm with columns := forall_mem_set hm.columns ?_ _ }
    exact hold
  | setRowBound hrow hbound =>
    have hnew := consistent_of_checkBound hbound
    exact { hm with rows := forall_mem_set hm.rows hnew _ }
  | setColumnBound hcolumn hbound =>
    have hnew := consistent_of_checkBound hbound
    exact { hm with columns := forall_mem_set hm.columns hnew _ }
  | setCoefficient hj hcolumn =>
    have hold := hm.columns _ (of_lookup hcolumn).1
    refine { hm with columns := forall_mem_set hm.columns ?_ _ }
    exact hold
  | sameDirection | addNoRows | addNoColumns | loadNoCells => exact hm
  | setName | setDirection | setShift | setMatrixCoefficient | loadMatrix => exact { hm with }

variable [Engine E K]

theorem step_checked (hm : m.Checked) (op : Operation K) : (m.step op).2.Checked := by
  cases op with
  | ask q => exact hm
  | edit e => exact after_edit hm fun next he => he.checked hm
  | solve =>
    rcases step_solve m with ⟨hs, -⟩ | ⟨reason, hs, -⟩
    · rw [hs]
      exact { hm with }
    · rw [hs]
      exact { hm with }

theorem run_checked (hm : m.Checked) (ops : List (Operation K)) : (m.run ops).Checked := by
  induction ops generalizing m with
  | nil => exact hm
  | cons op ops ih => exact ih (step_checked hm op)

end Invariant

section Doubles

variable [Engine E Float] {engine : E} {start : Model Float E}

/-- **Stored bounds admit a finite number.** A bound over doubles passes the check if some finite
number satisfies it or if it holds an unnoticed value that is not a number. Whatever has been called
on a model, every bound that it stores is of this kind, and the edits that are refused for their
bound are those whose bound is not. -/
theorem stored_bounds_admit (h : Constructed engine start) (ops : List (Operation Float)) :
    (∀ b : Bound Float, b.consistent = true ↔ b.Satisfiable ∨ b.Unnoticed) ∧
    ((∀ row ∈ (start.run ops).rows, row.bound.Satisfiable ∨ row.bound.Unnoticed) ∧
      ∀ column ∈ (start.run ops).columns, column.bound.Satisfiable ∨ column.bound.Unnoticed) ∧
    ∀ e lower upper,
      ((start.run ops).step (.edit e)).1 = .error (.inconsistentBound lower upper) ↔
        ∃ kind, e.offer = some (kind, lower, upper) ∧ e.OtherwiseValid (start.run ops) ∧
          ¬((Bound.ofParts kind lower upper).Satisfiable ∨
            (Bound.ofParts kind lower upper).Unnoticed) := by
  have hchecked := run_checked h.checked ops
  refine ⟨Bound.consistent_double_iff, ⟨fun row hrow => ?_, fun column hcolumn => ?_⟩,
    fun e lower upper => ?_⟩
  · exact (Bound.consistent_double_iff _).1 (hchecked.rows row hrow)
  · exact (Bound.consistent_double_iff _).1 (hchecked.columns column hcolumn)
  · simp only [step_edit_eq_error, edit_refuses_bound, ← Bound.consistent_double_iff,
      Bool.not_eq_true]

/-- A row above a value that is not a number, and a fixed column. -/
def oneNaN : List (Operation Float) :=
  [.edit (.addRow none .lower nan 0), .edit (.addColumn none .fixed 1 0 2)]

theorem oneNaN_admits :
    let m : Model Float (Canned Float) := (ofEngine ⟨[]⟩).run oneNaN
    (∀ column ∈ m.columns, column.bound.Satisfiable ∨ column.bound.Unnoticed) ∧
      (m.step (.edit (.setRowBound 1 .double nan 2))).1 = .error (.inconsistentBound nan 2) := by
  have hstart : Constructed ⟨[]⟩ (ofEngine ⟨[]⟩ : Model Float (Canned Float)) := .empty
  obtain ⟨-, ⟨-, hcolumns⟩, hrefused⟩ := stored_bounds_admit hstart oneNaN
  refine ⟨hcolumns, (hrefused _ _ _).2 ⟨.double, rfl, ⟨by decide, by decide⟩, ?_⟩⟩
  rw [← Bound.consistent_double_iff]
  decide

/-- **A row bound that no finite number satisfies** is stored. -/
theorem nan_row_stored :
    ((ofEngine ⟨[]⟩ : Model Float (Canned Float)).run oneNaN).rows = [⟨none, .lower nan⟩] ∧
      (Bound.lower (nan : Float)).consistent = true ∧ ¬(Bound.lower (nan : Float)).Satisfiable := by
  refine ⟨rfl, by decide, ?_⟩
  rintro ⟨x, -, hle⟩
  exact (Double.not_nan_le x).1 hle

end Doubles

end Model

end LinearProgram
