import LinearProgram.Engine.Canned
import LinearProgram.Model.Reading
import LinearProgram.Proofs.WellFormed
import LinearProgram.Scalar.Exact

/-!
# Questions look at what is there

Rows, columns and the values of a solution are looked up by position. In a well-formed model every
position that a question looks at exists, so the answer by position is the answer.

* `run_position_bind`: a number that passes its check belongs to a position of the list.
* `column_lt_length`: the stored cells of a row belong to columns with a value in the solution.
* `run_reading`: every question to a well-formed model has an answer by position.
* `questions_in_range`: this is so in every model that can be reached.
-/

namespace LinearProgram.Model

open Reading

variable {K E α β : Type} {m : Model K E}

/-- What a reading goes on with may depend on what it has found. -/
theorem run_bind_eq {x : Reading K α} {r : Except (Error K) α} {f : α → Reading K β}
    {g : α → Except (Error K) β} (h : x.run = some r)
    (hf : ∀ a, r = .ok a → (f a).run = some (g a)) : (x >>= f).run = some (r >>= g) := by
  rw [ExceptT.run_bind, h]
  cases r with
  | error e => rfl
  | ok a => exact hf a rfl

theorem run_bind_return {x : Reading K α} {r : Except (Error K) α} (h : x.run = some r)
    (f : α → β) : (x >>= fun a => return f a).run = some (r.map f) := by
  rw [ExceptT.run_bind, h]
  cases r <;> rfl

theorem run_entry {items : List α} {position : Nat} {item : α} (h : items[position]? = some item) :
    (entry (K := K) items position).run = some (.ok item) := by
  simp [entry, h]

theorem run_below {number : Nat} (h : number ≠ 0) :
    (below (K := K) number).run = some (.ok (number - 1)) := by
  simp [below, h]

/-- A number that passes its check belongs to a position in range. -/
theorem run_position_bind {items : List α} {axis : Axis} {number : Nat} {f : Nat → Reading K β}
    {g : α → Except (Error K) β}
    (hf : ∀ item, items[number - 1]? = some item → (f (number - 1)).run = some (g item)) :
    (position axis number items.length >>= f).run = some (lookup axis items number >>= g) := by
  unfold position
  cases number with
  | zero => rfl
  | succ place =>
    by_cases h : place < items.length
    · have hle : ¬(place + 1 = 0 ∨ items.length < place + 1) := by omega
      have hitem := List.getElem?_eq_getElem h
      rw [if_neg hle, pure_bind, lookup, hitem]
      exact hf items[place] hitem
    · have hlt : place + 1 = 0 ∨ items.length < place + 1 := by omega
      rw [if_pos hlt, lookup, List.getElem?_eq_none (Nat.le_of_not_lt h)]
      rfl

theorem bind_ok (r : Except (Error K) α) : r >>= .ok = r := by cases r <;> rfl

theorem run_readRow (m : Model K E) (i : Nat) : (m.readRow i).run = some (m.row i) := by
  rw [← bind_ok (m.row i)]
  exact run_position_bind fun row hrow => run_entry hrow

theorem run_readColumn (m : Model K E) (j : Nat) : (m.readColumn j).run = some (m.column j) := by
  rw [← bind_ok (m.column j)]
  exact run_position_bind fun column hcolumn => run_entry hcolumn

theorem solution_of_solved {s : Solution K} (h : m.solved = .ok s) : m.solution = some s := by
  unfold solved at h
  split at h
  · next hs =>
    cases h
    exact hs
  · cases h

variable [ExtendedScalar K]

theorem run_readColumnValue (hm : m.WellFormed) (j : Nat) :
    (m.readColumnValue j).run = some (m.columnValue j) := by
  refine run_bind_eq rfl fun s hs => run_position_bind fun column hcolumn => ?_
  have hs := solution_of_solved hs
  have hlt : j - 1 < s.columns.length := by
    rw [hm.solution s hs]
    exact (List.getElem?_eq_some_iff.1 hcolumn).1
  rw [run_entry (List.getElem?_eq_getElem hlt)]
  simp [hlt]
  rfl

theorem run_readColumnValueByName (hm : m.WellFormed) (name : String) :
    (m.readColumnValueByName name).run = some (m.columnValueByName name) := by
  refine run_bind_eq rfl fun s hs => ?_
  cases m.findColumn name with
  | none => rfl
  | some j => exact run_readColumnValue hm j

omit [ExtendedScalar K] in
theorem run_mapM {items : List α} {f : α → Reading K β} {g : α → β}
    (h : ∀ a ∈ items, (f a).run = some (.ok (g a))) :
    (items.mapM f).run = some (.ok (items.map g)) := by
  induction items with
  | nil => rfl
  | cons a items ih =>
    have ha := h a List.mem_cons_self
    have hitems := ih fun b hb => h b (List.mem_cons_of_mem a hb)
    rw [List.mapM_cons, ExceptT.run_bind, ha]
    exact run_bind_return hitems (g a :: ·)

/-- The stored cells of a row belong to columns that the solution has values for. -/
theorem column_lt_length (hm : m.WellFormed) {s : Solution K} (hs : m.solution = some s) {i : Nat}
    {e : Entry K} (he : e ∈ m.matrix.row i) : e.column ≠ 0 ∧ e.column - 1 < s.columns.length := by
  obtain ⟨-, ⟨hpos, hle⟩, -⟩ := hm.cells e (List.mem_filter.1 he).1
  rw [hm.solution s hs]
  omega

theorem run_readRowValue (hm : m.WellFormed) (i : Nat) :
    (m.readRowValue i).run = some (m.rowValue i) := by
  refine run_bind_eq rfl fun s hs => run_position_bind fun row _ => ?_
  have hs := solution_of_solved hs
  cases hvalue : s.rows[i - 1]? with
  | some value => rfl
  | none =>
    have hproducts : ∀ e ∈ m.matrix.row i,
        (below e.column >>= fun position => entry s.columns position >>= fun value =>
          return e.value * value : Reading K K).run =
          some (.ok (e.value * s.columns.getD (e.column - 1) 0)) := by
      intro e he
      obtain ⟨hpos, hlt⟩ := column_lt_length hm hs he
      have hvalue : s.columns[e.column - 1]? = some (s.columns.getD (e.column - 1) 0) := by
        simp [hlt]
      rw [ExceptT.run_bind, run_below hpos]
      exact run_bind_return (run_entry hvalue) (e.value * ·)
    exact run_bind_return (run_mapM hproducts) Scalar.sum

/-- **In a well-formed model no question looks outside of a list.** -/
theorem run_reading (hm : m.WellFormed) (q : Query) : (m.reading q).run = some (m.answer q) := by
  cases q with
  | rowName i =>
    refine (run_bind_return (run_readRow m i) fun row => Value.name row.name).trans ?_
    rw [answer, rowName]
    cases m.row i <;> rfl
  | columnName j =>
    refine (run_bind_return (run_readColumn m j) fun column => Value.name column.name).trans ?_
    rw [answer, columnName]
    cases m.column j <;> rfl
  | rowBound i =>
    refine (run_bind_return (run_readRow m i) fun row => Value.bound row.bound).trans ?_
    rw [answer, rowBound]
    cases m.row i <;> rfl
  | columnBound j =>
    refine (run_bind_return (run_readColumn m j) fun column => Value.bound column.bound).trans ?_
    rw [answer, columnBound]
    cases m.column j <;> rfl
  | coefficient j =>
    by_cases hj : j = 0
    · simp only [reading, answer, coefficient, hj, if_true]
      rfl
    · simp only [reading, answer, coefficient, hj, if_false]
      refine (run_bind_return (run_readColumn m j)
        fun column => Value.scalar column.coefficient).trans ?_
      cases m.column j <;> rfl
  | columnValue j => exact run_bind_return (run_readColumnValue hm j) Value.scalar
  | columnValueByName name =>
    exact run_bind_return (run_readColumnValueByName hm name) Value.scalar
  | rowValue i => exact run_bind_return (run_readRowValue hm i) Value.scalar
  | _ => rfl

/-- What a solved model shows of a column is what its solution says. -/
theorem columnValue_of_solution {s : Solution K} (hs : m.solution = some s) {j : Nat} (hj : 1 ≤ j)
    (hcount : j ≤ m.columnCount) : m.columnValue j = .ok (s.columns.getD (j - 1) 0) := by
  have hsolved : m.solved = .ok s := by rw [solved, hs]
  have hcolumn : m.column j = .ok (m.columns.getD (j - 1) .fresh) := lookup_of_le hj hcount _
  rw [columnValue, hsolved, hcolumn]
  rfl

/-- What a solved model shows of a row is what its solution says, or the sum over its stored cells. -/
theorem rowValue_eq_getD {s : Solution K} (hs : m.solution = some s) {i : Nat} (hi : 1 ≤ i)
    (hcount : i ≤ m.rowCount) :
    m.rowValue i = .ok ((s.rows[i - 1]?).getD (m.activity s.columns i)) := by
  have hsolved : m.solved = .ok s := by rw [solved, hs]
  have hrow : m.row i = .ok (m.rows.getD (i - 1) .fresh) := lookup_of_le hi hcount _
  rw [rowValue, hsolved, hrow]
  rfl

theorem rowValue_of_solution {s : Solution K} (hs : m.solution = some s) {i : Nat} (hi : 1 ≤ i)
    (hcount : i ≤ m.rowCount) {x : K} (hx : s.rows[i - 1]? = some x) : m.rowValue i = .ok x := by
  rw [rowValue_eq_getD hs hi hcount, hx, Option.getD_some]

variable [Engine E K]

/-- **Every question finds what it looks for**, after all calls and with every engine. -/
theorem questions_in_range {engine : E} {start : Model K E} (h : Constructed engine start)
    (ops : List (Operation K)) :
    (start.run ops).WellFormed ∧
      ∀ q, ((start.run ops).reading q).run = some ((start.run ops).answer q) := by
  have hm := run_wellFormed h.wellFormed ops
  exact ⟨hm, run_reading hm⟩

open Exact

/-- An engine that first answers without any values, and then without those of the rows. -/
def careless : Canned Exact :=
  ⟨[.optimal (finite 0) [] [], .optimal (finite 7) [finite 2, finite 3] []]⟩

/-- An empty model with a name. -/
def diet : Model Exact (Canned Exact) :=
  { ofEngine careless with name := some "diet", direction := .maximize }

/-- Two rows and two columns, and two questions to the engine. -/
def dietSteps : List (Operation Exact) :=
  [.edit (.addRows 2), .edit (.addColumns 2), .edit (.setRowName 2 (some "iron")),
    .edit (.loadMatrix [[finite 1, finite 1], [finite 4, finite 0]]), .solve, .solve]

theorem diet_in_range : Constructed careless diet ∧ (diet.run dietSteps).WellFormed ∧
    ((diet.run dietSteps).reading (.rowValue 2)).run = some (.ok (.scalar (finite 8))) := by
  have hcreate : create careless (some "diet") .maximize = .ok diet := rfl
  have hvalue : ((diet.run dietSteps).rowValue 2).toOption = some (finite 8) := by decide +kernel
  obtain ⟨hm, hreading⟩ := questions_in_range (.named hcreate) dietSteps
  refine ⟨.named hcreate, hm, (hreading (.rowValue 2)).trans ?_⟩
  rw [answer]
  cases h : (diet.run dietSteps).rowValue 2 with
  | error e => simp [h, Except.toOption] at hvalue
  | ok value =>
    rw [h] at hvalue
    cases hvalue
    rfl

end LinearProgram.Model
