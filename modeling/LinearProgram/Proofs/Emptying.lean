import LinearProgram.Engine.Canned
import LinearProgram.Proofs.Recording
import LinearProgram.Scalar.Exact
import LinearProgram.Simplex.Solve

/-!
# Emptied models

An emptied model is a new model with the same direction and engine, but for one thing: its engine is
told to discard its factorization before it is asked the next time. The simplex method keeps nothing
that it could discard. So with it an emptied model cannot be told from a new one.

* `KeepsNothing`: engines like the simplex method.
* `outdated`: a model with a stale factorization.
* `step_outdated`, `step_outdated_solve`: what a stale factorization changes in one operation.
* `readings_outdated`: with an engine that keeps nothing it changes no result of a run.
* `callsIn_outdated`: how it changes the calls that an engine receives in a run.
* `OnlyDiscards`: two models that one discarded factorization tells apart.
* `reset_as_new`: an emptied model and a new one are such models.
-/

namespace LinearProgram.Model

variable {K E : Type}

/-- **Engines that keep nothing** of what they are asked or told. -/
class KeepsNothing (E K : Type) [Engine E K] : Prop where
  solve_eq : ∀ (engine : E) (p : Problem K), (Engine.solve engine p).2 = engine
  discard_eq : ∀ engine : E, Engine.discardFactorization engine = engine

instance [ExtendedScalar K] : KeepsNothing (Simplex K) K where
  solve_eq _ _ := rfl
  discard_eq _ := rfl

/-- **The model with a stale factorization.** -/
def outdated (m : Model K E) : Model K E := { m with factorizationStale := true }

/-- The model without its solution and without its engine, in whose place is one without answers. -/
def core (m : Model K E) : Model K (Canned K) := m.withUnseen true false ⟨[]⟩

/-- **The calls with one that comes first**: an engine that is asked is told to discard its
factorization before, unless it is told that anyway. -/
def discardFirst : List (Call K) → List (Call K)
  | .solve p :: calls => .discardFactorization :: .solve p :: calls
  | calls => calls

variable [ExtendedScalar K]

theorem answer_outdated (m : Model K E) (q : Query) : m.outdated.answer q = m.answer q := by
  cases q <;> rfl

variable [Engine E K]

/-- The model after its engine has been told to discard its factorization. -/
def told (m : Model K E) : Model K E :=
  { m with engine := Engine.discardFactorization m.engine, factorizationStale := false }

/-- **A stale factorization changes nothing** until the engine is asked. -/
theorem step_outdated (m : Model K E) {op : Operation K} (h : op ≠ .solve) :
    m.outdated.step op = ((m.step op).1, (m.step op).2.outdated) := by
  cases op with
  | ask q => exact Prod.ext (answer_outdated m q) rfl
  | solve => exact absurd rfl h
  | edit e =>
    -- with nothing changed, the same lemma says that an edit does not give the engine as a value
    have hvalue := congrArg Prod.fst (step_edit_withUnseen m false false m.engine e)
    have hnext : (m.step (.edit e)).2.withUnseen false true m.engine =
        (m.step (.edit e)).2.outdated := by
      rw [← engine_after_edit m e]
      rfl
    exact (step_edit_withUnseen m false true m.engine e).trans (Prod.ext hvalue.symm hnext)

/-- When the engine is asked, it has been told before. -/
theorem step_outdated_solve (m : Model K E) : m.outdated.step .solve = m.told.step .solve := by
  rw [step_solve_eq, step_solve_eq]
  rfl

theorem outdated_until_solve (m : Model K E) {ops : List (Operation K)} (h : .solve ∉ ops) :
    m.outdated.results ops = m.results ops ∧ m.outdated.run ops = (m.run ops).outdated := by
  induction ops generalizing m with
  | nil => exact ⟨rfl, rfl⟩
  | cons op ops ih =>
    obtain ⟨hop, hops⟩ := not_or.1 (mt List.mem_cons.2 h)
    have hstep := step_outdated m (Ne.symm hop)
    obtain ⟨hresults, hrun⟩ := ih (m.step op).2 hops
    constructor
    · rw [results, results, hstep, hresults]
    · calc m.outdated.run (op :: ops) = (m.outdated.step op).2.run ops := rfl
        _ = (m.step op).2.outdated.run ops := by rw [hstep]
        _ = ((m.step op).2.run ops).outdated := hrun

theorem outdated_from_solve (m : Model K E) {ops : List (Operation K)} (later : List (Operation K))
    (h : .solve ∉ ops) :
    m.outdated.results (ops ++ .solve :: later) =
        m.results ops ++ (m.run ops).told.results (.solve :: later) ∧
      m.outdated.run (ops ++ .solve :: later) = (m.run ops).told.run (.solve :: later) := by
  obtain ⟨hresults, hrun⟩ := outdated_until_solve m h
  have hsolve := step_outdated_solve (m.run ops)
  constructor
  · rw [results_append, hresults, hrun, results, results, hsolve]
  · calc m.outdated.run (ops ++ .solve :: later)
        = (m.outdated.run ops).run (.solve :: later) := run_append ..
      _ = ((m.run ops).outdated.step .solve).2.run later := by rw [hrun]; rfl
      _ = (m.run ops).told.run (.solve :: later) := by rw [hsolve]; rfl

section KeepsNothing

variable [KeepsNothing E K]

omit [ExtendedScalar K] in
theorem freshEngine_eq (m : Model K E) : m.freshEngine = m.engine := by
  unfold freshEngine
  split
  · exact KeepsNothing.discard_eq m.engine
  · rfl

theorem step_outdated_of_keepsNothing (m : Model K E) :
    m.outdated.step .solve = m.step .solve := by
  have hanswer : m.outdated.engineAnswer = m.engineAnswer := by
    rw [engineAnswer, engineAnswer, freshEngine_eq, freshEngine_eq]
    rfl
  have hasked : m.outdated.asked = m.asked := by
    rw [asked, asked, freshEngine_eq, freshEngine_eq]
    rfl
  have hcount : m.outdated.columnCount = m.columnCount := rfl
  rw [step_solve_eq, step_solve_eq, hanswer, hasked, hcount]

/-- **An engine that keeps nothing does not notice** that a factorization is stale. -/
theorem readings_outdated (m : Model K E) (ops : List (Operation K)) :
    m.outdated.results ops = m.results ops ∧
      ∀ q, (m.outdated.run ops).answer q = (m.run ops).answer q := by
  induction ops generalizing m with
  | nil => exact ⟨rfl, answer_outdated m⟩
  | cons op ops ih =>
    by_cases hop : op = .solve
    · subst hop
      have hstep := step_outdated_of_keepsNothing m
      constructor
      · rw [results, results, hstep]
      · intro q
        have hrun : m.outdated.run (.solve :: ops) = m.run (.solve :: ops) := by
          calc m.outdated.run (.solve :: ops) = (m.outdated.step .solve).2.run ops := rfl
            _ = (m.step .solve).2.run ops := by rw [hstep]
        rw [hrun]
    · have hstep := step_outdated m hop
      obtain ⟨hresults, hanswers⟩ := ih (m.step op).2
      constructor
      · rw [results, results, hstep, hresults]
      · intro q
        calc (m.outdated.run (op :: ops)).answer q
            = ((m.outdated.step op).2.run ops).answer q := rfl
          _ = ((m.step op).2.outdated.run ops).answer q := by rw [hstep]
          _ = ((m.step op).2.run ops).answer q := hanswers q

/-- An engine that keeps nothing stays as it is. -/
theorem engine_run (m : Model K E) (ops : List (Operation K)) : (m.run ops).engine = m.engine := by
  induction ops generalizing m with
  | nil => rfl
  | cons op ops ih =>
    have hasked : m.asked.engine = m.engine := by
      rw [asked, freshEngine_eq]
      exact KeepsNothing.solve_eq ..
    have hstep : (m.step op).2.engine = m.engine := by
      cases op with
      | ask q => rfl
      | edit e => exact engine_after_edit m e
      | solve =>
        rcases step_solve m with ⟨hs, -⟩ | ⟨reason, hs, -⟩
        · rw [hs]
          exact hasked
        · rw [hs]
          exact hasked
    exact (ih (m.step op).2).trans hstep

end KeepsNothing

section Calls

/-- The calls that an engine receives in the course of some operations. -/
def callsIn (m : Model K E) (ops : List (Operation K)) : List (Call K) :=
  (m.history ops).flatMap fun e => e.before.callsOf e.operation

theorem callsIn_cons (m : Model K E) (op : Operation K) (ops : List (Operation K)) :
    m.callsIn (op :: ops) = m.callsOf op ++ (m.step op).2.callsIn ops := rfl

theorem core_after_solve (m : Model K E) :
    (m.step .solve).2.core = { m.core with factorizationStale := false } := by
  rcases step_solve m with ⟨hs, -⟩ | ⟨reason, hs, -⟩
  · rw [hs]
    rfl
  · rw [hs]
    rfl

theorem core_after_edit (m : Model K E) (e : Edit K) :
    (m.step (.edit e)).2.core = (m.core.step (.edit e)).2 :=
  (congrArg Prod.snd (step_edit_withUnseen (F := Canned K) m true false ⟨[]⟩ e)).symm

/-- What an operation makes of the core of a model depends on the core alone. -/
theorem core_after {m m' : Model K E} (h : m.core = m'.core) (op : Operation K) :
    (m.step op).2.core = (m'.step op).2.core := by
  cases op with
  | ask q => exact h
  | solve => rw [core_after_solve, core_after_solve, h]
  | edit e => rw [core_after_edit, core_after_edit, h]

/-- The calls to an engine depend on the core of the model alone, and not on what it answers. -/
theorem callsIn_congr {m m' : Model K E} (h : m.core = m'.core) (ops : List (Operation K)) :
    m.callsIn ops = m'.callsIn ops := by
  induction ops generalizing m m' with
  | nil => rfl
  | cons op ops ih =>
    have hcalls : m.callsOf op = m'.callsOf op := by
      calc m.callsOf op = m.core.callsOf op := by cases op <;> rfl
        _ = m'.core.callsOf op := by rw [h]
        _ = m'.callsOf op := by cases op <;> rfl
    rw [callsIn_cons, callsIn_cons, hcalls, ih (core_after h op)]

/-- **A stale factorization adds one call** to those that an engine receives. -/
theorem callsIn_outdated (m : Model K E) (ops : List (Operation K)) :
    m.outdated.callsIn ops = discardFirst (m.callsIn ops) := by
  induction ops generalizing m with
  | nil => rfl
  | cons op ops ih =>
    rw [callsIn_cons, callsIn_cons]
    by_cases hop : op = .solve
    · subst hop
      have hcore : (m.outdated.step .solve).2.core = (m.step .solve).2.core := by
        rw [core_after_solve, core_after_solve]
        rfl
      rw [callsIn_congr hcore ops, callsOf, callsOf]
      cases m.factorizationStale <;> rfl
    · have hquiet (m : Model K E) : m.callsOf op = [] := by
        cases op with
        | solve => exact absurd rfl hop
        | _ => rfl
      rw [hquiet, hquiet, step_outdated m hop]
      exact ih (m.step op).2

/-- The record of a recorded engine holds these calls. -/
theorem calls_recorded (m : Model K E) (ops : List (Operation K)) :
    ((m.recorded []).run ops).engine.calls = m.callsIn ops := by
  rw [run_recorded]
  rfl

end Calls

/-- **One discarded factorization** is all that tells two models apart. Until it asks its engine,
the first one does what the second one does. When it asks, it goes on as the second one would if its
engine were told to discard its factorization just then. So one call comes in addition. -/
structure OnlyDiscards (m other : Model K E) : Prop where
  eq_outdated : m = { other with factorizationStale := true }
  notStale : other.factorizationStale = false
  untilSolve : ∀ ops, .solve ∉ ops →
    m.results ops = other.results ops ∧
      m.run ops = { other.run ops with factorizationStale := true }
  fromSolve : ∀ ops later, .solve ∉ ops →
    m.results (ops ++ .solve :: later) =
        other.results ops ++ (other.run ops).told.results (.solve :: later) ∧
      m.run (ops ++ .solve :: later) = (other.run ops).told.run (.solve :: later)
  calls : ∀ ops, ((m.recorded []).run ops).engine.calls =
    discardFirst ((other.recorded []).run ops).engine.calls

theorem onlyDiscards_outdated {m : Model K E} (h : m.factorizationStale = false) :
    OnlyDiscards m.outdated m where
  eq_outdated := rfl
  notStale := h
  untilSolve _ hops := outdated_until_solve m hops
  fromSolve _ later hops := outdated_from_solve m later hops
  calls ops := by rw [calls_recorded, calls_recorded, callsIn_outdated]

/-- A new model with a direction. -/
def fresh (engine : E) (direction : Direction) : Model K E :=
  (ofEngine engine).run [.edit (.setDirection direction)]

theorem fresh_eq (engine : E) (direction : Direction) :
    (fresh engine direction : Model K E) = { ofEngine engine with direction } := by
  have hstep : (ofEngine engine : Model K E).step (.edit (.setDirection direction)) =
      (.ok .unit, (ofEngine engine).setDirection direction) := step_edit_of_ok rfl
  have hrun : (fresh engine direction : Model K E) = (ofEngine engine).setDirection direction :=
    congrArg Prod.snd hstep
  rw [hrun, setDirection]
  cases direction <;> rfl

/-- **An emptied model is a new one** with a stale factorization. -/
theorem run_reset_eq (m : Model K E) :
    m.run [.edit .reset] = (fresh m.engine m.direction).outdated := by
  have hstep : m.step (.edit .reset) = (.ok .unit, m.reset) := step_edit_of_ok rfl
  have hrun : m.run [.edit .reset] = m.reset := congrArg Prod.snd hstep
  rw [hrun, fresh_eq]
  rfl

/-- **An emptied model is as good as new.** With the simplex method, whatever has been called before
it was emptied, all that is called from then on has the same results as on a new model with the same
direction, and all that can be read is the same. With any engine it differs from a new model with
this engine only in one discarded factorization. -/
theorem reset_as_new :
    (∀ (method : Simplex K) (start : Model K (Simplex K)), Constructed method start →
      ∀ before ops : List (Operation K),
        let emptied := start.run (before ++ [.edit .reset])
        let new := fresh method (start.run before).direction
        emptied.results ops = new.results ops ∧
          ∀ q, (emptied.run ops).answer q = (new.run ops).answer q) ∧
    ∀ {E : Type} [Engine E K] (m : Model K E),
      OnlyDiscards (m.run [.edit .reset]) (fresh m.engine m.direction) := by
  constructor
  · intro method start hstart before ops
    have hengine : (start.run before).engine = method := by
      obtain ⟨name, stored, direction, -, rfl⟩ := hstart.eq_ofEngine
      exact engine_run _ before
    rw [run_append, run_reset_eq, hengine]
    exact readings_outdated _ ops
  · intro E _ m
    rw [run_reset_eq]
    refine onlyDiscards_outdated ?_
    rw [fresh_eq]
    rfl

open Exact

/-- A column up to 4 that is to be as large as possible, and a row, solved. -/
def oneUse : List (Operation Exact) :=
  [.edit (.setDirection .maximize), .edit (.setName (some "old")), .edit (.setCoefficient 0 1),
    .edit (.addColumn (some "x") .double 0 (finite 4) 1), .edit (.addRow (some "r") .upper 0 1),
    .edit (.setMatrixCoefficient 1 1 1), .solve]

/-- Another column, solved and read. -/
def nextUse : List (Operation Exact) :=
  [.ask .name, .edit (.addColumn none .double 0 (finite 3) 1), .ask (.findColumn "x"), .solve,
    .ask .objectiveValue]

theorem oneUse_as_new :
    let method : Simplex Exact := ⟨10, 0⟩
    let start : Model Exact (Simplex Exact) := ofEngine method
    let used : Model Exact (Canned Exact) := (ofEngine ⟨[]⟩).run oneUse
    let problem : Problem Exact := { direction := .maximize, shift := 0 }
    (Constructed method start ∧ (start.run oneUse).isSolved = true ∧
      (start.run (oneUse ++ [.edit .reset])).results nextUse =
        (fresh method .maximize).results nextUse) ∧
    (((used.run [.edit .reset]).recorded []).run [.solve, .solve]).engine.calls =
      [.discardFactorization, .solve problem, .solve problem] := by
  intro method start used problem
  have hstart : Constructed method start := .empty
  have hsolved : (start.run oneUse).isSolved = true := by decide +kernel
  have hdirection : (start.run oneUse).direction = .maximize := by decide +kernel
  have hresults := (reset_as_new.1 method start hstart oneUse nextUse).1
  rw [hdirection] at hresults
  refine ⟨⟨hstart, hsolved, hresults⟩, ?_⟩
  refine ((reset_as_new.2 used).calls [.solve, .solve]).trans ?_
  decide +kernel

end LinearProgram.Model
