import Mathlib.Data.List.Induction
import LinearProgram.Engine.Canned
import LinearProgram.Proofs.Steps
import LinearProgram.Scalar.Exact

/-!
# The solution belongs to the program

A model shows a solution exactly as long as nothing has been called that might have changed the
program since the engine found it.

* `Event.Harmless`: the calls that leave the program, the solution and the engine alone.
* `Answered`: the newest solve of a history was successful, and all calls since then were harmless.
* `Event.Harmless.keeps`, `harmless_or_drops`: one call either keeps the solution or drops it.
* `solution_current`: what there is to know about a solution that is shown.
-/

namespace LinearProgram.Model

variable {K E : Type} [ExtendedScalar K] [Engine E K]

/-- **Harmless calls**: questions, refused edits, naming, and edits that ask for nothing new. -/
inductive Event.Harmless : Event K E → Prop
  | ask (m q) : Harmless ⟨m, .ask q⟩
  | refused {m e error} (h : (m.step (.edit e)).1 = .error error) : Harmless ⟨m, .edit e⟩
  | setName (m name) : Harmless ⟨m, .edit (.setName name)⟩
  | setRowName (m i name) : Harmless ⟨m, .edit (.setRowName i name)⟩
  | setColumnName (m j name) : Harmless ⟨m, .edit (.setColumnName j name)⟩
  | sameDirection (m) : Harmless ⟨m, .edit (.setDirection m.direction)⟩
  | addNoRows (m) : Harmless ⟨m, .edit (.addRows 0)⟩
  | addNoColumns (m) : Harmless ⟨m, .edit (.addColumns 0)⟩
  | loadNoCells (m) {block} (h : ∀ row ∈ block, row = []) : Harmless ⟨m, .edit (.loadMatrix block)⟩

/-- Whether the newest solve of a history was called on `asked` and was successful, and all calls
after it were harmless. -/
def Answered (events : List (Event K E)) (asked : Model K E) : Prop :=
  ∃ older newer, events = older ++ ⟨asked, .solve⟩ :: newer ∧
    (asked.step .solve).1 = .ok .unit ∧ ∀ e ∈ newer, e.Harmless

/-- The newest call decides, unless it is harmless. -/
theorem answered_concat {events : List (Event K E)} {e : Event K E} {asked : Model K E} :
    Answered (events ++ [e]) asked ↔
      (e = ⟨asked, .solve⟩ ∧ (asked.step .solve).1 = .ok .unit) ∨
        (e.Harmless ∧ Answered events asked) := by
  constructor
  · rintro ⟨older, newer, heq, hok, hnewer⟩
    rcases List.eq_nil_or_concat newer with rfl | ⟨newer, last, rfl⟩
    · obtain ⟨-, hlast⟩ := List.append_inj' heq rfl
      exact .inl ⟨List.singleton_inj.1 hlast, hok⟩
    · have heq : events ++ [e] = (older ++ ⟨asked, .solve⟩ :: newer) ++ [last] := by simpa using heq
      obtain ⟨hevents, hlast⟩ := List.append_inj' heq rfl
      have hlast := List.singleton_inj.1 hlast
      refine .inr ⟨?_, older, newer, hevents, hok, fun e he => ?_⟩
      · exact hlast ▸ hnewer last (by simp)
      · exact hnewer e (by simp [he])
  · rintro (⟨rfl, hok⟩ | ⟨he, older, newer, rfl, hok, hnewer⟩)
    · exact ⟨events, [], rfl, hok, fun _ he => absurd he List.not_mem_nil⟩
    · refine ⟨older, newer ++ [e], by simp, hok, fun other hother => ?_⟩
      rcases List.mem_append.1 hother with hother | hother
      · exact hnewer other hother
      · exact List.mem_singleton.1 hother ▸ he

omit [ExtendedScalar K] in
/-- Changing an entry does not change what is computed from parts that stay the same. -/
theorem map_set_of_lookup {α β : Type} {axis : Axis} {items : List α} {i : Nat} {item new : α}
    {f : α → β} (h : lookup (K := K) axis items i = .ok item) (hf : f new = f item) :
    (items.set (i - 1) new).map f = items.map f := by
  obtain ⟨-, hitem⟩ := lookup_eq_ok.1 h
  obtain ⟨hlt, rfl⟩ := List.getElem?_eq_some_iff.1 hitem
  have hsame := congrArg (List.map f) (List.set_getElem_self hlt)
  rw [List.map_set] at hsame
  rw [List.map_set, hf, hsame]

/-- What a harmless call leaves alone. -/
structure Keeps (m next : Model K E) : Prop where
  solution : next.solution = m.solution
  toProblem : next.toProblem = m.toProblem
  engine : next.engine = m.engine

omit [ExtendedScalar K] [Engine E K] in
theorem Keeps.refl (m : Model K E) : Keeps m m := ⟨rfl, rfl, rfl⟩

/-- **Harmless calls keep the solution**, and the program it belongs to. -/
theorem Event.Harmless.keeps {e : Event K E} (h : e.Harmless) : Keeps e.before e.after := by
  cases h with
  | ask m q => exact .refl m
  | @refused m e error h =>
    rcases step_edit m e with ⟨value, next, hs, -⟩ | ⟨error, hs⟩
    · rw [hs] at h
      cases h
    · rw [Event.after, hs]
      exact .refl m
  | setName m name =>
    refine after_edit (.refl m) fun next he => ?_
    cases he
    exact ⟨rfl, rfl, rfl⟩
  | setRowName m i name =>
    refine after_edit (.refl m) fun next he => ?_
    cases he with
    | setRowName hrow =>
      refine ⟨rfl, ?_, rfl⟩
      simp only [toProblem, map_set_of_lookup hrow]
  | setColumnName m j name =>
    refine after_edit (.refl m) fun next he => ?_
    cases he with
    | setColumnName hcolumn =>
      refine ⟨rfl, ?_, rfl⟩
      simp only [toProblem, map_set_of_lookup hcolumn]
  | sameDirection m =>
    refine after_edit (.refl m) fun next he => ?_
    cases he with
    | sameDirection => exact .refl m
    | setDirection h => exact absurd rfl h
  | addNoRows m =>
    refine after_edit (.refl m) fun next he => ?_
    cases he with
    | addNoRows => exact .refl m
    | addRows h => exact absurd rfl h
  | addNoColumns m =>
    refine after_edit (.refl m) fun next he => ?_
    cases he with
    | addNoColumns => exact .refl m
    | addColumns h => exact absurd rfl h
  | @loadNoCells m block h =>
    refine after_edit (.refl m) fun next he => ?_
    cases he with
    | loadNoCells => exact .refl m
    | loadMatrix _ _ hcells =>
      have hempty : block.all List.isEmpty = true :=
        List.all_eq_true.2 fun row hrow => List.isEmpty_iff.2 (h row hrow)
      rw [hempty] at hcells
      cases hcells

/-- **Any other call drops the solution**, unless it asks the engine for a new one. -/
theorem harmless_or_drops {e : Event K E} (hsolve : e.operation ≠ .solve) :
    e.Harmless ∨ e.after.solution = none := by
  obtain ⟨m, op⟩ := e
  cases op with
  | ask q => exact .inl (.ask m q)
  | solve => exact absurd rfl hsolve
  | edit e =>
    rcases step_edit m e with ⟨value, next, hs, he⟩ | ⟨error, hs⟩
    · rw [Event.after, hs]
      cases he with
      | setName => exact .inl (.setName m _)
      | setRowName => exact .inl (.setRowName m _ _)
      | setColumnName => exact .inl (.setColumnName m _ _)
      | sameDirection => exact .inl (.sameDirection m)
      | addNoRows => exact .inl (.addNoRows m)
      | addNoColumns => exact .inl (.addNoColumns m)
      | loadNoCells hcells =>
        refine .inl (.loadNoCells m fun row hrow => ?_)
        exact List.isEmpty_iff.1 (List.all_eq_true.1 hcells row hrow)
      | _ => exact .inr rfl
    · exact .inl (.refused (congrArg Prod.fst hs))

/-- A harmless call is no solve. -/
theorem Event.Harmless.operation_ne {e : Event K E} (h : e.Harmless) : e.operation ≠ .solve := by
  cases h <;> exact nofun

/-- What is known of a solution that a model shows after some calls: it is what the engine said when
it was last asked, and it was asked about this program. -/
structure Shows (events : List (Event K E)) (m : Model K E) (s : Solution K) (asked : Model K E) :
    Prop where
  answered : Answered events asked
  answer_eq : Engine.solve asked.freshEngine asked.toProblem = (s, m.engine)
  toProblem_eq : asked.toProblem = m.toProblem
  optimal : s.status = .optimal
  length_eq : s.columns.length = m.columnCount

omit [ExtendedScalar K] [Engine E K] in
theorem numColumns_toProblem (m : Model K E) : m.toProblem.numColumns = m.columnCount := by
  simp [toProblem, Problem.numColumns, columnCount]

/-- A harmless call changes nothing of what is known of a solution. -/
theorem Shows.concat {events : List (Event K E)} {e : Event K E} {s : Solution K}
    {asked : Model K E} (he : e.Harmless) (h : Shows events e.before s asked) :
    Shows (events ++ [e]) e.after s asked := by
  obtain ⟨-, hproblem, hengine⟩ := he.keeps
  refine ⟨answered_concat.2 (.inr ⟨he, h.answered⟩), ?_, ?_, h.optimal, ?_⟩
  · rw [hengine, h.answer_eq]
  · rw [hproblem, h.toProblem_eq]
  · rw [h.length_eq, ← numColumns_toProblem, ← numColumns_toProblem, hproblem]

theorem solution_cases {engine : E} {start : Model K E} (h : Constructed engine start)
    (ops : List (Operation K)) :
    ((start.run ops).solution = none ∧ ∀ asked, ¬Answered (start.history ops) asked) ∨
      ∃ s asked, (start.run ops).solution = some s ∧
        Shows (start.history ops) (start.run ops) s asked := by
  -- by induction on the newest call, which decides unless it is harmless
  induction ops using List.reverseRecOn with
  | nil =>
    obtain ⟨name, stored, direction, -, rfl⟩ := h.eq_ofEngine
    refine .inl ⟨rfl, ?_⟩
    rintro asked ⟨older, newer, heq, -⟩
    simp [history] at heq
  | append_singleton ops op ih =>
    rw [run_concat, history_concat]
    by_cases hsolve : op = .solve
    · subst hsolve
      rcases step_solve (start.run ops) with ⟨hs, hoptimal, hlength⟩ | ⟨reason, hs, -⟩
      · refine .inr ⟨_, start.run ops, congrArg (solution ·.2) hs, ?_⟩
        rw [hs]
        exact ⟨answered_concat.2 (.inl ⟨rfl, by rw [hs]⟩), rfl, rfl, hoptimal, hlength⟩
      · refine .inl ⟨congrArg (solution ·.2) hs, fun asked hasked => ?_⟩
        rcases answered_concat.1 hasked with ⟨heq, hok⟩ | ⟨he, -⟩
        · cases heq
          rw [hs] at hok
          cases hok
        · exact he.operation_ne rfl
    by_cases he : (Event.mk (start.run ops) op).Harmless
    · rcases ih with ⟨hnone, hno⟩ | ⟨s, asked, hs, hshows⟩
      · refine .inl ⟨he.keeps.solution.trans hnone, fun asked hasked => ?_⟩
        rcases answered_concat.1 hasked with ⟨heq, -⟩ | ⟨-, hasked⟩
        · exact hsolve (congrArg Event.operation heq)
        · exact hno asked hasked
      · exact .inr ⟨s, asked, he.keeps.solution.trans hs, hshows.concat he⟩
    · refine .inl ⟨(harmless_or_drops hsolve).resolve_left he, fun asked hasked => ?_⟩
      rcases answered_concat.1 hasked with ⟨heq, -⟩ | ⟨hharmless, -⟩
      · exact hsolve (congrArg Event.operation heq)
      · exact he hharmless

/-- **No stale solution is ever shown**: there is a solution exactly if the last solve succeeded and
nothing but harmless calls came after it, and it is the engine's answer about the program as it
stands. -/
theorem solution_current {engine : E} {start : Model K E} (h : Constructed engine start)
    (ops : List (Operation K)) :
    ((start.run ops).solution.isSome = true ↔ ∃ asked, Answered (start.history ops) asked) ∧
      ∀ s, (start.run ops).solution = some s →
        ∃ asked, Shows (start.history ops) (start.run ops) s asked := by
  rcases solution_cases h ops with ⟨hnone, hno⟩ | ⟨s, asked, hs, hshows⟩
  · rw [hnone]
    refine ⟨⟨nofun, fun ⟨asked, hasked⟩ => ?_⟩, nofun⟩
    exact absurd hasked (hno asked)
  · rw [hs]
    refine ⟨⟨fun _ => ⟨asked, hshows.answered⟩, fun _ => rfl⟩, fun s' hs' => ?_⟩
    cases hs'
    exact ⟨asked, hshows⟩

open Exact

/-- The solution of a program with one column that is fixed at 3. -/
def fixedSolution : Solution Exact := .optimal (finite 3) [finite 3] []

/-- The program is solved, then its column is named, and a row that is not there is to be named. -/
def relabelling : List (Operation Exact) :=
  [.edit (.addColumn none .fixed (finite 3) (finite 0) (finite 1)), .solve,
    .edit (.setColumnName 1 (some "x")), .edit (.setRowName 1 (some "r")), .ask .objectiveValue]

theorem relabelling_current :
    let start : Model Exact (Canned Exact) := ofEngine ⟨[fixedSolution]⟩
    Constructed ⟨[fixedSolution]⟩ start ∧ (start.run relabelling).solution = some fixedSolution ∧
      ∃ asked, Shows (start.history relabelling) (start.run relabelling) fixedSolution asked := by
  intro start
  have hstart : Constructed ⟨[fixedSolution]⟩ start := .empty
  have hsolution : (start.run relabelling).solution = some fixedSolution := rfl
  exact ⟨hstart, hsolution, (solution_current hstart relabelling).2 fixedSolution hsolution⟩

end LinearProgram.Model
