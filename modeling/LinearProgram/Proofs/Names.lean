import LinearProgram.Proofs.Reading

/-!
# Names

A search for a name finds the row or column that has the name now. If there are several, it finds
the one with the lowest number. No row or column ever has an empty name.

* `FindsFirst`: what a search finds among numbered names.
* `findsFirst_numberOf`: the search through a list finds this.
* `numberOf_empty`: nothing is found under the empty name.
* `columnValueByName_of_find`: the value under a name is the value under the number that is found.
* `NamesResolve`: what there is to know about names.
* `names_resolve`: it holds after every run.
-/

namespace LinearProgram.Model

variable {K E α : Type} {m : Model K E}

/-- **What a search finds**: the lowest number under which the name is read, and nothing if there is
no such number. -/
structure FindsFirst (nameAt : Nat → Except (Error K) (Option String)) (name : String)
    (found : Option Nat) : Prop where
  eq_some_iff : ∀ i, found = some i ↔
    nameAt i = .ok (some name) ∧ ∀ k, nameAt k = .ok (some name) → i ≤ k
  eq_none_iff : found = none ↔ ∀ i, nameAt i ≠ .ok (some name)

section Search

variable {axis : Axis} {items : List α} {nameOf : α → Option String} {name : String} {i : Nat}

/-- The name of an entry is read under the number after its position. -/
theorem lookup_name_iff :
    (lookup (K := K) axis items i).map nameOf = .ok (some name) ↔
      ∃ p, ∃ h : p < items.length, p + 1 = i ∧ nameOf items[p] = some name := by
  constructor
  · intro h
    obtain ⟨item, hlookup, hname⟩ := map_eq_ok.1 h
    obtain ⟨hi, hitem⟩ := lookup_eq_ok.1 hlookup
    obtain ⟨hlt, rfl⟩ := List.getElem?_eq_some_iff.1 hitem
    exact ⟨i - 1, hlt, by omega, hname⟩
  · rintro ⟨p, hlt, rfl, hname⟩
    have hitem : items[p + 1 - 1]? = some items[p] := List.getElem?_eq_getElem hlt
    exact map_eq_ok.2 ⟨items[p], lookup_eq_ok.2 ⟨Nat.succ_pos p, hitem⟩, hname⟩

/-- **The search through a list** finds the first entry with a name. -/
theorem findsFirst_numberOf (axis : Axis) (items : List α) (nameOf : α → Option String)
    (name : String) :
    FindsFirst (fun i => (lookup (K := K) axis items i).map nameOf) name
      (numberOf (nameOf · == some name) items) where
  eq_some_iff i := by
    rw [numberOf, Option.map_eq_some_iff, lookup_name_iff]
    constructor
    · rintro ⟨p, hfind, rfl⟩
      obtain ⟨hlt, hname, hbefore⟩ := List.findIdx?_eq_some_iff_getElem.1 hfind
      refine ⟨⟨p, hlt, rfl, eq_of_beq hname⟩, fun k hk => ?_⟩
      obtain ⟨q, hq, rfl, hother⟩ := lookup_name_iff.1 hk
      by_contra hlater
      have hqp : q < p := by omega
      exact hbefore q hqp (beq_iff_eq.2 hother)
    · rintro ⟨⟨p, hlt, rfl, hname⟩, hleast⟩
      refine ⟨p, List.findIdx?_eq_some_iff_getElem.2 ⟨hlt, beq_iff_eq.2 hname, ?_⟩, rfl⟩
      intro q hqp hother
      have hle := hleast (q + 1) (lookup_name_iff.2 ⟨q, by omega, rfl, eq_of_beq hother⟩)
      omega
  eq_none_iff := by
    rw [numberOf, Option.map_eq_none_iff, List.findIdx?_eq_none_iff]
    constructor
    · intro hnone i hi
      obtain ⟨p, hlt, -, hname⟩ := lookup_name_iff.1 hi
      have hfalse := hnone items[p] (List.getElem_mem hlt)
      rw [hname, beq_self_eq_true] at hfalse
      cases hfalse
    · intro hno item hitem
      obtain ⟨p, hlt, rfl⟩ := List.getElem_of_mem hitem
      refine beq_eq_false_iff_ne.2 fun hname => ?_
      exact hno (p + 1) (lookup_name_iff.2 ⟨p, hlt, rfl, hname⟩)

/-- Nothing is found under the empty name, since no name that may be stored is empty. -/
theorem numberOf_empty (hnames : ∀ item ∈ items, NameFits (nameOf item)) :
    numberOf (nameOf · == some "") items = none := by
  rw [numberOf, Option.map_eq_none_iff, List.findIdx?_eq_none_iff]
  intro item hitem
  refine beq_eq_false_iff_ne.2 fun hname => ?_
  have hpos := (hnames item hitem "" hname).1
  exact absurd hpos (by decide)

end Search

theorem findsFirst_findRow (m : Model K E) (name : String) :
    FindsFirst m.rowName name (m.findRow name) :=
  findsFirst_numberOf .row m.rows Row.name name

theorem findsFirst_findColumn (m : Model K E) (name : String) :
    FindsFirst m.columnName name (m.findColumn name) :=
  findsFirst_numberOf .column m.columns Column.name name

variable [ExtendedScalar K]

/-- The value under a name is the value of the column that is found under it now, and there is one
for every column. -/
theorem columnValueByName_of_find (hm : m.WellFormed) {s : Solution K} (hs : m.solution = some s)
    {name : String} {j : Nat} (hfound : m.findColumn name = some j) :
    m.columnValueByName name = m.columnValue j ∧
      ∃ x, s.columns[j - 1]? = some x ∧ m.columnValue j = .ok x := by
  have hsolved : m.solved = .ok s := by rw [solved, hs]
  have hbyName : m.columnValueByName name = m.columnValue j := by
    rw [columnValueByName, hsolved, hfound]
    rfl
  obtain ⟨hname, -⟩ := ((findsFirst_findColumn m name).eq_some_iff j).1 hfound
  obtain ⟨p, hlt, rfl, -⟩ := lookup_name_iff.1 hname
  have hlength : p < s.columns.length := hm.solution s hs ▸ hlt
  have hvalue := columnValue_of_solution hs (Nat.succ_pos p) hlt
  refine ⟨hbyName, s.columns[p], List.getElem?_eq_getElem hlength, ?_⟩
  rw [hvalue]
  simp [hlength]

/-- **What there is to know about names**, and about the values that are asked for by name. -/
structure NamesResolve (m : Model K E) : Prop where
  row : ∀ name, FindsFirst m.rowName name (m.findRow name)
  column : ∀ name, FindsFirst m.columnName name (m.findColumn name)
  emptyRow : m.findRow "" = none
  emptyColumn : m.findColumn "" = none
  found : ∀ s, m.solution = some s → ∀ name j, m.findColumn name = some j →
    m.columnValueByName name = m.columnValue j ∧
      ∃ x, s.columns[j - 1]? = some x ∧ m.columnValue j = .ok x
  unknown : m.isSolved = true → ∀ name, m.findColumn name = none →
    m.columnValueByName name = .error (.unknownName name)
  unsolved : m.isSolved = false → ∀ name, m.columnValueByName name = .error .noSolution

/-- **Names resolve** in a well-formed model. -/
theorem WellFormed.namesResolve (hm : m.WellFormed) : m.NamesResolve where
  row := findsFirst_findRow m
  column := findsFirst_findColumn m
  emptyRow := numberOf_empty hm.rowNames
  emptyColumn := numberOf_empty hm.columnNames
  found s hs name j hfound := columnValueByName_of_find hm hs hfound
  unknown hsome name hnone := by
    obtain ⟨s, hs⟩ := Option.isSome_iff_exists.1 hsome
    have hsolved : m.solved = .ok s := by rw [solved, hs]
    rw [columnValueByName, hsolved, hnone]
    rfl
  unsolved hunsolved name := by
    have hs : m.solution = none := Option.not_isSome_iff_eq_none.1 (Bool.eq_false_iff.1 hunsolved)
    have hsolved : m.solved = .error .noSolution := by rw [solved, hs]
    rw [columnValueByName, hsolved]
    rfl

variable [Engine E K]

/-- **Names resolve after every run**, whatever has been named, renamed or solved in its course. -/
theorem names_resolve {engine : E} {start : Model K E} (h : Constructed engine start)
    (ops : List (Operation K)) : (start.run ops).NamesResolve :=
  (run_wellFormed h.wellFormed ops).namesResolve

open Exact

/-- A solution with the values 2, 3 and 5. -/
def threeValues : Solution Exact := .optimal (finite 0) [finite 2, finite 3, finite 5] []

/-- Two of three columns have one name when the model is solved. Then the first of them loses its
name, and the third column gets a new one. -/
def nameChanges : List (Operation Exact) :=
  [.edit (.addColumns 3), .edit (.setColumnName 1 (some "x")), .edit (.setColumnName 2 (some "x")),
    .edit (.setColumnName 3 (some "y")), .solve, .edit (.setColumnName 1 (some "")),
    .edit (.setColumnName 3 (some "z"))]

theorem nameChanges_resolve :
    let start : Model Exact (Canned Exact) := ofEngine ⟨[threeValues]⟩
    Constructed ⟨[threeValues]⟩ start ∧ (start.run nameChanges).NamesResolve ∧
      (start.run nameChanges).columnValueByName "x" = .ok (finite 3) ∧
      (start.run nameChanges).columnValueByName "y" = .error (.unknownName "y") := by
  intro start
  have hstart : Constructed ⟨[threeValues]⟩ start := .empty
  have hnames := names_resolve hstart nameChanges
  have hsolution : (start.run nameChanges).solution = some threeValues := rfl
  have hx : (start.run nameChanges).findColumn "x" = some 2 := by decide +kernel
  have hy : (start.run nameChanges).findColumn "y" = none := by decide +kernel
  refine ⟨hstart, hnames, ?_, hnames.unknown rfl "y" hy⟩
  obtain ⟨hbyName, x, hentry, hvalue⟩ := hnames.found _ hsolution "x" 2 hx
  cases hentry
  exact hbyName.trans hvalue

end LinearProgram.Model
