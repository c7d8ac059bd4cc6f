import LinearProgram.Proofs.Finite
import LinearProgram.Proofs.InitialTableau

/-!
# Standardisation

A problem with finite numbers and its standard form have the same points. Each column is written in
new variables in a way that reaches exactly the values its bound allows (`Replaces`), and the
constraints of the form hold at non-negative values of the variables exactly where the columns and
rows stay within their bounds (`Describes`).

* `Bound.exists_sides`: the sides of a consistent bound are rational or absent.
* `exists_replaces`: a substitution for each column.
* `dot_columnValues`: a linear form in the columns, in terms of the variables.
* `exists_standardises`: the standard form of a problem and what it says.
-/

namespace LinearProgram

open Scalar Exact

theorem isFinite_iff {x : Exact} : Scalar.isFinite x = true ↔ ∃ q, finite q = x := by
  cases x with
  | finite q => simp
  | _ => simp [Scalar.isFinite, Exact.isFinite]

instance : CanLift Exact ℚ finite (Scalar.isFinite · = true) := ⟨fun _ => isFinite_iff.1⟩

/-- A matrix of finite numbers comes from a matrix of rational numbers. -/
theorem exists_map_map_finite {matrix : List (List Exact)}
    (h : ∀ row ∈ matrix, ∀ x ∈ row, Scalar.isFinite x = true) :
    ∃ m : List (List ℚ), matrix = m.map (List.map finite) := by
  induction matrix with
  | nil => exact ⟨[], rfl⟩
  | cons row matrix ih =>
    rw [List.forall_mem_cons] at h
    obtain ⟨m, rfl⟩ := ih h.2
    lift row to List ℚ using h.1
    exact ⟨row :: m, rfl⟩

/-- What holds of all members and is kept by a function still holds after one member is changed. -/
theorem forall_mem_modify {α : Type} {P : α → Prop} {f : α → α} {l : List α}
    (h : ∀ x ∈ l, P x) (hf : ∀ x, P x → P (f x)) (i : ℕ) : ∀ x ∈ l.modify i f, P x := by
  intro x hx
  obtain ⟨j, hj, rfl⟩ := List.getElem_of_mem hx
  rw [List.length_modify] at hj
  have hold := h l[j] (List.getElem_mem hj)
  rw [List.getElem_modify]
  split
  · exact hf _ hold
  · exact hold

namespace Problem

/-- **The constraint matrix of finite entries is finite.** -/
theorem exists_dense {p : Problem Exact} (h : ∀ e ∈ p.entries, Scalar.isFinite e.value = true) :
    ∃ m : List (List ℚ), p.dense = m.map (List.map finite) := by
  have hstep : ∀ (es : List (Entry Exact)) (matrix : List (List Exact)),
      (∀ e ∈ es, Scalar.isFinite e.value = true) →
      (∀ row ∈ matrix, ∀ x ∈ row, Scalar.isFinite x = true) →
      ∀ row ∈ es.foldl accumulate matrix, ∀ x ∈ row, Scalar.isFinite x = true := by
    intro es
    induction es with
    | nil => exact fun _ _ h => h
    | cons e es ih =>
      intro matrix hes hmatrix
      rw [List.forall_mem_cons] at hes
      -- one cell of one row gets a finite number added
      refine ih _ hes.2 (forall_mem_modify hmatrix (fun row hrow => ?_) _)
      refine forall_mem_modify hrow (fun x hx => ?_) _
      obtain ⟨q, rfl⟩ := isFinite_iff.1 hx
      obtain ⟨r, hr⟩ := isFinite_iff.1 hes.1
      rw [← hr, finite_add, isFinite_finite]
  refine exists_map_map_finite (hstep _ _ (fun e he => h e (List.mem_filter.1 he).1) ?_)
  intro row hrow x hx
  rw [List.eq_of_mem_replicate hrow] at hx
  rw [List.eq_of_mem_replicate hx]
  rfl

/-- **Feasible points of a problem with a finite matrix**, over the rational numbers. -/
theorem feasible_map_finite {p : Problem Exact} {m : List (List ℚ)}
    (hm : p.dense = m.map (List.map finite)) (x : List ℚ) :
    p.Feasible (x.map finite) ↔ x.length = p.numColumns ∧
      (∀ r ∈ p.columnBounds.zip x, r.1.Admits (finite r.2)) ∧
      ∀ r ∈ p.rowBounds.zip (m.map (dot · x)), r.1.Admits (finite r.2) := by
  have hact : p.activities (x.map finite) = (m.map (dot · x)).map finite := by
    simp [activities, hm, Function.comp_def]
  have hzip : ∀ (bounds : List (Bound Exact)) (y : List ℚ),
      (∀ r ∈ bounds.zip (y.map finite), r.1.Admits r.2) ↔
        ∀ r ∈ bounds.zip y, r.1.Admits (finite r.2) := fun bounds y => by
    rw [List.zip_map_right, List.forall_mem_map]
    exact Iff.rfl
  constructor
  · rintro ⟨h1, -, h2, h3⟩
    rw [hact] at h3
    exact ⟨by simpa using h1, (hzip _ _).1 h2, (hzip _ _).1 h3⟩
  · rintro ⟨h1, h2, h3⟩
    refine ⟨by simpa using h1, by simp, (hzip _ _).2 h2, ?_⟩
    rw [hact]
    exact (hzip _ _).2 h3

end Problem

namespace Bound

/-- **The sides of a bound as rational numbers**, and which rational numbers it allows. -/
structure Sides (b : Bound Exact) (lower upper : Option ℚ) : Prop where
  lower_eq : b.lower? = lower.map finite
  upper_eq : b.upper? = upper.map finite
  admits : ∀ x, b.Admits (finite x) ↔ (∀ l ∈ lower, l ≤ x) ∧ ∀ u ∈ upper, x ≤ u

/-- A lower side below positive infinity is rational, or it is no side. -/
theorem exists_lower {l : Exact} (hn : ExtendedScalar.isNaN l = false)
    (hc : (l != ExtendedScalar.infinity) = true) : ∃ lower : Option ℚ,
      side (-ExtendedScalar.infinity) l = lower.map finite ∧
        ∀ x, l ≤ finite x ↔ ∀ y ∈ lower, y ≤ x := by
  cases l with
  | finite l => exact ⟨some l, rfl, by simp⟩
  | negInf => exact ⟨none, rfl, fun x => iff_of_true rfl (by simp)⟩
  | posInf => exact absurd hc (by decide)
  | nan => exact absurd hn (by decide)

/-- An upper side above negative infinity is rational, or it is no side. -/
theorem exists_upper {u : Exact} (hn : ExtendedScalar.isNaN u = false)
    (hc : (u != -ExtendedScalar.infinity) = true) : ∃ upper : Option ℚ,
      side ExtendedScalar.infinity u = upper.map finite ∧
        ∀ x, finite x ≤ u ↔ ∀ y ∈ upper, x ≤ y := by
  cases u with
  | finite u => exact ⟨some u, rfl, by simp⟩
  | posInf => exact ⟨none, rfl, fun x => iff_of_true rfl (by simp)⟩
  | negInf => exact absurd hc (by decide)
  | nan => exact absurd hn (by decide)

/-- **The sides of a consistent bound are rational or absent.** -/
theorem exists_sides {b : Bound Exact} (hn : b.hasNaN = false) (hc : b.consistent = true) :
    ∃ lower upper, b.Sides lower upper := by
  cases b with
  | free => exact ⟨none, none, rfl, rfl, by simp [Admits]⟩
  | lower l =>
    obtain ⟨lower, hl, hle⟩ := exists_lower hn hc
    exact ⟨lower, none, hl, rfl, by simp [Admits, hle]⟩
  | upper u =>
    obtain ⟨upper, hu, hle⟩ := exists_upper hn hc
    exact ⟨none, upper, rfl, hu, by simp [Admits, hle]⟩
  | double l u =>
    simp only [hasNaN, Bool.or_eq_false_iff] at hn
    simp only [consistent, Bool.and_eq_true] at hc
    obtain ⟨lower, hl, hle⟩ := exists_lower hn.1 hc.1.2
    obtain ⟨upper, hu, hle'⟩ := exists_upper hn.2 hc.2
    exact ⟨lower, upper, hl, hu, by simp [Admits, hle, hle']⟩
  | fixed x =>
    cases x with
    | finite x =>
      refine ⟨some x, some x, rfl, rfl, fun y => ?_⟩
      simp only [Admits, finite_beq, beq_iff_eq, Option.mem_some_iff, forall_eq']
      exact ⟨fun h => ⟨h.ge, h.le⟩, fun h => le_antisymm h.2 h.1⟩
    | nan => exact absurd hn (by decide)
    | _ => exact absurd hc (by decide)

theorem ne_infinity_of_le {l : Exact} {x : ℚ} (h : l ≤ finite x) :
    (l != ExtendedScalar.infinity) = true := by
  cases l with
  | posInf => exact Bool.noConfusion h
  | _ => rfl

theorem ne_neg_infinity_of_ge {u : Exact} {x : ℚ} (h : finite x ≤ u) :
    (u != -ExtendedScalar.infinity) = true := by
  cases u with
  | negInf => exact Bool.noConfusion h
  | _ => rfl

theorem le_of_le_finite {l u : Exact} {x : ℚ} (hl : l ≤ finite x) (hu : finite x ≤ u) : l ≤ u := by
  cases l with
  | finite l =>
    cases u with
    | finite u => exact finite_le.2 ((finite_le.1 hl).trans (finite_le.1 hu))
    | posInf => rfl
    | _ => exact Bool.noConfusion hu
  | negInf =>
    cases u with
    | nan => exact Bool.noConfusion hu
    | _ => rfl
  | _ => exact Bool.noConfusion hl

/-- **A bound that allows a finite value is consistent.** -/
theorem consistent_of_admits {b : Bound Exact} {x : ℚ} (h : b.Admits (finite x)) :
    b.consistent = true := by
  cases b with
  | free => rfl
  | lower l => exact ne_infinity_of_le h
  | upper u => exact ne_neg_infinity_of_ge h
  | double l u =>
    obtain ⟨hl, hu⟩ := h
    simp [consistent, le_of_le_finite hl hu, ne_infinity_of_le hl, ne_neg_infinity_of_ge hu]
  | fixed v =>
    cases v with
    | finite v => rfl
    | _ => exact Bool.noConfusion h

end Bound

namespace Simplex

/-- **A substitution for a column**: where its variables are not negative and the first one is
within the width, the column is within its bound, and every such value is reached. -/
structure Replaces (b : Bound Exact) (s : Substitution ℚ) : Prop where
  ofBound_eq : Substitution.ofBound b = s.toExact
  width : ∃ width : Option ℚ, width? b = width.map finite ∧ (width.isSome → 0 < s.arity) ∧
    ∀ z : List ℚ, z.length = s.arity → (∀ v ∈ z, 0 ≤ v) →
      (b.Admits (finite (s.value z)) ↔ ∀ w ∈ width, z.getD 0 0 ≤ w)
  surjective : ∀ x, b.Admits (finite x) →
    ∃ z : List ℚ, z.length = s.arity ∧ (∀ v ∈ z, 0 ≤ v) ∧ s.value z = x

namespace Replaces

variable {b : Bound Exact} {l u : ℚ}

/-- A column with equal sides is a constant. -/
theorem constant (hb : b.Sides (some l) (some l)) : Replaces b ⟨l, []⟩ where
  ofBound_eq := by simp [Substitution.ofBound, hb.lower_eq, hb.upper_eq, Substitution.toExact]
  width := by
    refine ⟨none, by simp [width?, hb.lower_eq, hb.upper_eq], by simp, fun z _ _ => ?_⟩
    simp [hb.admits, Substitution.value, dot_eq_sum]
  surjective x hx := by
    simp only [hb.admits, Option.mem_some_iff, forall_eq'] at hx
    refine ⟨[], rfl, by simp, ?_⟩
    simpa [Substitution.value, dot_eq_sum] using le_antisymm hx.1 hx.2

/-- A column with two different sides is shifted, and its variable has a width. -/
theorem double (hb : b.Sides (some l) (some u)) (hne : l ≠ u) : Replaces b ⟨l, [1]⟩ where
  ofBound_eq := by
    simp [Substitution.ofBound, hb.lower_eq, hb.upper_eq, hne, Substitution.toExact, one_eq]
  width := by
    refine ⟨some (u - l), by simp [width?, hb.lower_eq, hb.upper_eq, hne],
      by simp [Substitution.arity], fun z hz hnonneg => ?_⟩
    obtain ⟨y, rfl⟩ := List.length_eq_one_iff.1 hz
    have hy : 0 ≤ y := hnonneg y (by simp)
    simp [hb.admits, Substitution.value, dot_eq_sum, hy, le_sub_iff_add_le']
  surjective x hx := by
    simp only [hb.admits, Option.mem_some_iff, forall_eq'] at hx
    exact ⟨[x - l], rfl, by simpa using hx.1, by simp [Substitution.value, dot_eq_sum]⟩

/-- A column with only a lower side is shifted. -/
theorem shift (hb : b.Sides (some l) none) : Replaces b ⟨l, [1]⟩ where
  ofBound_eq := by
    simp [Substitution.ofBound, hb.lower_eq, hb.upper_eq, Substitution.toExact, one_eq]
  width := by
    refine ⟨none, by simp [width?, hb.lower_eq, hb.upper_eq], by simp, fun z hz hnonneg => ?_⟩
    obtain ⟨y, rfl⟩ := List.length_eq_one_iff.1 hz
    have hy : 0 ≤ y := hnonneg y (by simp)
    simp [hb.admits, Substitution.value, dot_eq_sum, hy]
  surjective x hx := by
    simp only [hb.admits, Option.mem_some_iff, forall_eq'] at hx
    exact ⟨[x - l], rfl, by simpa using hx.1, by simp [Substitution.value, dot_eq_sum]⟩

/-- A column with only an upper side is reflected. -/
theorem reflect (hb : b.Sides none (some u)) : Replaces b ⟨u, [-1]⟩ where
  ofBound_eq := by
    simp [Substitution.ofBound, hb.lower_eq, hb.upper_eq, Substitution.toExact, one_eq]
  width := by
    refine ⟨none, by simp [width?, hb.lower_eq, hb.upper_eq], by simp, fun z hz hnonneg => ?_⟩
    obtain ⟨y, rfl⟩ := List.length_eq_one_iff.1 hz
    have hy : 0 ≤ y := hnonneg y (by simp)
    simp [hb.admits, Substitution.value, dot_eq_sum, hy]
  surjective x hx := by
    simp only [hb.admits, Option.mem_some_iff, forall_eq'] at hx
    exact ⟨[u - x], rfl, by simpa using hx.2, by simp [Substitution.value, dot_eq_sum]⟩

/-- A column without sides is split into its positive and its negative part. -/
theorem split (hb : b.Sides none none) : Replaces b ⟨0, [1, -1]⟩ where
  ofBound_eq := by
    simp [Substitution.ofBound, hb.lower_eq, hb.upper_eq, Substitution.toExact, one_eq, zero_eq]
  width := by
    refine ⟨none, by simp [width?, hb.lower_eq, hb.upper_eq], by simp, fun z _ _ => ?_⟩
    simp [hb.admits]
  surjective x _ := by
    refine ⟨[max x 0, max (-x) 0], rfl, by simp, ?_⟩
    rcases le_total 0 x with h | h
    · simp [Substitution.value, dot_eq_sum, Finset.sum_range_succ, h]
    · simp [Substitution.value, dot_eq_sum, Finset.sum_range_succ, h]

end Replaces

/-- **A substitution for each column.** -/
theorem exists_replaces {b : Bound Exact} (hn : b.hasNaN = false) (hc : b.consistent = true) :
    ∃ s, Replaces b s := by
  obtain ⟨lower, upper, hb⟩ := Bound.exists_sides hn hc
  cases lower with
  | none =>
    cases upper with
    | none => exact ⟨_, Replaces.split hb⟩
    | some u => exact ⟨_, Replaces.reflect hb⟩
  | some l =>
    cases upper with
    | none => exact ⟨_, Replaces.shift hb⟩
    | some u =>
      rcases eq_or_ne l u with rfl | hne
      · exact ⟨_, Replaces.constant hb⟩
      · exact ⟨_, Replaces.double hb hne⟩

section Substitute

variable {columns : List (Substitution ℚ)} {a y : List ℚ}

theorem dot_spread (s : Substitution ℚ) (x : ℚ) (y : List ℚ) :
    dot (s.spread x) y = x * dot s.signs y := by
  rw [dot_eq_sum, dot_eq_sum, Finset.mul_sum, show (s.spread x).length = s.signs.length from
    List.length_map _]
  refine Finset.sum_congr rfl fun j _ => ?_
  rw [Substitution.spread, getD_map_zero (by simp)]
  ring

theorem constant_cons (s : Substitution ℚ) (x : ℚ) :
    StandardForm.constant (s :: columns) (x :: a) =
      x * s.offset + StandardForm.constant columns a := by
  have h : ∀ l : List ℚ, l.foldl (· + ·) 0 = l.sum := fun _ => List.sum_eq_foldl.symm
  unfold StandardForm.constant
  rw [List.zipWith_cons_cons, h, h, List.sum_cons]

/-- **A linear form in the columns is a linear form in the variables**, up to its value where they
are zero. -/
theorem dot_columnValues (columns : List (Substitution ℚ)) (a y : List ℚ) :
    dot a (StandardForm.columnValues columns y) =
      StandardForm.constant columns a + dot (StandardForm.spread columns a) y := by
  induction columns generalizing a y with
  | nil =>
    simp [StandardForm.columnValues, StandardForm.constant, StandardForm.spread, dot_nil_left,
      dot_nil_right]
  | cons s columns ih =>
    have harity : ∀ x, (s.spread x).length = s.arity := fun x => List.length_map _
    cases a with
    | nil =>
      have h := ih [] (y.drop s.arity)
      rw [dot_nil_left, StandardForm.constant, List.zipWith_nil_right, List.foldl_nil,
        zero_add] at h
      simp [StandardForm.spread, StandardForm.constant, dot_append, dot_spread, dot_nil_left,
        harity, ← h]
    | cons x a =>
      simp only [StandardForm.columnValues, StandardForm.spread, dot_cons_cons, constant_cons,
        dot_append, dot_spread, harity, ih, Substitution.value]
      ring

end Substitute

/-- **Constraints over finite numbers that say where a condition holds**, at values of `n` variables
that are not negative. -/
def Describes (n : ℕ) (cs : List (Constraint Exact)) (condition : List ℚ → Prop) : Prop :=
  ∃ ds : List (Constraint ℚ), cs = ds.map Constraint.toExact ∧
    (∀ d ∈ ds, d.coefficients.length = n) ∧
    ∀ y : List ℚ, y.length = n → (∀ v ∈ y, 0 ≤ v) → ((∀ d ∈ ds, d.Holds y) ↔ condition y)

namespace Describes

variable {n : ℕ} {cs cs' : List (Constraint Exact)} {P Q : List ℚ → Prop}

theorem nil (n : ℕ) : Describes n [] fun _ => True := ⟨[], rfl, by simp, by simp⟩

theorem append (h : Describes n cs P) (h' : Describes n cs' Q) :
    Describes n (cs ++ cs') fun y => P y ∧ Q y := by
  obtain ⟨ds, rfl, hlen, hP⟩ := h
  obtain ⟨ds', rfl, hlen', hQ⟩ := h'
  refine ⟨ds ++ ds', (List.map_append).symm, fun d hd => ?_, fun y hy hnonneg => ?_⟩
  · exact (List.mem_append.1 hd).elim (hlen d) (hlen' d)
  · rw [List.forall_mem_append, hP y hy hnonneg, hQ y hy hnonneg]

theorem congr (h : Describes n cs P)
    (hPQ : ∀ y : List ℚ, y.length = n → (∀ v ∈ y, 0 ≤ v) → (P y ↔ Q y)) : Describes n cs Q := by
  obtain ⟨ds, hcs, hlen, hP⟩ := h
  exact ⟨ds, hcs, hlen, fun y hy hnonneg => (hP y hy hnonneg).trans (hPQ y hy hnonneg)⟩

theorem single (d : Constraint ℚ) (hd : d.coefficients.length = n) :
    Describes n [d.toExact] d.Holds :=
  ⟨[d], rfl, by simpa using hd, by simp⟩

end Describes

section Form

/-- **The constraints from a row** hold where the row is within its bound. -/
theorem rowConstraints_describes (columns : List (Substitution ℚ)) {b : Bound Exact}
    {lower upper : Option ℚ} (hb : b.Sides lower upper) (a : List ℚ) :
    Describes (StandardForm.varTotal columns)
      (StandardForm.rowConstraints (columns.map Substitution.toExact) (a.map finite) b)
      fun y => b.Admits (finite (dot a (StandardForm.columnValues columns y))) := by
  have hlen := StandardForm.length_spread columns a
  -- the right-hand sides are moved by the value of the row where all variables are zero
  unfold StandardForm.rowConstraints
  simp only [hb.lower_eq, hb.upper_eq, StandardForm.toExact_spread, StandardForm.toExact_constant]
  set fixed := StandardForm.constant columns a with hfixed
  have hge : ∀ l, Describes (StandardForm.varTotal columns)
      [⟨(StandardForm.spread columns a).map finite, .ge, finite l - finite fixed⟩]
      fun y => l ≤ dot a (StandardForm.columnValues columns y) := by
    intro l
    rw [finite_sub]
    refine (Describes.single ⟨StandardForm.spread columns a, .ge, l - fixed⟩ hlen).congr
      fun y _ _ => ?_
    rw [dot_columnValues, ← hfixed]
    exact sub_le_iff_le_add'
  have hle : ∀ u, Describes (StandardForm.varTotal columns)
      [⟨(StandardForm.spread columns a).map finite, .le, finite u - finite fixed⟩]
      fun y => dot a (StandardForm.columnValues columns y) ≤ u := by
    intro u
    rw [finite_sub]
    refine (Describes.single ⟨StandardForm.spread columns a, .le, u - fixed⟩ hlen).congr
      fun y _ _ => ?_
    rw [dot_columnValues, ← hfixed]
    exact le_sub_iff_add_le'
  cases lower with
  | none =>
    cases upper with
    | none => exact (Describes.nil _).congr fun y _ _ => by simp [hb.admits]
    | some u => exact (hle u).congr fun y _ _ => by simp [hb.admits]
  | some l =>
    cases upper with
    | none => exact (hge l).congr fun y _ _ => by simp [hb.admits]
    | some u =>
      simp only [Option.map_some, finite_beq, beq_iff_eq]
      split
      · rename_i hlu
        subst hlu
        rw [finite_sub]
        refine (Describes.single ⟨StandardForm.spread columns a, .eq, l - fixed⟩ hlen).congr
          fun y _ _ => ?_
        rw [hb.admits, dot_columnValues, ← hfixed]
        simp only [Constraint.Holds, beq_iff_eq, Option.mem_some_iff, forall_eq']
        constructor
        · intro h; constructor <;> linarith
        · rintro ⟨h1, h2⟩; linarith
      · refine ((hge l).append (hle u)).congr fun y _ _ => by simp [hb.admits]

/-- The constraints from all rows. -/
theorem rows_describe (columns : List (Substitution ℚ)) (matrix : List (List ℚ))
    (bounds : List (Bound Exact))
    (hb : ∀ b ∈ bounds, ∃ lower upper, b.Sides lower upper) :
    Describes (StandardForm.varTotal columns)
      (List.zipWith (StandardForm.rowConstraints (columns.map Substitution.toExact))
        (matrix.map (List.map finite)) bounds).flatten
      fun y => ∀ r ∈ bounds.zip (matrix.map (dot · (StandardForm.columnValues columns y))),
        r.1.Admits (finite r.2) := by
  induction bounds generalizing matrix with
  | nil => exact (by simpa using Describes.nil _)
  | cons b bounds ih =>
    cases matrix with
    | nil => exact (by simpa using Describes.nil _)
    | cons a matrix =>
      obtain ⟨⟨lower, upper, hb⟩, hbs⟩ := List.forall_mem_cons.1 hb
      simpa using (rowConstraints_describes columns hb a).append (ih matrix hbs)

/-- The width of a column as a constraint on its first variable. -/
theorem width_describes {n first : ℕ} (hfirst : first < n) (w : ℚ) :
    Describes n [⟨single n first 1, .le, finite w⟩] fun y => y.getD first 0 ≤ w := by
  rw [one_eq, single_eq]
  refine (Describes.single ⟨single n first 1, .le, w⟩ (by simp)).congr fun y _ _ => ?_
  rw [show Constraint.Holds ⟨single n first 1, .le, w⟩ y ↔ dot (single n first 1) y ≤ w from Iff.rfl,
    dot_eq_sum, length_single, Finset.sum_eq_single first]
  · rw [getD_single, if_pos ⟨rfl, hfirst⟩, one_mul]
  · intro j _ hj
    rw [getD_single, if_neg fun h => hj h.1, zero_mul]
  · intro h
    simp [hfirst] at h

/-- **The constraints from the widths of the columns** hold where the columns are within their
bounds. -/
theorem widthConstraints_describes {n first : ℕ} {bounds : List (Bound Exact)}
    {columns : List (Substitution ℚ)} (h : List.Forall₂ Replaces bounds columns)
    (hn : first + StandardForm.varTotal columns = n) :
    Describes n (StandardForm.widthConstraints n first bounds)
      fun y => ∀ r ∈ bounds.zip (StandardForm.columnValues columns (y.drop first)),
        r.1.Admits (finite r.2) := by
  induction h generalizing first with
  | nil => exact (by simpa [StandardForm.widthConstraints] using Describes.nil n)
  | @cons b s bounds columns hbs _ ih =>
    obtain ⟨width, hwidth, hpos, hadmits⟩ := hbs.width
    rw [StandardForm.varTotal] at hn
    have harity : (Substitution.ofBound b).arity = s.arity := by
      rw [hbs.ofBound_eq]
      exact List.length_map _
    have hrest := @ih (first + s.arity) (by omega)
    -- the variables of the first column within a point
    have hblock : ∀ y : List ℚ, y.length = n → (∀ v ∈ y, 0 ≤ v) →
        (b.Admits (finite (s.value ((y.drop first).take s.arity))) ↔
          ∀ w ∈ width, y.getD first 0 ≤ w) := by
      intro y hy hnonneg
      rw [hadmits _ (by simp; omega) fun v hv =>
        hnonneg v (List.mem_of_mem_drop (List.mem_of_mem_take hv))]
      cases width with
      | none => simp
      | some w =>
        have hpos := hpos rfl
        simp [List.getD_eq_getElem?_getD, hpos]
    simp only [StandardForm.widthConstraints, harity, hwidth]
    -- without a width the column is always within its bound
    cases width with
    | none =>
      refine hrest.congr fun y hy hnonneg => ?_
      have hfree := (hblock y hy hnonneg).2 (by simp)
      simp [StandardForm.columnValues, hfree]
    | some w =>
      have hpos := hpos rfl
      refine ((width_describes (by omega) w).append hrest).congr fun y hy hnonneg => ?_
      simp [StandardForm.columnValues, hblock y hy hnonneg]

/-- **Every allowed choice of column values is reached.** -/
theorem exists_columnValues {bounds : List (Bound Exact)} {columns : List (Substitution ℚ)}
    (h : List.Forall₂ Replaces bounds columns) {x : List ℚ} (hx : x.length = bounds.length)
    (hadmits : ∀ r ∈ bounds.zip x, r.1.Admits (finite r.2)) :
    ∃ y : List ℚ, y.length = StandardForm.varTotal columns ∧ (∀ v ∈ y, 0 ≤ v) ∧
      StandardForm.columnValues columns y = x := by
  induction h generalizing x with
  | nil => exact ⟨[], rfl, by simp, (List.length_eq_zero_iff.1 hx).symm⟩
  | @cons b s bounds columns hbs _ ih =>
    cases x with
    | nil => exact absurd hx (by simp)
    | cons v x =>
      rw [List.zip_cons_cons, List.forall_mem_cons] at hadmits
      obtain ⟨z, hz, hznonneg, hvalue⟩ := hbs.surjective v hadmits.1
      obtain ⟨y, hy, hynonneg, hvalues⟩ := ih (by simpa using hx) hadmits.2
      -- the values of the first column's variables come first
      refine ⟨z ++ y, by simp [StandardForm.varTotal, hz, hy], ?_, ?_⟩
      · exact List.forall_mem_append.2 ⟨hznonneg, hynonneg⟩
      · simp [StandardForm.columnValues, ← hz, hvalue, hvalues]

end Form

/-- **A standard form of a problem**, over the rational numbers: it has the same points and, up to
a constant, the same objective. -/
structure Standardises (p : Problem Exact) (form : StandardForm ℚ) : Prop where
  ofConsistent_eq : StandardForm.ofConsistent p = form.toExact
  shaped : form.Shaped
  direction_eq : form.direction = p.direction
  feasible : ∀ y, form.Satisfies y → p.Feasible ((form.point y).map finite)
  surjective : ∀ x, p.Feasible x → ∃ y, form.Satisfies y ∧ (form.point y).map finite = x
  evaluate : ∃ k, ∀ y, p.evaluate ((form.point y).map finite) = finite (k + dot form.objective y)

theorem exists_columns {bounds : List (Bound Exact)}
    (hn : ∀ b ∈ bounds, b.hasNaN = false) (hc : ∀ b ∈ bounds, b.consistent = true) :
    ∃ columns, List.Forall₂ Replaces bounds columns := by
  induction bounds with
  | nil => exact ⟨[], .nil⟩
  | cons b bounds ih =>
    rw [List.forall_mem_cons] at hn hc
    obtain ⟨columns, hcolumns⟩ := ih hn.2 hc.2
    obtain ⟨s, hs⟩ := exists_replaces hn.1 hc.1
    exact ⟨s :: columns, .cons hs hcolumns⟩

theorem map_ofBound {bounds : List (Bound Exact)} {columns : List (Substitution ℚ)}
    (h : List.Forall₂ Replaces bounds columns) :
    bounds.map Substitution.ofBound = columns.map Substitution.toExact := by
  induction h with
  | nil => rfl
  | cons hs _ ih => rw [List.map_cons, List.map_cons, hs.ofBound_eq, ih]

/-- **What the standard form of a problem says.** -/
theorem exists_standardises {p : Problem Exact} (hwf : p.wellFormed = true)
    (hcolumns : p.columnBounds.all Bound.consistent = true)
    (hrows : p.rowBounds.all Bound.consistent = true) : ∃ form, Standardises p form := by
  simp only [Problem.wellFormed, Bool.and_eq_true, List.all_eq_true, Bool.not_eq_true',
    List.any_eq_false, Bool.not_eq_true] at hwf hcolumns hrows
  obtain ⟨⟨⟨⟨hshift, hobjective⟩, hentries⟩, hrowNaN⟩, hcolumnNaN⟩ := hwf
  obtain ⟨matrix, hmatrix⟩ := Problem.exists_dense hentries
  obtain ⟨columns, hreplaces⟩ := exists_columns hcolumnNaN hcolumns
  obtain ⟨shift, hshift⟩ := isFinite_iff.1 hshift
  obtain ⟨objective, hobjective⟩ : ∃ o : List ℚ, o.map finite = p.objective :=
    CanLift.prf p.objective hobjective
  have hmap := map_ofBound hreplaces
  have hcount := StandardForm.toExact_varTotal columns
  have hdescribes := (widthConstraints_describes hreplaces (zero_add _)).append
    (rows_describe columns matrix p.rowBounds fun b hb =>
      Bound.exists_sides (hrowNaN b hb) (hrows b hb))
  obtain ⟨constraints, hconstraints, hlen, hholds⟩ := hdescribes
  simp only [List.drop_zero] at hholds
  refine ⟨⟨StandardForm.varTotal columns, p.direction, StandardForm.spread columns objective, constraints,
    columns⟩, ?_, ⟨hlen, StandardForm.length_spread columns objective⟩, rfl, ?_, ?_, ?_⟩
  · simp only [StandardForm.ofConsistent, hmap, hcount, hmatrix, ← hobjective,
      StandardForm.toExact_spread, hconstraints]
    rfl
  · rintro y ⟨hy, hnonneg, hc⟩
    obtain ⟨hcols, hrows⟩ := (hholds y hy hnonneg).1 hc
    refine (Problem.feasible_map_finite hmatrix _).2 ⟨?_, hcols, hrows⟩
    rw [StandardForm.point, StandardForm.length_columnValues]
    exact hreplaces.length_eq.symm
  · intro x hx
    lift x to List ℚ using hx.finite
    obtain ⟨hlen, hcols, hrows⟩ := (Problem.feasible_map_finite hmatrix x).1 hx
    obtain ⟨y, hy, hnonneg, rfl⟩ := exists_columnValues hreplaces hlen hcols
    exact ⟨y, ⟨hy, hnonneg, (hholds y hy hnonneg).2 ⟨hcols, hrows⟩⟩, rfl⟩
  · refine ⟨shift + StandardForm.constant columns objective, fun y => ?_⟩
    rw [Problem.evaluate, ← hobjective, ← hshift, dot_map_finite, finite_add, StandardForm.point,
      dot_columnValues, add_assoc]

/-- The standard form of a well-formed problem is one over the rational numbers. -/
theorem exists_standardises_of_ofProblem {p : Problem Exact} {form : StandardForm Exact}
    (hwf : p.wellFormed = true) (h : StandardForm.ofProblem p = some form) :
    ∃ rational, Standardises p rational ∧ form = rational.toExact := by
  obtain ⟨hconsistent, rfl⟩ := StandardForm.ofProblem_eq_some_iff.1 h
  obtain ⟨hcolumns, hrows⟩ := List.forall_mem_append.1 hconsistent
  obtain ⟨rational, hform⟩ :=
    exists_standardises hwf (List.all_eq_true.2 hcolumns) (List.all_eq_true.2 hrows)
  exact ⟨rational, hform, hform.ofConsistent_eq⟩

end Simplex

end LinearProgram
