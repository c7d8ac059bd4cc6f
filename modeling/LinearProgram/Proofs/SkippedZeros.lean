import LinearProgram.Proofs.DoubleOrder
import LinearProgram.Proofs.NegativeZero

/-!
# Sums that skip zeros

A sparse sum of products leaves out the products with a zero that is not stored. As long as the other
factor is finite, such a product is a zero, and to add it changes at most the sign of a zero.

* `Double.same_iff`: the doubles that are the same but for the sign of a zero.
* `SkipsZeros`: relations between a sum with and a sum without such products.
* `SkipsZeros.sum`: a sparse sum is the same as the full sum.
* `Exact.eq_skipsZeros`, `Double.same_skipsZeros`: exact numbers and doubles.
-/

namespace LinearProgram

open Scalar

/-- **Relations that skip zeros**: adding equal terms keeps them, and so does adding on one side the
product of zero with a finite number. -/
structure SkipsZeros {K : Type} [ExtendedScalar K] (same : K → K → Prop) : Prop where
  refl : ∀ x, same x x
  add : ∀ {x y}, same x y → ∀ term, same (x + term) (y + term)
  add_zero_mul : ∀ {x y c}, same x y → isFinite c = true → same x (y + 0 * c)

section Sums

variable {K α : Type} [ExtendedScalar K] {same : K → K → Prop}

theorem SkipsZeros.foldl (h : SkipsZeros same) {items : List α} (stored : α → Option K) {f : α → K}
    (hf : ∀ a ∈ items, isFinite (f a) = true) {x y : K} (hxy : same x y) :
    same ((items.filterMap fun a => (stored a).map (· * f a)).foldl (· + ·) x)
      ((items.map fun a => (stored a).getD 0 * f a).foldl (· + ·) y) := by
  induction items generalizing x y with
  | nil => exact hxy
  | cons a items ih =>
    obtain ⟨ha, hitems⟩ := List.forall_mem_cons.1 hf
    cases hstored : stored a with
    | none =>
      simp only [List.filterMap_cons, List.map_cons, List.foldl_cons, hstored, Option.map_none,
        Option.getD_none]
      exact ih hitems (h.add_zero_mul hxy ha)
    | some value =>
      simp only [List.filterMap_cons, List.map_cons, List.foldl_cons, hstored, Option.map_some,
        Option.getD_some]
      exact ih hitems (h.add hxy _)

/-- **A sum over the stored factors is the same as the sum over all**, where a factor that is not
stored counts as zero. -/
theorem SkipsZeros.sum (h : SkipsZeros same) {items : List α} (stored : α → Option K) {f : α → K}
    (hf : ∀ a ∈ items, isFinite (f a) = true) :
    same (Scalar.sum (items.filterMap fun a => (stored a).map (· * f a)))
      (Scalar.sum (items.map fun a => (stored a).getD 0 * f a)) :=
  h.foldl stored hf (h.refl _)

end Sums

/-- In exact arithmetic a skipped zero does not show at all. -/
theorem Exact.eq_skipsZeros : SkipsZeros fun x y : Exact => x = y where
  refl _ := rfl
  add h term := by rw [h]
  add_zero_mul {x y c} h hc := by
    cases c with
    | finite q =>
      have hzero : (0 : Exact) * finite q = 0 := congrArg finite (Rat.zero_mul q)
      rw [hzero, add_zero, h]
    | _ => cases hc

namespace Double

open Float.Model UnpackedFloat

/-- **Doubles are the same** if they are equal, or zeros of different signs. -/
theorem same_iff {x y : Float} : Same x y ↔ x = y ∨ (x = 0 ∧ y = -0) ∨ (x = -0 ∧ y = 0) := by
  constructor
  · rintro (h | ⟨hx, hy⟩)
    · exact (Float.beq_iff_ne_nan_and_eq.1 h).2.2
    · exact .inl ((isNaN_iff.1 hx).trans (isNaN_iff.1 hy).symm)
  · rintro (rfl | ⟨rfl, rfl⟩ | ⟨rfl, rfl⟩)
    · exact .refl x
    · exact .inl (by decide)
    · exact .inl (by decide)

theorem Same.symm {x y : Float} (h : Same x y) : Same y x := by
  rw [same_iff] at h ⊢
  rcases h with h | h | h
  · exact .inl h.symm
  · exact .inr (.inr h.symm)
  · exact .inr (.inl h.symm)

theorem Same.trans {x y z : Float} (hxy : Same x y) (hyz : Same y z) : Same x z := by
  rw [same_iff] at hxy
  rcases hxy with rfl | ⟨rfl, rfl⟩ | ⟨rfl, rfl⟩
  · exact hyz
  · rcases same_iff.1 hyz with rfl | ⟨h, -⟩ | ⟨-, rfl⟩
    · exact same_iff.2 (.inr (.inl ⟨rfl, rfl⟩))
    · exact absurd h (by decide)
    · exact .refl 0
  · rcases same_iff.1 hyz with rfl | ⟨-, rfl⟩ | ⟨h, -⟩
    · exact same_iff.2 (.inr (.inr ⟨rfl, rfl⟩))
    · exact .refl (-0)
    · exact absurd h (by decide)

theorem negativeZero_add_of_ne {x : Float} (h : (x == 0) = false) : -0 + x = x := by
  apply add_eq_of_unpacked
  rw [unpack_negativeZero, add_zero_unpacked (unpack_ne_zero h)]

/-- To add a number to either zero makes no difference. -/
theorem same_zero_add (x : Float) : Same (0 + x) (-0 + x) := by
  cases h : x == 0 with
  | true =>
    obtain ⟨-, -, rfl | ⟨rfl, -⟩ | ⟨rfl, -⟩⟩ := Float.beq_iff_ne_nan_and_eq.1 h
    · exact .inl (by decide)
    · exact .inl (by decide)
    · exact .inl (by decide)
  | false =>
    rw [zero_add_of_ne h, negativeZero_add_of_ne h]
    exact .refl x

theorem Same.add {x y : Float} (h : Same x y) (term : Float) : Same (x + term) (y + term) := by
  rcases same_iff.1 h with rfl | ⟨rfl, rfl⟩ | ⟨rfl, rfl⟩
  · exact .refl _
  · exact same_zero_add term
  · exact (same_zero_add term).symm

/-- **Zero times a finite number is a zero.** -/
theorem zero_mul_eq {c : Float} (hc : Scalar.isFinite c = true) : 0 * c = 0 ∨ 0 * c = -0 := by
  have hfinite : c.toModel.unpack.isFinite = true := hc
  have hproduct : (0 * c).toModel =
      Float.Model.pack (UnpackedFloat.mul .binary64 (.zero .positive) c.toModel.unpack) := rfl
  have hzero : ∃ s, (0 * c).toModel = Float.Model.pack (.zero s) := by
    rw [hproduct]
    cases h : c.toModel.unpack with
    | notANumber => simp [h, UnpackedFloat.isFinite] at hfinite
    | infinity s => simp [h, UnpackedFloat.isFinite] at hfinite
    | zero s => exact ⟨_, rfl⟩
    | finite s m e hm => exact ⟨_, rfl⟩
  obtain ⟨s, hs⟩ := hzero
  cases s with
  | positive => exact .inl (congrArg Float.ofModel hs)
  | negative => exact .inr (congrArg Float.ofModel hs)

theorem same_skipsZeros : SkipsZeros Same where
  refl := Same.refl
  add := Same.add
  add_zero_mul {x y c} h hc := by
    rcases zero_mul_eq hc with hzero | hzero
    · rw [hzero]
      exact h.trans (same_add_zero y).symm
    · rw [hzero, add_negativeZero]
      exact h

end Double

end LinearProgram
