import Mathlib
import LinearProgram.Scalar.Exact

/-!
# What zero adds

Little is true of all scalars, but a number other than zero does not change when it is added to `0`.
Of a zero this need not be so: `0 + -0` is `0`.

* `LawfulZero`: scalars where this is so.
* `Double.pack_toModel`: a double is made of its sign, exponent and mantissa.
* `instLawfulZeroFloat`, `instLawfulZeroExact`: doubles and exact numbers are such scalars.
-/

namespace LinearProgram

/-- **Scalars with a lawful zero**: it equals itself, and adding to it changes no other number. -/
class LawfulZero (K : Type) [ExtendedScalar K] : Prop where
  zero_beq : ((0 : K) == 0) = true
  zero_add_of_ne : ∀ x : K, (x == 0) = false → 0 + x = x

namespace Double

open Float.Model UnpackedFloat

/-- **Unpacking loses nothing** of a double. -/
theorem pack_toModel (x : Float) : Float.Model.pack x.toModel.unpack = x.toModel := by
  obtain ⟨⟨bits, hvalid⟩⟩ := x
  have hbits := pack_unpack_of_valid hvalid
  simp only [Float.Model.pack, Float.Model.unpack, hbits]

/-- **Doubles add up** as they do when they are unpacked. -/
theorem add_eq_of_unpacked {x y z : Float}
    (h : UnpackedFloat.add .binary64 x.toModel.unpack y.toModel.unpack = z.toModel.unpack) :
    x + y = z := by
  have hmodel : (x + y).toModel = Float.Model.pack
      (UnpackedFloat.add .binary64 x.toModel.unpack y.toModel.unpack) := rfl
  rw [h, pack_toModel] at hmodel
  exact congrArg Float.ofModel hmodel

/-- A number other than a zero is what zero and the number add up to. -/
theorem add_zero_unpacked {s : Sign} {u : UnpackedFloat} (h : ∀ s, u ≠ .zero s) :
    UnpackedFloat.add .binary64 (.zero s) u = u := by
  cases u with
  | zero s' => exact absurd rfl (h s')
  | _ => rfl

theorem unpack_zero : (0 : Float).toModel.unpack = .zero .positive := rfl

theorem unpack_negativeZero : (-0 : Float).toModel.unpack = .zero .negative := rfl

/-- Only a zero equals zero. -/
theorem unpack_ne_zero {x : Float} (h : (x == 0) = false) (s : Sign) :
    x.toModel.unpack ≠ .zero s := by
  intro hs
  have hbeq : (x == 0) = (x.toModel.unpack.compare (0 : Float).toModel.unpack == some .eq) := rfl
  rw [hbeq, hs, unpack_zero] at h
  cases h

theorem zero_add_of_ne {x : Float} (h : (x == 0) = false) : 0 + x = x := by
  apply add_eq_of_unpacked
  rw [unpack_zero, add_zero_unpacked (unpack_ne_zero h)]

end Double

instance instLawfulZeroFloat : LawfulZero Float where
  zero_beq := by decide
  zero_add_of_ne _ h := Double.zero_add_of_ne h

instance instLawfulZeroExact : LawfulZero Exact where
  zero_beq := by decide
  zero_add_of_ne x _ := by
    cases x with
    | finite q => exact congrArg Exact.finite (Rat.zero_add q)
    | _ => rfl

end LinearProgram
