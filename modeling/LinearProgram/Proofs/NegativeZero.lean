import LinearProgram.Proofs.Zero

/-!
# Sums that start at zero

A rounded sum is `-0` only if both of its terms are. So a sum that starts at `0` never becomes `-0`,
and then it does not matter how many more zeros are added.

* `Double.InRange`: the mantissas and exponents of doubles.
* `Double.round_inRange`: rounding stays in range and does not lose all of a mantissa.
* `Double.add_ne_negativeZero`: the first term of a sum of `-0` is `-0`.
* `NeutralZero`, `OverlooksZero`: what follows for sums, for doubles and for exact numbers.
-/

namespace LinearProgram

namespace Double

open Float.Model UnpackedFloat

theorem targetExponent_eq (e : Int) :
    Format.binary64.targetExponent e = max (e - 53) (-1074) := rfl

/-- Whether a finite number has the mantissa and the exponent of a double. -/
def InRange : UnpackedFloat → Prop
  | .finite _ m e _ => m < 2 ^ 53 ∧ -1074 ≤ e
  | _ => True

/-- A double that is unpacked is in range. -/
theorem unpack_inRange (b : BitVec Format.binary64.numBits) :
    InRange (UnpackedFloat.unpack .binary64 b) := by
  have hexponent : (Format.binary64.exponentBias : Int) +
      Format.binary64.mantissaBitsWithoutImplicit = 1075 := rfl
  unfold UnpackedFloat.unpack
  simp only [hexponent]
  split
  · split <;> trivial
  split
  · next hzero =>
    split
    · trivial
    · have hm : (unpackMantissa b).toNat < 2 ^ 52 := (unpackMantissa b).isLt
      have hbiased : (unpackExponent b).toNat = 0 := by rw [hzero]; rfl
      constructor <;> omega
  · next hzero =>
    have hm : (1#1 ++ unpackMantissa b).toNat < 2 ^ 53 := (1#1 ++ unpackMantissa b).isLt
    have hbiased : (unpackExponent b).toNat ≠ 0 := fun h => hzero (BitVec.eq_of_toNat_eq h)
    constructor <;> omega

/-- A finite number in range is not packed as a zero: it has a digit in its exponent or its
mantissa. -/
theorem pack_finite_ne {s : Sign} {m : Nat} {e : Int} {hm : 0 < m}
    (h : InRange (.finite s m e hm)) (s' : Sign) :
    UnpackedFloat.pack .binary64 (.finite s m e hm) ≠ packedZero .binary64 s' := by
  obtain ⟨hlt, he⟩ := h
  have hbias : (Format.binary64.exponentBias : Int) = 1023 := rfl
  have hbits : Format.binary64.mantissaBits = 53 := rfl
  intro heq
  unfold UnpackedFloat.pack at heq
  simp only at heq
  split at heq
  · -- too large a number is packed as an infinity
    revert heq
    cases s <;> cases s' <;> decide
  next hfits =>
  split at heq
  · -- a normal number has a biased exponent of at least one
    have hexponent := congrArg (fun b => (unpackExponent b).toNat) heq
    simp only [packedZero, unpackExponent_packComponents, BitVec.toNat_ofNat] at hexponent
    have hzero : (e + Format.binary64.exponentBias + 52).toNat % 2 ^ 11 = 0 := hexponent
    have hsmall : ¬2 ^ 11 ≤ (e + Format.binary64.exponentBias + 52).toNat + 1 := hfits
    omega
  · -- a subnormal one has a mantissa that fits as it is
    next hlog =>
    have hmantissa := congrArg (fun b => (unpackMantissa b).toNat) heq
    simp only [packedZero, unpackMantissa_packComponents, BitVec.toNat_ofNat] at hmantissa
    have hzero : m % 2 ^ 52 = 0 := hmantissa
    have hlog53 : m.log2 < 53 := (Nat.log2_lt hm.ne').2 hlt
    have hlt52 : m < 2 ^ 52 := (Nat.log2_lt hm.ne').1 (by omega)
    omega

/-- A number in range is packed as a zero only if it is that zero. -/
theorem eq_zero_of_pack {u : UnpackedFloat} (h : InRange u) {s : Sign}
    (hpack : UnpackedFloat.pack .binary64 u = packedZero .binary64 s) : u = .zero s := by
  cases u with
  | finite s' m e hm => exact absurd hpack (pack_finite_ne h s)
  | zero s' =>
    cases s <;> cases s'
    all_goals first | rfl | exact absurd hpack (by decide)
  | infinity s' =>
    exfalso
    revert hpack
    cases s <;> cases s' <;> decide
  | notANumber =>
    exfalso
    revert hpack
    cases s <;> decide

theorem mantissa_shiftRight (em : ExtendedMantissa) (k : Nat) :
    (em >>> k).mantissa = em.mantissa / 2 ^ k := by
  induction k with
  | zero => exact (Nat.div_one _).symm
  | succ k ih =>
    have hone : (em >>> (k + 1)).mantissa = (em >>> k).mantissa / 2 := rfl
    rw [hone, ih, Nat.div_div_eq_div_mul, Nat.pow_succ]

/-- A mantissa that is shifted to its target keeps some digits, and not too many. -/
theorem shiftToTargetExponent_inRange {m : Nat} {e : Int} (hm : 0 < m) (he : -1074 ≤ e) :
    let shifted := shiftToTargetExponent .binary64 m e .exact
    (0 < shifted.1.mantissa ∧ shifted.1.mantissa < 2 ^ 53) ∧ -1074 ≤ shifted.2 := by
  have hlow : 2 ^ m.log2 ≤ m := Nat.log2_self_le (Nat.ne_of_gt hm)
  have hhigh : m < 2 ^ (m.log2 + 1) := Nat.lt_log2_self
  simp only [shiftToTargetExponent, shiftToExponent, mantissa_shiftRight, totalExponent,
    targetExponent_eq]
  -- all digits but 53 are shifted out
  have hshift : (max ((m.log2 : Int) + 1 + e - 53) (-1074) - e).toNat = m.log2 - 52 := by omega
  rw [hshift]
  refine ⟨⟨?_, ?_⟩, by omega⟩
  · have hle : 2 ^ (m.log2 - 52) ≤ m :=
      (Nat.pow_le_pow_right Nat.two_pos (Nat.sub_le ..)).trans hlow
    exact Nat.div_pos hle (Nat.two_pow_pos _)
  · apply Nat.div_lt_of_lt_mul
    calc m < 2 ^ (m.log2 + 1) := hhigh
      _ ≤ 2 ^ ((m.log2 - 52) + 53) := Nat.pow_le_pow_right Nat.two_pos (by omega)
      _ = 2 ^ (m.log2 - 52) * 2 ^ 53 := Nat.pow_add ..

theorem le_roundToNearestEven (m : Nat) (a : Accuracy) : m ≤ a.roundToNearestEven m := by
  unfold Accuracy.roundToNearestEven
  split <;> omega

/-- **Rounding** a mantissa other than zero gives a finite number in range. -/
theorem roundWithAccuracy_inRange (s : Sign) {m : Nat} {e : Int} (hm : 0 < m) (he : -1074 ≤ e) :
    ∃ m' e' hm', roundWithAccuracy .binary64 s m e .exact = .finite s m' e' hm' ∧
      InRange (.finite s m' e' hm') := by
  obtain ⟨⟨hpos, -⟩, he₁⟩ := shiftToTargetExponent_inRange hm he
  have hrounded := hpos.trans_le (le_roundToNearestEven _
    (shiftToTargetExponent .binary64 m e .exact).1.accuracy)
  -- rounding up may have made one digit too many
  obtain ⟨⟨hpos₂, hlt⟩, he₂⟩ := shiftToTargetExponent_inRange hrounded he₁
  exact ⟨_, _, hpos₂, dif_neg hpos₂.ne', hlt, he₂⟩

theorem round_inRange (s : Sign) {m : Nat} {e : Int} (hm : 0 < m) (he : -1074 ≤ e) :
    ∃ m' e' hm', UnpackedFloat.round .binary64 s m e = .finite s m' e' hm' ∧
      InRange (.finite s m' e' hm') := by
  unfold UnpackedFloat.round decreaseExponent
  simp only [targetExponent_eq]
  apply roundWithAccuracy_inRange
  · rw [Nat.shiftLeft_eq]
    exact Nat.mul_pos hm (Nat.two_pow_pos _)
  · omega

/-- An integer is made a number in range, or a zero with the given sign. -/
theorem normalize_inRange (m : Int) {e : Int} (he : -1074 ≤ e) (s : Sign) :
    UnpackedFloat.normalize .binary64 m e s = .zero s ∨
      ∃ s' m' e' hm', UnpackedFloat.normalize .binary64 m e s = .finite s' m' e' hm' ∧
        InRange (.finite s' m' e' hm') := by
  unfold UnpackedFloat.normalize
  split
  · next hlt =>
    have hneg := Int.compare_eq_lt.1 hlt
    exact .inr ⟨_, round_inRange .negative (by omega) he⟩
  · exact .inl rfl
  · next hgt =>
    have hpos := Int.compare_eq_gt.1 hgt
    exact .inr ⟨_, round_inRange .positive (by omega) he⟩

/-- **A sum is in range**, and it is `-0` only if its first term is. -/
theorem add_inRange {u v : UnpackedFloat} (hu : InRange u) (hv : InRange v) :
    InRange (UnpackedFloat.add .binary64 u v) ∧
      (UnpackedFloat.add .binary64 u v = .zero .negative → u = .zero .negative) := by
  unfold UnpackedFloat.add
  split
  case h_1 | h_2 => exact ⟨trivial, nofun⟩
  case h_3 => split <;> exact ⟨trivial, nofun⟩
  case h_4 | h_5 => exact ⟨trivial, nofun⟩
  case h_6 =>
    split
    · exact ⟨trivial, id⟩
    · exact ⟨trivial, nofun⟩
  case h_7 hzero => exact ⟨hv, fun h => (hzero _ h).elim⟩
  case h_8 => exact ⟨hu, id⟩
  case h_9 s₁ m₁ e₁ _ s₂ m₂ e₂ _ =>
    -- only here is anything rounded, and what cancels out is a positive zero
    have he : -1074 ≤ min e₁ e₂ := le_min hu.2 hv.2
    dsimp only
    generalize s₁.apply _ + s₂.apply _ = m
    rcases normalize_inRange m he .positive with h | ⟨s, m', e', hm', h, hrange⟩
    · rw [h]
      exact ⟨trivial, nofun⟩
    · rw [h]
      exact ⟨hrange, nofun⟩

theorem eq_negativeZero_iff {x : Float} : x = -0 ↔ x.toModel.unpack = .zero .negative := by
  constructor
  · intro h
    rw [h]
    rfl
  · intro h
    have hmodel := pack_toModel x
    rw [h] at hmodel
    exact congrArg Float.ofModel hmodel.symm

/-- **A sum of doubles is `-0` only if its first term is.** -/
theorem add_ne_negativeZero {x : Float} (hx : x ≠ -0) (y : Float) : x + y ≠ -0 := by
  intro h
  apply hx
  rw [eq_negativeZero_iff] at h ⊢
  obtain ⟨hrange, hzero⟩ := add_inRange (unpack_inRange x.toModel.toBits.toBitVec)
    (unpack_inRange y.toModel.toBits.toBitVec)
  apply hzero
  exact eq_zero_of_pack hrange ((unpack_eq_zero_iff_of_valid valid_pack).1 h)

/-- Zero changes no number but `-0`. -/
theorem add_zero_of_ne {x : Float} (hx : x ≠ -0) : x + 0 = x := by
  rw [ne_eq, eq_negativeZero_iff] at hx
  apply add_eq_of_unpacked
  rw [unpack_zero]
  revert hx
  cases x.toModel.unpack with
  | zero s =>
    intro hx
    cases s with
    | positive => rfl
    | negative => exact absurd rfl hx
  | _ => exact fun _ => rfl

/-- Negative zero changes no number. -/
theorem add_negativeZero (x : Float) : x + -0 = x := by
  apply add_eq_of_unpacked
  rw [unpack_negativeZero]
  cases x.toModel.unpack with
  | zero s => cases s <;> rfl
  | _ => rfl

/-- **A sum that does not start at `-0`** never becomes `-0`. -/
theorem foldl_add_ne_negativeZero (terms : List Float) {x : Float} (hx : x ≠ -0) :
    terms.foldl (· + ·) x ≠ -0 := by
  induction terms generalizing x with
  | nil => exact hx
  | cons y terms ih => exact ih (add_ne_negativeZero hx y)

/-- **The same double** but for the sign of a zero. -/
def Same (x y : Float) : Prop :=
  (x == y) = true ∨ (ExtendedScalar.isNaN x = true ∧ ExtendedScalar.isNaN y = true)

theorem Same.refl (x : Float) : Same x x := by
  unfold Same ExtendedScalar.isNaN bne
  cases x == x <;> simp

theorem same_add_zero (x : Float) : Same (x + 0) x := by
  by_cases hx : x = -0
  · rw [hx]
    exact .inl (by decide)
  · rw [add_zero_of_ne hx]
    exact .refl x

end Double

/-- **Scalars with a neutral zero**: zeros are lost in a sum that starts at zero, and many zeros
change a number no more than one. -/
class NeutralZero (K : Type) [ExtendedScalar K] : Prop extends LawfulZero K where
  isFinite_zero : Scalar.isFinite (0 : K) = true
  isInfinite_zero : ExtendedScalar.isInfinite (0 : K) = false
  zero_mul_zero : (0 : K) * 0 = 0
  zero_add_neg_zero : (0 : K) + -0 = 0
  foldl_add_zero : ∀ terms : List K, terms.foldl (· + ·) 0 + 0 = terms.foldl (· + ·) 0
  add_zero_add_zero : ∀ x : K, x + 0 + 0 = x + 0

/-- **Relations that overlook a zero** that has been added. -/
structure OverlooksZero {K : Type} [ExtendedScalar K] (same : K → K → Prop) : Prop where
  refl : ∀ x, same x x
  add_zero : ∀ x, same (x + 0) x
  add_add_zero : ∀ a x, same (a + (x + 0)) (a + x)

instance instNeutralZeroFloat : NeutralZero Float where
  isFinite_zero := by decide
  isInfinite_zero := by decide
  zero_mul_zero := by decide
  zero_add_neg_zero := by decide
  foldl_add_zero terms :=
    Double.add_zero_of_ne (Double.foldl_add_ne_negativeZero terms (by decide))
  add_zero_add_zero x := by
    by_cases hx : x = -0
    · rw [hx]
      decide
    · exact Double.add_zero_of_ne (Double.add_ne_negativeZero hx 0)

/-- In doubles a zero that has been added shows at most in the sign of a zero. -/
theorem Double.same_overlooksZero : OverlooksZero Double.Same where
  refl := Same.refl
  add_zero := same_add_zero
  add_add_zero a x := by
    by_cases hx : x = -0
    · have hzero : (-0 : Float) + 0 = 0 := by decide
      rw [hx, hzero, add_negativeZero]
      exact same_add_zero a
    · rw [add_zero_of_ne hx]
      exact .refl _

theorem Exact.add_zero (x : Exact) : x + 0 = x := by
  cases x with
  | finite q => exact congrArg Exact.finite (Rat.add_zero q)
  | _ => rfl

instance instNeutralZeroExact : NeutralZero Exact where
  isFinite_zero := rfl
  isInfinite_zero := rfl
  zero_mul_zero := congrArg Exact.finite (Rat.mul_zero 0)
  zero_add_neg_zero := by decide +kernel
  foldl_add_zero _ := Exact.add_zero _
  add_zero_add_zero _ := Exact.add_zero _

/-- In exact arithmetic a zero that has been added does not show at all. -/
theorem Exact.eq_overlooksZero : OverlooksZero fun x y : Exact => x = y where
  refl _ := rfl
  add_zero := add_zero
  add_add_zero a x := by rw [add_zero]

end LinearProgram
