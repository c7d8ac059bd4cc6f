import LinearProgram.Proofs.Rounding
import LinearProgram.Proofs.SkippedZeros

/-!
# Sums of doubles

A sum of finite doubles is the sum of their units, rounded and cut off at the infinities. So it is
monotone in each term, and it is always a number, though perhaps an infinite one. What is not finite
is never lost again: neither a sum nor a product with it is finite.

* `Double.unpack_pack`: what is packed comes out again, or as an infinity if it is too large.
* `Double.le_iff_units`: the order of doubles is that of their units.
* `Double.units_add`, `Double.add_le_add_left`: a sum of finite doubles.
* `Double.one_mul`, `Double.neg_one_mul`: products with `1` and `-1`.
* `Double.isFinite_of_add`, `Double.isFinite_of_mul`: the terms of a finite sum, the factors of a
  product.
-/

namespace LinearProgram.Double

section Packing

open Float.Model UnpackedFloat

/-- The number itself, or an infinity if it is too large for a double. -/
def saturate : UnpackedFloat → UnpackedFloat
  | .finite s m e hm => if 971 < e then .infinity s else .finite s m e hm
  | u => u

theorem unpack_packedInfinity (s : Sign) :
    UnpackedFloat.unpack .binary64 (packedInfinity .binary64 s) = .infinity s := by
  cases s <;> rfl

/-- **A packed normal number** leaves out its first digit, and gets it back. -/
theorem unpack_normal (s : Sign) {m n : ℕ} (hm : 0 < m) (hfirst : 2 ^ 52 ≤ m) (hlt : m < 2 ^ 53)
    (hpos : 0 < n) (hmost : n < 2047) :
    UnpackedFloat.unpack .binary64
      (packComponents .binary64 s (BitVec.ofNat 11 n) (BitVec.ofNat 52 m)) =
        .finite s m (n - 1075) hm := by
  have hbias : ((Format.binary64.exponentBias : ℕ) : ℤ) = 1023 := rfl
  have hexponent : (BitVec.ofNat 11 n).toNat = n := by
    rw [BitVec.toNat_ofNat]
    exact Nat.mod_eq_of_lt (by omega)
  have hmantissa : (1#1 ++ BitVec.ofNat 52 m).toNat = m := by
    rw [toNat_append_one, BitVec.toNat_ofNat]
    omega
  have hones : BitVec.ofNat 11 n ≠ -1#11 := fun heq => by
    have hall : (BitVec.ofNat 11 n).toNat = 2047 := congrArg BitVec.toNat heq
    omega
  have hzero : BitVec.ofNat 11 n ≠ 0#11 := fun heq => by
    have hnone : (BitVec.ofNat 11 n).toNat = 0 := congrArg BitVec.toNat heq
    omega
  unfold UnpackedFloat.unpack
  simp only [unpackMantissa_packComponents, unpackExponent_packComponents,
    unpackSign_packComponents, Sign.ofBitVec_toBitVec, if_neg hones, if_neg hzero, hexponent,
    hmantissa, hbias]
  rfl

/-- **A packed subnormal number** keeps all its digits, and its exponent is the least one. -/
theorem unpack_subnormal (s : Sign) {m : ℕ} (hm : 0 < m) (hsmall : m < 2 ^ 52) :
    UnpackedFloat.unpack .binary64 (packComponents .binary64 s 0#11 (BitVec.ofNat 52 m)) =
      .finite s m (-1074) hm := by
  have hmantissa : (BitVec.ofNat 52 m).toNat = m := by
    rw [BitVec.toNat_ofNat]
    exact Nat.mod_eq_of_lt hsmall
  have hne : BitVec.ofNat 52 m ≠ 0#52 := fun heq => by
    have hnone : (BitVec.ofNat 52 m).toNat = 0 := congrArg BitVec.toNat heq
    omega
  unfold UnpackedFloat.unpack
  simp only [unpackMantissa_packComponents, unpackExponent_packComponents,
    unpackSign_packComponents, Sign.ofBitVec_toBitVec, dif_neg hne, hmantissa]
  rw [if_neg (by decide), if_pos trivial]
  rfl

/-- **Packing loses nothing of a canonical number** that is not too large. -/
theorem unpack_pack {u : UnpackedFloat} (h : Canonical u) :
    (Float.Model.pack u).unpack = saturate u := by
  change UnpackedFloat.unpack .binary64 (UnpackedFloat.pack .binary64 u) = saturate u
  cases u with
  | notANumber => exact unpack_packedNaN
  | infinity s => exact unpack_packedInfinity s
  | zero s => exact unpack_packedZero
  | finite s m e hm =>
    obtain ⟨⟨hlt, he⟩, hlow⟩ := h
    have hbias : ((Format.binary64.exponentBias : ℕ) : ℤ) = 1023 := rfl
    have hbits : Format.binary64.mantissaBits = 53 := rfl
    have hlog : m.log2 < 53 := (Nat.log2_lt hm.ne').2 hlt
    unfold UnpackedFloat.pack saturate
    simp only [hbias, hbits]
    by_cases hlarge : 971 < e
    · rw [if_pos hlarge, if_pos (by omega)]
      exact unpack_packedInfinity s
    rw [if_neg hlarge, if_neg (by omega)]
    split
    · next hlong =>
      have hfirst : 2 ^ 52 ≤ m := (Nat.le_log2 hm.ne').1 (by omega)
      have hback : (((e + 1023 + (52 : ℕ)).toNat : ℕ) : ℤ) - 1075 = e := by omega
      have hnormal := unpack_normal s hm hfirst hlt
        (n := (e + 1023 + (52 : ℕ)).toNat) (by omega) (by omega)
      simp only [hback] at hnormal
      exact hnormal
    · next hshort =>
      have hsmall : m < 2 ^ 52 := (Nat.log2_lt hm.ne').1 (by omega)
      obtain rfl : e = -1074 := hlow.resolve_left (not_le.2 hsmall)
      exact unpack_subnormal s hm hsmall

theorem canonical_unpack (x : Float) : Canonical x.toModel.unpack :=
  (unpack_canonical x.toModel.toBits.toBitVec).1

/-- What a double unpacks to is not too large. -/
theorem saturate_unpack (x : Float) : saturate x.toModel.unpack = x.toModel.unpack := by
  rw [← unpack_pack (canonical_unpack x), pack_toModel]

/-- **A negation** changes the sign. -/
theorem unpack_neg (x : Float) : (-x).toModel.unpack = x.toModel.unpack.neg := by
  have hmodel : (-x).toModel = Float.Model.pack x.toModel.unpack.neg := rfl
  have hcanonical := canonical_unpack x
  have hsaturate := saturate_unpack x
  revert hcanonical hsaturate
  rw [hmodel]
  cases x.toModel.unpack with
  | notANumber => exact fun _ _ => unpack_packedNaN
  | infinity s => exact fun _ _ => unpack_packedInfinity _
  | zero s => exact fun _ _ => unpack_packedZero
  | finite s m e hm =>
    intro hcanonical hsaturate
    have hexponent : ¬971 < e := fun hlarge => by
      rw [saturate, if_pos hlarge] at hsaturate
      cases hsaturate
    rw [unpack_pack (u := UnpackedFloat.neg (.finite s m e hm)) hcanonical]
    exact if_neg hexponent

end Packing

section Order

open Float.Model UnpackedFloat

variable {m m' : ℕ} {e e' : ℤ}

/-- Numbers that a double can hold: canonical, and not too large. -/
def Packable (u : UnpackedFloat) : Prop := Canonical u ∧ saturate u = u

theorem packable_unpack (x : Float) : Packable x.toModel.unpack :=
  ⟨canonical_unpack x, saturate_unpack x⟩

theorem limit_eq : limit = unitsOf 1 1024 := by
  delta limit
  exact rfl

theorem two_pow_le_limit {k : ℕ} (hk : k ≤ 2098) : 2 ^ k ≤ limit := by
  have hpow (e : ℤ) (he : k ≤ (e + 1074).toNat) : 2 ^ k ≤ unitsOf 1 e := by
    rw [unitsOf, Nat.one_mul]
    exact Nat.pow_le_pow_right Nat.two_pos he
  exact (hpow 1024 hk).trans_eq limit_eq.symm

theorem limit_le_two_pow {k : ℕ} (hk : 2098 ≤ k) : limit ≤ 2 ^ k := by
  have hpow (e : ℤ) (he : (e + 1074).toNat ≤ k) : unitsOf 1 e ≤ 2 ^ k := by
    rw [unitsOf, Nat.one_mul]
    exact Nat.pow_le_pow_right Nat.two_pos he
  exact limit_eq.trans_le (hpow 1024 hk)

/-- A finite number is less than an infinity. -/
theorem unitsOf_lt_limit {s : Sign} {hm : 0 < m} (h : Packable (.finite s m e hm)) :
    unitsOf m e < limit := by
  obtain ⟨⟨⟨hlt, he⟩, -⟩, hsaturate⟩ := h
  have hle : ¬971 < e := fun hlarge => by
    rw [saturate, if_pos hlarge] at hsaturate
    cases hsaturate
  unfold unitsOf
  calc m * 2 ^ (e + 1074).toNat < 2 ^ 53 * 2 ^ (e + 1074).toNat :=
        Nat.mul_lt_mul_of_pos_right hlt (Nat.two_pow_pos _)
    _ = 2 ^ (53 + (e + 1074).toNat) := (Nat.pow_add ..).symm
    _ ≤ limit := two_pow_le_limit (by omega)

/-- A number that is too large is at least an infinity. -/
theorem limit_le_unitsOf {s : Sign} {hm : 0 < m} (h : Canonical (.finite s m e hm))
    (he : 971 < e) : limit ≤ unitsOf m e := by
  obtain ⟨-, hlow⟩ := h
  have hfirst : 2 ^ 52 ≤ m := hlow.resolve_right (by omega)
  unfold unitsOf
  calc limit ≤ 2 ^ (52 + (e + 1074).toNat) := limit_le_two_pow (by omega)
    _ = 2 ^ 52 * 2 ^ (e + 1074).toNat := Nat.pow_add ..
    _ ≤ m * 2 ^ (e + 1074).toNat := Nat.mul_le_mul_right _ hfirst

/-- **A larger exponent outweighs the mantissa** of a canonical number. -/
theorem unitsOf_lt_of_lt {s s' : Sign} {hm : 0 < m} {hm' : 0 < m'}
    (h : Canonical (.finite s m e hm)) (h' : Canonical (.finite s' m' e' hm')) (hlt : e < e') :
    unitsOf m e < unitsOf m' e' := by
  obtain ⟨⟨hdigits, he⟩, -⟩ := h
  obtain ⟨-, hlow⟩ := h'
  have hfirst : 2 ^ 52 ≤ m' := hlow.resolve_right (by omega)
  unfold unitsOf
  calc m * 2 ^ (e + 1074).toNat < 2 ^ 53 * 2 ^ (e + 1074).toNat :=
        Nat.mul_lt_mul_of_pos_right hdigits (Nat.two_pow_pos _)
    _ = 2 ^ (53 + (e + 1074).toNat) := (Nat.pow_add ..).symm
    _ ≤ 2 ^ (52 + (e' + 1074).toNat) := Nat.pow_le_pow_right Nat.two_pos (by omega)
    _ = 2 ^ 52 * 2 ^ (e' + 1074).toNat := Nat.pow_add ..
    _ ≤ m' * 2 ^ (e' + 1074).toNat := Nat.mul_le_mul_right _ hfirst

/-- Canonical numbers of the same sign are compared by their exponents, then by their mantissas. -/
theorem unitsOf_le_iff {s s' : Sign} {hm : 0 < m} {hm' : 0 < m'}
    (h : Canonical (.finite s m e hm)) (h' : Canonical (.finite s' m' e' hm')) :
    unitsOf m e ≤ unitsOf m' e' ↔ e < e' ∨ e = e' ∧ m ≤ m' := by
  rcases lt_trichotomy e e' with hlt | rfl | hgt
  · exact iff_of_true (unitsOf_lt_of_lt h h' hlt).le (.inl hlt)
  · unfold unitsOf
    rw [Nat.mul_le_mul_right_iff (Nat.two_pow_pos _)]
    simp
  · refine iff_of_false (not_le.2 (unitsOf_lt_of_lt h' h hgt)) ?_
    omega

@[simp]
theorem apply_positive (n : ℤ) : Sign.apply .positive n = n := rfl

@[simp]
theorem apply_negative (n : ℤ) : Sign.apply .negative n = -n := rfl

theorem apply_neg (s : Sign) (n : ℤ) : (-s).apply n = -s.apply n := by
  cases s with
  | positive => rfl
  | negative => exact (Int.neg_neg n).symm

/-- **The order of places is that of units.** -/
theorem place_le_iff {u v : UnpackedFloat} (hu : Packable u) (hv : Packable v)
    (hu' : u ≠ .notANumber) (hv' : v ≠ .notANumber) :
    (∃ a ∈ place u, ∃ b ∈ place v, a ≤ b) ↔ units u ≤ units v := by
  have hlimit : 0 < limit := (Nat.two_pow_pos 0).trans_le (two_pow_le_limit (Nat.zero_le _))
  have hpos {m : ℕ} {e : ℤ} (hm : 0 < m) : 0 < unitsOf m e :=
    Nat.mul_pos hm (Nat.two_pow_pos _)
  cases u with
  | notANumber => exact absurd rfl hu'
  | infinity s =>
    cases v with
    | notANumber => exact absurd rfl hv'
    | infinity s' =>
      cases s <;> cases s' <;> simp [place, units, Prod.Lex.toLex_le_toLex]
      omega
    | zero s' => cases s <;> simp [place, units, Prod.Lex.toLex_le_toLex]; omega
    | finite s' m' e' hm' =>
      have hlt := unitsOf_lt_limit hv
      cases s <;> cases s' <;> simp [place, units, Prod.Lex.toLex_le_toLex] <;> omega
  | zero s =>
    cases v with
    | notANumber => exact absurd rfl hv'
    | infinity s' =>
      cases s' <;> simp [place, units, Prod.Lex.toLex_le_toLex]
      omega
    | zero s' => simp [place, units]
    | finite s' m' e' hm' =>
      have := hpos (e := e') hm'
      cases s' <;> simp [place, units, Prod.Lex.toLex_le_toLex]
      omega
  | finite s m e hm =>
    have := hpos (e := e) hm
    cases v with
    | notANumber => exact absurd rfl hv'
    | infinity s' =>
      have hlt := unitsOf_lt_limit hu
      cases s <;> cases s' <;> simp [place, units, Prod.Lex.toLex_le_toLex] <;> omega
    | zero s' =>
      cases s <;> simp [place, units, Prod.Lex.toLex_le_toLex]
      omega
    | finite s' m' e' hm' =>
      have := hpos (e := e') hm'
      have hle := unitsOf_le_iff hu.1 hv.1
      have hge := unitsOf_le_iff hv.1 hu.1
      cases s <;> cases s' <;> simp [place, units, Prod.Lex.toLex_le_toLex] <;> omega

end Order

section Sums

open Float.Model UnpackedFloat

/-- A number of units, cut off at the infinities. -/
def clamp (z : ℤ) : ℤ := max (-limit) (min z limit)

theorem clamp_mono {z z' : ℤ} (h : z ≤ z') : clamp z ≤ clamp z' := by
  unfold clamp
  omega

/-- A number that is too large is cut off at an infinity. -/
theorem units_saturate {u : UnpackedFloat} (h : Canonical u) :
    units (saturate u) = clamp (units u) := by
  unfold clamp
  cases u with
  | notANumber => simp [saturate, units]
  | infinity s => cases s <;> simp [saturate, units]
  | zero s => simp [saturate, units]
  | finite s m e hm =>
    by_cases he : 971 < e
    · have hle := limit_le_unitsOf h he
      rw [saturate, if_pos he]
      cases s <;> simp only [units, apply_positive, apply_negative] <;> omega
    · have hpackable : Packable (.finite s m e hm) := ⟨h, if_neg he⟩
      have hlt := unitsOf_lt_limit hpackable
      rw [saturate, if_neg he]
      cases s <;> simp only [units, apply_positive, apply_negative] <;> omega

/-- A canonical number needs no rounding. -/
theorem roundUnits_units {u : UnpackedFloat} (h : Canonical u) (hfinite : u.isFinite = true) :
    roundUnits (units u) = units u := by
  cases u with
  | notANumber => cases hfinite
  | infinity s => cases hfinite
  | zero s => simp [roundUnits, units]
  | finite s m e hm =>
    have hrounded : rounded (unitsOf m e) = unitsOf m e := rounded_mul_pow h.1.1 _
    have hpos : 0 < unitsOf m e := Nat.mul_pos hm (Nat.two_pow_pos _)
    have hsign : (unitsOf m e : ℤ).sign = 1 := Int.sign_eq_one_of_pos (Int.natCast_pos.2 hpos)
    cases s <;> simp [roundUnits, units, hrounded, hsign]

theorem apply_mul (s : Sign) (a b : ℤ) : s.apply (a * b) = s.apply a * b := by
  cases s with
  | positive => rfl
  | negative => exact (Int.neg_mul a b).symm

/-- A smaller exponent with a longer mantissa is the same number of units. -/
theorem unitsOf_shiftLeft {m : ℕ} {e E : ℤ} (he : E ≤ e) (hE : -1074 ≤ E) :
    unitsOf (m <<< (e - E).toNat) E = unitsOf m e := by
  have hcount : (e - E).toNat + (E + 1074).toNat = (e + 1074).toNat := by omega
  rw [unitsOf, unitsOf, Nat.shiftLeft_eq, Nat.mul_assoc, ← Nat.pow_add, hcount]

/-- **The sum of unpacked numbers** is the sum of their units, rounded. -/
theorem add_units {u v : UnpackedFloat} (hu : Canonical u) (hv : Canonical v)
    (hu' : u.isFinite = true) (hv' : v.isFinite = true) :
    let w := UnpackedFloat.add .binary64 u v
    Canonical w ∧ w.isFinite = true ∧ units w = roundUnits (units u + units v) := by
  cases u with
  | notANumber => cases hu'
  | infinity s => cases hu'
  | zero s =>
    have hzero : units (.zero s) + units v = units v := Int.zero_add _
    rw [hzero, roundUnits_units hv hv']
    cases v with
    | notANumber => cases hv'
    | infinity s' => cases hv'
    | zero s' => cases s <;> cases s' <;> exact ⟨trivial, rfl, rfl⟩
    | finite s' m' e' hm' => exact ⟨hv, rfl, rfl⟩
  | finite s m e hm =>
    cases v with
    | notANumber => cases hv'
    | infinity s' => cases hv'
    | zero s' =>
      have hzero : units (.finite s m e hm) + units (.zero s') = units (.finite s m e hm) :=
        Int.add_zero _
      rw [hzero, roundUnits_units hu hu']
      exact ⟨hu, rfl, rfl⟩
    | finite s' m' e' hm' =>
      -- both mantissas are moved to the smaller exponent
      have hE : -1074 ≤ min e e' := le_min hu.1.2 hv.1.2
      have hnormal := normalize_units (s.apply (m <<< (e - min e e').toNat : ℕ) +
        s'.apply (m' <<< (e' - min e e').toNat : ℕ)) hE .positive
      have hunits : (s.apply (m <<< (e - min e e').toNat : ℕ) +
          s'.apply (m' <<< (e' - min e e').toNat : ℕ)) * (2 ^ (min e e' + 1074).toNat : ℕ) =
            units (.finite s m e hm) + units (.finite s' m' e' hm') := by
        rw [Int.add_mul, ← apply_mul, ← apply_mul, units, units,
          ← unitsOf_shiftLeft (min_le_left e e') hE, ← unitsOf_shiftLeft (min_le_right e e') hE]
        rfl
      rw [hunits] at hnormal
      exact hnormal

/-- **A difference** is a sum with the negation. -/
theorem sub_unpacked (u v : UnpackedFloat) :
    UnpackedFloat.sub .binary64 u v = UnpackedFloat.add .binary64 u v.neg := by
  cases u with
  | notANumber => rfl
  | infinity s =>
    cases v with
    | infinity s' => cases s <;> cases s' <;> rfl
    | _ => rfl
  | zero s =>
    cases v with
    | zero s' => cases s <;> cases s' <;> rfl
    | _ => rfl
  | finite s m e hm =>
    cases v with
    | finite s' m' e' hm' =>
      unfold UnpackedFloat.sub UnpackedFloat.add UnpackedFloat.neg
      simp only [apply_neg, Int.sub_eq_add_neg]
    | _ => rfl

/-- A sum with a term that is not finite is not finite. -/
theorem isFinite_of_add_unpacked {u v : UnpackedFloat}
    (h : (UnpackedFloat.add .binary64 u v).isFinite = true) :
    u.isFinite = true ∧ v.isFinite = true := by
  cases u with
  | notANumber => cases h
  | infinity s =>
    cases v with
    | infinity s' => cases s <;> cases s' <;> cases h
    | _ => cases h
  | zero s =>
    cases v with
    | notANumber => cases h
    | infinity s' => cases h
    | _ => exact ⟨rfl, rfl⟩
  | finite s m e hm =>
    cases v with
    | notANumber => cases h
    | infinity s' => cases h
    | _ => exact ⟨rfl, rfl⟩

/-- A product with a factor that is not finite is not finite. -/
theorem isFinite_of_mul_unpacked {u v : UnpackedFloat}
    (h : (UnpackedFloat.mul .binary64 u v).isFinite = true) :
    u.isFinite = true ∧ v.isFinite = true := by
  cases u with
  | notANumber => cases h
  | infinity s => cases v <;> cases h
  | zero s =>
    cases v with
    | notANumber => cases h
    | infinity s' => cases h
    | _ => exact ⟨rfl, rfl⟩
  | finite s m e hm =>
    cases v with
    | notANumber => cases h
    | infinity s' => cases h
    | _ => exact ⟨rfl, rfl⟩

/-- What has no finite value does not get one by being packed. -/
theorem isFinite_of_pack {u : UnpackedFloat}
    (h : (Float.Model.pack u).unpack.isFinite = true) : u.isFinite = true := by
  cases u with
  | notANumber =>
    have hpack : (Float.Model.pack .notANumber).unpack = .notANumber := unpack_packedNaN
    rw [hpack] at h
    cases h
  | infinity s =>
    have hpack : (Float.Model.pack (.infinity s)).unpack = .infinity s := unpack_packedInfinity s
    rw [hpack] at h
    cases h
  | zero s => rfl
  | finite s m e hm => rfl

/-- **A product with one or minus one** is the other factor or its negation. -/
theorem mul_one_unpacked (s : Sign) {u : UnpackedFloat} (h : Canonical u) :
    UnpackedFloat.mul .binary64 (.finite s (2 ^ 52) (-52) (Nat.two_pow_pos 52)) u =
      match s with
      | .positive => u
      | .negative => u.neg := by
  cases u with
  | notANumber => cases s <;> rfl
  | infinity s' => cases s <;> cases s' <;> rfl
  | zero s' => cases s <;> cases s' <;> rfl
  | finite s' m e hm =>
    have hproduct : UnpackedFloat.mul .binary64 (.finite s (2 ^ 52) (-52) (Nat.two_pow_pos 52))
        (.finite s' m e hm) =
          roundWithAccuracy .binary64 (s * s') (m * 2 ^ 52) (e - (52 : ℕ)) .exact := by
      have hexponent : -52 + e = e - (52 : ℕ) := by omega
      rw [← hexponent, Nat.mul_comm]
      rfl
    have hcanonical : Canonical (.finite (s * s') m e hm) := h
    rw [hproduct, roundWithAccuracy_canonical hcanonical]
    cases s <;> cases s' <;> rfl

end Sums

section Doubles

open Scalar ExtendedScalar

variable {l u a b x y : Float}

theorem eq_nan_iff : x = nan ↔ x.toModel.unpack = .notANumber := by
  constructor
  · rintro rfl
    rfl
  · exact fun h => eq_of_unpack_eq (h.trans rfl)

theorem ne_nan (hx : isFinite x = true) : x ≠ nan := by
  rintro rfl
  exact absurd hx (by decide)

/-- **The order of doubles is that of their units.** -/
theorem le_iff_units (hx : x ≠ nan) (hy : y ≠ nan) :
    x ≤ y ↔ units x.toModel.unpack ≤ units y.toModel.unpack := by
  rw [le_iff_place]
  exact place_le_iff (packable_unpack x) (packable_unpack y) (mt eq_nan_iff.2 hx)
    (mt eq_nan_iff.2 hy)

/-- What is compared is a number. -/
theorem ne_nan_of_lt (h : x < y) : x ≠ nan ∧ y ≠ nan := by
  obtain ⟨a, ha, b, hb, -⟩ := lt_iff_place.1 h
  have hplace : place (nan : Float).toModel.unpack = none := rfl
  constructor
  · rintro rfl
    rw [hplace] at ha
    cases ha
  · rintro rfl
    rw [hplace] at hb
    cases hb

/-- The strict order of doubles is that of their units. -/
theorem lt_iff_units (hx : x ≠ nan) (hy : y ≠ nan) :
    x < y ↔ units x.toModel.unpack < units y.toModel.unpack := by
  have hplace {v : Float} (hv : v ≠ nan) : ∃ a, place v.toModel.unpack = some a := by
    cases hunpack : v.toModel.unpack with
    | notANumber => exact absurd (eq_nan_iff.2 hunpack) hv
    | _ => exact ⟨_, rfl⟩
  obtain ⟨a, ha⟩ := hplace hx
  obtain ⟨b, hb⟩ := hplace hy
  have hle := le_iff_units hy hx
  rw [le_iff_place, ha, hb] at hle
  rw [lt_iff_place, ha, hb, ← not_le, ← hle]
  simp

/-- **A sum of finite doubles** is the sum of their units, rounded and cut off at the infinities. -/
theorem units_add (hx : isFinite x = true) (hy : isFinite y = true) :
    x + y ≠ nan ∧ units (x + y).toModel.unpack =
      clamp (roundUnits (units x.toModel.unpack + units y.toModel.unpack)) := by
  have hmodel : (x + y).toModel = Float.Model.pack
      (Float.Model.UnpackedFloat.add .binary64 x.toModel.unpack y.toModel.unpack) := rfl
  obtain ⟨hcanonical, hfinite, hunits⟩ := add_units (canonical_unpack x) (canonical_unpack y) hx hy
  rw [ne_eq, eq_nan_iff, hmodel, unpack_pack hcanonical, units_saturate hcanonical, hunits]
  refine ⟨?_, rfl⟩
  generalize Float.Model.UnpackedFloat.add .binary64 x.toModel.unpack y.toModel.unpack = w
    at hfinite
  cases w with
  | notANumber => cases hfinite
  | infinity s => cases hfinite
  | zero s => exact nofun
  | finite s m e hm =>
    intro hnan
    rw [saturate] at hnan
    split at hnan <;> cases hnan

/-- Nothing finite changes an infinity by being added to it. -/
theorem add_infinite (hl : isFinite l = true) {s : Float.Model.UnpackedFloat.Sign}
    (ha : a.toModel.unpack = .infinity s) : l + a = a := by
  have hfinite : l.toModel.unpack.isFinite = true := hl
  apply add_eq_of_unpacked
  rw [ha]
  cases h : l.toModel.unpack with
  | notANumber => rw [h] at hfinite; cases hfinite
  | infinity s => rw [h] at hfinite; cases hfinite
  | zero s => rfl
  | finite s m e hm => rfl

theorem add_infinity (hl : isFinite l = true) : l + infinity = infinity :=
  add_infinite (s := .positive) hl rfl

theorem le_infinity (hx : x ≠ nan) : x ≤ infinity := by
  rcases cases_value x with h | rfl | rfl | rfl
  · exact (between_infinities h).1.2
  · decide
  · decide
  · exact absurd rfl hx

/-- **Addition is monotone.** -/
theorem add_le_add_left (hl : isFinite l = true) (ha : isFinite a = true) (h : a ≤ b) :
    l + a ≤ l + b := by
  obtain ⟨hsum, hunits⟩ := units_add hl ha
  rcases cases_value b with hb | rfl | rfl | rfl
  · obtain ⟨hsum', hunits'⟩ := units_add hl hb
    rw [le_iff_units (ne_nan ha) (ne_nan hb)] at h
    rw [le_iff_units hsum hsum', hunits, hunits']
    exact clamp_mono (roundUnits_mono (Int.add_le_add_left h _))
  · rw [add_infinity hl]
    exact le_infinity hsum
  · exact absurd h (between_infinities ha).2.2
  · exact absurd h (not_nan_le a).2

/-- **The terms of a finite sum are finite.** -/
theorem isFinite_of_add (h : isFinite (x + y) = true) :
    isFinite x = true ∧ isFinite y = true :=
  isFinite_of_add_unpacked (isFinite_of_pack h)

/-- **The factors of a finite product are finite.** -/
theorem isFinite_of_mul (h : isFinite (x * y) = true) :
    isFinite x = true ∧ isFinite y = true :=
  isFinite_of_mul_unpacked (isFinite_of_pack h)

theorem one_mul (y : Float) : 1 * y = y := by
  have hmodel : (1 * y).toModel = Float.Model.pack (Float.Model.UnpackedFloat.mul .binary64
      (.finite .positive (2 ^ 52) (-52) (Nat.two_pow_pos 52)) y.toModel.unpack) := rfl
  rw [mul_one_unpacked .positive (canonical_unpack y), pack_toModel] at hmodel
  exact congrArg Float.ofModel hmodel

theorem neg_one_mul (y : Float) : -1 * y = -y := by
  have hmodel : (-1 * y).toModel = Float.Model.pack (Float.Model.UnpackedFloat.mul .binary64
      (.finite .negative (2 ^ 52) (-52) (Nat.two_pow_pos 52)) y.toModel.unpack) := rfl
  rw [mul_one_unpacked .negative (canonical_unpack y)] at hmodel
  exact congrArg Float.ofModel hmodel

/-- What is added to a number and is not negative does not make it smaller. -/
theorem le_add (hl : isFinite l = true) (hy : 0 ≤ y) : l ≤ l + y := by
  have hzero : (-0 : Float) ≤ y := le_trans (by decide) hy
  have hsum := add_le_add_left hl (by decide) hzero
  rwa [add_negativeZero] at hsum

theorem isFinite_neg (y : Float) : isFinite (-y) = isFinite y := by
  have hneg : isFinite (-y) = (-y).toModel.unpack.isFinite := rfl
  have hself : isFinite y = y.toModel.unpack.isFinite := rfl
  rw [hneg, hself, unpack_neg]
  cases y.toModel.unpack <;> rfl

theorem units_neg (y : Float) : units (-y).toModel.unpack = -units y.toModel.unpack := by
  rw [unpack_neg]
  cases y.toModel.unpack with
  | notANumber => rfl
  | infinity s => exact apply_neg s _
  | zero s => rfl
  | finite s m e hm => exact apply_neg s _

theorem sub_eq_add_neg (x y : Float) : x - y = x + -y := by
  have hsub : (x - y).toModel = Float.Model.pack
      (Float.Model.UnpackedFloat.sub .binary64 x.toModel.unpack y.toModel.unpack) := rfl
  have hadd : (x + -y).toModel = Float.Model.pack
      (Float.Model.UnpackedFloat.add .binary64 x.toModel.unpack (-y).toModel.unpack) := rfl
  rw [unpack_neg, ← sub_unpacked, ← hsub] at hadd
  exact congrArg Float.ofModel hadd.symm

/-- What is taken away from a number and is not negative does not make it larger. -/
theorem add_neg_le (hu : isFinite u = true) (hy : isFinite y = true) (hpos : 0 ≤ y) :
    u + -y ≤ u := by
  have hneg : isFinite (-y) = true := by rw [isFinite_neg, hy]
  have hzero : -y ≤ -0 := by
    rw [le_iff_units (by decide) (ne_nan hy)] at hpos
    rw [le_iff_units (ne_nan hneg) (by decide), units_neg]
    exact Int.neg_le_neg hpos
  have hsum := add_le_add_left hu hneg hzero
  rwa [add_negativeZero] at hsum

end Doubles

end LinearProgram.Double
