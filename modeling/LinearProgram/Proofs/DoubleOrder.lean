import Mathlib.Data.Prod.Lex
import LinearProgram.Proofs.Zero

/-!
# The order of doubles

Doubles are compared by their sign, then by their exponent, then by their mantissa. The infinities lie
beyond all finite numbers, the two zeros stand at the same place, and what is not a number stands
nowhere. So the order of doubles is that of their places.

* `Double.place`: where a number stands.
* `Double.compare_eq_place`, `Double.le_iff_place`: comparing numbers is comparing places.
* `Double.cases_value`: what a double can be.
* `Double.exists_ge_iff`, `Double.exists_le_iff`, `Double.exists_between_iff`,
  `Double.exists_beq_iff`: which sides leave room for a finite number.
-/

namespace LinearProgram.Double

section Places

open Float.Model UnpackedFloat

/-- **Where a number stands**: its side of zero, then its exponent, then its mantissa. -/
def place : UnpackedFloat → Option (ℤ ×ₗ ℤ ×ₗ ℤ)
  | .notANumber => none
  | .infinity s => some (toLex (s.apply 2, toLex (0, 0)))
  | .zero _ => some (toLex (0, toLex (0, 0)))
  | .finite s m e _ => some (toLex (s.apply 1, toLex (s.apply e, s.apply m)))

theorem compare_toLex (a b c a' b' c' : ℤ) :
    compare (toLex (a, toLex (b, c)) : ℤ ×ₗ ℤ ×ₗ ℤ) (toLex (a', toLex (b', c'))) =
      (compare a a').then ((compare b b').then (compare c c')) := rfl

theorem compare_neg (a b : ℤ) : compare (-a) (-b) = (compare a b).swap := by
  rcases lt_trichotomy a b with h | rfl | h
  · rw [Int.compare_eq_lt.2 h, Int.compare_eq_gt.2 (Int.neg_lt_neg h)]
    rfl
  · rw [Int.compare_eq_eq.2 rfl, Int.compare_eq_eq.2 rfl]
    rfl
  · rw [Int.compare_eq_gt.2 h, Int.compare_eq_lt.2 (Int.neg_lt_neg h)]
    rfl

theorem compare_natCast (m n : ℕ) : compare (m : ℤ) n = compare m n := by
  rcases lt_trichotomy m n with h | rfl | h
  · rw [Nat.compare_eq_lt.2 h, Int.compare_eq_lt.2 (Int.ofNat_lt.2 h)]
  · rw [Nat.compare_eq_eq.2 rfl, Int.compare_eq_eq.2 rfl]
  · rw [Nat.compare_eq_gt.2 h, Int.compare_eq_gt.2 (Int.ofNat_lt.2 h)]

/-- **Comparing numbers is comparing places.** -/
theorem compare_eq_place (u v : UnpackedFloat) :
    u.compare v = (place u).bind fun a => (place v).map (compare a) := by
  cases u with
  | notANumber => rfl
  | infinity s =>
    cases v with
    | notANumber => cases s <;> rfl
    | infinity s' => cases s <;> cases s' <;> rfl
    | zero s' => cases s <;> rfl
    | finite s' m' e' hm' => cases s <;> cases s' <;> rfl
  | zero s =>
    cases v with
    | notANumber => rfl
    | infinity s' => cases s' <;> rfl
    | zero s' => rfl
    | finite s' m' e' hm' => cases s' <;> rfl
  | finite s m e hm =>
    cases v with
    | notANumber => cases s <;> rfl
    | infinity s' => cases s <;> cases s' <;> rfl
    | zero s' => cases s <;> rfl
    | finite s' m' e' hm' =>
      -- only here the exponents and mantissas matter, and below zero they count the other way
      cases s <;> cases s'
      · simp only [UnpackedFloat.compare, place, Sign.apply, Option.bind_some, Option.map_some,
          compare_toLex, compare_neg, compare_natCast, Ordering.swap_then]
        rfl
      · rfl
      · rfl
      · simp only [UnpackedFloat.compare, place, Sign.apply, Option.bind_some, Option.map_some,
          compare_toLex, compare_natCast]
        rfl

/-- **The order of doubles is that of their places.** -/
theorem le_iff_place {x y : Float} :
    x ≤ y ↔ ∃ a ∈ place x.toModel.unpack, ∃ b ∈ place y.toModel.unpack, a ≤ b := by
  have hle : x ≤ y ↔ x.toModel.unpack.le y.toModel.unpack = true := by
    change Float.le x y = true ↔ _
    rw [Float.le, decide_eq_true_iff]
    rfl
  rw [hle, UnpackedFloat.le, compare_eq_place]
  cases place x.toModel.unpack with
  | none => simp
  | some a =>
    cases place y.toModel.unpack with
    | none => simp
    | some b => simpa [Ordering.isLE_iff_ne_gt] using compare_le_iff_le

/-- **The strict order of doubles is that of their places.** -/
theorem lt_iff_place {x y : Float} :
    x < y ↔ ∃ a ∈ place x.toModel.unpack, ∃ b ∈ place y.toModel.unpack, a < b := by
  have hlt : x < y ↔ x.toModel.unpack.lt y.toModel.unpack = true := by
    change Float.lt x y = true ↔ _
    rw [Float.lt, decide_eq_true_iff]
    rfl
  rw [hlt, UnpackedFloat.lt, compare_eq_place]
  cases place x.toModel.unpack with
  | none => simp
  | some a =>
    cases place y.toModel.unpack with
    | none => simp
    | some b => simp [compare_lt_iff_lt]

theorem le_trans {x y z : Float} (hxy : x ≤ y) (hyz : y ≤ z) : x ≤ z := by
  obtain ⟨a, ha, b, hb, hab⟩ := le_iff_place.1 hxy
  obtain ⟨b', hb', c, hc, hbc⟩ := le_iff_place.1 hyz
  obtain rfl := Option.mem_unique hb hb'
  exact le_iff_place.2 ⟨a, ha, c, hc, hab.trans hbc⟩

/-- A double is known by what it unpacks to. -/
theorem eq_of_unpack_eq {x y : Float} (h : x.toModel.unpack = y.toModel.unpack) : x = y := by
  have hmodel := pack_toModel x
  rw [h, pack_toModel] at hmodel
  exact congrArg Float.ofModel hmodel.symm

/-- **What a double can be**: finite, one of the two infinities, or not a number. -/
theorem cases_value (x : Float) :
    Scalar.isFinite x = true ∨ x = ExtendedScalar.infinity ∨ x = -ExtendedScalar.infinity ∨
      x = ExtendedScalar.nan := by
  cases h : x.toModel.unpack with
  | notANumber => exact .inr (.inr (.inr (eq_of_unpack_eq (h.trans rfl))))
  | infinity s =>
    cases s with
    | positive => exact .inr (.inl (eq_of_unpack_eq (h.trans rfl)))
    | negative => exact .inr (.inr (.inl (eq_of_unpack_eq (h.trans rfl))))
  | zero s => exact .inl (congrArg UnpackedFloat.isFinite h)
  | finite s m e hm => exact .inl (congrArg UnpackedFloat.isFinite h)

/-- **A finite number lies between the infinities**, and not at one of them. -/
theorem between_infinities {x : Float} (hx : Scalar.isFinite x = true) :
    (-ExtendedScalar.infinity ≤ x ∧ x ≤ ExtendedScalar.infinity) ∧
      ¬ExtendedScalar.infinity ≤ x ∧ ¬x ≤ -ExtendedScalar.infinity := by
  have hfinite : x.toModel.unpack.isFinite = true := hx
  have hpos : place (ExtendedScalar.infinity : Float).toModel.unpack =
      some (toLex (2, toLex (0, 0))) := rfl
  have hneg : place (-ExtendedScalar.infinity : Float).toModel.unpack =
      some (toLex (-2, toLex (0, 0))) := rfl
  simp only [le_iff_place, hpos, hneg]
  cases h : x.toModel.unpack with
  | notANumber => simp [h, UnpackedFloat.isFinite] at hfinite
  | infinity s => simp [h, UnpackedFloat.isFinite] at hfinite
  | zero s => simp [place, Prod.Lex.toLex_le_toLex]
  | finite s m e hm => cases s <;> simp [place, Sign.apply, Prod.Lex.toLex_le_toLex]

theorem le_self {x : Float} (hx : Scalar.isFinite x = true) : x ≤ x := by
  have hfinite : x.toModel.unpack.isFinite = true := hx
  rw [le_iff_place]
  cases h : x.toModel.unpack with
  | notANumber => simp [h, UnpackedFloat.isFinite] at hfinite
  | infinity s => simp [h, UnpackedFloat.isFinite] at hfinite
  | zero s => simp [place]
  | finite s m e hm => simp [place]

theorem not_nan_le (x : Float) : ¬ExtendedScalar.nan ≤ x ∧ ¬x ≤ ExtendedScalar.nan := by
  have hplace : place (ExtendedScalar.nan : Float).toModel.unpack = none := rfl
  simp [le_iff_place, hplace]

end Places

section Room

open ExtendedScalar Scalar

theorem isNaN_iff {x : Float} : isNaN x = true ↔ x = nan := by
  rw [isNaN, Float.bne_eq, Bool.not_eq_true', Float.beq_self_eq_false_iff]
  rfl

/-- Only zeros and what is not a number compare in another way than by being the same. -/
theorem beq_iff_eq {x v : Float} (hnan : v ≠ nan) (hpos : v ≠ 0) (hneg : v ≠ -0) :
    (x == v) = true ↔ x = v := by
  rw [Float.beq_iff_ne_nan_and_eq]
  constructor
  · rintro ⟨-, -, h | ⟨-, h⟩ | ⟨-, h⟩⟩
    · exact h
    · exact absurd h hneg
    · exact absurd h hpos
  · rintro rfl
    exact ⟨hnan, hnan, .inl rfl⟩

theorem beq_infinity_iff {x : Float} : (x == infinity) = true ↔ x = infinity :=
  beq_iff_eq (by decide) (by decide) (by decide)

theorem beq_neg_infinity_iff {x : Float} : (x == -infinity) = true ↔ x = -infinity :=
  beq_iff_eq (by decide) (by decide) (by decide)

/-- **A lower side leaves room** for a finite number unless it is positive infinity or not a
number. -/
theorem exists_ge_iff {l : Float} :
    (∃ x, isFinite x = true ∧ l ≤ x) ↔ l ≠ infinity ∧ l ≠ nan := by
  constructor
  · rintro ⟨x, hx, hle⟩
    refine ⟨?_, ?_⟩
    · rintro rfl
      exact (between_infinities hx).2.1 hle
    · rintro rfl
      exact (not_nan_le x).1 hle
  · rintro ⟨hinf, hnan⟩
    rcases cases_value l with h | h | h | h
    · exact ⟨l, h, le_self h⟩
    · exact absurd h hinf
    · have hzero : isFinite (0 : Float) = true := by decide
      exact ⟨0, hzero, h ▸ (between_infinities hzero).1.1⟩
    · exact absurd h hnan

/-- An upper side leaves room unless it is negative infinity or not a number. -/
theorem exists_le_iff {u : Float} :
    (∃ x, isFinite x = true ∧ x ≤ u) ↔ u ≠ -infinity ∧ u ≠ nan := by
  constructor
  · rintro ⟨x, hx, hle⟩
    refine ⟨?_, ?_⟩
    · rintro rfl
      exact (between_infinities hx).2.2 hle
    · rintro rfl
      exact (not_nan_le x).2 hle
  · rintro ⟨hinf, hnan⟩
    rcases cases_value u with h | h | h | h
    · exact ⟨u, h, le_self h⟩
    · have hzero : isFinite (0 : Float) = true := by decide
      exact ⟨0, hzero, h ▸ (between_infinities hzero).1.2⟩
    · exact absurd h hinf
    · exact absurd h hnan

/-- **Two sides leave room** between them if they are in order and neither is beyond all numbers. -/
theorem exists_between_iff {l u : Float} :
    (∃ x, isFinite x = true ∧ l ≤ x ∧ x ≤ u) ↔ l ≤ u ∧ l ≠ infinity ∧ u ≠ -infinity := by
  constructor
  · rintro ⟨x, hx, hl, hu⟩
    exact ⟨le_trans hl hu, (exists_ge_iff.1 ⟨x, hx, hl⟩).1, (exists_le_iff.1 ⟨x, hx, hu⟩).1⟩
  · rintro ⟨hle, hl, hu⟩
    rcases cases_value l with h | h | h | h
    · exact ⟨l, h, le_self h, hle⟩
    · exact absurd h hl
    · -- below there is no limit, so only the upper side counts
      have hnan : u ≠ nan := by
        rintro rfl
        exact (not_nan_le l).2 hle
      obtain ⟨x, hx, hxu⟩ := exists_le_iff.2 ⟨hu, hnan⟩
      exact ⟨x, hx, h ▸ (between_infinities hx).1.1, hxu⟩
    · exact absurd (h ▸ hle) (not_nan_le u).1

theorem isInfinite_iff {x : Float} : isInfinite x = true ↔ x = infinity ∨ x = -infinity := by
  rw [isInfinite, Bool.or_eq_true, beq_infinity_iff, beq_neg_infinity_iff]

/-- **A fixed value leaves room** for itself if it is finite. -/
theorem exists_beq_iff {v : Float} :
    (∃ x, isFinite x = true ∧ (x == v) = true) ↔ isInfinite v = false ∧ v ≠ nan := by
  rw [← Bool.not_eq_true, isInfinite_iff, not_or]
  constructor
  · rintro ⟨x, hx, hbeq⟩
    refine ⟨⟨?_, ?_⟩, (Float.beq_iff_ne_nan_and_eq.1 hbeq).2.1⟩
    · rintro rfl
      rw [beq_infinity_iff.1 hbeq] at hx
      exact absurd hx (by decide)
    · rintro rfl
      rw [beq_neg_infinity_iff.1 hbeq] at hx
      exact absurd hx (by decide)
  · rintro ⟨⟨hpos, hneg⟩, hnan⟩
    rcases cases_value v with h | h | h | h
    · exact ⟨v, h, Float.beq_self_iff.2 hnan⟩
    · exact absurd h hpos
    · exact absurd h hneg
    · exact absurd h hnan

end Room

end LinearProgram.Double
