import LinearProgram.Proofs.DoubleOrder
import LinearProgram.Proofs.NegativeZero

/-!
# Rounding

Every finite double is a whole number of units, where the unit is the smallest positive double. The
operations shift digits out of a mantissa and keep two bits to remember them by. What comes out is
the nearest number with 53 binary digits, and of two equally near ones the even one. So rounding is
a monotone function of the number of units.

* `evenRound`, `rounded`: rounding of whole numbers.
* `roundedMantissa_shiftRight`: the two bits are all that rounding needs.
* `Canonical`: unpacked numbers with as many digits as a double can have.
* `units`: numbers counted in units.
* `roundWithAccuracy_eq`: rounding is to round to 53 digits, then to carry.
* `round_units`, `roundWithAccuracy_canonical`: what rounding does to a number of units.
-/

namespace LinearProgram.Double

open Float.Model UnpackedFloat

section Whole

/-- **The nearest number to `n / 2 ^ k`**, the even one if two are equally near. -/
def evenRound (n k : ℕ) : ℕ :=
  if 2 * (n % 2 ^ k) < 2 ^ k then n / 2 ^ k
  else if 2 * (n % 2 ^ k) = 2 ^ k then n / 2 ^ k + n / 2 ^ k % 2
  else n / 2 ^ k + 1

variable {n n' k : ℕ}

theorem div_le_evenRound (n k : ℕ) : n / 2 ^ k ≤ evenRound n k := by
  unfold evenRound
  split
  · exact le_rfl
  split <;> omega

theorem evenRound_le_succ (n k : ℕ) : evenRound n k ≤ n / 2 ^ k + 1 := by
  unfold evenRound
  split
  · omega
  split <;> omega

theorem evenRound_mono (h : n ≤ n') : evenRound n k ≤ evenRound n' k := by
  have hdiv : n / 2 ^ k ≤ n' / 2 ^ k := Nat.div_le_div_right h
  rcases hdiv.lt_or_eq with hlt | heq
  · calc evenRound n k ≤ n / 2 ^ k + 1 := evenRound_le_succ n k
      _ ≤ n' / 2 ^ k := hlt
      _ ≤ evenRound n' k := div_le_evenRound n' k
  · -- the quotients are the same, so the remainders decide
    have hn := Nat.div_add_mod n (2 ^ k)
    have hn' := Nat.div_add_mod n' (2 ^ k)
    rw [heq] at hn
    have hmod : n % 2 ^ k ≤ n' % 2 ^ k := by omega
    unfold evenRound
    rw [heq]
    split_ifs <;> omega

/-- A multiple of `2 ^ k` is divided without a remainder. -/
theorem evenRound_mul (m k : ℕ) : evenRound (m * 2 ^ k) k = m := by
  have hpos := Nat.two_pow_pos k
  have hmod : m * 2 ^ k % 2 ^ k = 0 := Nat.mul_mod_left ..
  have hdiv : m * 2 ^ k / 2 ^ k = m := Nat.mul_div_cancel m hpos
  unfold evenRound
  rw [hmod, hdiv, if_pos (by omega)]

/-- Zeros that are shifted in and out again make no difference. -/
theorem evenRound_mul_pow (n k j : ℕ) : evenRound (n * 2 ^ j) (k + j) = evenRound n k := by
  have hpos := Nat.two_pow_pos j
  have hmod : n * 2 ^ j % 2 ^ (k + j) = n % 2 ^ k * 2 ^ j := by
    rw [Nat.pow_add, Nat.mul_mod_mul_right]
  have hdiv : n * 2 ^ j / 2 ^ (k + j) = n / 2 ^ k := by
    rw [Nat.pow_add, Nat.mul_div_mul_right _ _ hpos]
  have hlt : 2 * (n % 2 ^ k * 2 ^ j) < 2 ^ (k + j) ↔ 2 * (n % 2 ^ k) < 2 ^ k := by
    rw [← Nat.mul_assoc, Nat.pow_add]
    exact Nat.mul_lt_mul_right hpos
  have heq : 2 * (n % 2 ^ k * 2 ^ j) = 2 ^ (k + j) ↔ 2 * (n % 2 ^ k) = 2 ^ k := by
    rw [← Nat.mul_assoc, Nat.pow_add]
    exact Nat.mul_left_inj hpos.ne'
  unfold evenRound
  simp only [hmod, hdiv, hlt, heq]

/-- **The nearest number with 53 binary digits**, the even one if two are equally near. -/
def rounded (n : ℕ) : ℕ := evenRound n (n.log2 - 52) * 2 ^ (n.log2 - 52)

theorem log2_mul_two_pow {m : ℕ} (hm : m ≠ 0) (k : ℕ) : (m * 2 ^ k).log2 = m.log2 + k := by
  induction k with
  | zero => rw [Nat.pow_zero, Nat.mul_one, Nat.add_zero]
  | succ k ih =>
    have hne : m * 2 ^ k ≠ 0 := Nat.mul_ne_zero hm (Nat.two_pow_pos k).ne'
    rw [Nat.pow_succ', Nat.mul_left_comm, Nat.log2_two_mul hne, ih, Nat.add_assoc]

/-- A number that has no more digits stays as it is. -/
theorem rounded_mul_pow {m : ℕ} (hm : m < 2 ^ 53) (k : ℕ) : rounded (m * 2 ^ k) = m * 2 ^ k := by
  rcases Nat.eq_zero_or_pos m with rfl | hpos
  · rw [Nat.zero_mul]
    rfl
  · have hlog : m.log2 < 53 := (Nat.log2_lt hpos.ne').2 hm
    have hshift : (m * 2 ^ k).log2 = m.log2 + k := log2_mul_two_pow hpos.ne' k
    unfold rounded
    rw [hshift]
    have hsplit : m * 2 ^ k = m * 2 ^ (k - (m.log2 + k - 52)) * 2 ^ (m.log2 + k - 52) := by
      rw [Nat.mul_assoc, ← Nat.pow_add]
      congr 2
      omega
    rw [hsplit, evenRound_mul]

/-- Rounding does not go past a power of two. -/
theorem evenRound_le (h : n < 2 ^ (k + 53)) : evenRound n k ≤ 2 ^ 53 := by
  have hpow : (2 : ℕ) ^ (k + 53) = 2 ^ 53 * 2 ^ k := by rw [Nat.add_comm, Nat.pow_add]
  calc evenRound n k ≤ evenRound (2 ^ 53 * 2 ^ k) k := evenRound_mono (hpow ▸ h.le)
    _ = 2 ^ 53 := evenRound_mul ..

theorem le_evenRound (h : 2 ^ (k + 52) ≤ n) : 2 ^ 52 ≤ evenRound n k := by
  have hpow : (2 : ℕ) ^ (k + 52) = 2 ^ 52 * 2 ^ k := by rw [Nat.add_comm, Nat.pow_add]
  calc 2 ^ 52 = evenRound (2 ^ 52 * 2 ^ k) k := (evenRound_mul ..).symm
    _ ≤ evenRound n k := evenRound_mono (hpow ▸ h)

theorem lt_two_pow_shift (n : ℕ) : n < 2 ^ (n.log2 - 52 + 53) := by
  calc n < 2 ^ (n.log2 + 1) := Nat.lt_log2_self
    _ ≤ 2 ^ (n.log2 - 52 + 53) := Nat.pow_le_pow_right Nat.two_pos (by omega)

/-- **Rounding is monotone.** -/
theorem rounded_mono (h : n ≤ n') : rounded n ≤ rounded n' := by
  rcases Nat.eq_zero_or_pos n with rfl | hn
  · exact Nat.zero_le _
  have hlog : n.log2 ≤ n'.log2 := by
    rw [Nat.le_log2 (hn.trans_le h).ne']
    exact (Nat.log2_self_le hn.ne').trans h
  unfold rounded
  rcases (Nat.sub_le_sub_right hlog 52).lt_or_eq with hlt | heq
  · -- a longer number keeps its first digit, which the shorter one cannot reach beyond
    have hlow : 2 ^ (n'.log2 - 52 + 52) ≤ n' := by
      have hshift : n'.log2 - 52 + 52 = n'.log2 := by omega
      rw [hshift]
      exact Nat.log2_self_le (hn.trans_le h).ne'
    calc evenRound n (n.log2 - 52) * 2 ^ (n.log2 - 52)
        ≤ 2 ^ 53 * 2 ^ (n.log2 - 52) :=
          Nat.mul_le_mul_right _ (evenRound_le (lt_two_pow_shift n))
      _ = 2 ^ (n.log2 - 52 + 53) := by rw [Nat.add_comm, Nat.pow_add]
      _ ≤ 2 ^ (n'.log2 - 52 + 52) := Nat.pow_le_pow_right Nat.two_pos (by omega)
      _ = 2 ^ 52 * 2 ^ (n'.log2 - 52) := by rw [Nat.add_comm, Nat.pow_add]
      _ ≤ evenRound n' (n'.log2 - 52) * 2 ^ (n'.log2 - 52) :=
          Nat.mul_le_mul_right _ (le_evenRound hlow)
  · rw [heq]
    exact Nat.mul_le_mul_right _ (evenRound_mono h)

end Whole

section Bits

/-- **The bits kept of the digits that are shifted out**: whether they make up at least one half,
and whether they are anything else than nothing and one half. -/
structure Residue (n k : ℕ) (em : ExtendedMantissa) : Prop where
  mantissa : em.mantissa = n / 2 ^ k
  roundBit : em.roundBit = true ↔ 2 ^ k ≤ 2 * (n % 2 ^ k)
  stickyBit : em.stickyBit = true ↔ 2 * (n % 2 ^ k) % 2 ^ k ≠ 0

theorem Residue.shiftRightOne {n k : ℕ} {em : ExtendedMantissa} (h : Residue n k em) :
    Residue n (k + 1) em.shiftRightOne := by
  have hlt : n % 2 ^ k < 2 ^ k := Nat.mod_lt _ (Nat.two_pow_pos k)
  -- the next digit goes before those that are out already
  have hmod : n % 2 ^ (k + 1) = n % 2 ^ k + 2 ^ k * (n / 2 ^ k % 2) := by
    rw [Nat.pow_succ, Nat.mod_mul]
  have hpow : (2 : ℕ) ^ (k + 1) = 2 * 2 ^ k := by rw [Nat.pow_succ, Nat.mul_comm]
  have hdigit : n / 2 ^ k % 2 = 0 ∨ n / 2 ^ k % 2 = 1 := by omega
  refine ⟨?_, ?_, ?_⟩
  · rw [Nat.pow_succ, ← Nat.div_div_eq_div_mul, ← h.mantissa]
    rfl
  · have hbit : em.shiftRightOne.roundBit = (em.mantissa % 2 != 0) := rfl
    rw [hbit, h.mantissa, hmod, hpow, bne_iff_ne]
    rcases hdigit with hd | hd <;> rw [hd] <;> omega
  · have hbit : em.shiftRightOne.stickyBit = (em.roundBit || em.stickyBit) := rfl
    have hrest : 2 * (n % 2 ^ (k + 1)) % 2 ^ (k + 1) = 2 * (n % 2 ^ k) := by
      rw [hmod, hpow, Nat.mul_mod_mul_left, Nat.add_mul_mod_self_left, Nat.mod_eq_of_lt hlt]
    rw [hbit, Bool.or_eq_true, h.roundBit, h.stickyBit, hrest]
    constructor
    · rintro (hround | hsticky) hzero
      · have hpos := Nat.two_pow_pos k
        omega
      · have hnone : n % 2 ^ k = 0 := by omega
        rw [hnone] at hsticky
        exact hsticky (Nat.zero_mod _)
    · intro hne
      by_cases hhalf : 2 ^ k ≤ 2 * (n % 2 ^ k)
      · exact .inl hhalf
      · rw [Nat.mod_eq_of_lt (not_le.1 hhalf)]
        exact .inr hne

theorem residue_shiftRight (n k : ℕ) :
    Residue n k (ExtendedMantissa.ofMantissaAndAccuracy n .exact >>> k) := by
  induction k with
  | zero =>
    have hzero : n % 2 ^ 0 = 0 := Nat.mod_one n
    refine ⟨(Nat.div_one n).symm, ?_, ?_⟩
    · rw [hzero]
      exact iff_of_false nofun (by decide)
    · rw [hzero]
      exact iff_of_false nofun fun h => h rfl
  | succ k ih => exact ih.shiftRightOne

/-- **The two bits decide the rounding.** -/
theorem roundedMantissa_shiftRight (n k : ℕ) :
    (ExtendedMantissa.ofMantissaAndAccuracy n .exact >>> k).roundedMantissa = evenRound n k := by
  have h := residue_shiftRight n k
  have hlt : n % 2 ^ k < 2 ^ k := Nat.mod_lt _ (Nat.two_pow_pos k)
  generalize ExtendedMantissa.ofMantissaAndAccuracy n .exact >>> k = em at h
  obtain ⟨mantissa, roundBit, stickyBit⟩ := em
  obtain ⟨hm, hr, hs⟩ := h
  simp only at hm hr hs
  have hwhole : 2 ^ k ≤ 2 * (n % 2 ^ k) →
      2 * (n % 2 ^ k) % 2 ^ k = 2 * (n % 2 ^ k) - 2 ^ k := by
    intro hle
    rw [Nat.mod_eq_sub_mod hle, Nat.mod_eq_of_lt (by omega)]
  have hpart : 2 * (n % 2 ^ k) < 2 ^ k → 2 * (n % 2 ^ k) % 2 ^ k = 2 * (n % 2 ^ k) :=
    Nat.mod_eq_of_lt
  unfold evenRound
  rw [← hm]
  cases roundBit with
  | false =>
    have hless : 2 * (n % 2 ^ k) < 2 ^ k := not_le.1 fun hle => Bool.noConfusion (hr.2 hle)
    rw [if_pos hless]
    cases stickyBit <;> rfl
  | true =>
    have hle := hr.1 rfl
    rw [if_neg (not_lt.2 hle)]
    cases stickyBit with
    | false =>
      have hnone : ¬2 * (n % 2 ^ k) % 2 ^ k ≠ 0 := fun hne => Bool.noConfusion (hs.2 hne)
      rw [if_pos (by omega)]
      rfl
    | true =>
      have hsome := hs.1 rfl
      rw [if_neg (by omega)]
      rfl

end Bits

section Canonical

/-- **Canonical numbers**: mantissas of at most 53 digits, and no fewer unless the exponent is the
least one. -/
def Canonical : UnpackedFloat → Prop
  | .finite _ m e _ => (m < 2 ^ 53 ∧ -1074 ≤ e) ∧ (2 ^ 52 ≤ m ∨ e = -1074)
  | _ => True

/-- The number of units that a mantissa and an exponent stand for. -/
def unitsOf (m : ℕ) (e : ℤ) : ℕ := m * 2 ^ (e + 1074).toNat

/-- The least power of two that is too large for a double. -/
@[irreducible]
def limit : ℕ := unitsOf 1 1024

/-- **Numbers counted in units**, the smallest positive double being one. The infinities come right
after the finite numbers. -/
def units : UnpackedFloat → ℤ
  | .notANumber => 0
  | .infinity s => s.apply limit
  | .zero _ => 0
  | .finite s m e _ => s.apply (unitsOf m e)

/-- A mantissa with its first digit, which a normal number leaves out. -/
theorem toNat_append_one (b : BitVec 52) : (1#1 ++ b).toNat = 2 ^ 52 + b.toNat := by
  rw [BitVec.toNat_append, ← Nat.shiftLeft_add_eq_or_of_lt b.isLt]
  rfl

/-- What a double unpacks to is canonical, and not too large. -/
theorem unpack_canonical (b : BitVec Format.binary64.numBits) :
    Canonical (UnpackedFloat.unpack .binary64 b) ∧
      ∀ s m e hm, UnpackedFloat.unpack .binary64 b = .finite s m e hm → e ≤ 971 := by
  have hexponent : (Format.binary64.exponentBias : Int) +
      Format.binary64.mantissaBitsWithoutImplicit = 1075 := rfl
  unfold UnpackedFloat.unpack
  simp only [hexponent]
  split
  · split <;> exact ⟨trivial, nofun⟩
  next hones =>
  split
  · next hzero =>
    have hbiased : (unpackExponent b).toNat = 0 := by rw [hzero]; rfl
    split
    · exact ⟨trivial, nofun⟩
    · have hm : (unpackMantissa b).toNat < 2 ^ 52 := (unpackMantissa b).isLt
      refine ⟨⟨⟨by omega, by omega⟩, .inr (by omega)⟩, ?_⟩
      intro s m e hm' h
      obtain ⟨-, -, rfl⟩ := UnpackedFloat.finite.inj h
      omega
  · next hzero =>
    have hlt : (1#1 ++ unpackMantissa b).toNat < 2 ^ 53 := (1#1 ++ unpackMantissa b).isLt
    have hlow : 2 ^ 52 ≤ (1#1 ++ unpackMantissa b).toNat := by
      rw [toNat_append_one (unpackMantissa b)]
      exact Nat.le_add_right _ _
    have hbiased : (unpackExponent b).toNat ≠ 0 := fun h => hzero (BitVec.eq_of_toNat_eq h)
    have hbound : (unpackExponent b).toNat < 2 ^ 11 := (unpackExponent b).isLt
    have hmost : (unpackExponent b).toNat ≠ 2 ^ 11 - 1 := fun h => hones (BitVec.eq_of_toNat_eq h)
    refine ⟨⟨⟨hlt, by omega⟩, .inl hlow⟩, ?_⟩
    intro s m e hm' h
    obtain ⟨-, -, rfl⟩ := UnpackedFloat.finite.inj h
    omega

variable {m : ℕ} {e : ℤ}

/-- All digits of a mantissa but 53 are shifted out. -/
theorem shiftToTargetExponent_eq (he : -1074 ≤ e) :
    shiftToTargetExponent .binary64 m e .exact =
      (ExtendedMantissa.ofMantissaAndAccuracy m .exact >>> (m.log2 - 52),
        e + (m.log2 - 52 : ℕ)) := by
  have hshift : (max ((m.log2 : ℤ) + 1 + e - 53) (-1074) - e).toNat = m.log2 - 52 := by omega
  simp only [shiftToTargetExponent, shiftToExponent, totalExponent, targetExponent_eq, hshift]

/-- A rounded mantissa `n` with its exponent. Where rounding up has made one digit too many, that
digit is shifted out. -/
def carried (s : Sign) (n : ℕ) (e : ℤ) : UnpackedFloat :=
  if h : n / 2 ^ (n.log2 - 52) = 0 then .zero s
  else .finite s (n / 2 ^ (n.log2 - 52)) (e + (n.log2 - 52 : ℕ)) (Nat.pos_of_ne_zero h)

/-- **The carry changes nothing**: the digit that is shifted out is a zero. -/
theorem carried_units {n : ℕ} (s : Sign) (hpos : 0 < n) (hmost : n ≤ 2 ^ 53) (he : -1074 ≤ e)
    (hlow : 2 ^ 52 ≤ n ∨ e = -1074) :
    ∃ m' e' hm', carried s n e = .finite s m' e' hm' ∧ Canonical (.finite s m' e' hm') ∧
      unitsOf m' e' = unitsOf n e := by
  unfold carried
  rcases hmost.lt_or_eq with hlt | heq
  · have hlog : n.log2 - 52 = 0 := by
      have := (Nat.log2_lt hpos.ne').2 hlt
      omega
    simp only [hlog, Nat.pow_zero, Nat.div_one, Int.natCast_zero, Int.add_zero]
    exact ⟨n, e, hpos, dif_neg hpos.ne', ⟨⟨hlt, he⟩, hlow⟩, rfl⟩
  · have hlog : n.log2 - 52 = 1 := by rw [heq, Nat.log2_two_pow]
    have hhalf : n / 2 ^ 1 = 2 ^ 52 := by rw [heq, Nat.pow_div (by decide) Nat.two_pos]
    have hcount : (e + (1 : ℕ) + 1074).toNat = 1 + (e + 1074).toNat := by omega
    simp only [hlog, hhalf]
    refine ⟨2 ^ 52, _, Nat.two_pow_pos 52, dif_neg (Nat.two_pow_pos 52).ne',
      ⟨⟨by decide, by omega⟩, .inl le_rfl⟩, ?_⟩
    rw [unitsOf, unitsOf, hcount, heq, Nat.pow_add 2 1, ← Nat.mul_assoc, ← Nat.pow_add 2 52 1]

/-- **Rounding a mantissa** is to round it to 53 digits, then to carry. -/
theorem roundWithAccuracy_eq (s : Sign) (m : ℕ) (he : -1074 ≤ e) :
    roundWithAccuracy .binary64 s m e .exact =
      carried s (evenRound m (m.log2 - 52)) (e + (m.log2 - 52 : ℕ)) := by
  have he' : -1074 ≤ e + (m.log2 - 52 : ℕ) := by omega
  unfold roundWithAccuracy carried
  simp only [shiftToTargetExponent_eq he, roundedMantissa_shiftRight,
    shiftToTargetExponent_eq he', mantissa_shiftRight]
  rfl

/-- **Rounding a long mantissa** rounds its number of units. -/
theorem roundWithAccuracy_units (s : Sign) (hm : 0 < m) (he : -1074 ≤ e)
    (hfull : 52 ≤ m.log2 ∨ e = -1074) :
    ∃ m' e' hm', roundWithAccuracy .binary64 s m e .exact = .finite s m' e' hm' ∧
      Canonical (.finite s m' e' hm') ∧
        unitsOf m' e' = rounded (unitsOf m e) := by
  have hmost : evenRound m (m.log2 - 52) ≤ 2 ^ 53 := evenRound_le (lt_two_pow_shift m)
  have hlow : 2 ^ 52 ≤ evenRound m (m.log2 - 52) ∨ e + (m.log2 - 52 : ℕ) = -1074 := by
    by_cases hlog : 52 ≤ m.log2
    · refine .inl (le_evenRound ?_)
      rw [Nat.sub_add_cancel hlog]
      exact Nat.log2_self_le hm.ne'
    · exact .inr (by omega)
  have hpos : 0 < evenRound m (m.log2 - 52) := by
    refine (Nat.div_pos ?_ (Nat.two_pow_pos _)).trans_le (div_le_evenRound m _)
    exact (Nat.pow_le_pow_right Nat.two_pos (Nat.sub_le ..)).trans (Nat.log2_self_le hm.ne')
  have hunits : rounded (unitsOf m e) =
      unitsOf (evenRound m (m.log2 - 52)) (e + (m.log2 - 52 : ℕ)) := by
    have hdigits : m.log2 + (e + 1074).toNat - 52 = m.log2 - 52 + (e + 1074).toNat := by omega
    have hcount : (e + (m.log2 - 52 : ℕ) + 1074).toNat = m.log2 - 52 + (e + 1074).toNat := by omega
    rw [rounded, unitsOf, log2_mul_two_pow hm.ne', hdigits, evenRound_mul_pow, unitsOf, hcount]
  rw [roundWithAccuracy_eq s m he, hunits]
  exact carried_units s hpos hmost (by omega) hlow

/-- **Rounding** rounds the number of units. -/
theorem round_units (s : Sign) (hm : 0 < m) (he : -1074 ≤ e) :
    ∃ m' e' hm', UnpackedFloat.round .binary64 s m e = .finite s m' e' hm' ∧
      Canonical (.finite s m' e' hm') ∧
        unitsOf m' e' = rounded (unitsOf m e) := by
  unfold UnpackedFloat.round decreaseExponent
  simp only [targetExponent_eq, totalExponent, Nat.shiftLeft_eq]
  set d := (e - max ((m.log2 : ℤ) + 1 + e - 53) (-1074)).toNat with hd
  have hlog := log2_mul_two_pow hm.ne' d
  have hpos : 0 < m * 2 ^ d := Nat.mul_pos hm (Nat.two_pow_pos d)
  have hsame : unitsOf (m * 2 ^ d) (e - d) = unitsOf m e := by
    rw [unitsOf, unitsOf, Nat.mul_assoc, ← Nat.pow_add]
    congr 2
    omega
  rw [← hsame]
  exact roundWithAccuracy_units s hpos (by omega) (by omega)

/-- **Canonical numbers stay as they are**, whatever zeros are appended to the mantissa. -/
theorem roundWithAccuracy_canonical {s : Sign} {hm : 0 < m} (h : Canonical (.finite s m e hm))
    (j : ℕ) : roundWithAccuracy .binary64 s (m * 2 ^ j) (e - j) .exact = .finite s m e hm := by
  obtain ⟨⟨hlt, he⟩, hlow⟩ := h
  have hlog : m.log2 < 53 := (Nat.log2_lt hm.ne').2 hlt
  have hlog' : 52 ≤ m.log2 ∨ e = -1074 := hlow.imp_left (Nat.le_log2 hm.ne').2
  have hshift : (max (((m.log2 + j : ℕ) : ℤ) + 1 + (e - j) - 53) (-1074) - (e - j)).toNat = j := by
    omega
  have hback : e - j + j = e := by omega
  have hnone : m.log2 - 52 = 0 := by omega
  have hfirst : shiftToTargetExponent .binary64 (m * 2 ^ j) (e - j) .exact =
      (ExtendedMantissa.ofMantissaAndAccuracy (m * 2 ^ j) .exact >>> j, e) := by
    simp only [shiftToTargetExponent, shiftToExponent, totalExponent, targetExponent_eq,
      log2_mul_two_pow hm.ne', hshift, hback]
  unfold roundWithAccuracy
  simp only [hfirst, roundedMantissa_shiftRight, evenRound_mul, shiftToTargetExponent_eq he, hnone,
    Int.natCast_zero, Int.add_zero]
  exact dif_neg hm.ne'

/-- A whole number of units, rounded. -/
def roundUnits (z : ℤ) : ℤ := z.sign * rounded z.natAbs

theorem roundUnits_mono {z z' : ℤ} (h : z ≤ z') : roundUnits z ≤ roundUnits z' := by
  unfold roundUnits
  rcases lt_trichotomy z 0 with hz | rfl | hz
  · rcases lt_trichotomy z' 0 with hz' | rfl | hz'
    · have hle : rounded z'.natAbs ≤ rounded z.natAbs := rounded_mono (by omega)
      rw [Int.sign_eq_neg_one_of_neg hz, Int.sign_eq_neg_one_of_neg hz']
      omega
    · rw [Int.sign_eq_neg_one_of_neg hz, Int.sign_zero]
      omega
    · rw [Int.sign_eq_neg_one_of_neg hz, Int.sign_eq_one_of_pos hz']
      omega
  · have hsign : 0 ≤ z'.sign := Int.sign_nonneg_iff.2 h
    rw [Int.sign_zero, Int.zero_mul]
    exact Int.mul_nonneg hsign (Int.natCast_nonneg _)
  · have hle : rounded z.natAbs ≤ rounded z'.natAbs := rounded_mono (by omega)
    rw [Int.sign_eq_one_of_pos hz, Int.sign_eq_one_of_pos (hz.trans_le h)]
    omega

/-- **Making a signed whole number a number of 53 digits** rounds its number of units. -/
theorem normalize_units (M : ℤ) (he : -1074 ≤ e) (s : Sign) :
    let w := UnpackedFloat.normalize .binary64 M e s
    Canonical w ∧ w.isFinite = true ∧ units w = roundUnits (M * (2 ^ (e + 1074).toNat : ℕ)) := by
  have hpow : (0 : ℤ) < (2 ^ (e + 1074).toNat : ℕ) := Int.natCast_pos.2 (Nat.two_pow_pos _)
  have hcount : M.natAbs * 2 ^ (e + 1074).toNat = unitsOf M.natAbs e := rfl
  unfold UnpackedFloat.normalize roundUnits
  rw [Int.sign_mul, Int.sign_eq_one_of_pos hpow, Int.natAbs_mul, Int.natAbs_natCast, hcount]
  split
  · next hlt =>
    have hneg := Int.compare_eq_lt.1 hlt
    have habs : (-M).toNat = M.natAbs := by omega
    rw [habs]
    obtain ⟨m', e', hm', heq, hcanonical, hunits⟩ :=
      round_units .negative (m := M.natAbs) (by omega) he
    rw [heq]
    refine ⟨hcanonical, rfl, ?_⟩
    simp only [units, Sign.apply, hunits, Int.sign_eq_neg_one_of_neg hneg]
    omega
  · next hzero =>
    obtain rfl := Int.compare_eq_eq.1 hzero
    exact ⟨trivial, rfl, by simp [units]⟩
  · next hgt =>
    have hpos := Int.compare_eq_gt.1 hgt
    have habs : M.toNat = M.natAbs := by omega
    rw [habs]
    obtain ⟨m', e', hm', heq, hcanonical, hunits⟩ :=
      round_units .positive (m := M.natAbs) (by omega) he
    rw [heq]
    refine ⟨hcanonical, rfl, ?_⟩
    simp only [units, Sign.apply, hunits, Int.sign_eq_one_of_pos hpos]
    omega

end Canonical

end LinearProgram.Double
