import LinearProgram.Scalar

/-!
# Exact scalars

Two kinds of scalars without rounding.

* `Rat` is a `Scalar`: the arithmetic of tableaus.
* `Exact` is an `ExtendedScalar`: a rational number, one of two infinities, or not a number. It
  follows the rules of binary64 arithmetic, except that no finite operation rounds or overflows
  and there is one zero. So a problem over `Exact` may still have infinite bounds.
-/

namespace LinearProgram

/-- Rational arithmetic: every number is finite. -/
instance : Scalar Rat where
  zero := 0
  one := 1
  decidableLT := inferInstance
  decidableLE := inferInstance
  isFinite _ := true

/-- **Exact extended numbers.** -/
inductive Exact where
  | finite (q : Rat)
  | posInf
  | negInf
  | nan
  deriving Repr, DecidableEq

namespace Exact

/-- The infinity with the sign of `q`; there is none for zero. -/
def infinityLike (q : Rat) : Exact := if 0 < q then posInf else if q < 0 then negInf else nan

/-- The negation. -/
def neg : Exact → Exact
  | finite q => finite (-q)
  | posInf => negInf
  | negInf => posInf
  | nan => nan

/-- The sum; opposite infinities have none. -/
def add : Exact → Exact → Exact
  | finite p, finite q => finite (p + q)
  | nan, _ | _, nan | posInf, negInf | negInf, posInf => nan
  | posInf, _ | _, posInf => posInf
  | negInf, _ | _, negInf => negInf

/-- The product; zero times an infinity has none. -/
def mul : Exact → Exact → Exact
  | finite p, finite q => finite (p * q)
  | nan, _ | _, nan => nan
  | posInf, finite q | finite q, posInf => infinityLike q
  | negInf, finite q | finite q, negInf => infinityLike (-q)
  | posInf, posInf | negInf, negInf => posInf
  | posInf, negInf | negInf, posInf => negInf

/-- The quotient; division by zero gives an infinity, and zero over zero has no quotient. -/
def div : Exact → Exact → Exact
  | finite p, finite q => if q = 0 then infinityLike p else finite (p / q)
  | nan, _ | _, nan => nan
  | finite _, posInf | finite _, negInf => finite 0
  | posInf, finite q => if q < 0 then negInf else posInf
  | negInf, finite q => if q < 0 then posInf else negInf
  | posInf, posInf | posInf, negInf | negInf, posInf | negInf, negInf => nan

/-- The strict order; nothing is related to `nan`. -/
def lt : Exact → Exact → Bool
  | finite p, finite q => p < q
  | finite _, posInf | negInf, finite _ | negInf, posInf => true
  | _, _ => false

/-- Equality as a comparison of numbers: `nan` differs from itself. -/
def eq : Exact → Exact → Bool
  | finite p, finite q => p == q
  | posInf, posInf | negInf, negInf => true
  | _, _ => false

/-- A finite number is finite; the other three values are not. -/
def isFinite : Exact → Bool
  | finite _ => true
  | _ => false

end Exact

instance : ExtendedScalar Exact where
  zero := .finite 0
  one := .finite 1
  neg := Exact.neg
  add := Exact.add
  sub a b := Exact.add a (Exact.neg b)
  mul := Exact.mul
  div := Exact.div
  lt a b := Exact.lt a b = true
  le a b := (Exact.lt a b || Exact.eq a b) = true
  beq := Exact.eq
  decidableLT a b := inferInstanceAs (Decidable (Exact.lt a b = true))
  decidableLE a b := inferInstanceAs (Decidable ((Exact.lt a b || Exact.eq a b) = true))
  isFinite := Exact.isFinite
  infinity := .posInf
  nan := .nan

end LinearProgram
