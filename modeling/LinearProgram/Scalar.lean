/-!
# Scalars

Every computation of this library is written over `Scalar`: the arithmetic operations, the order
tests, and nothing else. No law of arithmetic is assumed, so one definition serves both rounded
arithmetic (`Float`, where the order of operations decides the last bit) and exact arithmetic.

* `Scalar`: the operations of a tableau.
* `ExtendedScalar`: scalars with an infinity and a not-a-number value, the operations of a problem.
* `Scalar.sum`: the sum of a list, from the left and starting at `-0`.
-/

namespace LinearProgram

/-- **Scalars**: numbers to compute with. The comparisons are those the algorithms use; a value
that is not a number may compare false with everything, itself included. -/
class Scalar (K : Type) extends
    Zero K, One K, Neg K, Add K, Sub K, Mul K, Div K, LT K, LE K, BEq K where
  /-- The strict order can be tested. -/
  decidableLT : DecidableLT K
  /-- The order can be tested. -/
  decidableLE : DecidableLE K
  /-- Whether the value is a finite number. -/
  isFinite : K → Bool

attribute [reducible, instance] Scalar.decidableLT Scalar.decidableLE

/-- **Scalars with infinities**: `infinity` and its negation stand for absent bounds, and `nan`
for a number that does not exist. -/
class ExtendedScalar (K : Type) extends Scalar K where
  /-- The value above every finite number. -/
  infinity : K
  /-- The value that is not a number. -/
  nan : K

namespace Scalar

variable {K : Type} [Scalar K]

/-- The absolute value, for comparison with a tolerance. -/
def magnitude (x : K) : K := if x < 0 then -x else x

/-- The sum of a list, accumulated from the left. It starts at `-0`, which is neutral for rounded
addition too: a sum of only `-0` stays `-0`. -/
def sum (terms : List K) : K := terms.foldl (· + ·) (-0)

/-- The sum of products of two lists, as far as both reach. -/
def dot (a x : List K) : K := sum (List.zipWith (· * ·) a x)

/-- A list of `n` zeros. -/
def zeros (n : Nat) : List K := List.replicate n 0

/-- The list of length `n` that holds `x` at position `k` and zeros elsewhere. -/
def single (n k : Nat) (x : K) : List K := (zeros n).set k x

@[simp]
theorem length_zeros (n : Nat) : (zeros n : List K).length = n := by simp [zeros]

@[simp]
theorem length_single (n k : Nat) (x : K) : (single n k x).length = n := by simp [single]

end Scalar

namespace ExtendedScalar

variable {K : Type} [ExtendedScalar K]

/-- Whether the value is not a number: only such a value differs from itself. -/
def isNaN (x : K) : Bool := x != x

/-- Whether the value is one of the two infinities. -/
def isInfinite (x : K) : Bool := x == infinity || x == -infinity

end ExtendedScalar

/-- Double precision: binary64 numbers with IEEE comparisons, each operation rounded once. -/
instance : ExtendedScalar Float where
  decidableLT := inferInstance
  decidableLE := inferInstance
  isFinite := Float.isFinite
  infinity := 1.0 / 0.0
  nan := 0.0 / 0.0

end LinearProgram
