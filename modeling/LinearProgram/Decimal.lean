/-!
# Decimal text of doubles

A double is written with the fewest digits that read back as the same double, in positional
notation whatever its size: `1e21` is written as a one with twenty-one zeros, and the least double
with 324 decimal places. Of several shortest texts the one nearest to the double is taken, and of
two equally near ones the larger.

* `Binade`: a positive double as `mantissa * 2 ^ exponent`, with the distance to its neighbours.
* `Binade.shortest`: the digits, found by exact integer arithmetic.
* `Decimal.text`: the text of a double.
-/

namespace LinearProgram

/-- **A positive double** `mantissa * 2 ^ exponent`. The next double below is half as far away as
the next one above if `narrow` is set. -/
structure Binade where
  mantissa : Nat
  exponent : Int
  narrow : Bool
  deriving Repr, DecidableEq

/-- A decimal number `digits * 10 ^ exponent`. -/
structure Decimal where
  digits : Nat
  exponent : Int
  deriving Repr, DecidableEq

namespace Binade

/-- The fraction bits of a double. -/
def fractionBits : Nat := 52

/-- The magnitude of a finite double other than zero, from its bits. -/
def ofBits (bits : Nat) : Binade :=
  let fraction := bits % Nat.pow 2 fractionBits
  let field := bits / Nat.pow 2 fractionBits % 2048
  if field = 0 then ⟨fraction, -1074, false⟩
  else ⟨fraction + Nat.pow 2 fractionBits, (field : Int) - 1075, fraction == 0 && 1 < field⟩

/-- The unit in which the double and the ends of its interval are integers: all are multiples of
`2 ^ -1076`. -/
def unitBits : Nat := 1076

/-- A quarter of the double's last place, in units. -/
def quarter (b : Binade) : Nat := Nat.pow 2 (b.exponent + 1074).toNat

/-- The double, in units. -/
def value (b : Binade) : Nat := 4 * b.mantissa * b.quarter

/-- The lower end of the reals that round to the double, in units. -/
def low (b : Binade) : Nat := (4 * b.mantissa - if b.narrow then 1 else 2) * b.quarter

/-- The upper end of the reals that round to the double, in units. -/
def high (b : Binade) : Nat := (4 * b.mantissa + 2) * b.quarter

/-- Whether `numerator / denominator` units round to the double. A tie goes to the even mantissa,
so the ends belong to the interval of an even one. -/
def contains (b : Binade) (numerator denominator : Nat) : Bool :=
  if b.mantissa % 2 = 0 then
    b.low * denominator ≤ numerator && numerator ≤ b.high * denominator
  else
    b.low * denominator < numerator && numerator < b.high * denominator

/-- The power `10 ^ exponent` as a fraction of units. -/
def powerOfTen (exponent : Int) : Nat × Nat :=
  (Nat.pow 10 exponent.toNat * Nat.pow 2 unitBits, Nat.pow 10 (-exponent).toNat)

/-- The multiple of `10 ^ exponent` that rounds to the double and is nearest to it, if one rounds
to it. Only the two multiples around the double can be that. -/
def nearestMultiple? (b : Binade) (exponent : Int) : Option Decimal :=
  let (numerator, denominator) := powerOfTen exponent
  let target := b.value * denominator
  let below := target / numerator
  let above := below + 1
  let hitsBelow := b.contains (below * numerator) denominator
  let hitsAbove := b.contains (above * numerator) denominator
  if hitsAbove && (!hitsBelow || above * numerator - target ≤ target - below * numerator) then
    some ⟨above, exponent⟩
  else if hitsBelow then some ⟨below, exponent⟩
  else none

/-- The number of decimal digits of `n`. -/
def digitCount (n : Nat) : Nat := (Nat.toDigits 10 n).length

/-- A number of decimal places after which the least double has an integer part. -/
def leadingPlaces : Nat := 400

/-- The exponent of the first decimal digit of the double. -/
def leadingExponent (b : Binade) : Int :=
  (digitCount (b.value * Nat.pow 10 leadingPlaces / Nat.pow 2 unitBits) : Int) - leadingPlaces - 1

/-- The double itself as a decimal: a power of one half has as many decimal places. -/
def exact (b : Binade) : Decimal :=
  ⟨b.mantissa * Nat.pow 2 b.exponent.toNat * Nat.pow 5 (-b.exponent).toNat, min b.exponent 0⟩

/-- The first hit on ever finer grids, from the power `10 ^ exponent` downwards. After the given
number of grids the double itself is taken. -/
def search (b : Binade) (exponent : Int) : Nat → Decimal
  | 0 => b.exact
  | grids + 1 => (b.nearestMultiple? exponent).getD (b.search (exponent - 1) grids)

/-- **The shortest decimal that rounds to the double.** Seventeen digits always suffice. -/
def shortest (b : Binade) : Decimal := b.search b.leadingExponent 17

end Binade

namespace Decimal

/-- Digits with a decimal point before the last `places` of them. Zeros at the end are dropped, and
the point with them. -/
def pointed (digits : List Char) (places : Nat) : List Char :=
  let padded := List.replicate (places + 1 - digits.length) '0' ++ digits
  let whole := padded.take (padded.length - places)
  let fraction := (padded.drop (padded.length - places)).reverse.dropWhile (· == '0')
  if fraction.isEmpty then whole else whole ++ '.' :: fraction.reverse

/-- The positional text of a decimal number. -/
def positional (d : Decimal) : List Char :=
  let digits := Nat.toDigits 10 d.digits
  if 0 ≤ d.exponent then digits ++ List.replicate d.exponent.toNat '0'
  else pointed digits (-d.exponent).toNat

/-- **The text of a double.** -/
def text (x : Float) : String :=
  let bits := x.toBits.toNat
  let magnitude := bits % Nat.pow 2 63
  let sign := if bits < Nat.pow 2 63 then "" else "-"
  if 2047 * Nat.pow 2 Binade.fractionBits < magnitude then "NaN"
  else if magnitude = 2047 * Nat.pow 2 Binade.fractionBits then sign ++ "inf"
  else if magnitude = 0 then sign ++ "0"
  else sign ++ String.ofList (Binade.ofBits magnitude).shortest.positional

end Decimal

end LinearProgram
