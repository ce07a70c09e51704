import PocketCalculator.Binary64

/-!
# Decimals

A nonnegative decimal `coefficient * 10 ^ exponent`, and the binary64 number nearest to it.
-/

namespace PocketCalculator

open Binary64

/-- The number `coefficient * 10 ^ exponent`. -/
structure Decimal where
  coefficient : Nat
  exponent : Int
  deriving DecidableEq, Repr

namespace Decimal

/-- The numerator of a decimal in units of `2 ^ -1074`. -/
def numerator (d : Decimal) : Nat :=
  d.coefficient * 10 ^ d.exponent.toNat * 2 ^ 1074

/-- The denominator of a decimal, a power of ten. -/
def denominator (d : Decimal) : Nat :=
  10 ^ (-d.exponent).toNat

/-- The magnitude word nearest to a decimal. The powers of ten of exponents that are out of range
whatever the coefficient are not computed: `10 ^ n` is at least `2 ^ (3 * n)`. -/
def nearestWord (d : Decimal) : Nat :=
  if d.coefficient = 0 then 0
  else if 1024 ≤ 3 * d.exponent then infinity
  else if d.coefficient.log2 + 1076 ≤ -3 * d.exponent then 0
  else nearest d.numerator d.denominator

/-- The binary64 number nearest to a signed decimal. -/
def toFloat (d : Decimal) (negative : Bool) : Float :=
  ofWord negative d.nearestWord

end Decimal

end PocketCalculator
