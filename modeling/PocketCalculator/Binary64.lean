/-!
# Binary64 numbers by magnitude

The word of a binary64 number without its sign bit is its *magnitude word*. In increasing order the
finite magnitudes have the words `0, 1, 2, …`, and the next word, `infinity`, is that of infinity;
all words above it are NaNs. Every finite magnitude is a whole number of units of `2 ^ -1074`, so
exact arithmetic on magnitudes is arithmetic on natural numbers.

`units` gives the value of a word, `floorWord` and `nearest` go the other way.
-/

namespace PocketCalculator.Binary64

/-- Powers of natural numbers are the built-in ones, also next to a library of monoids. -/
@[default_instance 20000]
instance (priority := 20000) natPow : Pow Nat Nat := instPowNat

/-- The magnitude word of infinity. -/
def infinity : Nat := 0x7FF0000000000000

/-- The value of a magnitude word, in units of `2 ^ -1074`. -/
def units (w : Nat) : Nat :=
  let e := w / 2 ^ 52 - 1
  (w - e * 2 ^ 52) * 2 ^ e

/-- The number of units in one. -/
@[irreducible]
def one : Nat := 2 ^ 1074

/-- The last word whose value is at most `n` units. -/
def floorWord (n : Nat) : Nat :=
  let e := n.log2 - 52
  e * 2 ^ 52 + n / 2 ^ e

/-- The word nearest to `num / den` units. Halfway between two words the even one is taken, and
everything from halfway past the last finite word on is infinity. -/
def nearest (num den : Nat) : Nat :=
  let w := floorWord (num / den)
  let w' := match compare (2 * num) (den * (units w + units (w + 1))) with
    | .lt => w
    | .eq => w + w % 2
    | .gt => w + 1
  min w' infinity

/-- The number with a given sign and magnitude word. -/
def ofWord (negative : Bool) (w : Nat) : Float :=
  .ofBits (.ofNat (if negative then 2 ^ 63 + w else w))

/-- Whether the sign bit is set, as it is in `-0.0`. -/
def isNegative (v : Float) : Bool :=
  2 ^ 63 ≤ v.toBits.toNat

/-- The magnitude word of a number. -/
def word (v : Float) : Nat :=
  v.toBits.toNat % 2 ^ 63

end PocketCalculator.Binary64
