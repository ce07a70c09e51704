import PocketCalculator.Decimal.Basic

/-!
# The shortest decimal of a binary64 number

The decimals that read back as a given magnitude word fill an interval, its `Band`. The shortest of
them is found on the coarsest grid of powers of ten that has a point in the band: there the point
nearest to the value is taken, and the upper one of two equally near points.

All positions are measured in `2 ^ -1075 * 10 ^ -324`, which makes the value of a word, the ends of
its band and the points of every grid whole numbers.
-/

namespace PocketCalculator.Decimal

open Binary64

/-- The positions that read back as one word: the value, and the two ends halfway to the values of
its neighbours, which belong to the band if the word is even. -/
structure Band where
  low : Nat
  value : Nat
  high : Nat
  closed : Bool

namespace Band

/-- The band of a nonzero finite magnitude word. -/
def ofWord (w : Nat) : Band where
  low := (units (w - 1) + units w) * 10 ^ 324
  value := 2 * units w * 10 ^ 324
  high := (units w + units (w + 1)) * 10 ^ 324
  closed := w % 2 == 0

/-- Whether a position is in the band. -/
def contains (b : Band) (x : Nat) : Bool :=
  if b.closed then b.low ≤ x && x ≤ b.high else b.low < x && x < b.high

/-- The multiple of `step` in the band that is nearest to the value. -/
def pick? (b : Band) (step : Nat) : Option Nat :=
  let below := b.value / step
  match b.contains (below * step), b.contains ((below + 1) * step) with
  | true, true => if 2 * b.value < (2 * below + 1) * step then some below else some (below + 1)
  | true, false => some below
  | false, true => some (below + 1)
  | false, false => none

/-- The distance of neighbours on grid `j`, the multiples of `10 ^ (j - 324)`. -/
def step (j : Nat) : Nat :=
  2 ^ 1075 * 10 ^ j

/-- The nearest decimal in the band on the coarsest of the grids up to `j` that has one. -/
def coarsest (b : Band) : Nat → Decimal
  | 0 => ⟨(b.pick? (step 0)).getD (b.value / step 0), -324⟩
  | j + 1 => match b.pick? (step (j + 1)) with
    | some c => ⟨c, (j + 1 : Nat) - 324⟩
    | none => b.coarsest j

end Band

/-- The shortest decimal that reads back as a finite magnitude word, and the nearest of these. No
finite band reaches grid 633, the multiples of `10 ^ 309`. -/
def shortest (w : Nat) : Decimal :=
  if w = 0 then ⟨0, 0⟩ else (Band.ofWord w).coarsest 632

end PocketCalculator.Decimal
