import PocketCalculator.Decimal.Shortest

/-!
# Numbers on the display

A number is shown with its shortest digits and at least one place after the point: in plain notation
from `0.001` up to, but not including, ten million, and as a digit, a point, further digits and a
power of ten after the mark `E` outside that range.
-/

namespace PocketCalculator.Display

open Binary64

/-- The least magnitude word above zero in plain notation, that of `0.001`. -/
def plainFrom : Nat := Decimal.nearestWord ⟨1, -3⟩

/-- The least magnitude word that is too large for plain notation, that of `10000000`. -/
def plainBelow : Nat := Decimal.nearestWord ⟨1, 7⟩

/-- Whether a magnitude word is shown in plain notation. -/
def isPlain (w : Nat) : Bool :=
  w == 0 || (plainFrom ≤ w && w < plainBelow)

/-- Whether the value of a magnitude word is a whole number. -/
def isWhole (w : Nat) : Bool :=
  units w % one == 0

/-- The whole number nearest to a quotient, the even one of two. -/
def roundDiv (num den : Nat) : Nat :=
  match compare (2 * (num % den)) den with
  | .lt => num / den
  | .eq => num / den + num / den % 2
  | .gt => num / den + 1

/-- The value of a magnitude word to one place. -/
def onePlace (w : Nat) : List Char :=
  let tenths := roundDiv (10 * units w) one
  Nat.toDigits 10 (tenths / 10) ++ '.' :: Nat.toDigits 10 (tenths % 10)

/-- A decimal without a power of ten: the whole part and, if there are any, the places after a
point. -/
def positional (d : Decimal) : List Char :=
  if 0 ≤ d.exponent then Nat.toDigits 10 (d.coefficient * 10 ^ d.exponent.toNat)
  else
    let places := (-d.exponent).toNat
    Nat.toDigits 10 (d.coefficient / 10 ^ places) ++
      '.' :: (Nat.toDigits 10 (d.coefficient % 10 ^ places)).leftpad places '0'

/-- Plain notation: a whole number has one place, every other number its shortest digits. -/
def plain (w : Nat) : List Char :=
  if isWhole w then onePlace w else positional (Decimal.shortest w)

/-- An exponent in digits, after a minus sign if it is negative. -/
def exponent (e : Int) : List Char :=
  if e < 0 then '-' :: Nat.toDigits 10 (-e).toNat else Nat.toDigits 10 e.toNat

/-- A decimal as one digit, the others, if there are any, after a point, and a power of ten. -/
def normalized (d : Decimal) : List Char :=
  let digits := Nat.toDigits 10 d.coefficient
  let places := digits.drop 1
  digits.take 1 ++ (if places.isEmpty then [] else '.' :: places) ++
    'E' :: exponent (d.exponent + places.length)

/-- Scientific notation: a zero is the only place of a digit that has no others after it. -/
def scientific (d : Decimal) : List Char :=
  let mantissa := (normalized d).takeWhile (· != 'E')
  if mantissa.contains '.' then normalized d
  else mantissa ++ '.' :: '0' :: (normalized d).dropWhile (· != 'E')

/-- The display text of a finite magnitude word. -/
def finite (w : Nat) : List Char :=
  if isPlain w then plain w else scientific (Decimal.shortest w)

/-- The display text of a number; a minus sign stands for a set sign bit. -/
def text (v : Float) : String :=
  let w := word v
  if infinity < w then "NaN"
  else
    let magnitude := if w = infinity then "Infinity".toList else finite w
    .ofList (if isNegative v then '-' :: magnitude else magnitude)

end PocketCalculator.Display
