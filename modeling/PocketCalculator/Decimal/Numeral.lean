import PocketCalculator.Decimal.Basic

/-!
# Written decimals

A number is read from digits with at most one point and, after the mark `e` or `E`, an exponent,
with a sign in front of either, or from a word for infinity or NaN. Number text is what of this the
keys and the display write: it has neither words nor plus signs, and its mark is a capital `E`.
-/

namespace PocketCalculator.Decimal

open Binary64

/-- The number that one or more digits denote. -/
def natOfDigits? (cs : List Char) : Option Nat :=
  if !cs.isEmpty && cs.all Char.isDigit then some (Nat.ofDigitChars 10 cs 0) else none

/-- Whether there is a minus sign in front, and what follows a sign of either kind. -/
def splitSign : List Char → Bool × List Char
  | '-' :: cs => (true, cs)
  | '+' :: cs => (false, cs)
  | cs => (false, cs)

/-- The number that digits after an optional sign denote. -/
def intOfDigits? (cs : List Char) : Option Int :=
  let (negative, digits) := splitSign cs
  (natOfDigits? digits).map fun n : Nat => if negative then -(n : Int) else n

/-- Reads one or more digits with at most one point before, between or after them. -/
def ofPlain? (cs : List Char) : Option Decimal :=
  let whole := cs.takeWhile (· != '.')
  let fraction := (cs.dropWhile (· != '.')).drop 1
  (natOfDigits? (whole ++ fraction)).map fun n => ⟨n, -fraction.length⟩

/-- Whether a character is the mark of an exponent. -/
def isMark (c : Char) : Bool :=
  c == 'e' || c == 'E'

/-- Reads plain digits and, after the first mark if there is one, an exponent. -/
def ofScientific? (cs : List Char) : Option Decimal := do
  let d ← ofPlain? (cs.takeWhile (!isMark ·))
  match cs.dropWhile (!isMark ·) with
  | [] => some d
  | _ :: exponent =>
    let e ← intOfDigits? exponent
    some ⟨d.coefficient, d.exponent + e⟩

/-- The number that a word stands for, in letters of either case. -/
def floatOfWord? (negative : Bool) (cs : List Char) : Option Float :=
  let word := cs.map Char.toLower
  if word = "inf".toList ∨ word = "infinity".toList then some (ofWord negative infinity)
  else if word = "nan".toList then some (.ofBits 0x7FF8000000000000)
  else none

/-- The binary64 number nearest to a signed decimal, or the number that a signed word stands for. -/
def parseFloat? (cs : List Char) : Option Float :=
  let (negative, magnitude) := splitSign cs
  match ofScientific? magnitude with
  | some d => some (d.toFloat negative)
  | none => floatOfWord? negative magnitude

/-- A text without the minus sign in front of it. -/
def dropMinus : List Char → List Char
  | '-' :: cs => cs
  | cs => cs

/-- Whether a text is a lone number as keys and display write it: digits and points after an
optional minus sign and, after the first `E` if there is one, the digits of an exponent. -/
def isNumberText (cs : List Char) : Bool :=
  let mantissa := (dropMinus cs).takeWhile (· != 'E')
  let exponent := match (dropMinus cs).dropWhile (· != 'E') with
    | [] => none
    | _ :: digits => some (dropMinus digits)
  mantissa.any Char.isDigit && mantissa.all (fun c => c.isDigit || c == '.') &&
    exponent.all fun digits => !digits.isEmpty && digits.all Char.isDigit

/-- The number that a number text denotes. -/
def readFloat? (cs : List Char) : Option Float :=
  if isNumberText cs then parseFloat? cs else none

end PocketCalculator.Decimal
