import PocketCalculator.Decimal.Numeral
import PocketCalculator.Operator
import PocketCalculator.Text.Blank

/-!
# Tokens of an expression

Characters are read from left to right, and blanks before a token are skipped. A run of digits and
points, as long as it goes, is one literal; every other character stands for itself. What cannot be
read is an item too, an error that uses up the run or character it is about, so that reading can go
on behind it.
-/

namespace PocketCalculator

open Text

/-- A token of an expression. -/
inductive Token where
  | number (value : Float)
  | operator (op : Operator)
  | openParen
  | closeParen
  deriving DecidableEq

namespace Token

/-- One reading step: a token, or what is wrong with the characters read. -/
abbrev Item := Except EvalError Token

/-- Whether a character can be part of a literal. -/
def inLiteral (c : Char) : Bool :=
  c.isDigit || c == '.'

/-- The item of a whole run of digits and points. Its points are counted before it is read. -/
def literal (run : List Char) : Item :=
  let points := run.count '.'
  if 1 < points ∨ run.length = points then .error (.invalidLiteral (.ofList run))
  else match Decimal.parseFloat? run with
    | some v => .ok (.number v)
    | none => .error (.invalidLiteral (.ofList run))

/-- The item of a character that is neither blank nor part of a literal. -/
def single (c : Char) : Item :=
  if c = '(' then .ok .openParen
  else if c = ')' then .ok .closeParen
  else if "+-*/".toList.contains c then (Operator.ofSymbol c).map .operator
  else .error (.invalidCharacter c)

/-- The next item and the characters behind it, unless only blanks are left. -/
def next? (cs : List Char) : Option (Item × List Char) :=
  match cs.dropWhile isBlank with
  | [] => none
  | c :: rest =>
    if inLiteral c then
      some (literal (c :: rest.takeWhile inLiteral), rest.dropWhile inLiteral)
    else some (single c, rest)

theorem length_lt_of_next?_eq_some {cs rest : List Char} {item : Item}
    (h : next? cs = some (item, rest)) : rest.length < cs.length := by
  have hle := (List.dropWhile_sublist (l := cs) isBlank).length_le
  unfold next? at h
  split at h
  · cases h
  next c r hr =>
    rw [hr, List.length_cons] at hle
    split at h <;> cases h
    · have := (List.dropWhile_sublist (l := r) inLiteral).length_le
      omega
    · omega

/-- All items of a text, errors among them. -/
def items (cs : List Char) : List Item :=
  match _h : next? cs with
  | none => []
  | some (item, rest) => item :: items rest
termination_by cs.length
decreasing_by exact length_lt_of_next?_eq_some _h

/-- The tokens up to the end of the text, or the first error on the way there, and the characters
that have not been read. -/
def readAll (cs : List Char) : Except EvalError (List Token) × List Char :=
  match _h : next? cs with
  | none => (.ok [], [])
  | some (.error e, rest) => (.error e, rest)
  | some (.ok t, rest) =>
    let (tokens, rest') := readAll rest
    (tokens.map (t :: ·), rest')
termination_by cs.length
decreasing_by exact length_lt_of_next?_eq_some _h

end Token

end PocketCalculator
