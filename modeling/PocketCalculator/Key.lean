import PocketCalculator.Operator
import PocketCalculator.Settings

/-!
# Keys

The keys of the calculator with their labels, and what the typing keys among them type. The keys for
multiplication and division type the glyphs of the settings and not the symbols of the operators.
-/

namespace PocketCalculator

/-- The labels of the keypad, row by row. -/
def keypad : List (List String) :=
  [["AC", "⌫", "00", "÷"],
    ["7", "8", "9", "x"],
    ["4", "5", "6", "-"],
    ["1", "2", "3", "+"],
    ["%", "0", ".", "="]]

/-- A key of the calculator. -/
inductive Key where
  /-- A digit; a number above nine is no digit and types nothing. -/
  | digit (d : Nat)
  | doubleZero
  | point
  | operator (op : Operator)
  | openParen
  | closeParen
  /-- Divides a number on the input line by a hundred. -/
  | percent
  /-- Deletes the last character. -/
  | delete
  /-- Clears all lines. -/
  | clear
  /-- Evaluates the input line. -/
  | equals
  deriving DecidableEq, Repr

namespace Key

/-- The key of a digit. -/
def ofDigit? (d : Nat) : Option Key :=
  if d ≤ 9 then some (.digit d) else none

/-- The key with a given label. -/
def ofLabel? : String → Option Key
  | "00" => some .doubleZero
  | "." => some .point
  | "+" => some (.operator .add)
  | "-" => some (.operator .subtract)
  | "x" | "×" | "*" => some (.operator .multiply)
  | "÷" | "/" => some (.operator .divide)
  | "(" => some .openParen
  | ")" => some .closeParen
  | "%" => some .percent
  | "⌫" => some .delete
  | "AC" => some .clear
  | "=" => some .equals
  | label => match label.toList with
    | [c] => if c.isDigit then some (.digit (c.toNat - '0'.toNat)) else none
    | _ => none

/-- What a key types at the end of the input line, if it is a typing key. -/
def typed? (s : Settings) : Key → Option String
  | .digit d => if d ≤ 9 then some (.singleton d.digitChar) else none
  | .doubleZero => some "00"
  | .point => some "."
  | .operator .multiply => some (.singleton s.multiplyGlyph)
  | .operator .divide => some (.singleton s.divideGlyph)
  | .operator op => some (.singleton op.symbol)
  | .openParen => some "("
  | .closeParen => some ")"
  | .percent | .delete | .clear | .equals => none

end Key

end PocketCalculator
