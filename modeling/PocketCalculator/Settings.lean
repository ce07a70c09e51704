import PocketCalculator.Text.Blank

/-!
# Settings of a calculator

Settings are valid if something is shown for an error and the keys for multiplication and division
type two different characters that mean nothing else in an expression or a number.
-/

namespace PocketCalculator

open Text

/-- What the owner of a calculator can choose. -/
structure Settings where
  /-- Shown in place of a result that does not exist. -/
  errorText : String := "Error"
  /-- Typed by the key for multiplication. -/
  multiplyGlyph : Char := 'x'
  /-- Typed by the key for division. -/
  divideGlyph : Char := '÷'
  /-- The most characters that the input line takes; zero stands for any number. -/
  inputLimit : UInt64 := 0
  deriving DecidableEq, Repr

namespace Settings

/-- The settings with a glyph of their own. -/
inductive GlyphField where
  | multiply
  | divide
  deriving DecidableEq, Repr

/-- What makes settings invalid. -/
inductive Fault where
  /-- The error text is empty or blank. -/
  | emptyErrorText
  /-- A glyph already has a meaning in expressions or numbers. -/
  | reservedGlyph (field : GlyphField) (glyph : Char)
  /-- Both glyphs are the same. -/
  | sameGlyphs
  deriving DecidableEq, Repr

/-- The name of a setting with a glyph. -/
def GlyphField.name : GlyphField → String
  | multiply => "multiply_glyph"
  | divide => "divide_glyph"

/-- The fault in words. -/
def Fault.message : Fault → String
  | emptyErrorText => "error_text must not be empty"
  | reservedGlyph field glyph =>
    field.name ++ " '" ++ glyph.toString ++ "' collides with expression syntax"
  | sameGlyphs => "multiply_glyph and divide_glyph must differ"

/-- Whether a character has a meaning in expressions or numbers. -/
def isReserved (c : Char) : Bool :=
  c.isDigit || isBlank c || ".()+-*/eE".toList.contains c

/-- The first fault of the settings, if they have any. -/
def fault? (s : Settings) : Option Fault :=
  if s.errorText.toList.all isBlank then some .emptyErrorText
  else if isReserved s.multiplyGlyph then some (.reservedGlyph .multiply s.multiplyGlyph)
  else if isReserved s.divideGlyph then some (.reservedGlyph .divide s.divideGlyph)
  else if s.multiplyGlyph = s.divideGlyph then some .sameGlyphs
  else none

end Settings

end PocketCalculator
