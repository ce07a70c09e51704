import PocketCalculator.Evaluation
import PocketCalculator.Settings

/-!
# Glyphs for operators

The keys for multiplication and division type glyphs that the settings choose, and the usual signs
`×` and `÷` are always understood as well. Before an expression is evaluated every glyph is replaced
by the symbol of its operator.
-/

namespace PocketCalculator

namespace Settings

/-- The usual signs, which are understood whatever the settings choose. -/
def usualGlyphs : List (Char × Char) :=
  [('×', Operator.multiply.symbol), ('÷', Operator.divide.symbol)]

/-- A table with one more entry at its end, unless the glyph has an entry already. -/
def addGlyph (table : List (Char × Char)) (entry : Char × Char) : List (Char × Char) :=
  if table.any (·.1 == entry.1) then table else table ++ [entry]

/-- The glyphs and the symbols they stand for. The settings win over the usual signs. -/
def glyphTable (s : Settings) : List (Char × Char) :=
  usualGlyphs.foldl addGlyph
    [(s.multiplyGlyph, Operator.multiply.symbol), (s.divideGlyph, Operator.divide.symbol)]

/-- The symbol that a character stands for, or the character itself. -/
def canonicalChar (s : Settings) (c : Char) : Char :=
  (s.glyphTable.lookup c).getD c

/-- A text with symbols in place of its glyphs. -/
def canonical (s : Settings) (text : String) : String :=
  .ofList (text.toList.map s.canonicalChar)

end Settings

/-- The value of an expression as it is displayed, with glyphs for operators. -/
def evaluateDisplayed (s : Settings) (text : String) : Except EvalError Float :=
  evaluate (s.canonical text)

end PocketCalculator
