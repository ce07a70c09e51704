import PocketCalculator.Session
import PocketCalculator.Settings.Json
import PocketCalculator.Token.Call
import PocketCalculator.Proofs.Token.Lexeme
import PocketCalculator.Proofs.Token.Spelling
import PocketCalculator.Proofs.Token.Call
import PocketCalculator.Proofs.Evaluation.Infix
import PocketCalculator.Proofs.Evaluation.Postfix
import PocketCalculator.Proofs.Evaluation.Literals
import PocketCalculator.Proofs.Evaluation.Parentheses
import PocketCalculator.Proofs.Evaluation.Counts
import PocketCalculator.Proofs.Evaluation.Derivation
import PocketCalculator.Proofs.Evaluation.Failures
import PocketCalculator.Proofs.Evaluation.Balance
import PocketCalculator.Proofs.Evaluation.Glyphs
import PocketCalculator.Proofs.Evaluation.Numbers
import PocketCalculator.Proofs.Binary64.Bits
import PocketCalculator.Proofs.Binary64.Quotient
import PocketCalculator.Proofs.Binary64.Order
import PocketCalculator.Proofs.Binary64.Units
import PocketCalculator.Proofs.Decimal.NumberText
import PocketCalculator.Proofs.Decimal.Digits
import PocketCalculator.Proofs.Decimal.Nearest
import PocketCalculator.Proofs.Decimal.Shortest
import PocketCalculator.Proofs.Display.Reading
import PocketCalculator.Proofs.Glyphs
import PocketCalculator.Proofs.Json.Text
import PocketCalculator.Proofs.Json.Number
import PocketCalculator.Proofs.Json.Lexer
import PocketCalculator.Proofs.Json.Reader
import PocketCalculator.Proofs.Settings.RoundTrip
import PocketCalculator.Proofs.Settings.Members
import PocketCalculator.Proofs.Session.Press
import PocketCalculator.Proofs.Session.Plain
import PocketCalculator.Proofs.Session.ResultLine
import PocketCalculator.Proofs.Session.Percent
import PocketCalculator.Proofs.Session.InputLine
import PocketCalculator.Proofs.Evaluation.Blanks
import PocketCalculator.Proofs.Evaluation.Laziness
import PocketCalculator.Proofs.Evaluation.Wrapping
import PocketCalculator.Proofs.Token.Errors
import PocketCalculator.Proofs.Session.Errors
import PocketCalculator.Proofs.Display.Notation
import PocketCalculator.Proofs.Session.Hundredths
import PocketCalculator.Proofs.Session.Limit
import PocketCalculator.Proofs.Display.Layout
import PocketCalculator.Proofs.Display.Digits
import PocketCalculator.Proofs.Token.Literal
import PocketCalculator.Proofs.Evaluation.Segments
import PocketCalculator.Proofs.Session.Numbers
