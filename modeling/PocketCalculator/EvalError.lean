/-!
# Why an expression has no value

Every expression that has no value has exactly one cause for that, the first one that evaluation
comes upon from left to right.
-/

namespace PocketCalculator

/-- The causes for which an expression is refused. -/
inductive EvalError where
  /-- A character that starts no token. -/
  | invalidCharacter (c : Char)
  /-- A run of digits and points with two points or without a digit. -/
  | invalidLiteral (run : String)
  /-- A closing parenthesis without an opening one, or an opening one that is never closed. -/
  | unbalancedParentheses
  /-- An operator lacks an operand, or the operands left at the end are not exactly one. -/
  | malformedExpression
  /-- The right operand of a division is a zero of either sign. -/
  | divisionByZero
  /-- A symbol that names no operator. -/
  | unsupportedOperator (symbol : Char)
  deriving DecidableEq, Repr

namespace EvalError

/-- A short name of the cause, without the offending text. -/
def kind : EvalError → String
  | invalidCharacter _ => "invalid_character"
  | invalidLiteral _ => "invalid_number_literal"
  | unbalancedParentheses => "unbalanced_parentheses"
  | malformedExpression => "malformed_expression"
  | divisionByZero => "division_by_zero"
  | unsupportedOperator _ => "unsupported_operator"

/-- The cause in words. -/
def message : EvalError → String
  | invalidCharacter c => "Invalid character in expression: '" ++ c.toString ++ "'"
  | invalidLiteral run => "Invalid number literal: '" ++ run ++ "'"
  | unbalancedParentheses => "Unbalanced parentheses"
  | malformedExpression => "Malformed expression"
  | divisionByZero => "Cannot divide by zero"
  | unsupportedOperator symbol => "Unsupported operator: '" ++ symbol.toString ++ "'"

end EvalError

end PocketCalculator
