import PocketCalculator.EvalError

/-!
# Binary operators

The four operators, their symbols and precedence, and what they compute.
-/

namespace PocketCalculator

/-- A binary operator on numbers. -/
inductive Operator where
  | add
  | subtract
  | multiply
  | divide
  deriving DecidableEq, Repr

namespace Operator

/-- All operators, those that bind less tightly first. -/
def all : List Operator := [add, subtract, multiply, divide]

/-- The symbol of an operator in an expression. -/
def symbol : Operator → Char
  | add => '+'
  | subtract => '-'
  | multiply => '*'
  | divide => '/'

/-- The operator that a character is the symbol of. -/
def ofSymbol? : Char → Option Operator
  | '+' => some add
  | '-' => some subtract
  | '*' => some multiply
  | '/' => some divide
  | _ => none

/-- How tightly an operator binds. -/
def precedence : Operator → Nat
  | add | subtract => 1
  | multiply | divide => 2

/-- The value of an operation. A divisor of zero is refused, whatever its sign. -/
def apply (op : Operator) (a b : Float) : Except EvalError Float :=
  match op with
  | add => .ok (a + b)
  | subtract => .ok (a - b)
  | multiply => .ok (a * b)
  | divide => if b == 0.0 then .error .divisionByZero else .ok (a / b)

/-- The operator that a character is the symbol of, or that there is none. -/
def ofSymbol (symbol : Char) : Except EvalError Operator :=
  match ofSymbol? symbol with
  | some op => .ok op
  | none => .error (.unsupportedOperator symbol)

/-- The value of the operation that a character is the symbol of. -/
def applySymbol (symbol : Char) (a b : Float) : Except EvalError Float := do
  (← ofSymbol symbol).apply a b

@[simp] theorem ofSymbol?_symbol (op : Operator) : ofSymbol? op.symbol = some op := by
  cases op <;> rfl

theorem ofSymbol?_eq_some_iff {c : Char} {op : Operator} :
    ofSymbol? c = some op ↔ c = op.symbol := by
  constructor
  · intro h
    unfold ofSymbol? at h
    split at h <;> simp_all only [Option.some.injEq, reduceCtorEq] <;> subst h <;> rfl
  · rintro rfl
    exact ofSymbol?_symbol op

end Operator

end PocketCalculator
