import PocketCalculator.Token

/-!
# Evaluation of expressions

An expression is evaluated in one pass over its items with two stacks, one of operands and one of
operators and opening parentheses that are still pending. An operator is applied as soon as it is
known that nothing binds more tightly to its right operand: before an operator that does not, at a
closing parenthesis and at the end. The first error ends the evaluation.
-/

namespace PocketCalculator

/-- What waits on the operator stack. -/
inductive Pending where
  | openParen
  | operator (op : Operator)
  deriving DecidableEq, Repr

/-- Whether a pending entry is applied before `incoming` is pushed. A parenthesis is not, and of two
operators of one precedence the left one comes first. -/
def Pending.precedes (top : Pending) (incoming : Operator) : Bool :=
  match top with
  | .openParen => false
  | .operator op => incoming.precedence ≤ op.precedence

/-- The operands read or computed so far and the entries that wait for an operand to their right,
both with the newest first. -/
structure Stacks where
  operands : List Float
  pending : List Pending

namespace Stacks

/-- Applies a pending entry to the two newest operands. -/
def applyPending (operands : List Float) : Pending → Except EvalError (List Float)
  | .openParen => .error .unbalancedParentheses
  | .operator op => match operands with
    | b :: a :: rest => (op.apply a b).map (· :: rest)
    | _ => .error .malformedExpression

/-- Applies pending entries, the newest first, as long as they satisfy `p`. -/
def unwind (p : Pending → Bool) (operands : List Float) :
    List Pending → Except EvalError Stacks
  | [] => .ok ⟨operands, []⟩
  | top :: rest =>
    if p top then do unwind p (← applyPending operands top) rest
    else .ok ⟨operands, top :: rest⟩

/-- Takes in the next token. -/
def step (s : Stacks) : Token → Except EvalError Stacks
  | .number v => .ok { s with operands := v :: s.operands }
  | .openParen => .ok { s with pending := .openParen :: s.pending }
  | .closeParen => do
    let s ← unwind (· ≠ .openParen) s.operands s.pending
    match s.pending with
    | [] => .error .unbalancedParentheses
    | _ :: rest => .ok { s with pending := rest }
  | .operator op => do
    let s ← unwind (·.precedes op) s.operands s.pending
    .ok { s with pending := .operator op :: s.pending }

/-- Takes in the next item of a text. -/
def stepItem (s : Stacks) (item : Token.Item) : Except EvalError Stacks := do
  s.step (← item)

/-- Applies all that is pending and gives the one operand that is left. -/
def finish (s : Stacks) : Except EvalError Float := do
  match (← unwind (fun _ => true) s.operands s.pending).operands with
  | [v] => .ok v
  | _ => .error .malformedExpression

end Stacks

/-- The value of a sequence of items. -/
def evaluateItems (items : List Token.Item) : Except EvalError Float := do
  (← items.foldlM Stacks.stepItem ⟨[], []⟩).finish

/-- The value of an expression in numbers, `+`, `-`, `*`, `/` and parentheses. -/
def evaluate (expression : String) : Except EvalError Float :=
  evaluateItems (Token.items expression.toList)

end PocketCalculator
