import PocketCalculator.Proofs.Evaluation.Stacks

/-!
# Evaluation by way of a postfix program

An expression is translated into a program in postfix order by looking at its items and the pending
entries only, and the program is run on a stack of operands afterwards. The one-pass evaluation
gives the same outcome, the same error included (`foldlM_stepItem_eq`): what is popped when does not
depend on operands, and errors are met in program order.
-/

namespace PocketCalculator
open Token (Item)

namespace Postfix

/-- An instruction of a postfix program. -/
inductive Instruction where
  | push (v : Float)
  | operate (op : Operator)
  | fail (e : EvalError)

/-! ## Translation -/

/-- Pops pending operators that satisfy `p`, up to the first entry that is none of them, and emits
an instruction for each. -/
def popWhile (p : Operator → Bool) : List Pending → List Instruction × List Pending
  | .operator op :: pending =>
    if p op then
      let (program, kept) := popWhile p pending
      (.operate op :: program, kept)
    else ([], .operator op :: pending)
  | pending => ([], pending)

/-- The program for items that are read while entries are pending. -/
def compile (pending : List Pending) : List Item → List Instruction
  | [] =>
    let (program, kept) := popWhile (fun _ => true) pending
    program ++ match kept with
      | [] => []
      | _ :: _ => [.fail .unbalancedParentheses]
  | .error e :: _ => [.fail e]
  | .ok (.number v) :: items => .push v :: compile pending items
  | .ok .openParen :: items => compile (.openParen :: pending) items
  | .ok .closeParen :: items =>
    let (program, kept) := popWhile (fun _ => true) pending
    program ++ match kept with
      | [] => [.fail .unbalancedParentheses]
      | _ :: kept => compile kept items
  | .ok (.operator op) :: items =>
    let (program, kept) := popWhile (fun top => op.precedence ≤ top.precedence) pending
    program ++ compile (.operator op :: kept) items

/-! ## Execution -/

/-- The operands after an instruction. -/
def exec (operands : List Float) : Instruction → Except EvalError (List Float)
  | .push v => .ok (v :: operands)
  | .operate op =>
    match operands with
    | b :: a :: rest => do .ok ((← op.apply a b) :: rest)
    | _ => .error .malformedExpression
  | .fail e => .error e

/-- The only operand. -/
def sole : List Float → Except EvalError Float
  | [v] => .ok v
  | _ => .error .malformedExpression

/-- The outcome of a program that starts on given operands. -/
def runFrom (operands : List Float) (program : List Instruction) : Except EvalError Float := do
  sole (← program.foldlM exec operands)

/-- The outcome of a program. -/
def run (program : List Instruction) : Except EvalError Float :=
  runFrom [] program

variable {p : Pending → Bool} {operands : List Float} {pending : List Pending}

@[simp] theorem runFrom_append (program program' : List Instruction) :
    runFrom operands (program ++ program') =
      program.foldlM exec operands >>= (runFrom · program') := by
  simp only [runFrom, List.foldlM_append, bind_assoc]

@[simp] theorem runFrom_cons (i : Instruction) (program : List Instruction) :
    runFrom operands (i :: program) = exec operands i >>= (runFrom · program) := by
  simp only [runFrom, List.foldlM_cons, bind_assoc]

theorem applyPending_eq_exec (operands : List Float) (op : Operator) :
    Stacks.applyPending operands (.operator op) = exec operands (.operate op) := by
  match operands with
  | [] | [_] => rfl
  | b :: a :: rest =>
    simp only [Stacks.applyPending, exec]
    cases op.apply a b <;> rfl

/-! ## Unwinding emits and executes at once -/

/-- Unwinding that respects parentheses runs the instructions for the popped operators. -/
theorem unwind_eq_popWhile (hp : p .openParen = false) :
    Stacks.unwind p operands pending =
      (popWhile (fun op => p (.operator op)) pending).1.foldlM exec operands >>=
        fun operands => .ok ⟨operands, (popWhile (fun op => p (.operator op)) pending).2⟩ := by
  induction pending generalizing operands with
  | nil => rfl
  | cons top pending ih =>
    cases top with
    | openParen => simp [Stacks.unwind, popWhile, hp]
    | operator op =>
      cases htop : p (.operator op) with
      | false => simp [Stacks.unwind, popWhile, htop]
      | true => simp [Stacks.unwind, popWhile, htop, applyPending_eq_exec, ih]

theorem step_closeParen_eq :
    Stacks.step ⟨operands, pending⟩ .closeParen =
      (popWhile (fun _ => true) pending).1.foldlM exec operands >>= fun operands =>
        match (popWhile (fun _ => true) pending).2 with
        | [] => Except.error .unbalancedParentheses
        | _ :: kept => .ok ⟨operands, kept⟩ := by
  rw [Stacks.step, unwind_eq_popWhile rfl, bind_assoc]
  rfl

theorem step_operator_eq (op : Operator) :
    Stacks.step ⟨operands, pending⟩ (.operator op) =
      (popWhile (fun top => op.precedence ≤ top.precedence) pending).1.foldlM exec operands >>=
        fun operands => .ok ⟨operands,
          .operator op :: (popWhile (fun top => op.precedence ≤ top.precedence) pending).2⟩ := by
  rw [Stacks.step, unwind_eq_popWhile rfl, bind_assoc]
  rfl

theorem compile_operator_nil (op : Operator) (pending : List Pending) :
    compile (.operator op :: pending) [] = .operate op :: compile pending [] := rfl

/-- The final unwinding fails at the first parenthesis. -/
theorem finish_eq : Stacks.finish ⟨operands, pending⟩ = runFrom operands (compile pending []) := by
  induction pending generalizing operands with
  | nil => rfl
  | cons top pending ih =>
    cases top with
    | openParen => rfl
    | operator op =>
      rw [compile_operator_nil, runFrom_cons, ← applyPending_eq_exec]
      simp only [← ih, Stacks.finish, Stacks.unwind, if_true, bind_assoc]

/-- The program for the items that are left gives what the stacks give on them. -/
theorem foldlM_stepItem_eq (items : List Item) :
    (items.foldlM Stacks.stepItem ⟨operands, pending⟩ >>= Stacks.finish) =
      runFrom operands (compile pending items) := by
  -- The program of the rest depends on the entries that are kept, but not on the operands, so both
  -- sides begin with the same instructions on any operands.
  induction items generalizing operands pending with
  | nil => exact finish_eq
  | cons item items ih =>
    rw [List.foldlM_cons, bind_assoc]
    match item with
    | .error e => rfl
    | .ok (.number v) => exact ih
    | .ok .openParen => exact ih
    | .ok .closeParen =>
      rw [Stacks.stepItem_ok, step_closeParen_eq, bind_assoc, compile, runFrom_append]
      refine bind_congr fun operands => ?_
      cases (popWhile (fun _ => true) pending).2 with
      | nil => rfl
      | cons _ kept => exact ih
    | .ok (.operator op) =>
      rw [Stacks.stepItem_ok, step_operator_eq, bind_assoc, compile, runFrom_append]
      exact bind_congr fun operands => ih

end Postfix

open Postfix in
/-- Evaluation in one pass refines translation into a postfix program and its execution. -/
theorem evaluate_eq_run_compile (text : String) :
    evaluate text = run (compile [] (Token.items text.toList)) :=
  foldlM_stepItem_eq _

end PocketCalculator
