import Mathlib.Data.List.Forall2
import PocketCalculator.Proofs.Evaluation.Postfix

/-!
# Values of literals

Two texts with the same items but for the values of their numbers are translated into programs that
differ in what they push only (`compile_alike`). On equally many operands such programs go on
side by side, whatever the operands are, until one of them divides by zero (`runFrom_agree`). So the
values of numbers have no influence on how an evaluation ends, apart from a division by zero
(`evaluate_agree`).
-/

namespace PocketCalculator

/-- Outcomes of which one is a division by zero, or which are both the same error or both
successes with related results. -/
inductive Agree {α β : Type} (R : α → β → Prop) :
    Except EvalError α → Except EvalError β → Prop where
  | ok {a : α} {b : β} (h : R a b) : Agree R (.ok a) (.ok b)
  | error (e : EvalError) : Agree R (.error e) (.error e)
  | left (y : Except EvalError β) : Agree R (.error .divisionByZero) y
  | right (x : Except EvalError α) : Agree R x (.error .divisionByZero)

namespace Agree

variable {α β γ δ : Type} {R : α → β → Prop} {S : γ → δ → Prop} {x : Except EvalError α}
  {y : Except EvalError β}

theorem bind {f : α → Except EvalError γ} {g : β → Except EvalError δ} (h : Agree R x y)
    (hfg : ∀ a b, R a b → Agree S (f a) (g b)) : Agree S (x >>= f) (y >>= g) := by
  cases h with
  | ok h => exact hfg _ _ h
  | error e => exact .error e
  | left => exact .left _
  | right => exact .right _

theorem of_ne (h : Agree R x y) (hx : x ≠ .error .divisionByZero)
    (hy : y ≠ .error .divisionByZero) :
    (∃ a b, x = .ok a ∧ y = .ok b) ∨ ∃ e, x = .error e ∧ y = .error e := by
  cases h with
  | @ok a b _ => exact .inl ⟨a, b, rfl, rfl⟩
  | error e => exact .inr ⟨e, rfl, rfl⟩
  | left => exact absurd rfl hx
  | right => exact absurd rfl hy

end Agree

/-- Items that are the same but for the value of a number. -/
inductive Token.Alike : Item → Item → Prop where
  | refl (item : Item) : Alike item item
  | number (v v' : Float) : Alike (.ok (.number v)) (.ok (.number v'))

namespace Postfix
open Token (Item)

/-- Instructions that are the same but for the value that they push. -/
inductive Instruction.Alike : Instruction → Instruction → Prop where
  | refl (i : Instruction) : Alike i i
  | push (v v' : Float) : Alike (.push v) (.push v')

variable {items items' : List Item} {program program' : List Instruction}
  {operands operands' : List Float}

theorem alike_append (common : List Instruction)
    (h : List.Forall₂ Instruction.Alike program program') :
    List.Forall₂ Instruction.Alike (common ++ program) (common ++ program') :=
  List.rel_append (List.forall₂_same.2 fun i _ => .refl i) h

/-- Which values numbers have does not matter for what is done with them. -/
theorem compile_alike (h : List.Forall₂ Token.Alike items items') (pending : List Pending) :
    List.Forall₂ Instruction.Alike (compile pending items) (compile pending items') := by
  induction h generalizing pending with
  | nil => exact List.forall₂_same.2 fun i _ => .refl i
  | @cons item _ items items' hitem _ ih =>
    cases hitem with
    | number v v' => exact .cons (.push v v') (ih pending)
    | refl =>
      match item with
      | .error e => exact .cons (.refl _) .nil
      | .ok (.number v) => exact .cons (.refl _) (ih pending)
      | .ok .openParen => exact ih _
      | .ok (.operator op) => exact alike_append _ (ih _)
      | .ok .closeParen =>
        refine alike_append _ ?_
        cases (popWhile (fun _ => true) pending).2 with
        | nil => exact .cons (.refl _) .nil
        | cons _ kept => exact ih kept

theorem apply_agree (op : Operator) (a b a' b' : Float) :
    Agree (fun _ _ => True) (op.apply a b) (op.apply a' b') := by
  cases op with
  | add | subtract | multiply => exact .ok trivial
  | divide =>
    rw [Operator.apply, Operator.apply]
    split
    · exact .left _
    · split
      · exact .right _
      · exact .ok trivial

theorem exec_agree {i i' : Instruction} (h : i.Alike i')
    (hlength : operands.length = operands'.length) :
    Agree (fun l l' => l.length = l'.length) (exec operands i) (exec operands' i') := by
  cases h with
  | push v v' => exact .ok (congrArg Nat.succ hlength)
  | refl i =>
    match i, operands, operands', hlength with
    | .push v, _, _, hlength => exact .ok (congrArg Nat.succ hlength)
    | .fail e, _, _, _ => exact .error e
    | .operate op, [], [], _ | .operate op, [_], [_], _ => exact .error _
    | .operate op, b :: a :: rest, b' :: a' :: rest', hlength =>
      exact (apply_agree op a b a' b').bind fun v v' _ => .ok (Nat.succ_inj.1 hlength)

theorem sole_agree (hlength : operands.length = operands'.length) :
    Agree (fun _ _ => True) (sole operands) (sole operands') := by
  match operands, operands', hlength with
  | [], [], _ | _ :: _ :: _, _ :: _ :: _, _ => exact .error _
  | [v], [v'], _ => exact .ok trivial

theorem runFrom_agree (h : List.Forall₂ Instruction.Alike program program')
    (hlength : operands.length = operands'.length) :
    Agree (fun _ _ => True) (runFrom operands program) (runFrom operands' program') := by
  induction h generalizing operands operands' with
  | nil => exact sole_agree hlength
  | cons hi _ ih =>
    rw [runFrom_cons, runFrom_cons]
    exact (exec_agree hi hlength).bind fun l l' h => ih h

end Postfix

open Postfix in
/-- Two texts whose items are the same but for the values of their numbers both have a value or are
refused with the same error, unless one of them divides by zero. -/
theorem evaluate_agree {text text' : String}
    (h : List.Forall₂ Token.Alike (Token.items text.toList) (Token.items text'.toList))
    (hne : evaluate text ≠ .error .divisionByZero)
    (hne' : evaluate text' ≠ .error .divisionByZero) :
    (∃ v v', evaluate text = .ok v ∧ evaluate text' = .ok v') ∨
      ∃ e, evaluate text = .error e ∧ evaluate text' = .error e := by
  have hagree : Agree (fun _ _ => True) (evaluate text) (evaluate text') := by
    have hempty : ([] : List Float).length = ([] : List Float).length := rfl
    have hrun := runFrom_agree (compile_alike h []) hempty
    rwa [← foldlM_stepItem_eq, ← foldlM_stepItem_eq] at hrun
  exact hagree.of_ne hne hne'

theorem evaluate_agree_malformed :
    List.Forall₂ Token.Alike (Token.items "6/(3-1)4".toList) (Token.items "1/(2-2).5".toList) ∧
      evaluate "6/(3-1)4" = .error .malformedExpression ∧
      evaluate "1/(2-2).5" ≠ .error .divisionByZero ∧
      ((∃ v v', evaluate "6/(3-1)4" = .ok v ∧ evaluate "1/(2-2).5" = .ok v') ∨
        ∃ e, evaluate "6/(3-1)4" = .error e ∧ evaluate "1/(2-2).5" = .error e) := by
  have hitems : Token.items "6/(3-1)4".toList = [Token.number 6.0, .operator .divide, .openParen,
      .number 3.0, .operator .subtract, .number 1.0, .closeParen, .number 4.0].map .ok := by
    decide +kernel
  have hitems' : Token.items "1/(2-2).5".toList = [Token.number 1.0, .operator .divide, .openParen,
      .number 2.0, .operator .subtract, .number 2.0, .closeParen, .number 0.5].map .ok := by
    decide +kernel
  have halike : List.Forall₂ Token.Alike (Token.items "6/(3-1)4".toList)
      (Token.items "1/(2-2).5".toList) := by
    rw [hitems, hitems']
    exact .cons (.number _ _) <| .cons (.refl _) <| .cons (.refl _) <| .cons (.number _ _) <|
      .cons (.refl _) <| .cons (.number _ _) <| .cons (.refl _) <| .cons (.number _ _) .nil
  have hmalformed : evaluate "6/(3-1)4" = .error .malformedExpression := by decide +kernel
  have hne : evaluate "6/(3-1)4" ≠ .error .divisionByZero := by
    rw [hmalformed]
    exact nofun
  have hne' : evaluate "1/(2-2).5" ≠ .error .divisionByZero := by decide +kernel
  exact ⟨halike, hmalformed, hne', evaluate_agree halike hne hne'⟩

end PocketCalculator
