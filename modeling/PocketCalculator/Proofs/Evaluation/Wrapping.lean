import Mathlib.Logic.Function.Iterate
import PocketCalculator.Proofs.Evaluation.Parentheses
import PocketCalculator.Proofs.Evaluation.Postfix

/-!
# Whole texts in parentheses

The program of a text in parentheses is that of the text alone, but for the places at which the text
alone reports its parentheses (`compile_inParens`). So parentheses around a text change neither its
value nor its error, unless the error is about parentheses (`evaluate_inParens`).
-/

namespace PocketCalculator

/-- A text between parentheses. -/
def inParens (text : String) : String :=
  "(" ++ text ++ ")"

namespace Postfix
open Token (Item)

/-- A program does the same as another one, up to where that one reports parentheses. -/
inductive Continues : List Instruction → List Instruction → Prop where
  | refl (program : List Instruction) : Continues program program
  | beyond (program : List Instruction) : Continues [.fail .unbalancedParentheses] program
  | cons (i : Instruction) {program program' : List Instruction} (h : Continues program program') :
    Continues (i :: program) (i :: program')

variable {program program' : List Instruction} {operands : List Float}

theorem Continues.append (common : List Instruction) (h : Continues program program') :
    Continues (common ++ program) (common ++ program') := by
  induction common with
  | nil => exact h
  | cons i common ih => exact .cons i ih

theorem runFrom_continues (h : Continues program program')
    (hne : runFrom operands program ≠ .error .unbalancedParentheses) :
    runFrom operands program' = runFrom operands program := by
  induction h generalizing operands with
  | refl => rfl
  | beyond => exact absurd rfl hne
  | cons i _ ih =>
    rw [runFrom_cons] at hne
    rw [runFrom_cons, runFrom_cons]
    cases hexec : exec operands i with
    | error e => rfl
    | ok operands' =>
      rw [hexec] at hne
      exact ih hne

/-- Popping operators does not see a parenthesis below all entries. -/
theorem popWhile_append_openParen (p : Operator → Bool) (pending : List Pending) :
    popWhile p (pending ++ [.openParen]) =
      ((popWhile p pending).1, (popWhile p pending).2 ++ [.openParen]) := by
  induction pending with
  | nil => rfl
  | cons top pending ih =>
    cases top with
    | openParen => rfl
    | operator op =>
      cases hop : p op with
      | false => simp only [List.cons_append, popWhile, hop, Bool.false_eq_true, if_false]
      | true => simp only [List.cons_append, popWhile, hop, if_true, ih]

/-- With a parenthesis below all entries and the one that closes it behind all items, the end is met
at the closing one, with the same operators to apply. -/
theorem compile_inParens (items : List Item) (pending : List Pending) :
    Continues (compile pending items)
      (compile (pending ++ [.openParen]) (items ++ [.ok .closeParen])) := by
  induction items generalizing pending with
  | nil =>
    rw [List.nil_append, compile, compile, popWhile_append_openParen]
    refine .append _ ?_
    cases (popWhile (fun _ => true) pending).2 with
    | nil => exact .refl []
    | cons _ kept => exact .beyond _
  | cons item items ih =>
    rw [List.cons_append]
    cases item with
    | error e => exact .refl _
    | ok t =>
      cases t with
      | number v => exact .cons _ (ih pending)
      | openParen => exact ih (.openParen :: pending)
      | closeParen =>
        rw [compile, compile, popWhile_append_openParen]
        refine .append _ ?_
        -- A parenthesis that nothing in the text has opened closes the one below all entries.
        cases (popWhile (fun _ => true) pending).2 with
        | nil => exact .beyond _
        | cons _ kept => exact ih kept
      | operator op =>
        rw [compile, compile, popWhile_append_openParen]
        exact .append _ (ih _)

end Postfix

open Postfix Token

theorem items_inParens (text : String) :
    items (inParens text).toList =
      .ok .openParen :: (items text.toList ++ [.ok .closeParen]) := by
  have hlist : (inParens text).toList = [] ++ '(' :: (text.toList ++ ')' :: []) := by
    simp [inParens]
  rw [hlist, items_parens, items_of_isBlank (List.forall_mem_nil _), List.nil_append]

theorem evaluate_inParens_once {text : String}
    (h : evaluate text ≠ .error .unbalancedParentheses) :
    evaluate (inParens text) = evaluate text := by
  have hprogram (items : List Item) :
      evaluateItems items = run (compile [] items) := foldlM_stepItem_eq items
  rw [evaluate, hprogram] at h
  rw [evaluate, items_inParens, hprogram, evaluate, hprogram]
  exact runFrom_continues (compile_inParens (items text.toList) []) h

/-- Any number of parentheses around a text leave its value or its error as it is, unless the text
alone is reported for its parentheses. -/
theorem evaluate_inParens {text : String} (h : evaluate text ≠ .error .unbalancedParentheses)
    (n : Nat) : evaluate (inParens^[n] text) = evaluate text := by
  induction n with
  | zero => rfl
  | succ n ih =>
    rw [Function.iterate_succ_apply', evaluate_inParens_once (ih.symm ▸ h), ih]

/-- A trailing operator under a parenthesis that is never closed is an error in parentheses as well.
Parentheses that the text alone is reported for can match those around it. -/
theorem evaluate_inParens_unclosed :
    evaluate "2*(-" ≠ .error .unbalancedParentheses ∧
      evaluate (inParens^[3] "2*(-") = evaluate "2*(-" ∧
      evaluate "2*(-" = .error .malformedExpression ∧
      evaluate "1)+(2" = .error .unbalancedParentheses ∧
      evaluate (inParens "1)+(2") = .ok 3.0 := by
  have hmalformed : evaluate "2*(-" = .error .malformedExpression := by decide +kernel
  have hne : evaluate "2*(-" ≠ .error .unbalancedParentheses := by
    rw [hmalformed]
    exact nofun
  exact ⟨hne, evaluate_inParens hne 3, hmalformed, by decide +kernel, by decide +kernel⟩

end PocketCalculator
