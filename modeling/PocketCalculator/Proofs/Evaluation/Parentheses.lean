import PocketCalculator.Proofs.Evaluation.Stacks
import PocketCalculator.Proofs.Token.Lexeme

/-!
# Expressions in parentheses

What is evaluated inside a parenthesis neither takes an operand from outside nor applies a pending
entry from there (`foldlM_stepItem_inside`), and the closing parenthesis leaves one operand. So an
expression in parentheses stands for a number, its value (`evaluateItems_parens`).
-/

namespace PocketCalculator
open Token (Item)

namespace Stacks

/-- The stacks inside a parenthesis that has been opened on other stacks. -/
def inside (s outer : Stacks) : Stacks where
  operands := s.operands ++ outer.operands
  pending := s.pending ++ .openParen :: outer.pending

variable {p : Pending → Bool} {operands operands' : List Float} {pending : List Pending}
  {s s' : Stacks} {v : Float}

theorem applyPending_append {top : Pending} (h : applyPending operands top = .ok operands')
    (below : List Float) : applyPending (operands ++ below) top = .ok (operands' ++ below) := by
  obtain ⟨op, a, b, v, rest, hv, rfl, rfl, rfl⟩ := applyPending_eq_ok_iff.1 h
  exact applyPending_eq_ok_iff.2 ⟨op, a, b, v, rest ++ below, hv, rfl, rfl, rfl⟩

/-- Unwinding stops at an opening parenthesis at the latest. -/
theorem unwind_inside (hp : p .openParen = false) (h : unwind p operands pending = .ok s)
    (outer : Stacks) :
    unwind p (operands ++ outer.operands) (pending ++ .openParen :: outer.pending) =
      .ok (s.inside outer) := by
  induction pending generalizing operands with
  | nil =>
    cases h
    exact unwind_of_head? (by simpa using hp)
  | cons top pending ih =>
    cases htop : p top with
    | false =>
      rw [unwind_of_head? (by simpa using htop)] at h
      cases h
      exact unwind_of_head? (by simpa using htop)
    | true =>
      rw [unwind_cons_of_pos htop, bind_eq_ok_iff] at h
      obtain ⟨operands', happly, h⟩ := h
      rw [List.cons_append, unwind_cons_of_pos htop, bind_eq_ok_iff]
      exact ⟨_, applyPending_append happly _, ih h⟩

/-- A token has the same effect inside a parenthesis. -/
theorem step_inside {t : Token} (h : s.step t = .ok s') (outer : Stacks) :
    (s.inside outer).step t = .ok (s'.inside outer) := by
  cases t with
  | number v | openParen =>
    cases h
    rfl
  | closeParen =>
    rw [step_closeParen_eq_ok_iff] at h ⊢
    exact unwind_inside rfl h outer
  | operator op =>
    rw [step_operator_eq_ok_iff] at h ⊢
    obtain ⟨s₁, hunwind, rfl⟩ := h
    exact ⟨_, unwind_inside rfl hunwind outer, rfl⟩

theorem foldlM_stepItem_inside {items : List Item} (h : items.foldlM stepItem s = .ok s')
    (outer : Stacks) : items.foldlM stepItem (s.inside outer) = .ok (s'.inside outer) := by
  induction items generalizing s with
  | nil =>
    cases h
    rfl
  | cons item items ih =>
    rw [List.foldlM_cons, bind_eq_ok_iff] at h ⊢
    obtain ⟨s₁, hstep, h⟩ := h
    cases item with
    | error e => cases hstep
    | ok t => exact ⟨_, step_inside hstep outer, ih h⟩

/-- Where everything can be applied, everything back to a parenthesis can be. -/
theorem unwind_of_unwind_all (h : unwind (fun _ => true) operands pending = .ok s) :
    unwind (· ≠ .openParen) operands pending = .ok s := by
  induction pending generalizing operands with
  | nil => exact h
  | cons top pending ih =>
    rw [unwind_cons_of_pos rfl, bind_eq_ok_iff] at h
    obtain ⟨operands', happly, h⟩ := h
    obtain ⟨op, -, -, -, -, -, rfl, -⟩ := applyPending_eq_ok_iff.1 happly
    rw [unwind_cons_of_pos rfl, bind_eq_ok_iff]
    exact ⟨operands', happly, ih h⟩

/-- A closing parenthesis does what the end would do without the stacks outside. -/
theorem step_closeParen_inside (h : s.finish = .ok v) (outer : Stacks) :
    (s.inside outer).step .closeParen = .ok { outer with operands := v :: outer.operands } := by
  rw [finish_eq_ok_iff] at h
  rw [step_closeParen_eq_ok_iff]
  exact unwind_inside rfl (unwind_of_unwind_all h) outer

end Stacks

/-! ## Values in place of parentheses -/

open Stacks in
/-- Items in parentheses with a value of their own stand for a number with that value. -/
theorem evaluateItems_parens {items : List Item} {v : Float} (h : evaluateItems items = .ok v)
    (before after : List Item) :
    evaluateItems (before ++ .ok .openParen :: (items ++ .ok .closeParen :: after)) =
      evaluateItems (before ++ .ok (.number v) :: after) := by
  obtain ⟨s, hitems, hfinish⟩ := bind_eq_ok_iff.1 h
  have hrun (outer : Stacks) :
      (.ok .openParen :: (items ++ .ok .closeParen :: after)).foldlM stepItem outer =
        (.ok (.number v) :: after).foldlM stepItem outer := by
    rw [List.foldlM_cons, List.foldlM_cons]
    change (items ++ .ok .closeParen :: after).foldlM stepItem (inside ⟨[], []⟩ outer) =
      after.foldlM stepItem { outer with operands := v :: outer.operands }
    rw [List.foldlM_append, foldlM_stepItem_inside hitems outer]
    change (.ok .closeParen :: after).foldlM stepItem (s.inside outer) = _
    rw [List.foldlM_cons, stepItem_ok, step_closeParen_inside hfinish outer]
    rfl
  rw [evaluateItems, evaluateItems, List.foldlM_append, List.foldlM_append]
  simp only [hrun]

/-- A text in parentheses is read on its own, as are the texts around it. -/
theorem Token.items_parens (before cs after : List Char) :
    items (before ++ '(' :: (cs ++ ')' :: after)) =
      items before ++ .ok .openParen :: (items cs ++ .ok .closeParen :: items after) := by
  rw [items_append_single (by decide) rfl, items_append_single (by decide) rfl]
  rfl

theorem evaluate_parens {text : String} {v : Float} (h : evaluate text = .ok v)
    (before after : String) :
    evaluate (before ++ "(" ++ text ++ ")" ++ after) =
      evaluateItems (Token.items before.toList ++ .ok (.number v) :: Token.items after.toList) := by
  have hlist : (before ++ "(" ++ text ++ ")" ++ after).toList =
      before.toList ++ '(' :: (text.toList ++ ')' :: after.toList) := by simp
  rw [evaluate, hlist, Token.items_parens]
  exact evaluateItems_parens h _ _

/-- An expression in parentheses may be replaced by every other one of the same value, wherever it
stands and whatever comes of the text around it. -/
theorem evaluate_parens_congr {text text' : String} {v : Float} (h : evaluate text = .ok v)
    (h' : evaluate text' = .ok v) (before after : String) :
    evaluate (before ++ "(" ++ text ++ ")" ++ after) =
      evaluate (before ++ "(" ++ text' ++ ")" ++ after) := by
  rw [evaluate_parens h, evaluate_parens h']

theorem evaluate_parens_congr_three :
    evaluate "1 2+" = .ok 3.0 ∧ evaluate "6/2" = .ok 3.0 ∧
      evaluate ("8-" ++ "(" ++ "1 2+" ++ ")" ++ "*2") =
        evaluate ("8-" ++ "(" ++ "6/2" ++ ")" ++ "*2") ∧
      evaluate ("8-" ++ "(" ++ "6/2" ++ ")" ++ "*2") = .ok 2.0 := by
  have h : evaluate "1 2+" = .ok 3.0 := by decide +kernel
  have h' : evaluate "6/2" = .ok 3.0 := by decide +kernel
  exact ⟨h, h', evaluate_parens_congr h h' "8-" "*2", by decide +kernel⟩

end PocketCalculator
