import PocketCalculator.Proofs.Evaluation.Counts
import PocketCalculator.Proofs.Evaluation.Infix

/-!
# Where errors come from

The stacks themselves fail in three ways only, and parentheses are reported at two places: at a
closing parenthesis while none is open (`step_eq_error`), and at the end while some are still open
(`finish_eq_error`). Every other error of an evaluation is the first one of the items
(`firstError_of_evaluateItems`).
-/

namespace PocketCalculator
open Token (Item)

namespace EvalError

/-- Whether an error is about tokens and numbers that do not go together, and not about the text of
one item. -/
def isStructural : EvalError → Bool
  | unbalancedParentheses | malformedExpression | divisionByZero => true
  | invalidCharacter _ | invalidLiteral _ | unsupportedOperator _ => false

/-- The errors of the stacks, where parentheses are reported only if `P` holds. -/
inductive OfStacks (P : Prop) : EvalError → Prop where
  | malformed : OfStacks P malformedExpression
  | division : OfStacks P divisionByZero
  | parentheses (h : P) : OfStacks P unbalancedParentheses

namespace OfStacks

variable {P Q : Prop} {e : EvalError}

theorem imp (hPQ : P → Q) (h : OfStacks P e) : OfStacks Q e := by
  cases h with
  | malformed => exact .malformed
  | division => exact .division
  | parentheses h => exact .parentheses (hPQ h)

theorem isStructural (h : OfStacks P e) : e.isStructural = true := by
  cases h <;> rfl

theorem of_parentheses (h : OfStacks P unbalancedParentheses) : P := by
  cases h with
  | parentheses h => exact h

end OfStacks

end EvalError

namespace Token

/-- The first item that is an error is a given one. -/
def FirstError (items : List Item) (e : EvalError) : Prop :=
  ∃ (tokens : List Token) (after : List Item), items = tokens.map .ok ++ .error e :: after

variable {items : List Item} {e : EvalError}

theorem FirstError.mem (h : FirstError items e) : .error e ∈ items := by
  obtain ⟨tokens, after, rfl⟩ := h
  exact List.mem_append_right _ List.mem_cons_self

theorem FirstError.cons (h : FirstError items e) (t : Token) :
    FirstError (.ok t :: items) e := by
  obtain ⟨tokens, after, rfl⟩ := h
  exact ⟨t :: tokens, after, rfl⟩

end Token

namespace Stacks

variable {p : Pending → Bool} {operands : List Float} {pending : List Pending} {top : Pending}
  {s : Stacks} {t : Token} {e : EvalError}

theorem bind_eq_error_iff {α β : Type} {x : Except EvalError α} {f : α → Except EvalError β} :
    x >>= f = .error e ↔ x = .error e ∨ ∃ a, x = .ok a ∧ f a = .error e := by
  cases x with
  | error e' =>
    constructor
    · intro h
      cases h
      exact .inl rfl
    · rintro (h | ⟨a, h, -⟩)
      · cases h
        rfl
      · cases h
  | ok a =>
    constructor
    · exact fun h => .inr ⟨a, rfl, h⟩
    · rintro (h | ⟨_, ⟨⟩, h⟩)
      · cases h
      · exact h

theorem applyPending_eq_error (h : applyPending operands top = .error e) :
    e.OfStacks (top = .openParen) := by
  match top, operands with
  | .openParen, _ =>
    cases h
    exact .parentheses rfl
  | .operator _, [] | .operator _, [_] =>
    cases h
    exact .malformed
  | .operator op, b :: a :: rest =>
    rw [applyPending_operator] at h
    cases happly : op.apply a b with
    | ok v =>
      rw [happly] at h
      cases h
    | error e' =>
      rw [happly] at h
      cases h
      rw [(Operator.apply_eq_error_iff.1 happly).2]
      exact .division

theorem unwind_eq_error (h : unwind p operands pending = .error e) :
    e.OfStacks (.openParen ∈ pending ∧ p .openParen = true) := by
  induction pending generalizing operands with
  | nil => cases h
  | cons top pending ih =>
    cases htop : p top with
    | false =>
      rw [unwind_of_head? (by simpa using htop)] at h
      cases h
    | true =>
      rw [unwind_cons_of_pos htop, bind_eq_error_iff] at h
      rcases h with h | ⟨operands', -, h⟩
      · refine (applyPending_eq_error h).imp ?_
        rintro rfl
        exact ⟨List.mem_cons_self, htop⟩
      · exact (ih h).imp fun hopen => hopen.imp_left (List.mem_cons_of_mem _)

/-- Parentheses are reported at a closing one while none is open: what is applied in front of a
token never includes an open parenthesis. -/
theorem step_eq_error (h : s.step t = .error e) :
    e.OfStacks (t = .closeParen ∧ s.depth = 0) := by
  cases t with
  | number v | openParen => cases h
  | operator op =>
    rw [step_operator, bind_eq_error_iff] at h
    rcases h with h | ⟨s', -, h⟩
    · exact (unwind_eq_error h).imp fun hopen => nomatch hopen.2
    · cases h
  | closeParen =>
    rw [step_closeParen, bind_eq_error_iff] at h
    rcases h with h | ⟨⟨operands, pending⟩, hunwind, h⟩
    · exact (unwind_eq_error h).imp fun hopen => nomatch hopen.2
    · cases pending with
      | nil =>
        cases h
        exact .parentheses ⟨rfl, (unwind_counts hunwind).2.symm⟩
      | cons top rest => cases h

/-- At the end all that is pending is applied, so parentheses that are open are reported. -/
theorem finish_eq_error (h : s.finish = .error e) : e.OfStacks (0 < s.depth) := by
  rw [finish, bind_eq_error_iff] at h
  rcases h with h | ⟨⟨operands, pending⟩, -, h⟩
  · exact (unwind_eq_error h).imp fun hopen => List.count_pos_iff.2 hopen.1
  · rcases operands with _ | ⟨v, _ | ⟨w, rest⟩⟩
    · cases h
      exact .malformed
    · cases h
    · cases h
      exact .malformed

theorem foldlM_stepItem_eq_error {items : List Item} (h : items.foldlM stepItem s = .error e) :
    e.isStructural = true ∨ Token.FirstError items e := by
  induction items generalizing s with
  | nil => cases h
  | cons item items ih =>
    rw [List.foldlM_cons, bind_eq_error_iff] at h
    cases item with
    | error e' =>
      rcases h with h | ⟨s', h, -⟩
      · cases h
        exact .inr ⟨[], items, rfl⟩
      · cases h
    | ok t =>
      rcases h with h | ⟨s', -, h⟩
      · exact .inl (step_eq_error h).isStructural
      · exact (ih h).imp_right fun hfirst => hfirst.cons t

end Stacks

/-- An error of an evaluation is structural or the first one of the items. -/
theorem firstError_of_evaluateItems {items : List Item} {e : EvalError}
    (h : evaluateItems items = .error e) : e.isStructural = true ∨ Token.FirstError items e := by
  rcases Stacks.bind_eq_error_iff.1 h with h | ⟨s, -, h⟩
  · exact Stacks.foldlM_stepItem_eq_error h
  · exact .inl (Stacks.finish_eq_error h).isStructural

theorem evaluateItems_eq_error {items : List Item} {e : EvalError}
    (h : evaluateItems items = .error e) : e.isStructural = true ∨ .error e ∈ items :=
  (firstError_of_evaluateItems h).imp_right Token.FirstError.mem

end PocketCalculator
