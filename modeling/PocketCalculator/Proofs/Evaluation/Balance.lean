import PocketCalculator.Proofs.Evaluation.Counts
import PocketCalculator.Proofs.Evaluation.Failures
import PocketCalculator.Proofs.Token.Errors

/-!
# Balanced parentheses

A text with a value has balanced parentheses. Conversely, parentheses are reported as unbalanced at
two places only: at a closing parenthesis while none is open, and at the end while some are still
open. The depth of the stacks is that of the tokens read so far (`foldlM_stepItem_eq_unbalanced`),
so the tokens themselves are unbalanced then (`balance`).
-/

namespace PocketCalculator

namespace Token

/-- Whether a token is an operator. -/
def isOperator : Token → Bool
  | operator _ => true
  | _ => false

/-- Some opening parenthesis is never closed: in no text that begins behind it do more parentheses
close than open. -/
def Unclosed (tokens : List Token) : Prop :=
  ∃ before after, tokens = before ++ .openParen :: after ∧
    ∀ inner, inner <+: after → inner.count .closeParen ≤ inner.count .openParen

variable {tokens : List Token} {e : EvalError} {cs : List Char}

/-! ## Sums over tokens are counts -/

theorem sum_rise (tokens : List Token) :
    (tokens.map rise).sum = tokens.count .openParen - tokens.count .closeParen := by
  induction tokens with
  | nil => rfl
  | cons t tokens ih =>
    rw [List.map_cons, List.sum_cons, ih, List.count_cons, List.count_cons]
    cases t <;> simp [rise] <;> omega

theorem sum_gain (tokens : List Token) :
    (tokens.map gain).sum = tokens.countP isNumber - tokens.countP isOperator := by
  induction tokens with
  | nil => rfl
  | cons t tokens ih =>
    rw [List.map_cons, List.sum_cons, ih, List.countP_cons, List.countP_cons]
    cases t <;> simp [gain, isNumber, isOperator] <;> omega

theorem balanced_iff_count :
    Balanced 0 tokens ↔
      (∀ before, before <+: tokens → before.count .closeParen ≤ before.count .openParen) ∧
        tokens.count .openParen = tokens.count .closeParen := by
  constructor
  · rintro ⟨hnonneg, hclosed⟩
    rw [sum_rise] at hclosed
    refine ⟨fun before hbefore => ?_, by omega⟩
    have hbefore := hnonneg before hbefore
    rw [sum_rise] at hbefore
    omega
  · rintro ⟨hdepths, htotal⟩
    refine ⟨fun before hbefore => ?_, ?_⟩
    · have hbefore := hdepths before hbefore
      rw [sum_rise]
      omega
    · rw [sum_rise]
      omega

/-- Tokens that open more parentheses than they close leave one open: the last one behind which this
is no longer so. -/
theorem unclosed_of_sum_rise_pos (tokens : List Token) (h : 0 < (tokens.map rise).sum) :
    Unclosed tokens := by
  cases tokens with
  | nil => cases h
  | cons t rest =>
    rw [List.map_cons, List.sum_cons] at h
    by_cases hlast : ∃ inner after, rest = inner ++ after ∧ 0 < (after.map rise).sum
    · obtain ⟨inner, after, rfl, hafter⟩ := hlast
      obtain ⟨before, after', rfl, hinner⟩ := unclosed_of_sum_rise_pos after hafter
      exact ⟨t :: (inner ++ before), after', by simp, hinner⟩
    · have hle {inner after : List Token} (hrest : rest = inner ++ after) :
          (after.map rise).sum ≤ 0 :=
        Int.not_lt.1 fun hafter => hlast ⟨inner, after, hrest, hafter⟩
      have hrest : (rest.map rise).sum ≤ 0 := hle (List.nil_append rest).symm
      have hopen : t = .openParen := by
        cases t with
        | openParen => rfl
        | number | operator | closeParen =>
          simp only [rise] at h
          omega
      subst hopen
      refine ⟨[], rest, rfl, ?_⟩
      rintro inner ⟨after, rfl⟩
      have hafter : (after.map rise).sum ≤ 0 := hle rfl
      have hinner := sum_rise inner
      rw [List.map_append, List.sum_append] at h
      simp only [rise] at h
      omega
termination_by tokens.length
decreasing_by simp_all

/-! ## Errors of items -/

theorem isStructural_of_mem_items (h : .error e ∈ items cs) : e.isStructural = false := by
  cases genuine_of_mem_items h <;> rfl

end Token

namespace Stacks
open Token (Item)

variable {s : Stacks}

/-- A run that is reported has come to a closing parenthesis while none was open. -/
theorem foldlM_stepItem_eq_unbalanced {items : List Item}
    (hitems : .error .unbalancedParentheses ∉ items)
    (h : items.foldlM stepItem s = .error .unbalancedParentheses) :
    ∃ (tokens : List Token) (after : List Item), items = tokens.map .ok ++ after ∧
      s.depth + (tokens.map Token.rise).sum < 0 := by
  induction items generalizing s with
  | nil => cases h
  | cons item items ih =>
    rw [List.mem_cons, not_or] at hitems
    obtain ⟨hitem, hrest⟩ := hitems
    rw [List.foldlM_cons, bind_eq_error_iff] at h
    cases item with
    | error e =>
      rcases h with h | ⟨s', h, -⟩
      · cases h
        exact absurd rfl hitem
      · cases h
    | ok t =>
      rcases h with h | ⟨s', hstep, h⟩
      · obtain ⟨rfl, hdepth⟩ := (step_eq_error h).of_parentheses
        refine ⟨[.closeParen], items, rfl, ?_⟩
        rw [hdepth]
        decide
      · obtain ⟨-, hdepth⟩ := step_counts hstep
        obtain ⟨tokens, after, rfl, hlt⟩ := ih hrest h
        refine ⟨t :: tokens, after, rfl, ?_⟩
        rw [List.map_cons, List.sum_cons]
        omega

end Stacks

open Stacks Token

/-- Reported parentheses are unbalanced: too many close, or one is never closed. -/
theorem unbalanced_of_evaluateItems {items : List Item}
    (hitems : .error .unbalancedParentheses ∉ items)
    (h : evaluateItems items = .error .unbalancedParentheses) :
    (∃ (tokens : List Token) (after : List Item), items = tokens.map .ok ++ after ∧
      (tokens.map rise).sum < 0) ∨
    ∃ tokens : List Token, items = tokens.map .ok ∧ 0 < (tokens.map rise).sum := by
  have hstart : depth ⟨[], []⟩ = 0 := rfl
  rcases bind_eq_error_iff.1 h with hfail | ⟨s, hitemsRun, hfinish⟩
  · obtain ⟨tokens, after, rfl, hlt⟩ := foldlM_stepItem_eq_unbalanced hitems hfail
    exact .inl ⟨tokens, after, rfl, by omega⟩
  · obtain ⟨tokens, rfl, hrun⟩ := exists_tokens_of_foldlM_stepItem hitemsRun
    obtain ⟨-, hdepth⟩ := foldlM_step_counts hrun
    have hpos := (finish_eq_error hfinish).of_parentheses
    exact .inr ⟨tokens, rfl, by omega⟩

theorem evaluateItems_ne_unbalanced {tokens : List Token} (h : Balanced 0 tokens) :
    evaluateItems (tokens.map .ok) ≠ .error .unbalancedParentheses := by
  intro heval
  have hitems : .error .unbalancedParentheses ∉ (tokens.map .ok : List Item) := by simp
  rcases unbalanced_of_evaluateItems hitems heval with
    ⟨before, after, heq, hlt⟩ | ⟨tokens', heq, hpos⟩
  · obtain ⟨before', after', rfl, hbefore, -⟩ := List.map_eq_append_iff.1 heq
    obtain rfl := eq_of_map_ok hbefore
    have hnonneg := h.nonneg before' (List.prefix_append _ _)
    omega
  · obtain rfl := eq_of_map_ok heq
    have hclosed := h.closed
    omega

/-- A text with a value has balanced parentheses and one number more than operators. Parentheses
are reported as unbalanced only if, among the tokens in front of any error, some text from the
beginning closes more of them than it opens, or all items are tokens and one is never closed. So a
text of tokens with balanced parentheses has a value, is malformed or divides by zero. -/
theorem balance (text : String) :
    (∀ v, evaluate text = .ok v → ∃ tokens : List Token, items text.toList = tokens.map .ok ∧
      (∀ before, before <+: tokens → before.count .closeParen ≤ before.count .openParen) ∧
      tokens.count .openParen = tokens.count .closeParen ∧
      tokens.countP isNumber = tokens.countP isOperator + 1) ∧
    (evaluate text = .error .unbalancedParentheses →
      (∃ (before : List Token) (after : List Item), items text.toList = before.map .ok ++ after ∧
        before.count .openParen < before.count .closeParen) ∨
      ∃ tokens : List Token, items text.toList = tokens.map .ok ∧ Unclosed tokens) ∧
    ∀ tokens : List Token, items text.toList = tokens.map .ok →
      (∀ before, before <+: tokens → before.count .closeParen ≤ before.count .openParen) →
      tokens.count .openParen = tokens.count .closeParen →
      (∃ v, evaluate text = .ok v) ∨ evaluate text = .error .malformedExpression ∨
        evaluate text = .error .divisionByZero := by
  have hitems : .error .unbalancedParentheses ∉ items text.toList :=
    fun hmem => nomatch isStructural_of_mem_items hmem
  refine ⟨fun v h => ?_, fun h => ?_, fun tokens htokens hdepths htotal => ?_⟩
  · obtain ⟨tokens, htokens, hgain, hbalanced⟩ := counts_of_evaluateItems h
    obtain ⟨hdepths, htotal⟩ := balanced_iff_count.1 hbalanced
    rw [sum_gain] at hgain
    exact ⟨tokens, htokens, hdepths, htotal, by omega⟩
  · rcases unbalanced_of_evaluateItems hitems h with
      ⟨before, after, heq, hlt⟩ | ⟨tokens, heq, hpos⟩
    · rw [sum_rise] at hlt
      exact .inl ⟨before, after, heq, by omega⟩
    · exact .inr ⟨tokens, heq, unclosed_of_sum_rise_pos tokens hpos⟩
  · have hne := evaluateItems_ne_unbalanced (balanced_iff_count.2 ⟨hdepths, htotal⟩)
    rw [evaluate, htokens]
    cases heval : evaluateItems (tokens.map .ok) with
    | ok v => exact .inl ⟨v, rfl⟩
    | error e =>
      rcases evaluateItems_eq_error heval with hstructural | hmem
      · cases e with
        | malformedExpression => exact .inr (.inl rfl)
        | divisionByZero => exact .inr (.inr rfl)
        | unbalancedParentheses => exact absurd heval hne
        | invalidCharacter | invalidLiteral | unsupportedOperator => cases hstructural
      · obtain ⟨t, -, ht⟩ := List.mem_map.1 hmem
        cases ht

theorem balance_empty_group :
    (evaluate "(8-2)" = .ok 6.0 ∧ ∃ tokens : List Token, items "(8-2)".toList = tokens.map .ok ∧
      tokens.count .openParen = tokens.count .closeParen ∧
      tokens.countP isNumber = tokens.countP isOperator + 1) ∧
    (evaluate "1)+(2" = .error .unbalancedParentheses ∧
      ((∃ (before : List Token) (after : List Item),
        items "1)+(2".toList = before.map .ok ++ after ∧
          before.count .openParen < before.count .closeParen) ∨
      ∃ tokens : List Token, items "1)+(2".toList = tokens.map .ok ∧ Unclosed tokens)) ∧
    (items "()*2".toList =
        [openParen, closeParen, operator .multiply, number 2.0].map .ok ∧
      ((∃ v, evaluate "()*2" = .ok v) ∨ evaluate "()*2" = .error .malformedExpression ∨
        evaluate "()*2" = .error .divisionByZero)) := by
  have hvalue : evaluate "(8-2)" = .ok 6.0 := by decide +kernel
  have hunbalanced : evaluate "1)+(2" = .error .unbalancedParentheses := by decide +kernel
  have hitems : items "()*2".toList =
      [openParen, closeParen, operator .multiply, number 2.0].map .ok := by decide +kernel
  have hdepths : ∀ before ∈ [openParen, closeParen, operator .multiply, number 2.0].inits,
      before.count .closeParen ≤ before.count .openParen := by decide
  obtain ⟨tokens, htokens, -, htotal, hcount⟩ := (balance "(8-2)").1 6.0 hvalue
  refine ⟨⟨hvalue, tokens, htokens, htotal, hcount⟩,
    ⟨hunbalanced, (balance "1)+(2").2.1 hunbalanced⟩, hitems, ?_⟩
  exact (balance "()*2").2.2 _ hitems
    (fun before h => hdepths before ((List.mem_inits before _).2 h)) (by decide)

end PocketCalculator
