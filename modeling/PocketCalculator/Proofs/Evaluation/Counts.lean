import Mathlib.Algebra.Ring.Int.Defs
import PocketCalculator.Proofs.Evaluation.Stacks

/-!
# Operands and parentheses counted

Every token changes the number of operands that no pending operator joins, and the number of open
parentheses, by an amount of its own (`step_counts`). At the end of a successful evaluation there is
one operand and no open parenthesis, which settles both sums over all tokens
(`counts_of_evaluateItems`).
-/

namespace PocketCalculator

namespace Token

/-- The operands that a token adds: an operator makes one of two. -/
def gain : Token → Int
  | number _ => 1
  | operator _ => -1
  | openParen | closeParen => 0

/-- The parentheses that a token opens. -/
def rise : Token → Int
  | openParen => 1
  | closeParen => -1
  | number _ | operator _ => 0

/-- With a number of parentheses open before, no token closes one that is not open, and none is
open at the end. -/
structure Balanced (depth : Int) (tokens : List Token) : Prop where
  nonneg : ∀ before, before <+: tokens → 0 ≤ depth + (before.map rise).sum
  closed : depth + (tokens.map rise).sum = 0

/-- Items without an error determine the tokens. -/
theorem eq_of_map_ok {tokens tokens' : List Token}
    (h : (tokens.map .ok : List Item) = tokens'.map .ok) : tokens = tokens' :=
  (List.map_inj_right fun _ _ => Except.ok.inj).1 h

theorem Balanced.tail {depth : Int} {t : Token} {tokens : List Token}
    (h : Balanced depth (t :: tokens)) : Balanced (depth + t.rise) tokens where
  nonneg before hbefore := by
    have hcons := h.nonneg (t :: before) (List.cons_prefix_cons.2 ⟨rfl, hbefore⟩)
    rwa [List.map_cons, List.sum_cons, ← Int.add_assoc] at hcons
  closed := by
    have hcons := h.closed
    rwa [List.map_cons, List.sum_cons, ← Int.add_assoc] at hcons

end Token

namespace Stacks

/-- The operands beyond those that the pending operators take. -/
def surplus (s : Stacks) : Int :=
  s.operands.length - s.pending.countP (· ≠ .openParen)

/-- The parentheses that are open. -/
def depth (s : Stacks) : Nat :=
  s.pending.count .openParen

variable {p : Pending → Bool} {operands : List Float} {pending : List Pending} {s s' : Stacks}
  {t : Token} {tokens : List Token} {v : Float}

@[simp] theorem surplus_cons_operand (v : Float) :
    surplus ⟨v :: operands, pending⟩ = surplus ⟨operands, pending⟩ + 1 := by
  simp only [surplus, List.length_cons]
  omega

@[simp] theorem surplus_cons_operator (op : Operator) :
    surplus ⟨operands, .operator op :: pending⟩ = surplus ⟨operands, pending⟩ - 1 := by
  have hcount : (Pending.operator op :: pending).countP (· ≠ .openParen) =
      pending.countP (· ≠ .openParen) + 1 := List.countP_cons_of_pos rfl
  simp only [surplus, hcount]
  omega

@[simp] theorem surplus_cons_openParen :
    surplus ⟨operands, .openParen :: pending⟩ = surplus ⟨operands, pending⟩ := rfl

@[simp] theorem depth_cons_operator (op : Operator) :
    depth ⟨operands, .operator op :: pending⟩ = depth ⟨operands, pending⟩ := rfl

@[simp] theorem depth_cons_openParen :
    depth ⟨operands, .openParen :: pending⟩ = depth ⟨operands, pending⟩ + 1 :=
  List.count_cons_self

/-- Unwinding changes neither count. -/
theorem unwind_counts (h : unwind p s.operands s.pending = .ok s') :
    s'.surplus = s.surplus ∧ s'.depth = s.depth := by
  refine (unwind_induction (motive := fun s' => s'.surplus = s.surplus ∧ s'.depth = s.depth)
    ?_ h ⟨rfl, rfl⟩).1
  rintro op a b v operands pending - ⟨hsurplus, hdepth⟩
  simp only [surplus_cons_operand, surplus_cons_operator] at hsurplus
  exact ⟨by rw [surplus_cons_operand]; omega, hdepth⟩

/-- A token changes both counts by its own amounts. -/
theorem step_counts (h : s.step t = .ok s') :
    s'.surplus = s.surplus + t.gain ∧ (s'.depth : Int) = s.depth + t.rise := by
  cases t with
  | number v =>
    cases h
    exact ⟨surplus_cons_operand v, (Int.add_zero _).symm⟩
  | openParen =>
    cases h
    exact ⟨(Int.add_zero _).symm, congrArg Nat.cast depth_cons_openParen⟩
  | closeParen =>
    obtain ⟨hsurplus, hdepth⟩ := unwind_counts (step_closeParen_eq_ok_iff.1 h)
    rw [surplus_cons_openParen] at hsurplus
    rw [depth_cons_openParen] at hdepth
    rw [← hsurplus, ← hdepth, Int.natCast_add]
    exact ⟨(Int.add_zero _).symm, (Int.add_neg_cancel_right _ 1).symm⟩
  | operator op =>
    obtain ⟨s₁, hunwind, rfl⟩ := step_operator_eq_ok_iff.1 h
    obtain ⟨hsurplus, hdepth⟩ := unwind_counts hunwind
    rw [surplus_cons_operator, depth_cons_operator, ← hsurplus, ← hdepth]
    exact ⟨rfl, (Int.add_zero _).symm⟩

theorem foldlM_step_counts (h : tokens.foldlM step s = .ok s') :
    s'.surplus = s.surplus + (tokens.map Token.gain).sum ∧
      (s'.depth : Int) = s.depth + (tokens.map Token.rise).sum := by
  induction tokens generalizing s with
  | nil =>
    cases h
    simp
  | cons t tokens ih =>
    rw [List.foldlM_cons, bind_eq_ok_iff] at h
    obtain ⟨s₁, hstep, h⟩ := h
    obtain ⟨hsurplus, hdepth⟩ := step_counts hstep
    obtain ⟨hsurplus', hdepth'⟩ := ih h
    rw [List.map_cons, List.sum_cons, List.map_cons, List.sum_cons]
    omega

theorem finish_counts (h : s.finish = .ok v) : s.surplus = 1 ∧ s.depth = 0 := by
  obtain ⟨hsurplus, hdepth⟩ := unwind_counts (finish_eq_ok_iff.1 h)
  exact ⟨hsurplus.symm, hdepth.symm⟩

end Stacks

open Stacks in
/-- Items with a value are tokens that leave one operand and no open parenthesis. -/
theorem counts_of_evaluateItems {items : List Token.Item} {v : Float}
    (h : evaluateItems items = .ok v) :
    ∃ tokens : List Token, items = tokens.map .ok ∧ (tokens.map Token.gain).sum = 1 ∧
      Token.Balanced 0 tokens := by
  obtain ⟨s, hitems, hfinish⟩ := bind_eq_ok_iff.1 h
  obtain ⟨tokens, rfl, hrun⟩ := exists_tokens_of_foldlM_stepItem hitems
  obtain ⟨hsurplus, hdepth⟩ := foldlM_step_counts hrun
  obtain ⟨hone, hzero⟩ := finish_counts hfinish
  have hstart : surplus ⟨[], []⟩ = 0 ∧ depth ⟨[], []⟩ = 0 := ⟨rfl, rfl⟩
  refine ⟨tokens, rfl, by omega, fun before hbefore => ?_, by omega⟩
  -- The run over a beginning of the tokens has succeeded as well.
  obtain ⟨after, rfl⟩ := hbefore
  rw [List.foldlM_append, bind_eq_ok_iff] at hrun
  obtain ⟨s₁, hbefore, -⟩ := hrun
  obtain ⟨-, hdepth₁⟩ := foldlM_step_counts hbefore
  omega

end PocketCalculator
