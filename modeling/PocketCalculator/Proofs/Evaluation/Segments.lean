import Mathlib.Data.List.Chain
import Mathlib.Data.List.Nodup
import PocketCalculator.Proofs.Evaluation.Counts

/-!
# Segments of the operator stack

An operator is pushed only on what it binds more tightly than, since everything else is applied
before. So from one parenthesis to the next the pending operators bind more and more tightly
(`Tiered`), which every token keeps (`step_tiered`), also a closing parenthesis, which uncovers an
older segment. As there are two tiers of operators, no segment has more than two, and the open
parentheses bound the length of the stack (`Tiered.length_le`).
-/

namespace PocketCalculator

namespace Pending

/-- How tightly a pending entry binds: a parenthesis less than every operator. -/
def tier : Pending → Nat
  | openParen => 0
  | operator op => op.precedence

/-- What may lie on a pending entry: a parenthesis on everything, and an operator on what binds less
tightly. -/
def Above (top below : Pending) : Prop :=
  top = openParen ∨ below.tier < top.tier

variable {top below : Pending} {op op' : Operator}

theorem tier_le_two (entry : Pending) : entry.tier ≤ 2 := by
  cases entry with
  | openParen => exact Nat.zero_le 2
  | operator op => cases op <;> decide

theorem above_operator_iff : Above (.operator op) below ↔ below.tier < op.precedence :=
  or_iff_right nofun

/-- What is not applied before an operator binds less tightly. -/
theorem above_of_not_precedes (h : top.precedes op = false) : Above (.operator op) top := by
  rw [above_operator_iff]
  cases top with
  | openParen => cases op <;> decide
  | operator op' => exact Nat.lt_of_not_le (of_decide_eq_false h)

end Pending

namespace Stacks
open Pending

variable {p : Pending → Bool} {s s' : Stacks} {t : Token} {tokens : List Token}
  {pending : List Pending} {ops : List Operator}

/-- Every pending entry may lie on the one below it. -/
def Tiered (s : Stacks) : Prop :=
  s.pending.IsChain Above

/-! ## Steps and runs -/

theorem unwind_tiered (h : unwind p s.operands s.pending = .ok s') (hs : s.Tiered) : s'.Tiered :=
  (unwind_induction (fun _ _ _ _ _ _ _ hchain => List.IsChain.tail hchain) h hs).1

/-- Every token keeps the stack tiered. -/
theorem step_tiered (h : s.step t = .ok s') (hs : s.Tiered) : s'.Tiered := by
  cases t with
  | number v =>
    cases h
    exact hs
  | openParen =>
    cases h
    exact List.isChain_cons.2 ⟨fun _ _ => .inl rfl, hs⟩
  | closeParen =>
    have hchain := unwind_tiered (step_closeParen_eq_ok_iff.1 h) hs
    exact List.IsChain.tail hchain
  | operator op =>
    obtain ⟨s₁, hunwind, rfl⟩ := step_operator_eq_ok_iff.1 h
    refine List.isChain_cons.2 ⟨fun top htop => ?_, unwind_tiered hunwind hs⟩
    exact above_of_not_precedes (head?_unwind hunwind top htop)

theorem foldlM_step_tiered (h : tokens.foldlM step s = .ok s') (hs : s.Tiered) : s'.Tiered := by
  induction tokens generalizing s with
  | nil =>
    cases h
    exact hs
  | cons t tokens ih =>
    rw [List.foldlM_cons, bind_eq_ok_iff] at h
    obtain ⟨s₁, hstep, h⟩ := h
    exact ih h (step_tiered hstep hs)

/-! ## Segments -/

/-- In a segment every operator binds more tightly than all those below it. -/
theorem Tiered.pairwise (h : s.Tiered) (hops : ops.map .operator <:+: s.pending) :
    ops.Pairwise fun newer older => older.precedence < newer.precedence := by
  have hchain := List.IsChain.infix h hops
  rw [List.isChain_map] at hchain
  simp only [above_operator_iff] at hchain
  have hmap : (ops.map Operator.precedence).IsChain (· > ·) := (List.isChain_map _).2 hchain
  exact List.pairwise_map.1 (List.isChain_iff_pairwise.1 hmap)

/-- Operators that bind more and more tightly have no precedence in common. -/
theorem countP_precedence_le_one
    (h : ops.Pairwise fun newer older => older.precedence < newer.precedence) (k : Nat) :
    ops.countP (·.precedence = k) ≤ 1 := by
  have hnodup : (ops.map Operator.precedence).Nodup :=
    List.pairwise_map.2 (h.imp Nat.ne_of_gt)
  have hcount := List.nodup_iff_count_le_one.1 hnodup k
  rwa [List.count, List.countP_map] at hcount

theorem head?_tier_le_two (pending : List Pending) : pending.head?.elim 0 tier ≤ 2 := by
  cases pending with
  | nil => exact Nat.zero_le 2
  | cons top => exact top.tier_le_two

/-- Every parenthesis makes room for itself and for one operator of each tier. Of the newest segment
only the room below its newest operator is taken. -/
theorem length_le_of_isChain (h : pending.IsChain Above) :
    pending.length ≤ 3 * pending.count .openParen + pending.head?.elim 0 tier := by
  induction pending with
  | nil => exact Nat.le_refl 0
  | cons top pending ih =>
    obtain ⟨habove, h⟩ := List.isChain_cons.1 h
    have ih := ih h
    rw [List.length_cons, List.head?_cons, Option.elim_some]
    cases top with
    | openParen =>
      have hroom := head?_tier_le_two pending
      rw [List.count_cons_self]
      omega
    | operator op =>
      have hroom : pending.head?.elim 0 tier < op.precedence := by
        cases hbelow : pending.head? with
        | none => cases op <;> decide
        | some below => exact above_operator_iff.1 (habove below hbelow)
      have hne : Pending.operator op ≠ openParen := nofun
      rw [List.count_cons_of_ne hne]
      change _ ≤ _ + op.precedence
      omega

theorem Tiered.length_le (h : s.Tiered) : s.pending.length ≤ 3 * s.depth + 2 :=
  Nat.le_trans (length_le_of_isChain h) (Nat.add_le_add_left (head?_tier_le_two s.pending) _)

end Stacks

open Stacks in
/-- Whatever text is evaluated, in front of each token and behind the last one the operators that
are pending between two parentheses bind more and more tightly from the oldest to the newest, so
that there is at most one of either tier, and the number of open parentheses bounds all that is
pending. -/
theorem pending_segments (text : String) :
    ∀ before, before <+: Token.items text.toList →
      ∀ s, before.foldlM Stacks.stepItem ⟨[], []⟩ = .ok s →
        (∀ ops : List Operator, ops.map .operator <:+: s.pending →
          (ops.Pairwise fun newer older => older.precedence < newer.precedence) ∧
          ops.countP (fun op => op = .add ∨ op = .subtract) ≤ 1 ∧
          ops.countP (fun op => op = .multiply ∨ op = .divide) ≤ 1) ∧
        s.pending.length ≤ 3 * s.depth + 2 := by
  intro before _ s hs
  obtain ⟨tokens, -, hrun⟩ := exists_tokens_of_foldlM_stepItem hs
  have htiered : s.Tiered := foldlM_step_tiered hrun .nil
  refine ⟨fun ops hops => ?_, htiered.length_le⟩
  have hpairwise := htiered.pairwise hops
  have hadd : (fun op : Operator => decide (op = .add ∨ op = .subtract)) =
      fun op => decide (op.precedence = 1) := by
    funext op
    cases op <;> rfl
  have hmultiply : (fun op : Operator => decide (op = .multiply ∨ op = .divide)) =
      fun op => decide (op.precedence = 2) := by
    funext op
    cases op <;> rfl
  rw [hadd, hmultiply]
  exact ⟨hpairwise, countP_precedence_le_one hpairwise 1, countP_precedence_le_one hpairwise 2⟩

theorem pending_segments_full :
    ∃ s : Stacks,
      (Token.items "1+2*(3-4*(5+6*7".toList).foldlM Stacks.stepItem ⟨[], []⟩ = .ok s ∧
      s.pending.length = 3 * s.depth + 2 ∧ s.depth = 2 ∧
      [Operator.multiply, .subtract].map .operator <:+: s.pending ∧
      [Operator.multiply, .subtract].Pairwise
        fun newer older => older.precedence < newer.precedence := by
  let newest : List Pending := [.operator .multiply, .operator .add, .openParen]
  let oldest : List Pending := [.openParen, .operator .multiply, .operator .add]
  let between : List Pending := [Operator.multiply, .subtract].map .operator
  have hitems : Token.items "1+2*(3-4*(5+6*7".toList = [Token.number 1.0, .operator .add,
      .number 2.0, .operator .multiply, .openParen, .number 3.0, .operator .subtract, .number 4.0,
      .operator .multiply, .openParen, .number 5.0, .operator .add, .number 6.0,
      .operator .multiply, .number 7.0].map .ok := by
    decide +kernel
  have hrun : (Token.items "1+2*(3-4*(5+6*7".toList).foldlM Stacks.stepItem ⟨[], []⟩ =
      .ok ⟨[7.0, 6.0, 5.0, 4.0, 3.0, 2.0, 1.0], newest ++ between ++ oldest⟩ := by
    rw [hitems]
    rfl
  have hsegment : between <:+: newest ++ between ++ oldest := ⟨newest, oldest, rfl⟩
  obtain ⟨hsegments, -⟩ := pending_segments _ _ (List.prefix_refl _) _ hrun
  exact ⟨_, hrun, rfl, rfl, hsegment, (hsegments _ hsegment).1⟩

end PocketCalculator
