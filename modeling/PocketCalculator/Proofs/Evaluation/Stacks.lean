import PocketCalculator.Evaluation

/-!
# Steps of the two stacks

Equations for the step of an item and for unwinding, which stops in front of an entry that does not
satisfy its condition. Tokens are considered together with the unwinding that follows them
(`settle`), since only then all their operators have been applied.
-/

namespace PocketCalculator.Stacks

variable {p : Pending → Bool} {operands : List Float} {pending : List Pending}

@[simp] theorem stepItem_ok (s : Stacks) (t : Token) : s.stepItem (.ok t) = s.step t := rfl

theorem foldlM_stepItem_map_ok (s : Stacks) (tokens : List Token) :
    (tokens.map .ok).foldlM stepItem s = tokens.foldlM step s := by
  rw [List.foldlM_map]
  rfl

theorem unwind_cons_of_pos {top : Pending} (h : p top = true) :
    unwind p operands (top :: pending) =
      applyPending operands top >>= (unwind p · pending) := by
  rw [unwind, if_pos h]

/-- Unwinding does nothing if the newest entry does not satisfy the condition. -/
theorem unwind_of_head? (h : ∀ top ∈ pending.head?, p top = false) :
    unwind p operands pending = .ok ⟨operands, pending⟩ := by
  cases pending with
  | nil => rfl
  | cons top pending => rw [unwind, if_neg (by simp [h top rfl])]

/-- An operator is applied to the two newest operands, the newest one on the right. -/
@[simp] theorem applyPending_operator (op : Operator) (a b : Float) :
    applyPending (b :: a :: operands) (.operator op) = (op.apply a b).map (· :: operands) := rfl

theorem step_operator (s : Stacks) (op : Operator) :
    s.step (.operator op) = unwind (·.precedes op) s.operands s.pending >>= fun s =>
      .ok { s with pending := .operator op :: s.pending } := rfl

theorem step_closeParen (s : Stacks) :
    s.step .closeParen = unwind (· ≠ .openParen) s.operands s.pending >>= fun s =>
      match s.pending with
      | [] => .error .unbalancedParentheses
      | _ :: rest => .ok { s with pending := rest } := rfl

/-! ## Successful steps -/

variable {operands' : List Float} {top : Pending} {s s' : Stacks} {op : Operator} {v : Float}

theorem bind_eq_ok_iff {α β : Type} {x : Except EvalError α} {f : α → Except EvalError β} {r : β} :
    x >>= f = .ok r ↔ ∃ a, x = .ok a ∧ f a = .ok r := by
  cases x with
  | error e =>
    constructor
    · intro h
      cases h
    · rintro ⟨a, h, -⟩
      cases h
  | ok a =>
    refine ⟨fun h => ⟨a, rfl, h⟩, ?_⟩
    rintro ⟨_, ⟨⟩, h⟩
    exact h

/-- Only an operator with two operands is applied. -/
theorem applyPending_eq_ok_iff :
    applyPending operands top = .ok operands' ↔
      ∃ op a b v rest, op.apply a b = .ok v ∧ top = .operator op ∧ operands = b :: a :: rest ∧
        operands' = v :: rest := by
  constructor
  · intro h
    match top, operands with
    | .openParen, _ | .operator _, [] | .operator _, [_] => cases h
    | .operator op, b :: a :: rest =>
      rw [applyPending_operator] at h
      cases happly : op.apply a b with
      | error e =>
        rw [happly] at h
        cases h
      | ok v =>
        rw [happly] at h
        cases h
        exact ⟨op, a, b, v, rest, happly, rfl, rfl, rfl⟩
  · rintro ⟨op, a, b, v, rest, happly, rfl, rfl, rfl⟩
    rw [applyPending_operator, happly]
    rfl

/-- A property that every application keeps is kept by unwinding, which ends in front of an entry
that does not satisfy its condition. -/
theorem unwind_induction {motive : Stacks → Prop}
    (apply : ∀ op a b v operands pending, op.apply a b = .ok v →
      motive ⟨b :: a :: operands, .operator op :: pending⟩ → motive ⟨v :: operands, pending⟩)
    (h : unwind p operands pending = .ok s) (hs : motive ⟨operands, pending⟩) :
    motive s ∧ ∀ top ∈ s.pending.head?, p top = false := by
  induction pending generalizing operands with
  | nil =>
    cases h
    exact ⟨hs, nofun⟩
  | cons top pending ih =>
    cases htop : p top with
    | false =>
      rw [unwind_of_head? (by simpa using htop)] at h
      cases h
      exact ⟨hs, by simpa using htop⟩
    | true =>
      rw [unwind_cons_of_pos htop, bind_eq_ok_iff] at h
      obtain ⟨operands', happly, h⟩ := h
      obtain ⟨op, a, b, v, rest, hv, rfl, rfl, rfl⟩ := applyPending_eq_ok_iff.1 happly
      exact ih h (apply op a b v rest pending hv hs)

theorem head?_unwind (h : unwind p operands pending = .ok s) :
    ∀ top ∈ s.pending.head?, p top = false :=
  (unwind_induction (motive := fun _ => True) (fun _ _ _ _ _ _ _ _ => trivial) h trivial).2

theorem step_operator_eq_ok_iff :
    s.step (.operator op) = .ok s' ↔
      ∃ s₁, unwind (·.precedes op) s.operands s.pending = .ok s₁ ∧
        s' = { s₁ with pending := .operator op :: s₁.pending } := by
  rw [step_operator, bind_eq_ok_iff]
  simp only [Except.ok.injEq, eq_comm]

/-- A closing parenthesis applies everything back to the opening one. -/
theorem step_closeParen_eq_ok_iff :
    s.step .closeParen = .ok s' ↔
      unwind (· ≠ .openParen) s.operands s.pending =
        .ok { s' with pending := .openParen :: s'.pending } := by
  rw [step_closeParen, bind_eq_ok_iff]
  constructor
  · rintro ⟨⟨operands, pending⟩, hunwind, h⟩
    cases pending with
    | nil => cases h
    | cons top rest =>
      cases h
      have hopen : top = .openParen := by simpa using head?_unwind hunwind
      rw [hunwind, hopen]
  · intro hunwind
    exact ⟨_, hunwind, rfl⟩

/-- At the end everything is applied, and one operand is left. -/
theorem finish_eq_ok_iff :
    s.finish = .ok v ↔ unwind (fun _ => true) s.operands s.pending = .ok ⟨[v], []⟩ := by
  rw [finish, bind_eq_ok_iff]
  constructor
  · rintro ⟨⟨operands, pending⟩, hunwind, h⟩
    cases pending with
    | cons top rest => exact nomatch head?_unwind hunwind top rfl
    | nil =>
      match operands with
      | [] | _ :: _ :: _ => cases h
      | [_] =>
        cases h
        exact hunwind
  · intro hunwind
    exact ⟨_, hunwind, rfl⟩

/-- Items without an error are tokens. -/
theorem exists_tokens_of_foldlM_stepItem {items : List Token.Item}
    (h : items.foldlM stepItem s = .ok s') :
    ∃ tokens : List Token, items = tokens.map .ok ∧ tokens.foldlM step s = .ok s' := by
  induction items generalizing s with
  | nil => exact ⟨[], rfl, h⟩
  | cons item items ih =>
    rw [List.foldlM_cons, bind_eq_ok_iff] at h
    obtain ⟨s₁, hstep, h⟩ := h
    cases item with
    | error e => cases hstep
    | ok t =>
      obtain ⟨tokens, rfl, htokens⟩ := ih h
      exact ⟨t :: tokens, rfl, bind_eq_ok_iff.2 ⟨s₁, hstep, htokens⟩⟩

/-! ## Tokens with the unwinding behind them -/

/-- Takes in tokens and unwinds the stacks behind them. -/
def settle (p : Pending → Bool) (s : Stacks) (tokens : List Token) : Except EvalError Stacks := do
  let s ← tokens.foldlM step s
  unwind p s.operands s.pending

/-- An operator settles the tokens in front of it. -/
theorem settle_append_operator (s : Stacks) (tokens tokens' : List Token) (op : Operator) :
    settle p s (tokens ++ .operator op :: tokens') =
      settle (·.precedes op) s tokens >>= fun s =>
        settle p { s with pending := .operator op :: s.pending } tokens' := by
  simp only [settle, List.foldlM_append, List.foldlM_cons, step_operator, bind_assoc]
  rfl

/-- Parentheses settle the tokens between them. -/
theorem settle_parens (tokens : List Token) :
    settle p ⟨operands, pending⟩ (.openParen :: (tokens ++ [.closeParen])) =
      settle (· ≠ .openParen) ⟨operands, .openParen :: pending⟩ tokens >>= fun s =>
        match s.pending with
        | [] => .error .unbalancedParentheses
        | _ :: rest => unwind p s.operands rest := by
  simp only [settle, List.foldlM_cons, List.foldlM_append, List.foldlM_nil, step_closeParen,
    bind_assoc, bind_pure]
  change (tokens.foldlM step ⟨operands, .openParen :: pending⟩ >>= _) = _
  refine bind_congr fun s => ?_
  refine bind_congr fun s => ?_
  cases s.pending <;> rfl

/-- The end settles all tokens. -/
theorem evaluateItems_map_ok (tokens : List Token) :
    evaluateItems (tokens.map .ok) =
      settle (fun _ => true) ⟨[], []⟩ tokens >>= fun s =>
        match s.operands with
        | [v] => .ok v
        | _ => .error .malformedExpression := by
  rw [evaluateItems, foldlM_stepItem_map_ok, settle, bind_assoc]
  rfl

end PocketCalculator.Stacks
