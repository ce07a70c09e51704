import PocketCalculator.Proofs.Binary64.Bits
import PocketCalculator.Proofs.Evaluation.Stacks
import PocketCalculator.Proofs.Token.Spelling

/-!
# Infix expressions

The derivation trees of the usual grammar of infix expressions have values of their own, computed
from the leaves up, which fail just for trees that divide by zero (`value_eq_error_iff`). Evaluation
of any text of such a tree gives the value of the tree (`evaluate_eq_value`).
-/

namespace PocketCalculator

/-- The nonterminals of the grammar. -/
inductive Grade where
  | expr
  | term
  | factor

/-- The least precedence of an operator in an expression of a grade, outside parentheses. -/
def Grade.precedence : Grade → Nat
  | expr => 1
  | term => 2
  | factor => 3

/-- The derivation trees of the grammar, one constructor for each production. -/
inductive Infix : Grade → Type where
  | literal (v : Float) : Infix .factor
  | group (e : Infix .expr) : Infix .factor
  | ofFactor (f : Infix .factor) : Infix .term
  | product (t : Infix .term) (op : Operator) (f : Infix .factor)
    (h : op = .multiply ∨ op = .divide) : Infix .term
  | ofTerm (t : Infix .term) : Infix .expr
  | sum (e : Infix .expr) (op : Operator) (t : Infix .term)
    (h : op = .add ∨ op = .subtract) : Infix .expr

namespace Infix

/-- The tokens that a tree derives. -/
def tokens : {g : Grade} → Infix g → List Token
  | _, literal v => [.number v]
  | _, group e => .openParen :: (e.tokens ++ [.closeParen])
  | _, ofFactor f => f.tokens
  | _, product t op f _ => t.tokens ++ .operator op :: f.tokens
  | _, ofTerm t => t.tokens
  | _, sum e op t _ => e.tokens ++ .operator op :: t.tokens

/-- The value of a tree, computed from the leaves up. -/
def value : {g : Grade} → Infix g → Except EvalError Float
  | _, literal v => .ok v
  | _, group e => e.value
  | _, ofFactor f => f.value
  | _, product t op f _ => do op.apply (← t.value) (← f.value)
  | _, ofTerm t => t.value
  | _, sum e op t _ => do op.apply (← e.value) (← t.value)

/-- Some division in a tree has values on both sides, and a zero on the right. -/
def DividesByZero : {g : Grade} → Infix g → Prop
  | _, literal _ => False
  | _, group e => e.DividesByZero
  | _, ofFactor f => f.DividesByZero
  | _, product t op f _ => t.DividesByZero ∨ f.DividesByZero ∨
    op = .divide ∧ ∃ a b, t.value = .ok a ∧ f.value = .ok b ∧ (b = 0.0 ∨ b = -0.0)
  | _, ofTerm t => t.DividesByZero
  | _, sum e _ t _ => e.DividesByZero ∨ t.DividesByZero

end Infix

/-! ## Errors of values -/

theorem Operator.apply_eq_error_iff {op : Operator} {a b : Float} {err : EvalError} :
    op.apply a b = .error err ↔ (op = .divide ∧ (b = 0.0 ∨ b = -0.0)) ∧ err = .divisionByZero := by
  rw [← Binary64.beq_zero_iff]
  cases op with
  | divide =>
    rw [Operator.apply]
    split
    next h => simp [h, eq_comm]
    next h => simp [h]
  | _ => simp [Operator.apply]

/-- An operation on two results that can only fail by a division by zero can only fail so too. -/
theorem Operator.bind_apply_eq_error_iff {op : Operator} {x y : Except EvalError Float}
    {P Q : Prop} (hx : ∀ err, x = .error err ↔ P ∧ err = .divisionByZero)
    (hy : ∀ err, y = .error err ↔ Q ∧ err = .divisionByZero) (err : EvalError) :
    (do op.apply (← x) (← y)) = .error err ↔
      (P ∨ Q ∨ op = .divide ∧ ∃ a b, x = .ok a ∧ y = .ok b ∧ (b = 0.0 ∨ b = -0.0)) ∧
        err = .divisionByZero := by
  cases x with
  | error e =>
    obtain ⟨hP, rfl⟩ := (hx e).1 rfl
    change Except.error _ = _ ↔ _
    simp [hP, eq_comm]
  | ok a =>
    have hP : ¬P := fun hP => nomatch (hx _).2 ⟨hP, rfl⟩
    cases y with
    | error e =>
      obtain ⟨hQ, rfl⟩ := (hy e).1 rfl
      change Except.error _ = _ ↔ _
      simp [hQ, eq_comm]
    | ok b =>
      have hQ : ¬Q := fun hQ => nomatch (hy _).2 ⟨hQ, rfl⟩
      change op.apply a b = _ ↔ _
      simp [hP, hQ, apply_eq_error_iff]

namespace Infix

variable {g : Grade}

/-- A tree has no value just if it divides by zero. -/
theorem value_eq_error_iff (e : Infix g) (err : EvalError) :
    e.value = .error err ↔ e.DividesByZero ∧ err = .divisionByZero := by
  induction e generalizing err with
  | literal v => simp [value, DividesByZero]
  | group e ih | ofFactor f ih | ofTerm t ih => exact ih err
  | product t op f h iht ihf => exact Operator.bind_apply_eq_error_iff iht ihf err
  | sum e op t h ihe iht =>
    have hop : op ≠ .divide := by rcases h with rfl | rfl <;> decide
    refine (Operator.bind_apply_eq_error_iff ihe iht err).trans ?_
    simp only [hop, false_and, or_false, DividesByZero]

/-! ## The stacks on the tokens of a tree -/

theorem precedence_additive {op : Operator} (h : op = .add ∨ op = .subtract) :
    op.precedence = 1 := by
  rcases h with rfl | rfl <;> rfl

theorem precedence_multiplicative {op : Operator} (h : op = .multiply ∨ op = .divide) :
    op.precedence = 2 := by
  rcases h with rfl | rfl <;> rfl

/-- The newest pending entry waits for an expression of a grade: it binds less tightly than every
operator in it. -/
def Awaits (g : Grade) (pending : List Pending) : Prop :=
  ∀ op, .operator op ∈ pending.head? → op.precedence < g.precedence

/-- Unwinding applies every operator of an expression of a grade. -/
def Reaches (g : Grade) (p : Pending → Bool) : Prop :=
  ∀ op, g.precedence ≤ op.precedence → p (.operator op) = true

theorem awaits_operator {op : Operator} {pending : List Pending}
    (h : op.precedence < g.precedence) : Awaits g (.operator op :: pending) := by
  rintro _ ⟨⟩
  exact h

theorem reaches_precedes {op : Operator} (h : op.precedence = g.precedence) :
    Reaches g (·.precedes op) := by
  intro op' hop'
  simpa [Pending.precedes, h] using hop'

/-- An operator as tight as those of an expression does not apply what awaits the expression. -/
theorem unwind_precedes {op : Operator} {operands : List Float} {pending : List Pending}
    (h : Awaits g pending) (hop : op.precedence = g.precedence) :
    Stacks.unwind (·.precedes op) operands pending = .ok ⟨operands, pending⟩ := by
  refine Stacks.unwind_of_head? fun top htop => ?_
  cases top with
  | openParen => rfl
  | operator op' =>
    have hlt : op'.precedence < g.precedence := h op' htop
    simp [Pending.precedes, hop, hlt]

/-- Settling an operation, from what it does on the two sides: the operator settles the left side
and waits for the right side, behind which it is applied. -/
theorem settle_operation {op : Operator} {left right : List Token}
    {x y : Except EvalError Float} {p : Pending → Bool} {operands : List Float}
    {pending : List Pending}
    (hleft : Stacks.settle (·.precedes op) ⟨operands, pending⟩ left =
      x >>= fun a => .ok ⟨a :: operands, pending⟩)
    (hright : ∀ a, Stacks.settle p ⟨a :: operands, .operator op :: pending⟩ right =
      y >>= fun b => Stacks.unwind p (b :: a :: operands) (.operator op :: pending))
    (hp : p (.operator op) = true) :
    Stacks.settle p ⟨operands, pending⟩ (left ++ .operator op :: right) =
      (do op.apply (← x) (← y)) >>= fun v => Stacks.unwind p (v :: operands) pending := by
  have happly : ∀ a b, Stacks.unwind p (b :: a :: operands) (.operator op :: pending) =
      op.apply a b >>= fun v => Stacks.unwind p (v :: operands) pending := by
    intro a b
    rw [Stacks.unwind_cons_of_pos hp, Stacks.applyPending_operator]
    cases op.apply a b <;> rfl
  calc
    _ = x >>= fun a => Stacks.settle p ⟨a :: operands, .operator op :: pending⟩ right := by
      rw [Stacks.settle_append_operator, hleft, bind_assoc]
      rfl
    _ = x >>= fun a => y >>= fun b =>
          op.apply a b >>= fun v => Stacks.unwind p (v :: operands) pending := by
      simp only [hright, happly]
    _ = _ := by simp only [bind_assoc]

/-- Settling the tokens of a tree is unwinding with the value of the tree as the newest operand, if
the stacks await the tree and the unwinding reaches its operators. -/
theorem settle_tokens (e : Infix g) {p : Pending → Bool} {operands : List Float}
    {pending : List Pending} (hp : Reaches g p) (h : Awaits g pending) :
    Stacks.settle p ⟨operands, pending⟩ e.tokens =
      e.value >>= fun v => Stacks.unwind p (v :: operands) pending := by
  induction e generalizing p operands pending with
  | literal v => rfl
  | group e ih =>
    -- An opening parenthesis awaits any expression, and unwinding up to it reaches all operators.
    have hinner : Stacks.settle (· ≠ .openParen) ⟨operands, .openParen :: pending⟩ e.tokens =
        e.value >>= fun v => .ok ⟨v :: operands, .openParen :: pending⟩ :=
      ih (fun _ _ => rfl) fun _ hop => nomatch hop
    rw [tokens, Stacks.settle_parens, hinner, bind_assoc]
    rfl
  | ofFactor f ih | ofTerm t ih =>
    exact ih (fun op hop => hp op (Nat.le_of_succ_le hop)) fun op hop =>
      Nat.lt_succ_of_lt (h op hop)
  | product t op f hop iht ihf =>
    have hprec := precedence_multiplicative hop
    refine settle_operation ?_ (fun a => ihf (fun op hop => hp op (Nat.le_of_succ_le hop)) ?_)
      (hp op (Nat.le_of_eq hprec.symm))
    · rw [iht (reaches_precedes hprec) h]
      exact bind_congr fun _ => unwind_precedes h hprec
    · exact awaits_operator (by rw [hprec]; decide)
  | sum e op t hop ihe iht =>
    have hprec := precedence_additive hop
    refine settle_operation ?_ (fun a => iht (fun op hop => hp op (Nat.le_of_succ_le hop)) ?_)
      (hp op (Nat.le_of_eq hprec.symm))
    · rw [ihe (reaches_precedes hprec) h]
      exact bind_congr fun _ => unwind_precedes h hprec
    · exact awaits_operator (by rw [hprec]; decide)

/-! ## The texts of a tree -/

theorem evaluateItems_tokens (e : Infix .expr) : evaluateItems (e.tokens.map .ok) = e.value := by
  have hsettle : Stacks.settle (fun _ => true) ⟨[], []⟩ e.tokens =
      e.value >>= fun v => .ok ⟨[v], []⟩ :=
    e.settle_tokens (fun _ _ => rfl) fun _ hop => nomatch hop
  rw [Stacks.evaluateItems_map_ok, hsettle, bind_assoc]
  exact bind_pure _

theorem separated_tokens (e : Infix g) : Token.Separated e.tokens := by
  induction e with
  | literal v => exact List.isChain_singleton _
  | group e ih =>
    have hnil : Token.Separated [] := List.isChain_nil
    exact hnil.append_cons (ih.append_cons hnil rfl) rfl
  | ofFactor f ih | ofTerm t ih => exact ih
  | product t op f h iht ihf => exact iht.append_cons ihf rfl
  | sum e op t h ihe iht => exact ihe.append_cons iht rfl

theorem evaluate_eq_value {e : Infix .expr} {text : String}
    (h : Token.Written e.tokens text.toList) : evaluate text = e.value := by
  rw [evaluate, Token.items_of_written h e.separated_tokens, evaluateItems_tokens]

/-- Evaluation of a text of a tree gives the value of the tree, fails just if the tree divides by
zero, and fails in no other way. -/
theorem evaluate_of_written {e : Infix .expr} {text : String}
    (h : Token.Written e.tokens text.toList) :
    evaluate text = e.value ∧
      (evaluate text = .error .divisionByZero ↔ e.DividesByZero) ∧
      ∀ err, evaluate text = .error err → err = .divisionByZero := by
  rw [evaluate_eq_value h]
  refine ⟨rfl, ?_, fun err herr => ((e.value_eq_error_iff err).1 herr).2⟩
  rw [value_eq_error_iff]
  exact and_iff_left rfl

theorem evaluate_of_written_quotient :
    ∃ e : Infix .expr, Token.Written e.tokens "8 - 6/(.5*4.)".toList ∧
      evaluate "8 - 6/(.5*4.)" = e.value ∧ e.value = .ok 5.0 := by
  have number : ∀ run v, run.all Token.inLiteral = true ∧ Token.IsNumeral run ∧
      (Token.numeral run).toFloat false = v → Token.Spells (.number v) run := by
    rintro run _ ⟨h, hnum, rfl⟩
    exact .number (List.all_eq_true.1 h) hnum
  have hwritten : Token.Written
      (sum (.ofTerm (.ofFactor (.literal 8.0))) .subtract
        (product (.ofFactor (.literal 6.0)) .divide
          (group (.ofTerm (product (.ofFactor (.literal 0.5)) .multiply (.literal 4.0) (.inl rfl))))
          (.inr rfl)) (.inr rfl)).tokens "8 - 6/(.5*4.)".toList := by
    change Token.Written _ ([] ++ (['8'] ++ ([' '] ++ (['-'] ++ ([' '] ++ (['6'] ++ ([] ++ (['/'] ++
      ([] ++ (['('] ++ ([] ++ (['.', '5'] ++ ([] ++ (['*'] ++ ([] ++ (['4', '.'] ++
      ([] ++ ([')'] ++ []))))))))))))))))))
    have hnil : ∀ c ∈ [], Text.isBlank c = true := nofun
    have hspace : ∀ c ∈ [' '], Text.isBlank c = true := List.all_eq_true.1 (by decide)
    exact .cons hnil (number _ _ (by decide +kernel)) <| .cons hspace (.operator .subtract) <|
      .cons hspace (number _ _ (by decide +kernel)) <| .cons hnil (.operator .divide) <|
      .cons hnil .openParen <| .cons hnil (number _ _ (by decide +kernel)) <|
      .cons hnil (.operator .multiply) <| .cons hnil (number _ _ (by decide +kernel)) <|
      .cons hnil .closeParen <| .nil hnil
  exact ⟨_, hwritten, (evaluate_of_written hwritten).1, by decide +kernel⟩

end Infix
end PocketCalculator
