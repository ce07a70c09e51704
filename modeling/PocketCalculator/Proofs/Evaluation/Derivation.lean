import PocketCalculator.Proofs.Evaluation.Counts
import PocketCalculator.Proofs.Evaluation.Infix

/-!
# Derivations of evaluated texts

Evaluation counts operands and does not look at where they stand, so that it gives a value to some
texts that are no infix expressions (`not_forall_evaluated_derivable`). The operands of such a text
are not apart: an evaluated text is derivable just if no operand directly follows another one
(`derivable_iff_apart`). With operands apart, a count that comes out right leaves every token in its
place (`alternates_of_apart`), and the tokens are derived from left to right (`Reached.step`).
-/

namespace PocketCalculator

namespace Token

/-- Whether a token is the first one of an operand. -/
def beginsOperand : Token → Bool
  | number _ | openParen => true
  | operator _ | closeParen => false

/-- Whether a token is the last one of an operand. -/
def endsOperand : Token → Bool
  | number _ | closeParen => true
  | operator _ | openParen => false

/-- No operand directly follows another one. -/
def Apart (tokens : List Token) : Prop :=
  tokens.IsChain fun t u => (t.endsOperand && u.beginsOperand) = false

/-- Somewhere no operand stands where an operator or parentheses need one: in front of everything,
behind everything, or between two tokens. -/
inductive LacksOperand : List Token → Prop where
  | first {t : Token} (ht : t.beginsOperand = false) (after : List Token) :
    LacksOperand (t :: after)
  | last {t : Token} (ht : t.endsOperand = false) (before : List Token) :
    LacksOperand (before ++ [t])
  | between {t u : Token} (ht : t.endsOperand = false) (hu : u.beginsOperand = false)
    (before after : List Token) : LacksOperand (before ++ t :: u :: after)

/-- Operands begin where one is needed and nowhere else, with none needed after one has ended. -/
def Alternates : Bool → List Token → Prop
  | ended, [] => ended = true
  | ended, t :: tokens => t.beginsOperand = !ended ∧ Alternates t.endsOperand tokens

variable {ended : Bool} {tokens before : List Token}

/-! ## Tokens that alternate -/

theorem Alternates.apart (h : Alternates ended tokens) : Apart tokens := by
  induction tokens generalizing ended with
  | nil => exact List.isChain_nil
  | cons t tokens ih =>
    obtain ⟨-, htail⟩ := h
    refine List.isChain_cons.2 ⟨fun u hu => ?_, ih htail⟩
    cases tokens with
    | nil => cases hu
    | cons _ _ =>
      cases hu
      rw [htail.1, Bool.and_not_self]

theorem Alternates.of_append (h : Alternates ended (before ++ tokens)) :
    ∃ ended', Alternates ended' tokens := by
  induction before generalizing ended with
  | nil => exact ⟨ended, h⟩
  | cons t before ih => exact ih h.2

theorem Alternates.not_lacksOperand (h : Alternates false tokens) : ¬LacksOperand tokens := by
  intro hlacks
  cases hlacks with
  | first ht after => exact Bool.false_ne_true (ht.symm.trans h.1)
  | last ht before =>
    obtain ⟨_, hlast⟩ := h.of_append
    exact Bool.false_ne_true (ht.symm.trans hlast.2)
  | between ht hu before after =>
    obtain ⟨_, -, hnext, -⟩ := h.of_append
    rw [ht, hu] at hnext
    cases hnext

/-- With operands apart, the operands that are gained are at most the ones needed, and they are as
many as that only if every token is in its place. -/
theorem alternates_of_apart (h : Apart tokens)
    (hhead : ended = true → ∀ t ∈ tokens.head?, t.beginsOperand = false) :
    (tokens.map gain).sum ≤ (!ended).toNat ∧
      ((tokens.map gain).sum = (!ended).toNat → Alternates ended tokens) := by
  induction tokens generalizing ended with
  | nil => cases ended <;> simp [Alternates]
  | cons t tokens ih =>
    obtain ⟨hnext, hapart⟩ := List.isChain_cons.1 h
    have hhead' : t.endsOperand = true → ∀ u ∈ tokens.head?, u.beginsOperand = false := by
      intro hended u hu
      simpa [hended] using hnext u hu
    have hrest := ih hapart hhead'
    rw [List.map_cons, List.sum_cons]
    -- A token that is out of place leaves the count behind what is needed.
    cases t with
    | number v | openParen =>
      have hended : ended = false := by
        rw [Bool.eq_false_iff]
        intro hended
        cases hhead hended _ rfl
      simp only [hended, gain, endsOperand, Alternates, beginsOperand, Bool.not_true,
        Bool.not_false, Bool.toNat_true, Bool.toNat_false, true_and] at hrest ⊢
      exact ⟨by omega, fun heq => hrest.2 (by omega)⟩
    | operator op | closeParen =>
      simp only [gain, endsOperand, Alternates, beginsOperand, Bool.not_true, Bool.not_false,
        Bool.toNat_true, Bool.toNat_false] at hrest ⊢
      cases ended with
      | false =>
        simp only [Bool.not_false, Bool.toNat_true]
        exact ⟨by omega, fun heq => by omega⟩
      | true =>
        simp only [Bool.not_true, Bool.toNat_false, true_and]
        exact ⟨by omega, fun heq => hrest.2 (by omega)⟩

end Token

namespace Infix
open Token

variable {g : Grade} {n : Nat} {seen tokens : List Token} {ended : Bool}

theorem alternates_append (e : Infix g) (h : Alternates true tokens) :
    Alternates false (e.tokens ++ tokens) := by
  induction e generalizing tokens with
  | literal v => exact ⟨rfl, h⟩
  | group e ih =>
    have hclose : Alternates true (.closeParen :: tokens) := ⟨rfl, h⟩
    have hinner := ih hclose
    rw [Infix.tokens, List.cons_append, List.append_assoc]
    exact ⟨rfl, hinner⟩
  | ofFactor f ih | ofTerm t ih => exact ih h
  | product t op f hop ihl ihr | sum e op t hop ihl ihr =>
    have hright : Alternates true (.operator op :: (_ ++ tokens)) := ⟨rfl, ihr h⟩
    rw [Infix.tokens, List.append_assoc, List.cons_append]
    exact ihl hright

theorem alternates (e : Infix g) : Alternates false e.tokens := by
  rw [← List.append_nil e.tokens]
  exact e.alternates_append rfl

/-! ## Derivations from left to right -/

/-- What is in front of an expression of a grade in a derivation, with a number of parentheses
open. -/
inductive Front : Grade → Nat → List Token → Prop where
  | start : Front .expr 0 []
  | group {n : Nat} {seen : List Token} (h : Front .factor n seen) :
    Front .expr (n + 1) (seen ++ [.openParen])
  | ofTerm {n : Nat} {seen : List Token} (h : Front .expr n seen) : Front .term n seen
  | sum {n : Nat} {seen : List Token} (h : Front .expr n seen) (e : Infix .expr) (op : Operator)
    (hop : op = .add ∨ op = .subtract) : Front .term n (seen ++ (e.tokens ++ [.operator op]))
  | ofFactor {n : Nat} {seen : List Token} (h : Front .term n seen) : Front .factor n seen
  | product {n : Nat} {seen : List Token} (h : Front .term n seen) (t : Infix .term) (op : Operator)
    (hop : op = .multiply ∨ op = .divide) : Front .factor n (seen ++ (t.tokens ++ [.operator op]))

/-- What has been read is in front of a factor, or ends in a term behind its front. -/
def Reached : Bool → Nat → List Token → Prop
  | false, n, seen => Front .factor n seen
  | true, n, seen => ∃ front, Front .term n front ∧ ∃ t : Infix .term, front ++ t.tokens = seen

/-- A factor completes a term. -/
theorem Front.reached_factor (h : Front .factor n seen) (f : Infix .factor) :
    Reached true n (seen ++ f.tokens) := by
  cases h with
  | ofFactor h => exact ⟨seen, h, .ofFactor f, rfl⟩
  | @product _ front h t op hop =>
    refine ⟨front, h, .product t op f hop, ?_⟩
    simp [Infix.tokens]

/-- A term completes an expression. -/
theorem Front.exists_expr (h : Front .term n seen) (t : Infix .term) :
    ∃ front, Front .expr n front ∧ ∃ e : Infix .expr, front ++ e.tokens = seen ++ t.tokens := by
  cases h with
  | ofTerm h => exact ⟨seen, h, .ofTerm t, rfl⟩
  | @sum _ front h e op hop =>
    refine ⟨front, h, .sum e op t hop, ?_⟩
    simp [Infix.tokens]

/-- A token in its place is derived from what has been read. -/
theorem Reached.step {t : Token} (h : Reached ended n seen) (ht : t.beginsOperand = !ended)
    (hdepth : 0 ≤ n + t.rise) :
    ∃ m : Nat, (m : Int) = n + t.rise ∧ Reached t.endsOperand m (seen ++ [t]) := by
  cases t with
  | number v =>
    obtain rfl : ended = false := by simpa [beginsOperand] using ht
    exact ⟨n, (Int.add_zero _).symm, Front.reached_factor h (.literal v)⟩
  | openParen =>
    obtain rfl : ended = false := by simpa [beginsOperand] using ht
    exact ⟨n + 1, rfl, .ofFactor (.ofTerm (.group h))⟩
  | operator op =>
    obtain rfl : ended = true := by simpa [beginsOperand] using ht
    obtain ⟨front, hfront, left, rfl⟩ := h
    refine ⟨n, (Int.add_zero _).symm, ?_⟩
    cases op with
    | multiply =>
      rw [List.append_assoc]
      exact .product hfront left .multiply (.inl rfl)
    | divide =>
      rw [List.append_assoc]
      exact .product hfront left .divide (.inr rfl)
    | add =>
      obtain ⟨front', hfront', e, he⟩ := hfront.exists_expr left
      rw [← he, List.append_assoc]
      exact .ofFactor (.sum hfront' e .add (.inl rfl))
    | subtract =>
      obtain ⟨front', hfront', e, he⟩ := hfront.exists_expr left
      rw [← he, List.append_assoc]
      exact .ofFactor (.sum hfront' e .subtract (.inr rfl))
  | closeParen =>
    obtain rfl : ended = true := by simpa [beginsOperand] using ht
    obtain ⟨front, hfront, left, rfl⟩ := h
    obtain ⟨front', hfront', e, he⟩ := hfront.exists_expr left
    cases hfront' with
    | start =>
      -- There is no parenthesis to close.
      exact absurd hdepth (by decide)
    | @group m outer houter =>
      refine ⟨m, ?_, ?_⟩
      · rw [Int.natCast_add]
        exact (Int.add_neg_cancel_right _ 1).symm
      · have hgroup : front ++ left.tokens ++ [.closeParen] = outer ++ (Infix.group e).tokens := by
          rw [← he]
          simp [Infix.tokens]
        rw [hgroup]
        exact houter.reached_factor (.group e)

/-- Tokens in their places are derived from what has been read. -/
theorem Reached.exists_expr (h : Reached ended n seen) (halt : Alternates ended tokens)
    (hbal : Balanced n tokens) : ∃ e : Infix .expr, e.tokens = seen ++ tokens := by
  induction tokens generalizing ended n seen with
  | nil =>
    obtain rfl : ended = true := halt
    obtain ⟨front, hfront, t, rfl⟩ := h
    obtain ⟨front', hfront', e, he⟩ := hfront.exists_expr t
    obtain rfl : n = 0 := by simpa using hbal.closed
    cases hfront' with
    | start => exact ⟨e, by rw [List.append_nil, ← he, List.nil_append]⟩
  | cons t tokens ih =>
    have hdepth : 0 ≤ (n : Int) + t.rise := by
      simpa using hbal.nonneg [t] ⟨tokens, rfl⟩
    obtain ⟨m, hm, hreached⟩ := h.step halt.1 hdepth
    have htail : Balanced m tokens := hm ▸ hbal.tail
    obtain ⟨e, he⟩ := ih hreached halt.2 htail
    exact ⟨e, by rw [he, List.append_assoc, List.singleton_append]⟩

/-- Tokens that alternate, with their parentheses balanced, are those of an expression. -/
theorem exists_tokens_eq (halt : Alternates false tokens) (hbal : Balanced 0 tokens) :
    ∃ e : Infix .expr, e.tokens = tokens := by
  have hstart : Reached false 0 [] := .ofFactor (.ofTerm .start)
  exact hstart.exists_expr halt hbal

/-- A text with a value consists of tokens, and these are derived by the grammar just if no operand
directly follows another one. No operand is lacking then: there are no empty parentheses, and every
operator stands between two operands. -/
theorem derivable_iff_apart {text : String} {v : Float} (h : evaluate text = .ok v) :
    ∃ tokens : List Token, items text.toList = tokens.map .ok ∧
      ((∃ e : Infix .expr, e.tokens = tokens) ↔ Apart tokens) ∧
      (Apart tokens → ¬LacksOperand tokens) := by
  obtain ⟨tokens, hitems, hgain, hbal⟩ := counts_of_evaluateItems h
  have halternates (hapart : Apart tokens) : Alternates false tokens := by
    have hhead : false = true → ∀ t ∈ tokens.head?, t.beginsOperand = false := nofun
    exact (alternates_of_apart hapart hhead).2 hgain
  refine ⟨tokens, hitems, ⟨?_, fun hapart => ?_⟩, fun hapart => ?_⟩
  · rintro ⟨e, rfl⟩
    exact e.alternates.apart
  · exact exists_tokens_eq (halternates hapart) hbal
  · exact (halternates hapart).not_lacksOperand

theorem derivable_iff_apart_group :
    let tokens : List Token := [.openParen, .number 8.0, .operator .subtract, .number 2.0,
      .closeParen, .operator .multiply, .number 0.5]
    evaluate "(8-2)*.5" = .ok 3.0 ∧ items "(8-2)*.5".toList = tokens.map .ok ∧ Apart tokens ∧
      ∃ e : Infix .expr, e.tokens = tokens := by
  intro tokens
  have hvalue : evaluate "(8-2)*.5" = .ok 3.0 := by decide +kernel
  have hitems : items "(8-2)*.5".toList = tokens.map .ok := by decide +kernel
  have hapart : Apart tokens := by
    unfold Apart
    decide
  obtain ⟨tokens', hitems', hderivable, -⟩ := derivable_iff_apart hvalue
  obtain rfl : tokens' = tokens := eq_of_map_ok (hitems'.symm.trans hitems)
  exact ⟨hvalue, hitems, hapart, hderivable.2 hapart⟩

/-- An operator may stand behind both of its operands, as long as it finds two. -/
theorem not_forall_evaluated_derivable :
    ¬∀ (text : String) (v : Float), evaluate text = .ok v →
      ∃ e : Infix .expr, items text.toList = e.tokens.map .ok := by
  intro h
  obtain ⟨e, he⟩ := h "1 2+" 3.0 (by decide +kernel)
  have hitems : items "1 2+".toList =
      [Token.number 1.0, .number 2.0, .operator .add].map .ok := by decide +kernel
  have htokens : e.tokens = [.number 1.0, .number 2.0, .operator .add] :=
    eq_of_map_ok (he.symm.trans hitems)
  have hapart : Apart e.tokens := e.alternates.apart
  rw [htokens] at hapart
  exact absurd (List.isChain_cons_cons.1 hapart).1 (by decide)

end Infix

end PocketCalculator
