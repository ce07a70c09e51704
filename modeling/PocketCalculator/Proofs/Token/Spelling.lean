import PocketCalculator.Proofs.Token.Lexeme

/-!
# Written tokens

The texts that write a sequence of tokens, with any numerals for the numbers and any blanks around
the tokens, are read back as these tokens if no two numbers stand next to each other
(`items_of_written`).
-/

namespace PocketCalculator.Token
open Text

/-- The lexemes of a token. -/
inductive Spells : Token → List Char → Prop where
  | number {run : List Char} (h : ∀ c ∈ run, inLiteral c = true) (hnum : IsNumeral run) :
    Spells (.number ((numeral run).toFloat false)) run
  | operator (op : Operator) : Spells (.operator op) [op.symbol]
  | openParen : Spells .openParen ['(']
  | closeParen : Spells .closeParen [')']

/-- The texts of a sequence of tokens, with blanks anywhere between them. -/
inductive Written : List Token → List Char → Prop where
  | nil {blanks : List Char} (h : ∀ c ∈ blanks, isBlank c = true) : Written [] blanks
  | cons {t : Token} {tokens : List Token} {blanks lexeme rest : List Char}
    (h : ∀ c ∈ blanks, isBlank c = true) (hspell : Spells t lexeme)
    (hrest : Written tokens rest) : Written (t :: tokens) (blanks ++ (lexeme ++ rest))

/-- Whether a token is a number. -/
def isNumber : Token → Bool
  | .number _ => true
  | _ => false

/-- No two numbers stand next to each other. -/
def Separated (tokens : List Token) : Prop :=
  tokens.IsChain fun t u => (t.isNumber && u.isNumber) = false

variable {t u : Token} {tokens tokens' : List Token} {cs l : List Char}

theorem Separated.append_cons (h : Separated tokens) (h' : Separated tokens')
    (ht : t.isNumber = false) : Separated (tokens ++ t :: tokens') := by
  refine List.isChain_append.2 ⟨h, List.isChain_cons.2 ⟨fun u _ => ?_, h'⟩, fun u _ v hv => ?_⟩
  · rw [ht, Bool.false_and]
  · cases hv
    rw [ht, Bool.and_false]

namespace Spells

theorem lexemeItem_eq (h : Spells t l) : lexemeItem l = .ok t := by
  cases h with
  | number h hnum => rw [lexemeItem_of_run h, runItem, if_pos hnum]
  | operator op => cases op <;> rfl
  | openParen | closeParen => rfl

theorem head?_not_blank_or_literal (h : Spells t l) (ht : t.isNumber = false) :
    ∃ c, l = [c] ∧ isBlank c = false ∧ inLiteral c = false := by
  cases h with
  | number => cases ht
  | operator op => exact ⟨_, rfl, by cases op <;> decide, by cases op <;> decide⟩
  | openParen | closeParen => exact ⟨_, rfl, by decide, by decide⟩

theorem leads (h : Spells t l)
    (hrest : t.isNumber = true → ∀ c ∈ cs.head?, inLiteral c = false) : Leads l cs := by
  cases ht : t.isNumber with
  | false =>
    obtain ⟨c, rfl, hblank, hc⟩ := h.head?_not_blank_or_literal ht
    exact .single hblank hc
  | true =>
    cases h with
    | number h hnum =>
      obtain ⟨c, hc, _⟩ := hnum.1
      exact .run (List.ne_nil_of_mem hc) h (hrest ht)
    | operator | openParen | closeParen => cases ht

end Spells

/-- A text of tokens that do not begin with a number does not continue a run. -/
theorem Written.head?_not_inLiteral (h : Written tokens cs)
    (ht : ∀ t ∈ tokens.head?, t.isNumber = false) : ∀ c ∈ cs.head?, inLiteral c = false := by
  intro c hc
  cases h with
  | nil h => exact not_inLiteral_of_isBlank (h c (List.mem_of_head? hc))
  | @cons t _ blanks lexeme rest h hspell =>
    obtain ⟨d, rfl, _, hd⟩ := hspell.head?_not_blank_or_literal (ht t rfl)
    cases blanks with
    | nil =>
      cases hc
      exact hd
    | cons b blanks =>
      cases hc
      exact not_inLiteral_of_isBlank (h _ List.mem_cons_self)

theorem items_of_written (h : Written tokens cs) (hsep : Separated tokens) :
    items cs = tokens.map .ok := by
  induction h with
  | nil h => exact items_of_isBlank h
  | @cons t tokens blanks lexeme rest h hspell hrest ih =>
    obtain ⟨hhead, htail⟩ := List.isChain_cons.1 hsep
    have hlead : Leads lexeme rest := by
      refine hspell.leads fun ht => hrest.head?_not_inLiteral fun u hu => ?_
      have hsep := hhead u hu
      rwa [ht, Bool.true_and] at hsep
    rw [items_of_leads h hlead, hspell.lexemeItem_eq, ih htail, List.map_cons]

end PocketCalculator.Token
