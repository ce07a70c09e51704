import PocketCalculator.Proofs.Display.Range
import PocketCalculator.Proofs.Display.Reading
import PocketCalculator.Proofs.Evaluation.Parentheses

/-!
# Evaluation of number text

A text that is read as a number consists of a sign, a run of digits and points, and an exponent
(`readFloat?_parts`). As an expression it has the same value if it is the run alone; a sign in front
lacks an operand, and the mark of an exponent is no token (`evaluate_of_readFloat?`). So of all that
the display can show, just the numbers in plain notation without a sign can be evaluated
(`evaluate_text_by_range`).
-/

namespace PocketCalculator
open Binary64

variable {cs run rest : List Char} {d : Decimal} {v : Float}

/-! ## Parts of number text -/

namespace Decimal

theorem readFloat?_parts (h : readFloat? cs = some v) :
    ∃ (negative : Bool) (run rest : List Char) (d : Decimal),
      cs = (if negative then ['-'] else []) ++ (run ++ rest) ∧ ofPlain? run = some d ∧
        (rest = [] ∧ v = d.toFloat negative ∨ ∃ exponent, rest = 'E' :: exponent) := by
  obtain ⟨negative, run, power, d, rfl, hparts, hd, rfl⟩ := exists_parts_of_readFloat? h
  cases hparts.isPower with
  | none =>
    rw [List.append_nil, ofScientific?_of_not_mark hparts.not_mark] at hd
    exact ⟨negative, run, [], d, rfl, hd, .inl ⟨rfl, rfl⟩⟩
  | mark negative' hne hdigits =>
    rw [ofScientific?_append_mark hparts.not_mark] at hd
    obtain ⟨d', hd', -⟩ := Option.bind_eq_some_iff.1 hd
    exact ⟨negative, run, _, d', rfl, hd', .inr ⟨_, rfl⟩⟩

theorem inLiteral_of_ofPlain? (h : ofPlain? run = some d) :
    run ≠ [] ∧ ∀ c ∈ run, Token.inLiteral c = true := by
  constructor
  · rintro rfl
    cases h
  · intro c hc
    rcases isDigit_or_point_of_ofPlain? h hc with hdigit | rfl
    · rw [Token.inLiteral, hdigit, Bool.true_or]
    · rfl

end Decimal

/-! ## Items of number text -/

/-- A run that is read as a number is the literal of this number. -/
theorem Token.items_numeral_append (h : Decimal.ofPlain? run = some d)
    (hrest : ∀ c ∈ rest.head?, inLiteral c = false) :
    items (run ++ rest) = .ok (.number (d.toFloat false)) :: items rest := by
  obtain ⟨hne, hrun⟩ := Decimal.inLiteral_of_ofPlain? h
  rw [ofPlain?_eq hrun, Option.ite_none_right_eq_some] at h
  obtain ⟨hnumeral, hd⟩ := h
  rw [items_run_append hne hrun hrest, runItem, if_pos hnumeral, Option.some.inj hd]

theorem Token.items_sign_append (negative : Bool) (cs : List Char) :
    items ((if negative then ['-'] else []) ++ cs) =
      (if negative then [.ok (.operator .subtract)] else []) ++ items cs := by
  cases negative with
  | false => rfl
  | true => exact items_cons_single _ (by decide) rfl

/-! ## Evaluation -/

/-- Number text as an expression. -/
theorem evaluate_of_readFloat? {expression : String}
    (h : Decimal.readFloat? expression.toList = some v) :
    evaluate expression =
      if 'E' ∈ expression.toList then .error (.invalidCharacter 'E')
      else if isNegative v then .error .malformedExpression
      else .ok v := by
  obtain ⟨negative, run, rest, d, hparts, hrun, hrest⟩ := Decimal.readFloat?_parts h
  have hliteral := (Decimal.inLiteral_of_ofPlain? hrun).2
  have hmark : 'E' ∈ expression.toList ↔ 'E' ∈ rest := by
    have hsign : 'E' ∉ (if negative then ['-'] else []) := mt Decimal.eq_of_mem_sign (by decide)
    have hrun : 'E' ∉ run := fun hmem => absurd (hliteral _ hmem) (by decide)
    rw [hparts, List.mem_append, List.mem_append, or_iff_right hsign, or_iff_right hrun]
  rcases hrest with ⟨rfl, rfl⟩ | ⟨exponent, rfl⟩
  · have hend : ∀ c ∈ ([] : List Char).head?, Token.inLiteral c = false := fun _ hc => nomatch hc
    have hnil : Token.items [] = [] := Token.items_of_isBlank fun _ hc => nomatch hc
    rw [if_neg (hmark.not.2 (List.not_mem_nil)), d.isNegative_toFloat, evaluate, hparts,
      Token.items_sign_append, Token.items_numeral_append hrun hend, hnil]
    cases negative <;> rfl
  · have hhead : ∀ c ∈ ('E' :: exponent).head?, Token.inLiteral c = false := by
      rintro _ ⟨⟩
      rfl
    have hitem : Token.items ('E' :: exponent) =
        .error (.invalidCharacter 'E') :: Token.items exponent :=
      Token.items_cons_single _ (by decide) rfl
    rw [if_pos (hmark.2 List.mem_cons_self), evaluate, hparts, Token.items_sign_append,
      Token.items_numeral_append hrun hhead, hitem]
    cases negative <;> rfl

namespace Display

/-- The mark of an exponent is on the display in scientific notation only. -/
theorem mark_mem_finite_iff {w : Nat} (hw : w < infinity) : 'E' ∈ finite w ↔ isPlain w = false := by
  obtain ⟨mantissa, power, d, heq, hparts, -, -, hmark⟩ := finite_eq hw
  have hmantissa : 'E' ∉ mantissa := fun hmem => absurd (hparts.not_mark _ hmem) (by decide)
  rw [heq, List.mem_append, or_iff_right hmantissa, hmark]

theorem mark_mem_text_iff (hv : word v < infinity) :
    'E' ∈ (text v).toList ↔ isPlain (word v) = false := by
  have hsign : 'E' ∉ (if isNegative v then ['-'] else []) := mt Decimal.eq_of_mem_sign (by decide)
  rw [toList_text_of_finite hv, List.mem_append, or_iff_right hsign, mark_mem_finite_iff hv]

/-- The display text of a finite number as an expression. -/
theorem evaluate_text (hv : word v < infinity) :
    evaluate (text v) =
      if isPlain (word v) then
        if isNegative v then .error .malformedExpression else .ok v
      else .error (.invalidCharacter 'E') := by
  rw [evaluate_of_readFloat? (readFloat?_text hv)]
  simp only [mark_mem_text_iff hv, Bool.eq_false_iff, ite_not]

/-- A character that is no token is reported, also behind a sign. -/
theorem evaluate_sign_append_single (negative : Bool) {c : Char} {e : EvalError}
    (hblank : Text.isBlank c = false) (hc : Token.inLiteral c = false)
    (hitem : Token.lexemeItem [c] = .error e) (cs : List Char) :
    evaluate (.ofList ((if negative then ['-'] else []) ++ c :: cs)) = .error e := by
  rw [evaluate, String.toList_ofList, Token.items_sign_append,
    Token.items_cons_single cs hblank hc, hitem]
  cases negative <;> rfl

theorem evaluate_text_of_infinity (hv : word v = infinity) :
    evaluate (text v) = .error (.invalidCharacter 'I') := by
  have hword : text v = .ofList ((if isNegative v then ['-'] else []) ++ "Infinity".toList) := by
    rw [text_of_word_eq_infinity hv]
    split <;> rfl
  rw [hword]
  exact evaluate_sign_append_single (isNegative v) (by decide) rfl rfl "nfinity".toList

theorem evaluate_text_of_isNaN (hv : infinity < word v) :
    evaluate (text v) = .error (.invalidCharacter 'N') := by
  rw [text_of_isNaN hv]
  exact evaluate_sign_append_single false (by decide) rfl rfl "aN".toList

/-- What comes of typing a number back as it is displayed. Plain notation gives just the number, but
a sign in front lacks an operand, and neither the mark of an exponent nor a word is read. -/
theorem evaluate_text_by_range (v : Float) :
    evaluate (text v) =
      if v.isNaN then .error (.invalidCharacter 'N')
      else if v.isInf then .error (.invalidCharacter 'I')
      else if v = 0.0 ∨ 0.001 ≤ v ∧ v < 10000000.0 then .ok v
      else if v = -0.0 ∨ -10000000.0 < v ∧ v ≤ -0.001 then .error .malformedExpression
      else .error (.invalidCharacter 'E') := by
  rcases Nat.lt_trichotomy (word v) infinity with hv | hv | hv
  · have hnan : v.isNaN ≠ true := (isNaN_iff v).not.2 (Nat.lt_asymm hv)
    have hinf : v.isInf ≠ true := (isInf_iff v).not.2 (Nat.ne_of_lt hv)
    rw [if_neg hnan, if_neg hinf, evaluate_text hv]
    simp only [plain_unsigned_iff hv, plain_signed_iff hv]
    cases isNegative v <;> cases isPlain (word v) <;> simp
  · have hnan : v.isNaN ≠ true := (isNaN_iff v).not.2 (Nat.not_lt.2 (Nat.le_of_eq hv))
    rw [if_neg hnan, if_pos ((isInf_iff v).2 hv), evaluate_text_of_infinity hv]
  · rw [if_pos ((isNaN_iff v).2 hv), evaluate_text_of_isNaN hv]

end Display

end PocketCalculator
