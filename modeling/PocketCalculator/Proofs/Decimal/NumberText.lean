import PocketCalculator.Proofs.Decimal.Digits
import PocketCalculator.Proofs.Decimal.Nearest

/-!
# Number text

Number text consists of an optional sign, digits and points, and maybe a power of ten
(`isNumberText_iff`), which is read as a signed decimal (`exists_parts_of_readFloat?`). So its
characters are those of numbers (`inNumber_of_readFloat?`), and what is read is never a NaN
(`word_readFloat?`). The recogniser lets any number of points pass and the parser does not, so that
what is read has a grammar of its own (`isSome_readFloat?_iff`).
-/

namespace PocketCalculator
open Binary64

variable {c : Char} {cs mantissa power : List Char} {v : Float}

/-- Whether a character occurs in numbers. -/
def inNumber (c : Char) : Bool := c.isDigit || ".-E".toList.contains c

theorem inNumber_of_isDigit (h : c.isDigit = true) : inNumber c = true := by
  simp [inNumber, h]

theorem inNumber_of_isDigit_or_point (h : c.isDigit = true ∨ c = '.') : inNumber c = true := by
  rcases h with h | rfl
  · exact inNumber_of_isDigit h
  · rfl

/-- No character of a number occurs in every word. -/
theorem toLower_ne_of_inNumber (h : inNumber c = true) : c.toLower ≠ 'n' := by
  rw [inNumber, Bool.or_eq_true] at h
  rcases h with h | h
  · rw [Decimal.toLower_of_isDigit h]
    exact Decimal.ne_of_isDigit h rfl
  · have hmem : c = '.' ∨ c = '-' ∨ c = 'E' := by simpa using h
    rcases hmem with rfl | rfl | rfl <;> decide

namespace Decimal

/-! ## Parts -/

/-- A power of ten behind its mark, or nothing. -/
inductive IsPower : List Char → Prop where
  | none : IsPower []
  | mark (negative : Bool) {digits : List Char} (hne : digits ≠ [])
    (h : ∀ c ∈ digits, c.isDigit = true) :
    IsPower ('E' :: ((if negative then ['-'] else []) ++ digits))

/-- One or more digits, with at most one point before, between or after them. -/
inductive IsMantissa : List Char → Prop where
  | digits {digits : List Char} (hne : digits ≠ []) (h : ∀ c ∈ digits, c.isDigit = true) :
    IsMantissa digits
  | point {whole places : List Char} (hne : whole ≠ []) (hwhole : ∀ c ∈ whole, c.isDigit = true)
    (hplaces : ∀ c ∈ places, c.isDigit = true) : IsMantissa (whole ++ '.' :: places)
  | places {places : List Char} (hne : places ≠ []) (h : ∀ c ∈ places, c.isDigit = true) :
    IsMantissa ('.' :: places)

/-- The parts of number text behind its sign. -/
structure NumberParts (mantissa power : List Char) : Prop where
  exists_isDigit : ∃ c ∈ mantissa, c.isDigit = true
  isDigit_or_point : ∀ c ∈ mantissa, c.isDigit = true ∨ c = '.'
  isPower : IsPower power

theorem eq_of_mem_sign {negative : Bool} (h : c ∈ if negative then ['-'] else []) : c = '-' := by
  cases negative with
  | false => cases h
  | true => exact List.mem_singleton.1 h

theorem inNumber_of_mem_sign {negative : Bool} (h : c ∈ if negative then ['-'] else []) :
    inNumber c = true := by
  rw [eq_of_mem_sign h]
  rfl

theorem IsPower.inNumber (h : IsPower power) : ∀ c ∈ power, inNumber c = true := by
  cases h with
  | none => exact nofun
  | mark negative hne h =>
    intro c hc
    rw [List.mem_cons, List.mem_append] at hc
    rcases hc with rfl | hc | hc
    · rfl
    · exact inNumber_of_mem_sign hc
    · exact inNumber_of_isDigit (h c hc)

theorem IsMantissa.numberParts (h : IsMantissa mantissa) (hpower : IsPower power) :
    NumberParts mantissa power := by
  cases h with
  | digits hne h =>
    have hhead := List.head_mem hne
    exact ⟨⟨_, hhead, h _ hhead⟩, fun c hc => .inl (h c hc), hpower⟩
  | point hne hwhole hplaces =>
    have hhead := List.head_mem hne
    exact ⟨⟨_, List.mem_append_left _ hhead, hwhole _ hhead⟩,
      List.forall_mem_append.2 ⟨fun c hc => .inl (hwhole c hc),
        List.forall_mem_cons.2 ⟨.inr rfl, fun c hc => .inl (hplaces c hc)⟩⟩, hpower⟩
  | places hne h =>
    have hhead := List.head_mem hne
    exact ⟨⟨_, List.mem_cons_of_mem _ hhead, h _ hhead⟩,
      List.forall_mem_cons.2 ⟨.inr rfl, fun c hc => .inl (h c hc)⟩, hpower⟩

namespace NumberParts

theorem ne_nil (h : NumberParts mantissa power) : mantissa ≠ [] := by
  rintro rfl
  obtain ⟨c, hc, -⟩ := h.exists_isDigit
  cases hc

theorem not_mark (h : NumberParts mantissa power) : ∀ c ∈ mantissa, isMark c = false :=
  fun c hc => (not_mark_of_isDigit_or_point (h.isDigit_or_point c hc)).1

/-- Number text goes on behind its sign with a digit or a point. -/
theorem head? (h : NumberParts mantissa power) :
    ∀ c ∈ (mantissa ++ power).head?, c ≠ '-' ∧ c ≠ '+' := by
  intro c hc
  rw [List.head?_append_of_ne_nil _ h.ne_nil] at hc
  exact (not_mark_of_isDigit_or_point (h.isDigit_or_point c (List.mem_of_mem_head? hc))).2.1

theorem inNumber (h : NumberParts mantissa power) : ∀ c ∈ mantissa ++ power, inNumber c = true :=
  List.forall_mem_append.2 ⟨fun c hc => inNumber_of_isDigit_or_point (h.isDigit_or_point c hc),
    h.isPower.inNumber⟩

end NumberParts

theorem dropMinus_sign_append (negative : Bool) (h : ∀ c ∈ cs.head?, c ≠ '-') :
    dropMinus ((if negative then ['-'] else []) ++ cs) = cs := by
  cases negative with
  | true => rfl
  | false =>
    rw [if_neg Bool.false_ne_true, List.nil_append]
    unfold dropMinus
    split
    · exact absurd rfl (h '-' rfl)
    · rfl

theorem exists_eq_sign_append (cs : List Char) :
    ∃ negative : Bool, cs = (if negative then ['-'] else []) ++ dropMinus cs := by
  unfold dropMinus
  split
  · exact ⟨true, rfl⟩
  · exact ⟨false, rfl⟩

/-- The recogniser of number text takes it apart. -/
theorem isNumberText_iff : isNumberText cs = true ↔
    ∃ (negative : Bool) (mantissa power : List Char),
      cs = (if negative then ['-'] else []) ++ (mantissa ++ power) ∧
        NumberParts mantissa power := by
  constructor
  · intro h
    obtain ⟨negative, hsign⟩ := exists_eq_sign_append cs
    simp only [isNumberText, Bool.and_eq_true, List.any_eq_true, List.all_eq_true,
      Bool.or_eq_true, beq_iff_eq] at h
    obtain ⟨⟨hdigit, hmantissa⟩, hpower⟩ := h
    refine ⟨negative, _, (dropMinus cs).dropWhile (· != 'E'), ?_, hdigit, hmantissa, ?_⟩
    · rwa [List.takeWhile_append_dropWhile]
    cases hrest : (dropMinus cs).dropWhile (· != 'E') with
    | nil => exact .none
    | cons c exponent =>
      obtain rfl := eq_of_dropWhile_eq_cons hrest
      rw [hrest] at hpower
      simp only [Option.all_some, Bool.and_eq_true, Bool.not_eq_true', List.isEmpty_eq_false_iff,
        List.all_eq_true] at hpower
      obtain ⟨negative', hexponent⟩ := exists_eq_sign_append exponent
      rw [hexponent]
      exact .mark negative' hpower.1 hpower.2
  · rintro ⟨negative, mantissa, power, rfl, h⟩
    have hmark : ∀ c ∈ mantissa, (c != 'E') = true := by
      intro c hc
      rw [bne_iff_ne]
      rintro rfl
      exact absurd (h.not_mark _ hc) (by decide)
    have hdrop := dropMinus_sign_append negative fun c hc => (h.head? c hc).1
    rw [isNumberText, hdrop, Bool.and_eq_true, Bool.and_eq_true, List.any_eq_true,
      List.all_eq_true]
    cases h.isPower with
    | none =>
      obtain ⟨htake, hrest⟩ := span_self hmark
      rw [List.append_nil, htake, hrest]
      refine ⟨⟨h.exists_isDigit, fun c hc => ?_⟩, rfl⟩
      simpa using h.isDigit_or_point c hc
    | @mark negative' digits hne hdigits =>
      obtain ⟨htake, hrest⟩ := span_append hmark (d := 'E') rfl
        ((if negative' then ['-'] else []) ++ digits)
      have hhead : ∀ c ∈ digits.head?, c ≠ '-' := fun c hc =>
        ne_of_isDigit (hdigits c (List.mem_of_mem_head? hc)) rfl
      rw [htake, hrest]
      refine ⟨⟨h.exists_isDigit, fun c hc => ?_⟩, ?_⟩
      · simpa using h.isDigit_or_point c hc
      · simp only [dropMinus_sign_append negative' hhead, Option.all_some, Bool.and_eq_true,
          Bool.not_eq_true', List.isEmpty_eq_false_iff, List.all_eq_true]
        exact ⟨hne, hdigits⟩

/-! ## Reading -/

/-- Number text is read as the decimal that its parts denote. -/
theorem readFloat?_sign_append (negative : Bool) (h : NumberParts mantissa power) :
    readFloat? ((if negative then ['-'] else []) ++ (mantissa ++ power)) =
      (ofScientific? (mantissa ++ power)).map (·.toFloat negative) := by
  rw [readFloat?, if_pos (isNumberText_iff.2 ⟨_, _, _, rfl, h⟩)]
  exact parseFloat?_sign_append negative h.head? fun c hc =>
    toLower_ne_of_inNumber (h.inNumber c hc)

theorem exists_parts_of_readFloat? (h : readFloat? cs = some v) :
    ∃ (negative : Bool) (mantissa power : List Char) (d : Decimal),
      cs = (if negative then ['-'] else []) ++ (mantissa ++ power) ∧ NumberParts mantissa power ∧
        ofScientific? (mantissa ++ power) = some d ∧ v = d.toFloat negative := by
  obtain ⟨htext, -⟩ := Option.ite_none_right_eq_some.1 h
  obtain ⟨negative, mantissa, power, rfl, hparts⟩ := isNumberText_iff.1 htext
  rw [readFloat?_sign_append negative hparts] at h
  obtain ⟨d, hd, rfl⟩ := Option.map_eq_some_iff.1 h
  exact ⟨negative, mantissa, power, d, rfl, hparts, hd, rfl⟩

theorem inNumber_of_readFloat? (h : readFloat? cs = some v) : ∀ c ∈ cs, inNumber c = true := by
  obtain ⟨negative, mantissa, power, d, rfl, hparts, -, -⟩ := exists_parts_of_readFloat? h
  exact List.forall_mem_append.2 ⟨fun c hc => inNumber_of_mem_sign hc, hparts.inNumber⟩

theorem word_readFloat? (h : readFloat? cs = some v) : word v ≤ infinity := by
  obtain ⟨negative, _, _, d, -, -, -, rfl⟩ := exists_parts_of_readFloat? h
  exact d.word_toFloat_le negative

/-! ## Grammar -/

/-- The parser reads just the mantissas as plain digits. -/
theorem isSome_ofPlain?_iff : (ofPlain? cs).isSome = true ↔ IsMantissa cs := by
  rw [ofPlain?, Option.isSome_map, isSome_natOfDigits?_iff, List.forall_mem_append]
  constructor
  · rintro ⟨hne, hwhole, hplaces⟩
    rw [← List.takeWhile_append_dropWhile (p := (· != '.')) (l := cs)]
    cases hrest : cs.dropWhile (· != '.') with
    | nil =>
      rw [hrest, List.drop_nil, List.append_nil] at hne
      rw [List.append_nil]
      exact .digits hne hwhole
    | cons c places =>
      obtain rfl := eq_of_dropWhile_eq_cons hrest
      rw [hrest, List.drop_one, List.tail_cons] at hne hplaces
      by_cases hnil : cs.takeWhile (· != '.') = []
      · rw [hnil, List.nil_append] at hne ⊢
        exact .places hne hplaces
      · exact .point hnil hwhole hplaces
  · intro h
    have hpoint {digits : List Char} (hdigits : ∀ c ∈ digits, c.isDigit = true) :
        ∀ c ∈ digits, (c != '.') = true :=
      fun c hc => bne_iff_ne.2 (ne_of_isDigit (hdigits c hc) rfl)
    cases h with
    | digits hne h =>
      obtain ⟨htake, hdrop⟩ := span_self (hpoint h)
      rw [htake, hdrop, List.drop_nil, List.append_nil]
      exact ⟨hne, h, List.forall_mem_nil _⟩
    | @point whole places hne hwhole hplaces =>
      obtain ⟨htake, hdrop⟩ := span_append (hpoint hwhole) (d := '.') rfl places
      rw [htake, hdrop]
      exact ⟨List.append_ne_nil_of_left_ne_nil hne _, hwhole, hplaces⟩
    | places hne h => exact ⟨hne, List.forall_mem_nil _, h⟩

/-- A power of ten is always read, so that the mantissa decides. -/
theorem isSome_ofScientific?_append (h : NumberParts mantissa power) :
    (ofScientific? (mantissa ++ power)).isSome = (ofPlain? mantissa).isSome := by
  cases h.isPower with
  | none => rw [List.append_nil, ofScientific?_of_not_mark h.not_mark]
  | mark negative hne hdigits =>
    rw [ofScientific?_append_mark h.not_mark, intOfDigits?_sign_append negative hne hdigits]
    cases ofPlain? mantissa <;> rfl

/-- A number as the keys and the display write it: maybe a minus sign, a mantissa, and maybe a power
of ten. -/
inductive IsNumber : List Char → Prop where
  | parts (negative : Bool) {mantissa power : List Char} (hmantissa : IsMantissa mantissa)
    (hpower : IsPower power) :
    IsNumber ((if negative then ['-'] else []) ++ (mantissa ++ power))

/-- Just the numbers are read. -/
theorem isSome_readFloat?_iff : (readFloat? cs).isSome = true ↔ IsNumber cs := by
  constructor
  · intro h
    obtain ⟨v, hv⟩ := Option.isSome_iff_exists.1 h
    obtain ⟨negative, mantissa, power, d, rfl, hparts, hd, -⟩ := exists_parts_of_readFloat? hv
    have hsome := isSome_ofScientific?_append hparts
    rw [hd, Option.isSome_some] at hsome
    exact .parts negative (isSome_ofPlain?_iff.1 hsome.symm) hparts.isPower
  · rintro ⟨negative, hmantissa, hpower⟩
    have hparts := hmantissa.numberParts hpower
    rw [readFloat?_sign_append negative hparts, Option.isSome_map,
      isSome_ofScientific?_append hparts]
    exact isSome_ofPlain?_iff.2 hmantissa

theorem isSome_readFloat?_iff_tests :
    (readFloat? cs).isSome = true ↔
      isNumberText cs = true ∧ (parseFloat? cs).isSome = true := by
  rw [readFloat?]
  split
  next h => exact (and_iff_right h).symm
  next h => exact iff_of_false Bool.false_ne_true fun htests => h htests.1

end Decimal

end PocketCalculator
