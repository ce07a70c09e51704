import PocketCalculator.Proofs.Display.Digits
import PocketCalculator.Proofs.Session.Press

/-!
# What percent takes for a number

The recogniser of number text lets any number of points pass, and the parser also reads words, plus
signs and small marks. What passes both has one point and one mark at most (`IsNumber.count_le`) and
no other characters than minus signs and digits. All finite numbers are displayed in this way, and
percent does nothing on an input line that is none (`percent_number_iff`).
-/

namespace PocketCalculator

open Binary64

namespace Decimal

variable {c d : Char} {cs digits mantissa power : List Char}

/-! ## Characters of numbers -/

theorem mem_of_inNumber (h : inNumber c = true) : c ∈ "0123456789.-E".toList := by
  rw [inNumber, Bool.or_eq_true] at h
  rcases h with h | h
  · obtain ⟨n, hn, rfl, -⟩ := Display.exists_digitChar h
    have hdigit : ∀ n < 10, n.digitChar ∈ "0123456789.-E".toList := by decide
    exact hdigit n hn
  · exact List.mem_append_right "0123456789".toList (List.contains_iff_mem.1 h)

theorem count_eq_zero_of_isDigit (h : ∀ c ∈ digits, c.isDigit = true) (hd : d.isDigit = false) :
    digits.count d = 0 :=
  List.count_eq_zero.2 fun hmem => ne_of_isDigit (h d hmem) hd rfl

theorem IsMantissa.count_point_le (h : IsMantissa mantissa) : mantissa.count '.' ≤ 1 := by
  cases h with
  | digits hne h =>
    rw [count_eq_zero_of_isDigit h rfl]
    exact Nat.zero_le 1
  | point hne hwhole hplaces =>
    rw [List.count_append, List.count_cons_self, count_eq_zero_of_isDigit hwhole rfl,
      count_eq_zero_of_isDigit hplaces rfl]
  | places hne h => rw [List.count_cons_self, count_eq_zero_of_isDigit h rfl]

theorem count_sign_eq_zero (negative : Bool) (hd : d ≠ '-') :
    (if negative then ['-'] else []).count d = 0 :=
  List.count_eq_zero.2 (mt eq_of_mem_sign hd)

theorem IsPower.counts (h : IsPower power) : power.count '.' = 0 ∧ power.count 'E' ≤ 1 := by
  cases h with
  | none => decide
  | mark negative hne h =>
    rw [List.count_cons_of_ne (by decide), List.count_cons_self, List.count_append,
      List.count_append, count_sign_eq_zero _ (by decide), count_sign_eq_zero _ (by decide),
      count_eq_zero_of_isDigit h rfl, count_eq_zero_of_isDigit h rfl]
    decide

namespace IsNumber

theorem inNumber (h : IsNumber cs) : ∀ c ∈ cs, inNumber c = true := by
  obtain ⟨v, hv⟩ := Option.isSome_iff_exists.1 (isSome_readFloat?_iff.2 h)
  exact inNumber_of_readFloat? hv

theorem count_le (h : IsNumber cs) : cs.count '.' ≤ 1 ∧ cs.count 'E' ≤ 1 := by
  obtain @⟨negative, mantissa, power, hmantissa, hpower⟩ := h
  have hmark : 'E' ∉ mantissa := fun hmem =>
    absurd ((hmantissa.numberParts hpower).not_mark _ hmem) (by decide)
  rw [List.count_append, List.count_append, List.count_append, List.count_append,
    count_sign_eq_zero _ (by decide), count_sign_eq_zero _ (by decide), hpower.counts.1,
    List.count_eq_zero.2 hmark, Nat.zero_add, Nat.zero_add, Nat.zero_add, Nat.add_zero]
  exact ⟨hmantissa.count_point_le, hpower.counts.2⟩

/-- No number is read as a word. -/
theorem floatOfWord? (h : IsNumber cs) (negative : Bool) :
    floatOfWord? negative (splitSign cs).2 = none := by
  have hinNumber := h.inNumber
  obtain ⟨negative', hmantissa, hpower⟩ := h
  rw [splitSign_sign_append negative' (hmantissa.numberParts hpower).head?]
  exact floatOfWord?_eq_none
    (fun c hc => toLower_ne_of_inNumber (hinNumber c (List.mem_append_right _ hc))) negative

end IsNumber

end Decimal

namespace Session

open Decimal

/-! ## Percent -/

/-- Percent's two tests together accept just the numbers of the grammar. These consist of digits,
points, minus signs and capital marks, with one point and one mark at most, and are never read as
words. Every finite number is displayed as one. On anything else percent does nothing. -/
theorem percent_number_iff (t : String) :
    (isNumberText t.toList = true ∧ (parseFloat? t.toList).isSome = true ↔ IsNumber t.toList) ∧
    (IsNumber t.toList →
      (∀ c ∈ t.toList, c ∈ "0123456789.-E".toList) ∧ t.toList.count '.' ≤ 1 ∧
        t.toList.count 'E' ≤ 1 ∧ ∀ negative, floatOfWord? negative (splitSign t.toList).2 = none) ∧
    (∀ v : Float, v.isFinite = true → Display.text v = t → IsNumber t.toList) ∧
    (¬IsNumber t.toList → ∀ s : Session, s.input = t → s.press .percent = s) := by
  refine ⟨isSome_readFloat?_iff_tests.symm.trans isSome_readFloat?_iff, fun h => ?_, ?_, ?_⟩
  · exact ⟨fun c hc => mem_of_inNumber (h.inNumber c hc), h.count_le.1, h.count_le.2,
      h.floatOfWord?⟩
  · rintro v hv rfl
    have hread := Display.readFloat?_text ((isFinite_iff v).1 hv)
    exact isSome_readFloat?_iff.1 (Option.isSome_of_eq_some hread)
  · rintro h s rfl
    have hread : readFloat? s.input.toList = none :=
      Option.not_isSome_iff_eq_none.1 (isSome_readFloat?_iff.not.2 h)
    rw [press_percent, hread, Option.elim_none]

/-- Neither test is enough: two points pass the recogniser, and plus signs, small marks and words
pass the parser. -/
theorem percent_number_iff_of_either_test :
    (isNumberText "-.5E-7".toList = true ∧ (parseFloat? "-.5E-7".toList).isSome = true ∧
      IsNumber "-.5E-7".toList ∧ "-.5E-7".toList.count '.' ≤ 1) ∧
    ((Float.ofBits 1).isFinite = true ∧ Display.text (.ofBits 1) = "5.0E-324" ∧
      IsNumber "5.0E-324".toList) ∧
    (isNumberText "1.2.3".toList = true ∧ ¬IsNumber "1.2.3".toList ∧
      ({ input := "1.2.3" } : Session).press .percent = { input := "1.2.3" }) ∧
    ∀ t ∈ ["+5", "1e5", "inf"], (parseFloat? t.toList).isSome = true ∧ ¬IsNumber t.toList := by
  obtain ⟨haccepted, hnumber, -, -⟩ := percent_number_iff "-.5E-7"
  obtain ⟨-, -, hdisplay, -⟩ := percent_number_iff "5.0E-324"
  obtain ⟨hrejected, -, -, hvoid⟩ := percent_number_iff "1.2.3"
  have htests : isNumberText "-.5E-7".toList = true ∧ (parseFloat? "-.5E-7".toList).isSome = true :=
    ⟨by decide, by decide +kernel⟩
  have hleast : (Float.ofBits 1).isFinite = true := by decide
  have htext : Display.text (.ofBits 1) = "5.0E-324" := by decide +kernel
  have htwo : ¬IsNumber "1.2.3".toList := hrejected.not.1 (by decide +kernel)
  refine ⟨⟨htests.1, htests.2, haccepted.1 htests, (hnumber (haccepted.1 htests)).2.1⟩,
    ⟨hleast, htext, hdisplay _ hleast htext⟩, ⟨by decide, htwo, hvoid htwo _ rfl⟩, fun t ht => ?_⟩
  have hparse : ∀ t ∈ ["+5", "1e5", "inf"], (parseFloat? t.toList).isSome = true ∧
      isNumberText t.toList = false := by decide +kernel
  obtain ⟨hsome, htext⟩ := hparse t ht
  exact ⟨hsome, (percent_number_iff t).1.not.1 fun h => Bool.false_ne_true (htext.symm.trans h.1)⟩

end Session

end PocketCalculator
