import PocketCalculator.Proofs.Decimal.Digits
import PocketCalculator.Proofs.Display.Notation

/-!
# Reading the display

Both notations are number text (`plain_eq`, `scientific_eq`) and are read as decimals of the value
that they show, so that the display text of a finite number is read as this number
(`readFloat?_text`). Therefore nothing is lost on the display (`text_lossless`).
-/

namespace PocketCalculator.Display

open Binary64 Decimal

variable {v : Float} {w : Nat} {c : Char}

/-! ## Digits -/

theorem length_leftpad_toDigits {n places : Nat} (hplaces : 0 < places) (hn : n < 10 ^ places) :
    ((Nat.toDigits 10 n).leftpad places '0').length = places := by
  rw [List.length_leftpad]
  exact Nat.max_eq_left ((Nat.length_toDigits_le_iff (by decide) hplaces).2 hn)

/-- Zeros in front of digits make room for the digits that have been read before. -/
theorem ofDigitChars_leftpad {n places : Nat} (hplaces : 0 < places) (hn : n < 10 ^ places)
    (init : Nat) :
    Nat.ofDigitChars 10 ((Nat.toDigits 10 n).leftpad places '0') init = 10 ^ places * init + n := by
  rw [Nat.ofDigitChars_eq_ofDigitChars_zero, length_leftpad_toDigits hplaces hn, List.leftpad,
    Nat.ofDigitChars_append, Nat.ofDigitChars_replicate_zero, Nat.mul_zero,
    Nat.ofDigitChars_ten_toDigits]

theorem isDigit_of_mem_leftpad {n places : Nat} (h : c ∈ (Nat.toDigits 10 n).leftpad places '0') :
    c.isDigit = true := by
  rw [List.leftpad, List.mem_append, List.mem_replicate] at h
  rcases h with ⟨-, rfl⟩ | h
  · rfl
  · exact isDigit_of_mem_toDigits h

/-! ## Plain notation -/

/-- Plain notation consists of digits, a point and further digits, and shows the exact value of a
whole number, and of all other numbers that of the shortest decimal. -/
theorem plain_eq (w : Nat) :
    ∃ whole places, plain w = whole ++ '.' :: places ∧ whole ≠ [] ∧
      (∀ c ∈ whole, c.isDigit = true) ∧ (∀ c ∈ places, c.isDigit = true) ∧
      value ⟨Nat.ofDigitChars 10 (whole ++ places) 0, -places.length⟩ =
        if isWhole w then (units w : ℚ) / one else (shortest w).value := by
  cases h : isWhole w with
  | true =>
    obtain ⟨n, hn⟩ := isWhole_iff.1 h
    refine ⟨_, ['0'], plain_of_isWhole h, Nat.toDigits_ne_nil, fun _ => isDigit_of_mem_toDigits,
      by simp, ?_⟩
    have hcoefficient :
        Nat.ofDigitChars 10 (Nat.toDigits 10 (units w / one) ++ ['0']) 0 = n * 10 ^ 1 := by
      rw [Nat.ofDigitChars_append, Nat.ofDigitChars_ten_toDigits, hn,
        Nat.mul_div_cancel_left _ Binary64.one_pos, Nat.mul_comm n]
      rfl
    have hvalue : Decimal.value ⟨n, 0⟩ = n := by rw [Decimal.value, zpow_zero, mul_one]
    rw [hcoefficient, if_pos rfl, hn, Nat.cast_mul, mul_div_cancel_left₀ _ one_cast_pos.ne',
      ← hvalue]
    exact value_mul_ten_pow n 1 0
  | false =>
    have hneg := exponent_shortest_neg h
    have hpos : 0 < (-(shortest w).exponent).toNat := by omega
    have hlt := Nat.mod_lt (shortest w).coefficient (ten_pow_pos (-(shortest w).exponent).toNat)
    refine ⟨_, _, plain_of_not_isWhole h, Nat.toDigits_ne_nil, fun _ => isDigit_of_mem_toDigits,
      fun _ => isDigit_of_mem_leftpad, ?_⟩
    rw [Nat.ofDigitChars_append, Nat.ofDigitChars_ten_toDigits,
      ofDigitChars_leftpad hpos hlt, Nat.div_add_mod, length_leftpad_toDigits hpos hlt,
      Int.toNat_of_nonneg (by omega), Int.neg_neg, if_neg Bool.false_ne_true]

/-- What plain notation shows is rounded to the number. -/
theorem encloses_plain (w : Nat) :
    Encloses w ((if isWhole w then (units w : ℚ) / one else (shortest w).value) * one) := by
  split
  next =>
    rw [div_mul_cancel₀ _ one_cast_pos.ne']
    exact (inBand_iff_encloses Nat.one_pos (by rw [Nat.cast_one, mul_one])).1 (inBand_units w)
  next h => exact encloses_shortest (ne_zero_of_not_isWhole (Bool.eq_false_iff.2 h)).1

/-! ## Scientific notation -/

theorem exponent_eq (e : Int) :
    exponent e = (if e < 0 then ['-'] else []) ++ Nat.toDigits 10 e.natAbs := by
  unfold exponent
  split
  next h =>
    have habs : (-e).toNat = e.natAbs := by omega
    rw [habs]
    rfl
  next h =>
    have habs : e.toNat = e.natAbs := by omega
    rw [habs]
    rfl

theorem isPower_exponent (e : Int) : IsPower ('E' :: exponent e) := by
  have hpower := IsPower.mark (decide (e < 0)) (Nat.toDigits_ne_nil (b := 10) (n := e.natAbs))
    fun _ => isDigit_of_mem_toDigits
  simpa only [exponent_eq, decide_eq_true_eq] using hpower

theorem intOfDigits?_exponent (e : Int) : intOfDigits? (exponent e) = some e := by
  have hread := intOfDigits?_sign_append (decide (e < 0))
    (Nat.toDigits_ne_nil (b := 10) (n := e.natAbs)) fun _ => isDigit_of_mem_toDigits
  simp only [decide_eq_true_eq, Nat.ofDigitChars_ten_toDigits] at hread
  rw [exponent_eq, hread]
  congr 1
  omega

/-- Scientific notation consists of digits, a point, further digits and an exponent, and keeps the
value. -/
theorem scientific_eq (d : Decimal) :
    ∃ whole places e, scientific d = (whole ++ '.' :: places) ++ 'E' :: exponent e ∧ whole ≠ [] ∧
      (∀ c ∈ whole, c.isDigit = true) ∧ (∀ c ∈ places, c.isDigit = true) ∧
      value ⟨Nat.ofDigitChars 10 (whole ++ places) 0, -places.length + e⟩ = d.value := by
  obtain ⟨c, e⟩ := d
  have hwhole : (Nat.toDigits 10 c).take 1 ≠ [] := by
    rw [Ne, List.take_eq_nil_iff]
    simp [Nat.toDigits_ne_nil]
  have hdigit : ∀ c' ∈ (Nat.toDigits 10 c).take 1, c'.isDigit = true := fun _ h =>
    isDigit_of_mem_toDigits (List.mem_of_mem_take h)
  refine ⟨_, _, _, scientific_eq_append ⟨c, e⟩, hwhole, hdigit, ?_⟩
  dsimp only
  by_cases hdrop : (Nat.toDigits 10 c).drop 1 = []
  · -- A single digit is followed by a zero, which makes the coefficient ten times as large.
    have htake : (Nat.toDigits 10 c).take 1 = Nat.toDigits 10 c := by
      rw [← List.append_nil (List.take _ _), ← hdrop, List.take_append_drop]
    refine ⟨by simp [hdrop], ?_⟩
    rw [if_pos hdrop, htake, Nat.ofDigitChars_append, Nat.ofDigitChars_ten_toDigits, hdrop]
    have hvalue := value_mul_ten_pow c 1 e
    rw [Nat.pow_one, Nat.mul_comm] at hvalue
    rw [← hvalue]
    congr 2
    change -1 + (e + 0) = e - 1
    omega
  · rw [if_neg hdrop]
    refine ⟨fun _ h => isDigit_of_mem_toDigits (List.mem_of_mem_drop h), ?_⟩
    rw [List.take_append_drop, Nat.ofDigitChars_ten_toDigits, Int.add_left_comm,
      Int.add_left_neg, Int.add_zero]

/-! ## Numbers -/

/-- The display text of a finite magnitude is number text, and shows the magnitude. -/
theorem finite_eq (hw : w < infinity) :
    ∃ mantissa power d, finite w = mantissa ++ power ∧ NumberParts mantissa power ∧
      ofScientific? (mantissa ++ power) = some d ∧ d.nearestWord = w ∧
        ('E' ∈ power ↔ isPlain w = false) := by
  unfold finite
  split
  next hplain =>
    obtain ⟨whole, places, heq, hne, hwhole, hplaces, hvalue⟩ := plain_eq w
    have hparts := (IsMantissa.point hne hwhole hplaces).numberParts .none
    have hencloses := encloses_plain w
    rw [← hvalue] at hencloses
    refine ⟨_, [], _, by rw [heq, List.append_nil], hparts, ?_,
      nearestWord_of_encloses hw hencloses, by simp [hplain]⟩
    rw [List.append_nil, ofScientific?_of_not_mark hparts.not_mark,
      ofPlain?_append_point hne hwhole hplaces]
  next hplain =>
    obtain ⟨whole, places, e, heq, hne, hwhole, hplaces, hvalue⟩ := scientific_eq (shortest w)
    have hparts := (IsMantissa.point hne hwhole hplaces).numberParts (isPower_exponent e)
    refine ⟨_, _, _, heq, hparts, ?_, (nearestWord_congr hvalue).trans (nearestWord_shortest hw),
      by simp [hplain]⟩
    rw [ofScientific?_append_mark hparts.not_mark, ofPlain?_append_point hne hwhole hplaces,
      Option.bind_some, intOfDigits?_exponent, Option.bind_some]

/-- The display text of a finite magnitude is read as this magnitude, with either sign. -/
theorem readFloat?_finite (hw : w < infinity) (negative : Bool) :
    readFloat? ((if negative then ['-'] else []) ++ finite w) = some (ofWord negative w) := by
  obtain ⟨mantissa, power, d, heq, hparts, hd, hvalue, -⟩ := finite_eq hw
  rw [heq, readFloat?_sign_append negative hparts, hd, Option.map_some, toFloat, hvalue]

theorem toList_text_of_finite (h : word v < infinity) :
    (text v).toList = (if isNegative v then ['-'] else []) ++ finite (word v) := by
  simp only [text, if_neg (Nat.not_lt.2 (Nat.le_of_lt h)), if_neg (Nat.ne_of_lt h),
    String.toList_ofList]
  split <;> rfl

theorem text_of_word_eq_infinity (h : word v = infinity) :
    text v = if isNegative v then "-Infinity" else "Infinity" := by
  simp only [text, h, Nat.lt_irrefl, if_false, if_true]
  split <;> rfl

/-- The display text of a finite number is read as this number. -/
theorem readFloat?_text (h : word v < infinity) : readFloat? (text v).toList = some v := by
  rw [toList_text_of_finite h, readFloat?_finite h, ofWord_word]

/-- Only infinities and NaNs are displayed as words. -/
theorem inNumber_of_mem_text (hv : word v < infinity) (h : c ∈ (text v).toList) :
    inNumber c = true :=
  inNumber_of_readFloat? (readFloat?_text hv) c h

theorem text_of_isNaN (h : infinity < word v) : text v = "NaN" := by
  simp only [text, if_pos h]

/-- The words on the display are not read as numbers. -/
theorem readFloat?_words : ∀ t ∈ ["NaN", "Infinity", "-Infinity"], readFloat? t.toList = none := by
  decide

theorem readFloat?_text_of_infinity (h : word v = infinity) :
    readFloat? (text v).toList = none := by
  refine readFloat?_words _ ?_
  rw [text_of_word_eq_infinity h]
  split <;> decide

/-- The two infinities are told apart. -/
theorem eq_of_text_eq_of_infinity {v' : Float} (hv : word v = infinity) (hv' : word v' = infinity)
    (h : text v' = text v) : v' = v := by
  rw [text_of_word_eq_infinity hv, text_of_word_eq_infinity hv'] at h
  have hsign : isNegative v' = isNegative v := by
    cases hs : isNegative v <;> cases hs' : isNegative v' <;> simp [hs, hs'] at h ⊢
  rw [← ofWord_word v, ← ofWord_word v', hv, hv', hsign]

/-- Nothing is lost on the display: finite numbers are read back from their text, infinities and
NaNs have words of their own, and numbers with the same text are the same. -/
theorem text_lossless (v : Float) :
    (v.isFinite = true → readFloat? (text v).toList = some v ∧
      text v ∉ ["NaN", "Infinity", "-Infinity"]) ∧
    (v.isNaN = true → text v = "NaN") ∧
    text (.ofBits 0x7FF0000000000000) = "Infinity" ∧
    text (.ofBits 0xFFF0000000000000) = "-Infinity" ∧
    (v.isNaN = false → ∀ v' : Float, v'.isNaN = false → text v' = text v → v' = v) := by
  have hnumber (u : Float) (hu : u.isNaN = false) : word u < infinity ∨ word u = infinity := by
    rw [Bool.eq_false_iff, Ne, isNaN_iff, Nat.not_lt] at hu
    exact Nat.lt_or_eq_of_le hu
  refine ⟨fun hv => ?_, fun hv => text_of_isNaN ((isNaN_iff v).1 hv), by decide, by decide,
    fun hv v' hv' h => ?_⟩
  · have hread := readFloat?_text ((isFinite_iff v).1 hv)
    refine ⟨hread, fun hword => ?_⟩
    rw [readFloat?_words _ hword] at hread
    cases hread
  · have hread : readFloat? (text v').toList = readFloat? (text v).toList := by rw [h]
    rcases hnumber v hv with hv | hv <;> rcases hnumber v' hv' with hv' | hv'
    · rw [readFloat?_text hv, readFloat?_text hv'] at hread
      exact Option.some.inj hread
    · rw [readFloat?_text hv, readFloat?_text_of_infinity hv'] at hread
      cases hread
    · rw [readFloat?_text_of_infinity hv, readFloat?_text hv'] at hread
      cases hread
    · exact eq_of_text_eq_of_infinity hv hv' h

theorem text_lossless_extremes :
    (Float.ofBits 1).isFinite = true ∧ text (.ofBits 1) = "5.0E-324" ∧
      readFloat? (text (.ofBits 1)).toList = some (.ofBits 1) ∧
      (0.0 / 0.0 : Float).isNaN = true ∧ text (0.0 / 0.0) = "NaN" ∧
      text (1.0 / 0.0) = text (.ofBits 0x7FF0000000000000) ∧
      (1.0 / 0.0 : Float) = .ofBits 0x7FF0000000000000 := by
  have hleast : (Float.ofBits 1).isFinite = true := by decide
  have hnan : (0.0 / 0.0 : Float).isNaN = true := by decide
  have htext : text (1.0 / 0.0) = text (.ofBits 0x7FF0000000000000) := by decide
  refine ⟨hleast, by decide +kernel, ((text_lossless _).1 hleast).1, hnan,
    (text_lossless _).2.1 hnan, htext, ?_⟩
  exact (text_lossless _).2.2.2.2 (by decide) _ (by decide) htext

end PocketCalculator.Display
