import PocketCalculator.Proofs.Display.Range
import PocketCalculator.Proofs.Display.Reading

/-!
# The layout of the display

No zeros are displayed that could be left out, except for the single place of whole numbers: the
whole part and the exponent have none in front (`unpadded_toDigits`), and the places have none at
the end, as the coefficient of a shortest decimal has none. In scientific notation the exponent is
never zero, as the numbers with such exponents are in the range of plain notation
(`exponent_of_not_isPlain`). So every number is displayed in one of two layouts (`text_layout`).
-/

namespace PocketCalculator.Display

open Binary64 Decimal

variable {cs : List Char} {v : Float} {w c i j : Nat}

/-! ## Zeros that could be left out -/

/-- Digits without zeros in front, except for a single zero. -/
structure Unpadded (cs : List Char) : Prop where
  ne_nil : cs ≠ []
  isDigit : ∀ c ∈ cs, c.isDigit = true
  eq_zero : cs.head? = some '0' → cs = ['0']

theorem unpadded_toDigits (n : Nat) : Unpadded (Nat.toDigits 10 n) where
  ne_nil := Nat.toDigits_ne_nil
  isDigit _ := isDigit_of_mem_toDigits
  eq_zero hhead := by
    rcases Nat.eq_zero_or_pos n with rfl | hn
    · rfl
    · exact absurd hhead (head?_toDigits_ne_zero hn)

theorem unpadded_zero : Unpadded ['0'] := unpadded_toDigits 0

/-- Digits that do not end in a zero have no zeros in front when they are reversed. -/
theorem unpadded_reverse (hne : cs ≠ []) (hdigit : ∀ c ∈ cs, c.isDigit = true)
    (hlast : cs.getLast? ≠ some '0') : Unpadded cs.reverse where
  ne_nil := List.reverse_ne_nil_iff.2 hne
  isDigit c hc := hdigit c (List.mem_reverse.1 hc)
  eq_zero hhead := absurd (List.head?_reverse ▸ hhead) hlast

theorem getLast?_toDigits (n : Nat) :
    (Nat.toDigits 10 n).getLast? = some (n % 10).digitChar := by
  rcases Nat.lt_or_ge n 10 with hlt | hge
  · rw [Nat.toDigits_of_lt_base hlt, Nat.mod_eq_of_lt hlt]
    rfl
  · rw [Nat.toDigits_of_base_le (by decide) hge, List.getLast?_concat]

theorem getLast?_toDigits_ne_zero {n : Nat} (h : n % 10 ≠ 0) :
    (Nat.toDigits 10 n).getLast? ≠ some '0' := by
  have hdigit : ∀ d < 10, d ≠ 0 → some d.digitChar ≠ some '0' := by decide
  rw [getLast?_toDigits]
  exact hdigit _ (Nat.mod_lt n (by decide)) h

/-! ## Plain notation -/

/-- Zeros in front of digits do not change their end. -/
theorem unpadded_leftpad {n : Nat} (h : n % 10 ≠ 0) (k : Nat) :
    Unpadded ((Nat.toDigits 10 n).leftpad k '0').reverse ∧
      (Nat.toDigits 10 n).leftpad k '0' ≠ ['0'] := by
  have hlast : ((Nat.toDigits 10 n).leftpad k '0').getLast? ≠ some '0' := by
    rw [List.leftpad, List.getLast?_append_of_ne_nil _ Nat.toDigits_ne_nil]
    exact getLast?_toDigits_ne_zero h
  have hne : (Nat.toDigits 10 n).leftpad k '0' ≠ [] :=
    List.append_ne_nil_of_right_ne_nil _ Nat.toDigits_ne_nil
  refine ⟨unpadded_reverse hne (fun _ => isDigit_of_mem_leftpad) hlast, fun hzero => ?_⟩
  rw [hzero] at hlast
  exact hlast rfl

/-- In plain notation a zero is the only place of whole numbers, and the places of all other numbers
do not end in a zero. -/
theorem plain_layout (hw : w < infinity) :
    ∃ whole places, plain w = whole ++ '.' :: places ∧ Unpadded whole ∧
      Unpadded places.reverse ∧ (places = ['0'] ↔ one ∣ units w) := by
  cases h : isWhole w with
  | true =>
    exact ⟨_, ['0'], plain_of_isWhole h, unpadded_toDigits _, unpadded_zero,
      iff_of_true rfl (isWhole_iff.1 h)⟩
  | false =>
    obtain ⟨hzero, hwhole⟩ := ne_zero_of_not_isWhole h
    have hneg := exponent_shortest_neg h
    have hten : 10 ∣ 10 ^ (-(shortest w).exponent).toNat :=
      Nat.dvd_of_pow_dvd (by omega) (Nat.dvd_refl _)
    have hmod : (shortest w).coefficient % 10 ^ (-(shortest w).exponent).toNat % 10 ≠ 0 := by
      rw [Nat.mod_mod_of_dvd _ hten]
      exact coefficient_shortest_mod_ten hzero hw
    obtain ⟨hplaces, hne⟩ := unpadded_leftpad hmod (-(shortest w).exponent).toNat
    exact ⟨_, _, plain_of_not_isWhole h, unpadded_toDigits _, hplaces, iff_of_false hne hwhole⟩

/-! ## Exponents -/

/-- The place of the first digit, from the position of a grid point. -/
theorem length_toDigits_add_le_iff (hc : 0 < c) :
    (Nat.toDigits 10 c).length + i ≤ j ↔ c * Band.step i < Band.step j := by
  have htwo : 0 < 2 ^ 1075 := by decide +kernel
  have hpos : 0 < (Nat.toDigits 10 c).length := List.length_pos_iff.2 Nat.toDigits_ne_nil
  rw [Band.step, Band.step, Nat.mul_left_comm, Nat.mul_lt_mul_left htwo]
  rcases Nat.lt_or_ge i j with hlt | hge
  · obtain ⟨k, rfl⟩ := Nat.exists_eq_add_of_lt hlt
    rw [Nat.add_assoc, Nat.add_comm i, Nat.pow_add, Nat.mul_lt_mul_right (ten_pow_pos i),
      ← Nat.length_toDigits_le_iff (by decide) (Nat.succ_pos k)]
    exact Nat.add_le_add_iff_right
  · have hpow : 10 ^ j ≤ c * 10 ^ i :=
      Nat.le_trans (Nat.pow_le_pow_right (by decide) hge) (Nat.le_mul_of_pos_left _ hc)
    exact iff_of_false (by omega) (Nat.not_lt.2 hpow)

theorem low_ofWord_mono {w' : Nat} (h : w ≤ w') : (Band.ofWord w).low ≤ (Band.ofWord w').low :=
  Nat.mul_le_mul_right _ (Nat.add_le_add
    (units_strictMono.monotone (Nat.sub_le_sub_right h 1)) (units_strictMono.monotone h))

theorem high_ofWord_mono {w' : Nat} (h : w ≤ w') : (Band.ofWord w).high ≤ (Band.ofWord w').high :=
  Nat.mul_le_mul_right _ (Nat.add_le_add
    (units_strictMono.monotone h) (units_strictMono.monotone (Nat.succ_le_succ h)))

/-- No decimal of a number below `0.001` is `0.001` or more. -/
theorem lt_step_of_contains {x : Nat} (hw : w < plainFrom)
    (hx : (Band.ofWord w).contains x = true) : x < Band.step 321 := by
  have hend : (Band.ofWord (plainFrom - 1)).high < Band.step 321 := by decide +kernel
  have hle := high_ofWord_mono (Nat.le_sub_one_of_lt hw)
  obtain ⟨-, hhigh, -⟩ := Band.contains_iff.1 hx
  exact Nat.lt_of_le_of_lt hhigh (Nat.lt_of_le_of_lt hle hend)

/-- The decimals of ten million start below it, but then there is a coarser grid with ten million
itself on it. -/
theorem step_le_of_contains (hw : plainBelow ≤ w) (hc : 0 < c)
    (hcontains : (Band.ofWord w).contains (c * Band.step i) = true)
    (hcoarser : i < 331 → ∀ c', (Band.ofWord w).contains (c' * Band.step 331) = false) :
    Band.step 331 ≤ c * Band.step i := by
  have hend : Band.step 331 ≤ (Band.ofWord (plainBelow + 1)).low := by decide +kernel
  have hmillions : (Band.ofWord plainBelow).contains (1 * Band.step 331) = true := by
    decide +kernel
  obtain ⟨hlow, -, -⟩ := Band.contains_iff.1 hcontains
  generalize plainBelow = below at hw hend hmillions
  rcases Nat.lt_or_eq_of_le hw with hlt | rfl
  · exact Nat.le_trans hend (Nat.le_trans (low_ofWord_mono hlt) hlow)
  · have hgrid : 331 ≤ i := by
      by_contra hlt
      rw [hcoarser (Nat.not_le.1 hlt) 1] at hmillions
      cases hmillions
    exact Nat.le_trans (Band.step_mono hgrid) (Nat.le_mul_of_pos_left _ hc)

/-- The shortest decimals of numbers outside the range of plain notation are outside it, too. -/
theorem exponent_of_not_isPlain (h : isPlain w = false) (hw : w < infinity) :
    let digits := Nat.toDigits 10 (shortest w).coefficient
    let e := (shortest w).exponent + (digits.drop 1).length
    e ≤ -4 ∨ 7 ≤ e := by
  rw [← Bool.not_eq_true, isPlain_iff, not_or, not_and_or, Nat.not_le, Nat.not_lt] at h
  obtain ⟨hzero, hrange⟩ := h
  have hmod := coefficient_shortest_mod_ten hzero hw
  obtain ⟨i, c, heq, -, hcontains, hcoarser⟩ := shortest_eq hzero
  rw [heq] at hmod
  have hc : 0 < c := by
    refine Nat.pos_of_ne_zero ?_
    rintro rfl
    exact hmod rfl
  have hpos : 0 < (Nat.toDigits 10 c).length := List.length_pos_iff.2 Nat.toDigits_ne_nil
  -- The first of `l` digits is at place `i - 324 + (l - 1)`.
  simp only [heq, List.length_drop]
  rcases hrange with hlt | hge
  · have hlength := (length_toDigits_add_le_iff hc).2 (lt_step_of_contains hlt hcontains)
    omega
  · have hposition := step_le_of_contains hge hc hcontains fun hi =>
      hcoarser 331 hi (by decide)
    have hlength := (length_toDigits_add_le_iff hc).not.2 (Nat.not_lt.2 hposition)
    omega

/-! ## Scientific notation -/

/-- Digits that do not end in a zero have a digit in front of the point that is not zero. -/
theorem mantissa_layout (h : c % 10 ≠ 0) :
    ∃ digit places, (let digits := Nat.toDigits 10 c
        digits.take 1 ++ '.' :: if digits.drop 1 = [] then ['0'] else digits.drop 1) =
      digit :: '.' :: places ∧ digit.isDigit = true ∧ digit ≠ '0' ∧ Unpadded places.reverse := by
  have hpos : 0 < c := Nat.pos_of_ne_zero fun hc => h (by rw [hc])
  have hhead := head?_toDigits_ne_zero hpos
  have hlast := getLast?_toDigits_ne_zero h
  have hdigits : ∀ c' ∈ Nat.toDigits 10 c, c'.isDigit = true := fun _ => isDigit_of_mem_toDigits
  obtain ⟨digit, places, hcons⟩ :=
    List.exists_cons_of_ne_nil (Nat.toDigits_ne_nil (b := 10) (n := c))
  rw [hcons] at hhead hlast hdigits ⊢
  refine ⟨digit, if places = [] then ['0'] else places, rfl, hdigits digit List.mem_cons_self, ?_,
    ?_⟩
  · rintro rfl
    exact hhead rfl
  · split
    next => exact unpadded_zero
    next hne =>
      rw [List.getLast?_cons_of_ne_nil hne] at hlast
      exact unpadded_reverse hne (fun c' hc' => hdigits c' (List.mem_cons_of_mem _ hc')) hlast

theorem exponent_layout {e : Int} (he : e ≠ 0) :
    ∃ sign power, exponent e = sign ++ power ∧ (sign = [] ∨ sign = ['-']) ∧ Unpadded power ∧
      power ≠ ['0'] := by
  refine ⟨_, _, exponent_eq e, ?_, unpadded_toDigits _, fun hzero => ?_⟩
  · split
    next => exact .inr rfl
    next => exact .inl rfl
  · refine head?_toDigits_ne_zero (Int.natAbs_pos.2 he) ?_
    rw [hzero]
    rfl

/-- In scientific notation there is one digit in front of the point, and it is not zero. -/
theorem scientific_layout (h : isPlain w = false) (hw : w < infinity) :
    ∃ digit places sign power,
      scientific (shortest w) = digit :: '.' :: places ++ 'E' :: (sign ++ power) ∧
        digit.isDigit = true ∧ digit ≠ '0' ∧ Unpadded places.reverse ∧
        (sign = [] ∨ sign = ['-']) ∧ Unpadded power ∧ power ≠ ['0'] := by
  have hzero : w ≠ 0 := by
    rintro rfl
    cases h
  obtain ⟨digit, places, hmantissa, hdigit, hne, hplaces⟩ :=
    mantissa_layout (coefficient_shortest_mod_ten hzero hw)
  have hrange := exponent_of_not_isPlain h hw
  have he : (shortest w).exponent +
      ((Nat.toDigits 10 (shortest w).coefficient).drop 1).length ≠ 0 := by
    dsimp only at hrange
    omega
  obtain ⟨sign, power, hexponent, hpower⟩ := exponent_layout he
  refine ⟨digit, places, sign, power, ?_, hdigit, hne, hplaces, hpower⟩
  rw [scientific_eq_append, hmantissa, hexponent]

/-! ## Numbers -/

/-- The layout of numbers. A minus sign stands for a set sign bit. The zeros and the numbers from
`0.001` up to ten million have a whole part, a point and places, and a zero is the only place of
just the whole numbers. All other numbers have a digit that is not zero, a point and places, and
behind the mark `E` an exponent that is not zero. There are no zeros in front of a whole part or an
exponent, and none at the end of more places than one. -/
theorem text_layout (hv : v.isFinite = true) :
    ∃ magnitude, (text v).toList = (if isNegative v then ['-'] else []) ++ magnitude ∧
      if v.abs = 0.0 ∨ 0.001 ≤ v.abs ∧ v.abs < 10000000.0 then
        ∃ whole places, magnitude = whole ++ '.' :: places ∧ Unpadded whole ∧
          Unpadded places.reverse ∧ (places = ['0'] ↔ one ∣ units (word v))
      else
        ∃ digit places sign power, magnitude = digit :: '.' :: places ++ 'E' :: (sign ++ power) ∧
          digit.isDigit = true ∧ digit ≠ '0' ∧ Unpadded places.reverse ∧
            (sign = [] ∨ sign = ['-']) ∧ Unpadded power ∧ power ≠ ['0'] := by
  rw [isFinite_iff] at hv
  refine ⟨_, toList_text_of_finite hv, ?_⟩
  split
  next hrange =>
    rw [finite, if_pos ((isPlain_word_iff_abs hv).2 hrange)]
    exact plain_layout hv
  next hrange =>
    have hplain : isPlain (word v) = false :=
      Bool.eq_false_iff.2 fun hplain => hrange ((isPlain_word_iff_abs hv).1 hplain)
    rw [finite, hplain, if_neg Bool.false_ne_true]
    exact scientific_layout hplain hv

theorem text_layout_of_ten_million :
    text (-0.0) = "-0.0" ∧ text 10000000.0 = "1.0E7" ∧
      (∃ whole places, "0.0".toList = whole ++ '.' :: places ∧ Unpadded whole ∧
        Unpadded places.reverse ∧ (places = ['0'] ↔ one ∣ units (word (-0.0)))) ∧
      ∃ digit places sign power, "1.0E7".toList = digit :: '.' :: places ++ 'E' :: (sign ++ power) ∧
        digit.isDigit = true ∧ digit ≠ '0' ∧ Unpadded places.reverse ∧
          (sign = [] ∨ sign = ['-']) ∧ Unpadded power ∧ power ≠ ['0'] := by
  have hzero : text (-0.0) = "-0.0" := by decide +kernel
  have hmillions : text 10000000.0 = "1.0E7" := by decide +kernel
  obtain ⟨zero, hzeroText, hplain⟩ := text_layout (v := -0.0) (by decide)
  obtain ⟨millions, hmillionsText, hscientific⟩ := text_layout (v := 10000000.0) (by decide)
  have hzeroSign : isNegative (-0.0) = true := by decide
  have hmillionsSign : isNegative 10000000.0 = false := by decide
  rw [hzero, hzeroSign, if_pos rfl] at hzeroText
  rw [hmillions, hmillionsSign, if_neg Bool.false_ne_true, List.nil_append] at hmillionsText
  rw [if_pos (by decide +kernel)] at hplain
  rw [if_neg (by decide +kernel)] at hscientific
  have hmagnitude : "0.0".toList = zero := List.cons.inj hzeroText |>.2
  rw [hmagnitude, hmillionsText]
  exact ⟨hzero, hmillions, hplain, hscientific⟩

end PocketCalculator.Display
