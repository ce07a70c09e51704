import PocketCalculator.Proofs.Display.Layout

/-!
# The digits of the display

Without the zeros at both ends the digits of a written number depend on its value only
(`trimZeros_eq`). On the display they are those of the shortest decimal in every layout
(`significant_finite`), so that no decimal with fewer digits is rounded to the number that is
displayed (`text_shortest`).
-/

namespace PocketCalculator.Display

open Binary64 Decimal

/-- Digits without the zeros at both ends. -/
def trimZeros (digits : List Char) : List Char :=
  (digits.dropWhile (· == '0')).rdropWhile (· == '0')

/-- The significant digits of a written number, which are in front of the mark of an exponent. -/
def significant (cs : List Char) : List Char :=
  trimZeros ((cs.takeWhile (· != 'E')).filter Char.isDigit)

variable {digits : List Char} {v : Float} {d d' : Decimal} {c m w j k : Nat}

/-! ## Zeros at the ends -/

theorem ofDigitChars_dropWhile_zero (digits : List Char) :
    Nat.ofDigitChars 10 (digits.dropWhile (· == '0')) 0 = Nat.ofDigitChars 10 digits 0 := by
  induction digits with
  | nil => rfl
  | cons d digits ih =>
    by_cases hd : d = '0'
    · subst hd
      exact ih
    · rw [List.dropWhile_cons_of_neg (by simpa using hd)]

theorem ofDigitChars_rdropWhile_zero (digits : List Char) :
    ∃ k, Nat.ofDigitChars 10 digits 0 =
      Nat.ofDigitChars 10 (digits.rdropWhile (· == '0')) 0 * 10 ^ k := by
  induction digits using List.reverseRecOn with
  | nil => exact ⟨0, rfl⟩
  | append_singleton digits d ih =>
    by_cases hd : d = '0'
    · obtain ⟨k, hk⟩ := ih
      subst hd
      refine ⟨k + 1, ?_⟩
      rw [List.rdropWhile_concat_pos _ _ _ rfl, Nat.pow_succ, ← Nat.mul_assoc, ← hk,
        Nat.ofDigitChars_append, Nat.mul_comm]
      rfl
    · refine ⟨0, ?_⟩
      rw [List.rdropWhile_concat_neg _ _ _ (by simpa using hd), Nat.pow_zero, Nat.mul_one]

theorem exists_digitChar {d : Char} (h : d.isDigit = true) :
    ∃ n < 10, n.digitChar = d ∧ d.toNat - '0'.toNat = n := by
  obtain ⟨hge, hle⟩ := Char.isDigit_iff_toNat.1 h
  have hzero : '0'.toNat = 48 := rfl
  have hnine : '9'.toNat = 57 := rfl
  refine ⟨d.toNat - '0'.toNat, by omega, Char.toNat_inj.1 ?_, rfl⟩
  rw [Nat.toNat_digitChar_of_lt_ten (by omega)]
  omega

/-- Digits without a zero in front are those of their value. -/
theorem toDigits_ofDigitChars (hne : digits ≠ []) (hdigit : ∀ d ∈ digits, d.isDigit = true)
    (hhead : digits.head? ≠ some '0') :
    Nat.toDigits 10 (Nat.ofDigitChars 10 digits 0) = digits := by
  induction digits using List.reverseRecOn with
  | nil => exact absurd rfl hne
  | append_singleton digits d ih =>
    obtain ⟨n, hn, hd, hvalue⟩ :=
      exists_digitChar (hdigit d (List.mem_append_right _ List.mem_cons_self))
    have hlast : Nat.toDigits 10 n = [d] := by rw [Nat.toDigits_of_lt_base hn, hd]
    rw [Nat.ofDigitChars_append, Nat.ofDigitChars_cons, Nat.ofDigitChars_nil, hvalue]
    by_cases hinit : digits = []
    · subst hinit
      rw [Nat.ofDigitChars_nil, Nat.mul_zero, Nat.zero_add, hlast, List.nil_append]
    · rw [List.head?_append_of_ne_nil _ hinit] at hhead
      have ih := ih hinit (fun d hd => hdigit d (List.mem_append_left _ hd)) hhead
      have hpos : 0 < Nat.ofDigitChars 10 digits 0 := by
        refine Nat.pos_of_ne_zero fun hzero => hhead ?_
        rw [← ih, hzero]
        rfl
      rw [← Nat.toDigits_append_toDigits (by decide) hpos hn, ih, hlast]

theorem ofDigitChars_mod_ten_ne_zero (hdigit : ∀ d ∈ digits, d.isDigit = true)
    (hne : digits ≠ []) (hlast : digits.getLast? ≠ some '0') :
    Nat.ofDigitChars 10 digits 0 % 10 ≠ 0 := by
  obtain ⟨init, d, rfl⟩ := (List.eq_nil_or_concat digits).resolve_left hne
  rw [List.concat_eq_append] at hdigit hlast ⊢
  obtain ⟨n, hn, hd, hvalue⟩ :=
    exists_digitChar (hdigit d (List.mem_append_right _ List.mem_cons_self))
  have hn0 : n ≠ 0 := by
    rintro rfl
    rw [List.getLast?_concat, ← hd] at hlast
    exact hlast rfl
  rw [Nat.ofDigitChars_append, Nat.ofDigitChars_cons, Nat.ofDigitChars_nil, hvalue]
  omega

/-- Decimals of one value differ in the zeros that their coefficients end in. -/
theorem eq_of_mul_ten_pow (hm : m % 10 ≠ 0) (hc : c % 10 ≠ 0) (h : m * 10 ^ j = c * 10 ^ k) :
    m = c := by
  induction j generalizing k with
  | zero =>
    cases k with
    | zero => simpa using h
    | succ k =>
      rw [Nat.pow_succ, ← Nat.mul_assoc] at h
      omega
  | succ j ih =>
    cases k with
    | zero =>
      rw [Nat.pow_succ, ← Nat.mul_assoc] at h
      omega
    | succ k =>
      refine ih (k := k) (Nat.eq_of_mul_eq_mul_right (by decide : 0 < 10) ?_)
      rwa [Nat.mul_assoc, Nat.mul_assoc, ← Nat.pow_succ, ← Nat.pow_succ]

/-- Without the zeros at both ends the digits are those of the coefficient that does not end in a
zero. -/
theorem trimZeros_eq (hdigit : ∀ d ∈ digits, d.isDigit = true) (hc : c % 10 ≠ 0)
    (h : Nat.ofDigitChars 10 digits 0 * 10 ^ j = c * 10 ^ k) :
    trimZeros digits = Nat.toDigits 10 c := by
  obtain ⟨i, hi⟩ := ofDigitChars_rdropWhile_zero (digits.dropWhile (· == '0'))
  change _ = Nat.ofDigitChars 10 (trimZeros digits) 0 * 10 ^ i at hi
  rw [ofDigitChars_dropWhile_zero] at hi
  rw [hi, Nat.mul_assoc, ← Nat.pow_add] at h
  have hinit : trimZeros digits <+: digits.dropWhile (· == '0') := List.rdropWhile_prefix _ _
  have hne : trimZeros digits ≠ [] := by
    intro hnil
    rw [hnil, Nat.ofDigitChars_nil, Nat.zero_mul, eq_comm, Nat.mul_eq_zero] at h
    rcases h with rfl | hpow
    · exact hc rfl
    · exact (ten_pow_pos k).ne' hpow
  have hdigit' : ∀ d ∈ trimZeros digits, d.isDigit = true := fun d hd =>
    hdigit d ((List.dropWhile_sublist _).subset (hinit.subset hd))
  have hhead : (trimZeros digits).head? ≠ some '0' := by
    intro hzero
    have hhead := List.head?_dropWhile_not (· == '0') digits
    obtain ⟨rest, hrest⟩ := hinit
    rw [← hrest, List.head?_append_of_ne_nil _ hne, hzero] at hhead
    cases hhead
  have hlast : (trimZeros digits).getLast? ≠ some '0' := by
    intro hzero
    have hlast := List.rdropWhile_last_not (· == '0') (digits.dropWhile (· == '0')) hne
    rw [List.getLast?_eq_getLast_of_ne_nil hne] at hzero
    exact hlast (beq_iff_eq.2 (Option.some.inj hzero))
  rw [← eq_of_mul_ten_pow (ofDigitChars_mod_ten_ne_zero hdigit' hne hlast) hc h,
    toDigits_ofDigitChars hne hdigit' hhead]

/-- Decimals of one value have the same coefficient but for the zeros that it ends in. -/
theorem exists_mul_ten_pow_eq (h : d.value = d'.value) :
    ∃ j k, d.coefficient * 10 ^ j = d'.coefficient * 10 ^ k := by
  have hten : (10 : ℚ) ≠ 0 := by norm_num
  refine ⟨(d.exponent - d'.exponent).toNat, (d'.exponent - d.exponent).toNat, ?_⟩
  have hpow : (10 : ℚ) ^ (d.exponent - d'.exponent).toNat * 10 ^ d'.exponent =
      10 ^ (d'.exponent - d.exponent).toNat * 10 ^ d.exponent := by
    rw [← zpow_natCast, ← zpow_natCast, ← zpow_add₀ hten, ← zpow_add₀ hten]
    congr 1
    omega
  have hcast : (d.coefficient : ℚ) * 10 ^ (d.exponent - d'.exponent).toNat =
      d'.coefficient * 10 ^ (d'.exponent - d.exponent).toNat := by
    refine mul_right_cancel₀ (zpow_ne_zero d'.exponent hten) ?_
    rw [mul_assoc, hpow, mul_left_comm, ← Decimal.value, h, Decimal.value]
    ring
  exact_mod_cast hcast

/-! ## The display -/

/-- The significant digits are in front of an exponent, behind a sign and on both sides of a
point. -/
theorem significant_eq (negative : Bool) {whole places power : List Char}
    (hwhole : ∀ d ∈ whole, d.isDigit = true) (hplaces : ∀ d ∈ places, d.isDigit = true)
    (hpower : IsPower power) :
    significant ((if negative then ['-'] else []) ++ (whole ++ '.' :: places ++ power)) =
      trimZeros (whole ++ places) := by
  have hmark : ∀ d ∈ (if negative then ['-'] else []) ++ (whole ++ '.' :: places),
      (d != 'E') = true := by
    have hdigit {d : Char} (h : d.isDigit = true) : (d != 'E') = true :=
      bne_iff_ne.2 (ne_of_isDigit h rfl)
    refine List.forall_mem_append.2 ⟨?_, List.forall_mem_append.2 ⟨fun d hd => hdigit (hwhole d hd),
      List.forall_mem_cons.2 ⟨rfl, fun d hd => hdigit (hplaces d hd)⟩⟩⟩
    cases negative with
    | false => exact List.forall_mem_nil _
    | true => exact List.forall_mem_singleton.2 rfl
  have hrest : power.takeWhile (· != 'E') = [] := by
    cases hpower with
    | none => rfl
    | mark negative hne h => rfl
  have hsign : (if negative then ['-'] else []).filter Char.isDigit = [] := by
    cases negative <;> rfl
  rw [significant, ← List.append_assoc, List.takeWhile_append_of_pos hmark, hrest,
    List.append_nil, List.filter_append, hsign, List.nil_append, List.filter_append,
    List.filter_cons_of_neg (by decide), List.filter_eq_self.2 hwhole,
    List.filter_eq_self.2 hplaces]

/-- The last place of a number in plain notation is not in front of the point. -/
theorem two_pow_scale_dvd_one (h : isPlain w = true) : 2 ^ scale w ∣ one := by
  have hbelow : scale plainBelow ≤ 1074 := by decide +kernel
  have hle : w ≤ plainBelow := by
    rcases isPlain_iff.1 h with rfl | ⟨-, hlt⟩
    · exact Nat.zero_le _
    · exact Nat.le_of_lt hlt
  have hscale : scale w ≤ 1074 := by
    generalize plainBelow = below at hbelow hle
    unfold scale at hbelow ⊢
    omega
  obtain ⟨k, hone, hscale⟩ : ∃ k, one = 2 ^ k ∧ scale w ≤ k := ⟨1074, one_eq, hscale⟩
  rw [hone]
  exact Nat.pow_dvd_pow 2 hscale

/-- A whole number in plain notation is its own shortest decimal: it has no places, so that the
shortest decimal has none either. -/
theorem value_shortest_of_isWhole (hzero : w ≠ 0) (hw : w < infinity) (hplain : isPlain w = true)
    (h : isWhole w = true) : (shortest w).value = units w / one := by
  have hexponent : 0 ≤ (shortest w).exponent := by
    obtain ⟨n, hn⟩ := isWhole_iff.1 h
    have hvalue : Decimal.value ⟨n, 0⟩ = units w / one := by
      rw [Decimal.value, zpow_zero, mul_one, hn, Nat.cast_mul,
        mul_div_cancel_left₀ _ one_cast_pos.ne']
    have hencloses := encloses_plain w
    rw [if_pos h, ← hvalue] at hencloses
    exact Int.not_lt.1 fun hneg => not_encloses_of_exponent_lt hzero hw hneg hencloses
  obtain ⟨hnum, hden⟩ := parts_shortest_of_nonneg hzero (two_pow_scale_dvd_one hplain) hexponent
  have hvalue := value_mul_denominator (shortest w)
  rw [hnum, hden, Nat.cast_one, mul_one] at hvalue
  exact eq_div_of_mul_eq one_cast_pos.ne' hvalue

/-- The significant digits of a number on the display are those of its shortest decimal. -/
theorem significant_finite (hzero : w ≠ 0) (hw : w < infinity) (negative : Bool) :
    significant ((if negative then ['-'] else []) ++ finite w) =
      Nat.toDigits 10 (shortest w).coefficient := by
  have hmod := coefficient_shortest_mod_ten hzero hw
  cases hplain : isPlain w with
  | true =>
    obtain ⟨whole, places, heq, -, hwhole, hplaces, hvalue⟩ := plain_eq w
    have hshortest : (if isWhole w then (units w : ℚ) / one else (shortest w).value) =
        (shortest w).value := by
      split
      next h => exact (value_shortest_of_isWhole hzero hw hplain h).symm
      next => rfl
    obtain ⟨j, k, hcoefficient⟩ := exists_mul_ten_pow_eq (hvalue.trans hshortest)
    have hsignificant := significant_eq negative hwhole hplaces .none
    rw [List.append_nil] at hsignificant
    rw [finite, if_pos hplain, heq, hsignificant]
    exact trimZeros_eq (List.forall_mem_append.2 ⟨hwhole, hplaces⟩) hmod hcoefficient
  | false =>
    obtain ⟨whole, places, e, heq, -, hwhole, hplaces, hvalue⟩ := scientific_eq (shortest w)
    obtain ⟨j, k, hcoefficient⟩ := exists_mul_ten_pow_eq hvalue
    rw [finite, hplain, if_neg Bool.false_ne_true, heq,
      significant_eq negative hwhole hplaces (isPower_exponent e)]
    exact trimZeros_eq (List.forall_mem_append.2 ⟨hwhole, hplaces⟩) hmod hcoefficient

/-! ## The least number of digits -/

theorem abs_intCast_mul_zpow (c e : ℤ) : |(c : ℚ) * 10 ^ e| = Decimal.value ⟨c.natAbs, e⟩ := by
  have hpow : (0 : ℚ) ≤ 10 ^ e := zpow_nonneg (by norm_num) e
  rw [abs_mul, abs_of_nonneg hpow, Decimal.value, Nat.cast_natAbs, Int.cast_abs]

theorem exists_signed_value_eq (negative : Bool) (d : Decimal) :
    ∃ c : ℤ, c.natAbs = d.coefficient ∧ signed negative d.value = c * 10 ^ d.exponent := by
  cases negative with
  | false => exact ⟨d.coefficient, Int.natAbs_natCast _, by rw [Int.cast_natCast]; rfl⟩
  | true =>
    refine ⟨-d.coefficient, by rw [Int.natAbs_neg, Int.natAbs_natCast], ?_⟩
    rw [Int.cast_neg, Int.cast_natCast, neg_mul]
    rfl

/-- The significant digits on the display are those of a decimal that is rounded to the number, and
no such decimal has fewer digits. -/
theorem text_shortest (hv : v.isFinite = true) (hzero : v ≠ 0.0 ∧ v ≠ -0.0) :
    (∃ c e : ℤ, significant (text v).toList = Nat.toDigits 10 c.natAbs ∧
      IsNearest v (c * 10 ^ e)) ∧
    ∀ c e : ℤ, IsNearest v (c * 10 ^ e) →
      (significant (text v).toList).length ≤ (Nat.toDigits 10 c.natAbs).length := by
  have hv := (isFinite_iff v).1 hv
  have hword : word v ≠ 0 := by
    intro hword
    rw [Ne, Ne, eq_zero_iff, eq_neg_zero_iff] at hzero
    cases hsign : isNegative v with
    | false => exact hzero.1 ⟨hsign, hword⟩
    | true => exact hzero.2 ⟨hsign, hword⟩
  rw [toList_text_of_finite hv, significant_finite hword hv]
  constructor
  · obtain ⟨c, hc, hvalue⟩ := exists_signed_value_eq (isNegative v) (shortest (word v))
    have hnearest := isNearest_toFloat (shortest (word v)) (isNegative v)
    rw [toFloat, nearestWord_shortest hv, ofWord_word, hvalue] at hnearest
    exact ⟨c, _, by rw [hc], hnearest⟩
  · intro c e h
    have hencloses := encloses_of_isNearest h hword hv
    rw [abs_mul_one, abs_intCast_mul_zpow] at hencloses
    have hlength := Nat.length_toDigits_pos (b := 10) (n := c.natAbs)
    rw [Nat.length_toDigits_le_iff (by decide) hlength]
    exact coefficient_shortest_lt hword hv hencloses
      ((Nat.length_toDigits_le_iff (by decide) hlength).1 (Nat.le_refl _))

theorem text_shortest_of_layouts :
    (text 1234500.0 = "1234500.0" ∧
      ∀ c e : ℤ, IsNearest 1234500.0 (c * 10 ^ e) → 5 ≤ (Nat.toDigits 10 c.natAbs).length) ∧
    (text (0.1 + 0.2) = "0.30000000000000004" ∧
      ∀ c e : ℤ, IsNearest (0.1 + 0.2) (c * 10 ^ e) → 17 ≤ (Nat.toDigits 10 c.natAbs).length) ∧
    text 9.5367431640625e-7 = "9.5367431640625E-7" ∧
      ∀ c e : ℤ, IsNearest 9.5367431640625e-7 (c * 10 ^ e) →
        14 ≤ (Nat.toDigits 10 c.natAbs).length := by
  have hwhole : text 1234500.0 = "1234500.0" := by decide +kernel
  have hplaces : text (0.1 + 0.2) = "0.30000000000000004" := by decide +kernel
  have hpower : text 9.5367431640625e-7 = "9.5367431640625E-7" := by decide +kernel
  refine ⟨⟨hwhole, fun c e h => ?_⟩, ⟨hplaces, fun c e h => ?_⟩, hpower, fun c e h => ?_⟩
  · have hle := (text_shortest (by decide) (by decide)).2 c e h
    rw [hwhole] at hle
    exact hle
  · have hle := (text_shortest (by decide) (by decide)).2 c e h
    rw [hplaces] at hle
    exact hle
  · have hle := (text_shortest (by decide) (by decide)).2 c e h
    rw [hpower] at hle
    exact hle

end PocketCalculator.Display
