import PocketCalculator.Decimal.Basic
import PocketCalculator.Proofs.Binary64.Nearest

/-!
# The word nearest to a decimal

Exponents that are out of range are no exception to rounding a quotient (`nearestWord_eq_nearest`).
So decimals are read as the numbers that their values are rounded to (`isNearest_toFloat`), and
rounding keeps their order (`nearestWord_mono`, `toFloat_mono`).
-/

namespace PocketCalculator.Decimal

open Binary64

variable {d d' : Decimal} {w : Nat}

theorem ten_pow_pos (n : Nat) : 0 < 10 ^ n := Nat.pow_pos (by decide)

theorem denominator_pos (d : Decimal) : 0 < d.denominator := ten_pow_pos _

theorem numerator_eq (d : Decimal) :
    d.numerator = d.coefficient * 10 ^ d.exponent.toNat * one := by
  rw [numerator, one_eq]

/-- The value of a decimal. -/
def value (d : Decimal) : ℚ := d.coefficient * 10 ^ d.exponent

theorem value_nonneg (d : Decimal) : 0 ≤ d.value :=
  mul_nonneg (Nat.cast_nonneg _) (zpow_nonneg (by norm_num) _)

theorem value_mul_denominator (d : Decimal) :
    d.value * one * d.denominator = d.numerator := by
  have hpow : (10 : ℚ) ^ d.exponent * 10 ^ (-d.exponent).toNat = 10 ^ d.exponent.toNat := by
    have hexp : d.exponent + ((-d.exponent).toNat : Int) = (d.exponent.toNat : Int) := by omega
    rw [← zpow_natCast, ← zpow_natCast, ← zpow_add₀ (by norm_num), hexp]
  rw [numerator_eq, denominator, value]
  push_cast
  rw [← hpow]
  ring

/-- Rounding a decimal is rounding its value. -/
theorem inBand_iff (d : Decimal) :
    InBand w d.numerator d.denominator ↔ Encloses w (d.value * one) :=
  inBand_iff_encloses d.denominator_pos d.value_mul_denominator

/-- A power of ten is at least the third power of two as many times. -/
theorem two_pow_le_ten_pow {k n : Nat} (h : k ≤ 3 * n) : 2 ^ k ≤ 10 ^ n := by
  refine Nat.le_trans (Nat.pow_le_pow_right (by decide) h) ?_
  rw [Nat.pow_mul]
  exact Nat.pow_le_pow_left (by decide) n

theorem nearest_of_large_exponent (hc : d.coefficient ≠ 0) (h : 1024 ≤ 3 * d.exponent) :
    nearest d.numerator d.denominator = infinity := by
  have hden : d.denominator = 1 := by
    have hzero : (-d.exponent).toNat = 0 := by omega
    rw [denominator, hzero, Nat.pow_zero]
  have hpow : 2 ^ 1024 ≤ 10 ^ d.exponent.toNat := two_pow_le_ten_pow (by omega)
  refine nearest_eq_infinity ?_
  rw [hden, Nat.div_one, numerator, units_infinity, ← Nat.pow_add]
  calc 2 ^ (52 + 2046) = 1 * 2 ^ 1024 * 2 ^ 1074 := by rw [Nat.one_mul, ← Nat.pow_add]
    _ ≤ d.coefficient * 10 ^ d.exponent.toNat * 2 ^ 1074 :=
      Nat.mul_le_mul_right _ (Nat.mul_le_mul (Nat.pos_of_ne_zero hc) hpow)

theorem nearest_of_small_exponent (h : d.coefficient.log2 + 1076 ≤ -3 * d.exponent) :
    nearest d.numerator d.denominator = 0 := by
  have hnum : d.numerator = d.coefficient * 2 ^ 1074 := by
    have hzero : d.exponent.toNat = 0 := by omega
    rw [numerator, hzero, Nat.pow_zero, Nat.mul_one]
  have hpow : 2 ^ (d.coefficient.log2 + 1 + (1074 + 1)) ≤ d.denominator :=
    two_pow_le_ten_pow (by omega)
  have htwice (k : Nat) :
      2 * (d.coefficient * 2 ^ k) < 2 ^ (d.coefficient.log2 + 1 + (k + 1)) := by
    rw [Nat.mul_left_comm, ← Nat.pow_succ', Nat.pow_add 2 (d.coefficient.log2 + 1)]
    exact Nat.mul_lt_mul_of_pos_right Nat.lt_log2_self (Nat.two_pow_pos _)
  have hlt : 2 * d.numerator < d.denominator := by
    rw [hnum]
    exact Nat.lt_of_lt_of_le (htwice 1074) hpow
  refine nearest_eq_of_inBand d.denominator_pos (by decide) ⟨Nat.zero_le _, ?_, nofun⟩
  have hunits : units 0 + units (0 + 1) = 1 := rfl
  rw [hunits, Nat.mul_one]
  exact Nat.le_of_lt hlt

theorem nearest_zero {den : Nat} (h : 0 < den) : nearest 0 den = 0 :=
  nearest_eq_of_inBand h (by decide) ⟨Nat.zero_le _, Nat.zero_le _, nofun⟩

/-- The nearest word of a decimal is that of a quotient, also for an exponent that is out of
range. -/
theorem nearestWord_eq_nearest (d : Decimal) :
    d.nearestWord = nearest d.numerator d.denominator := by
  rw [nearestWord]
  split
  next hc =>
    rw [numerator, hc, Nat.zero_mul, Nat.zero_mul, nearest_zero d.denominator_pos]
  next hc =>
  split
  next hlarge => exact (nearest_of_large_exponent hc hlarge).symm
  next =>
  split
  next hsmall => exact (nearest_of_small_exponent hsmall).symm
  next => rfl

theorem nearestWord_le_infinity (d : Decimal) : d.nearestWord ≤ infinity := by
  rw [nearestWord_eq_nearest]
  exact Nat.min_le_right _ _

theorem word_toFloat (d : Decimal) (negative : Bool) :
    word (d.toFloat negative) = d.nearestWord :=
  word_ofWord d.nearestWord_le_infinity

theorem word_toFloat_le (d : Decimal) (negative : Bool) : word (d.toFloat negative) ≤ infinity := by
  rw [word_toFloat]
  exact d.nearestWord_le_infinity

theorem isNegative_toFloat (d : Decimal) (negative : Bool) :
    isNegative (d.toFloat negative) = negative :=
  isNegative_ofWord d.nearestWord_le_infinity

/-- The value of a decimal is rounded to the number that the decimal is read as. -/
theorem isNearest_toFloat (d : Decimal) (negative : Bool) :
    IsNearest (d.toFloat negative) (signed negative d.value) := by
  obtain ⟨w, hw, heq⟩ := exists_inBand d.denominator_pos d.numerator
  rw [toFloat, nearestWord_eq_nearest, heq]
  have habs : |signed negative d.value| = d.value := by
    rw [abs_signed, abs_of_nonneg d.value_nonneg]
  refine isNearest_ofWord ?_ (by rw [habs])
  rw [abs_mul_one, habs]
  exact d.inBand_iff.1 hw

/-- Rounding keeps the order of decimals. -/
theorem nearestWord_mono (h : d.value ≤ d'.value) : d.nearestWord ≤ d'.nearestWord := by
  rw [nearestWord_eq_nearest, nearestWord_eq_nearest, ← nearest_mul_right d'.denominator_pos,
    ← nearest_mul_right d.denominator_pos d'.numerator, Nat.mul_comm d'.denominator]
  refine nearest_mono (Nat.mul_pos d.denominator_pos d'.denominator_pos) ?_
  have hscale : (0 : ℚ) ≤ one * d.denominator * d'.denominator := by positivity
  have hcast : ((d.numerator * d'.denominator : Nat) : ℚ) ≤ (d'.numerator * d.denominator : Nat) :=
    calc ((d.numerator * d'.denominator : Nat) : ℚ)
        = d.value * (one * d.denominator * d'.denominator) := by
          rw [Nat.cast_mul, ← value_mul_denominator]
          ring
      _ ≤ d'.value * (one * d.denominator * d'.denominator) := mul_le_mul_of_nonneg_right h hscale
      _ = (d'.numerator * d.denominator : Nat) := by
          rw [Nat.cast_mul, ← value_mul_denominator]
          ring
  exact Nat.cast_le.1 hcast

/-- Decimals of one value have one nearest word, whatever zeros they end in. -/
theorem nearestWord_congr (h : d.value = d'.value) : d.nearestWord = d'.nearestWord :=
  Nat.le_antisymm (nearestWord_mono h.le) (nearestWord_mono h.ge)

theorem nearestWord_of_encloses (hw : w < infinity) (h : Encloses w (d.value * one)) :
    d.nearestWord = w := by
  rw [nearestWord_eq_nearest]
  exact nearest_eq_of_inBand d.denominator_pos hw (d.inBand_iff.2 h)

/-- Numbers that are read have the order of the values of their decimals. -/
theorem toFloat_mono (h : d.value ≤ d'.value) : d.toFloat false ≤ d'.toFloat false := by
  rw [le_iff_rank_le (d.word_toFloat_le false) (d'.word_toFloat_le false),
    rank_of_not_isNegative (d.isNegative_toFloat false),
    rank_of_not_isNegative (d'.isNegative_toFloat false), word_toFloat, word_toFloat]
  exact Int.ofNat_le.2 (nearestWord_mono h)

/-- A power of ten may be moved from the exponent to the coefficient. -/
theorem value_mul_ten_pow (c k : Nat) (e : Int) : value ⟨c * 10 ^ k, e - k⟩ = value ⟨c, e⟩ := by
  have hpow : (10 : ℚ) ^ (e - k) * 10 ^ k = 10 ^ e := by
    rw [← zpow_natCast, ← zpow_add₀ (by norm_num), Int.sub_add_cancel]
  rw [value, value, ← hpow]
  push_cast
  ring

end PocketCalculator.Decimal
