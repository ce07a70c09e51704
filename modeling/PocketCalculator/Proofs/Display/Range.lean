import PocketCalculator.Display
import PocketCalculator.Proofs.Binary64.Order

/-!
# The range of plain notation

Plain notation is for the zeros and for the numbers from `0.001` up to ten million, with or without
a sign (`plain_unsigned_iff`, `plain_signed_iff`).
-/

namespace PocketCalculator.Display

open Binary64

variable {v : Float} {w : Nat}

theorem isPlain_iff : isPlain w = true ↔ w = 0 ∨ plainFrom ≤ w ∧ w < plainBelow := by
  simp only [isPlain, Bool.or_eq_true, Bool.and_eq_true, beq_iff_eq, decide_eq_true_eq]

theorem eq_zero_iff : v = 0.0 ↔ isNegative v = false ∧ word v = 0 := by
  constructor
  · rintro rfl
    decide
  · rintro ⟨hsign, hword⟩
    rw [← ofWord_word v, hsign, hword]
    decide

theorem eq_neg_zero_iff : v = -0.0 ↔ isNegative v = true ∧ word v = 0 := by
  constructor
  · rintro rfl
    decide
  · rintro ⟨hsign, hword⟩
    rw [← ofWord_word v, hsign, hword]
    decide

/-- The bounds of plain notation as places among the numbers. -/
theorem plain_bounds (hv : word v < infinity) :
    (0.001 ≤ v ↔ (plainFrom : Int) ≤ rank v) ∧ (v < 10000000.0 ↔ rank v < plainBelow) ∧
      (v ≤ -0.001 ↔ rank v ≤ -plainFrom) ∧ (-10000000.0 < v ↔ -(plainBelow : Int) < rank v) := by
  have hfrom : rank 0.001 = plainFrom := by decide +kernel
  have hbelow : rank 10000000.0 = plainBelow := by decide +kernel
  have hfrom' : rank (-0.001) = -plainFrom := by decide +kernel
  have hbelow' : rank (-10000000.0) = -plainBelow := by decide +kernel
  refine ⟨?_, ?_, ?_, ?_⟩
  · rw [le_iff_rank_le (by decide) hv.le, hfrom]
  · rw [lt_iff_rank_lt hv.le (by decide), hbelow]
  · rw [le_iff_rank_le hv.le (by decide), hfrom']
  · rw [lt_iff_rank_lt (by decide) hv.le, hbelow']

theorem plainFrom_pos : 0 < plainFrom := by decide +kernel

theorem plain_unsigned_iff (hv : word v < infinity) :
    (v = 0.0 ∨ 0.001 ≤ v ∧ v < 10000000.0) ↔
      isNegative v = false ∧ isPlain (word v) = true := by
  obtain ⟨hfrom, hbelow, -, -⟩ := plain_bounds hv
  have hpos := plainFrom_pos
  rw [eq_zero_iff, hfrom, hbelow, isPlain_iff]
  cases hsign : isNegative v with
  | false =>
    rw [rank_of_not_isNegative hsign]
    simp only [true_and]
    omega
  | true =>
    rw [rank_of_isNegative hsign]
    simp only [Bool.true_eq_false, false_and, false_or, iff_false]
    omega

theorem plain_signed_iff (hv : word v < infinity) :
    (v = -0.0 ∨ -10000000.0 < v ∧ v ≤ -0.001) ↔
      isNegative v = true ∧ isPlain (word v) = true := by
  obtain ⟨-, -, hfrom, hbelow⟩ := plain_bounds hv
  have hpos := plainFrom_pos
  rw [eq_neg_zero_iff, hfrom, hbelow, isPlain_iff]
  cases hsign : isNegative v with
  | false =>
    rw [rank_of_not_isNegative hsign]
    simp only [Bool.false_eq_true, false_and, false_or, iff_false]
    omega
  | true =>
    rw [rank_of_isNegative hsign]
    simp only [true_and]
    omega

theorem isPlain_word_iff (hv : word v < infinity) (hsign : isNegative v = false) :
    isPlain (word v) = true ↔ v = 0.0 ∨ 0.001 ≤ v ∧ v < 10000000.0 := by
  rw [plain_unsigned_iff hv, and_iff_right hsign]

/-- Only the absolute value decides on the notation. -/
theorem isPlain_word_iff_abs (hv : word v < infinity) :
    isPlain (word v) = true ↔ v.abs = 0.0 ∨ 0.001 ≤ v.abs ∧ v.abs < 10000000.0 := by
  have hword := word_abs hv
  rw [← isPlain_word_iff (hword.trans_lt hv) (isNegative_abs hv), hword]

end PocketCalculator.Display
