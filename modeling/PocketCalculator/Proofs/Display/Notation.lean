import PocketCalculator.Display
import PocketCalculator.Proofs.Decimal.NumberText
import PocketCalculator.Proofs.Decimal.Shortest

/-!
# Notations of the display

A whole number in plain notation is its digits and one place (`plain_of_isWhole`). The shortest
decimal of any other number has places (`exponent_shortest_neg`), so that there is a point in plain
notation in any case (`plain_of_not_isWhole`). In scientific notation there is a point as well
(`scientific_eq_append`).
-/

namespace PocketCalculator.Display

open Binary64 Decimal

variable {w : Nat}

/-! ## Plain notation -/

theorem two_pow_dvd_or_dvd (k l : Nat) : 2 ^ k ∣ 2 ^ l ∨ 2 ^ l ∣ 2 ^ k :=
  (Nat.le_total k l).imp (Nat.pow_dvd_pow 2) (Nat.pow_dvd_pow 2)

theorem one_dvd_or_dvd_one (k : Nat) : one ∣ 2 ^ k ∨ 2 ^ k ∣ one := by
  rw [one_eq]
  exact two_pow_dvd_or_dvd 1074 k

theorem isWhole_iff : isWhole w = true ↔ one ∣ units w := by
  rw [isWhole, beq_iff_eq, Nat.dvd_iff_mod_eq_zero]

theorem ne_zero_of_not_isWhole (h : isWhole w = false) : w ≠ 0 ∧ ¬one ∣ units w := by
  have hwhole : ¬one ∣ units w := fun hdvd =>
    Bool.false_ne_true (h.symm.trans (isWhole_iff.2 hdvd))
  refine ⟨?_, hwhole⟩
  rintro rfl
  exact hwhole (Nat.dvd_zero _)

theorem roundDiv_mul_left {den : Nat} (hden : 0 < den) (n : Nat) : roundDiv (den * n) den = n := by
  rw [roundDiv, Nat.mul_mod_right, Nat.compare_eq_lt.2 hden, Nat.mul_div_cancel_left _ hden]

theorem plain_of_isWhole (h : isWhole w = true) :
    plain w = Nat.toDigits 10 (units w / one) ++ ['.', '0'] := by
  obtain ⟨n, hn⟩ := isWhole_iff.1 h
  have htenths : roundDiv (10 * units w) one = 10 * n := by
    rw [hn, Nat.mul_left_comm, roundDiv_mul_left Binary64.one_pos]
  rw [plain, if_pos h, onePlace, htenths, hn, Nat.mul_div_cancel_left _ Binary64.one_pos,
    Nat.mul_div_cancel_left _ (by decide), Nat.mul_mod_right]
  rfl

/-- A shortest decimal without places is the exact value if the last place of the word is not in
front of the point: no other whole number is in the band. -/
theorem parts_shortest_of_nonneg (hw : w ≠ 0) (hplace : 2 ^ scale w ∣ one)
    (h : 0 ≤ (shortest w).exponent) :
    (shortest w).numerator = units w ∧ (shortest w).denominator = 1 := by
  have hden : (shortest w).denominator = 1 := by
    have hzero : (-(shortest w).exponent).toNat = 0 := by omega
    rw [denominator, hzero, Nat.pow_zero]
  have hone : one ∣ (shortest w).numerator := by
    rw [numerator_eq]
    exact Nat.dvd_mul_left _ _
  obtain ⟨k, hk⟩ := Nat.dvd_trans hplace hone
  have hband := inBand_shortest hw
  rw [hden, hk, Nat.mul_comm] at hband
  rw [hk, Nat.mul_comm]
  exact ⟨eq_units_of_inBand hband, hden⟩

/-- The shortest decimal of a number that is not whole has places: whole decimals are in no band but
those of whole numbers. -/
theorem exponent_shortest_neg (h : isWhole w = false) : (shortest w).exponent < 0 := by
  obtain ⟨hw, hwhole⟩ := ne_zero_of_not_isWhole h
  rw [← Int.not_le]
  intro hexponent
  have hplace : 2 ^ scale w ∣ one := (one_dvd_or_dvd_one (scale w)).resolve_left fun hdvd =>
    hwhole (Nat.dvd_mul_left_of_dvd hdvd _)
  obtain ⟨hnum, -⟩ := parts_shortest_of_nonneg hw hplace hexponent
  apply hwhole
  rw [← hnum, numerator_eq]
  exact Nat.dvd_mul_left _ _

theorem plain_of_not_isWhole (h : isWhole w = false) :
    let places := (-(shortest w).exponent).toNat
    plain w = Nat.toDigits 10 ((shortest w).coefficient / 10 ^ places) ++
      '.' :: (Nat.toDigits 10 ((shortest w).coefficient % 10 ^ places)).leftpad places '0' := by
  rw [plain, h, if_neg Bool.false_ne_true, positional,
    if_neg (Int.not_le.2 (exponent_shortest_neg h))]

/-! ## Scientific notation -/

theorem not_mark_of_mem_toDigits {c : Char} {n : Nat} (h : c ∈ Nat.toDigits 10 n) :
    (c != 'E') = true :=
  bne_iff_ne.2 (ne_of_isDigit (isDigit_of_mem_toDigits h) rfl)

/-- A digit, a point, the other digits or a zero, and a power of ten. -/
theorem scientific_eq_append (d : Decimal) :
    let digits := Nat.toDigits 10 d.coefficient
    scientific d = (digits.take 1 ++ '.' :: if digits.drop 1 = [] then ['0'] else digits.drop 1) ++
      'E' :: exponent (d.exponent + (digits.drop 1).length) := by
  intro digits
  have hdigits : ∀ c ∈ digits, (c != 'E') = true := fun _ => not_mark_of_mem_toDigits
  have htake : ∀ c ∈ digits.take 1, (c != 'E') = true := fun c hc =>
    hdigits c (List.mem_of_mem_take hc)
  have hpoint : '.' ∉ digits.take 1 := fun hmem =>
    absurd (isDigit_of_mem_toDigits (List.mem_of_mem_take hmem)) (by decide)
  by_cases hplaces : digits.drop 1 = []
  · have hnormalized : normalized d =
        digits.take 1 ++ 'E' :: exponent (d.exponent + (digits.drop 1).length) := by
      rw [normalized, List.isEmpty_iff.2 hplaces, if_pos rfl, List.append_nil]
    obtain ⟨hmantissa, hpower⟩ := span_append htake (d := 'E') rfl
      (exponent (d.exponent + (digits.drop 1).length))
    rw [scientific, hnormalized, hmantissa, hpower, if_neg (by simpa using hpoint), if_pos hplaces]
    simp
  · have hnormalized : normalized d = (digits.take 1 ++ '.' :: digits.drop 1) ++
        'E' :: exponent (d.exponent + (digits.drop 1).length) := by
      rw [normalized, List.isEmpty_eq_false_iff.2 hplaces, if_neg Bool.false_ne_true]
    have hmem : ∀ c ∈ digits.take 1 ++ '.' :: digits.drop 1, (c != 'E') = true := by
      refine List.forall_mem_append.2 ⟨htake, List.forall_mem_cons.2 ⟨rfl, fun c hc => ?_⟩⟩
      exact hdigits c (List.mem_of_mem_drop hc)
    obtain ⟨hmantissa, -⟩ := span_append hmem (d := 'E') rfl
      (exponent (d.exponent + (digits.drop 1).length))
    rw [scientific, hnormalized, hmantissa, if_pos (by simp), if_neg hplaces]

end PocketCalculator.Display
