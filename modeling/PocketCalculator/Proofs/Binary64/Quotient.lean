import PocketCalculator.Proofs.Binary64.Bits

/-!
# Quotients

A finite number divided by a number of magnitude two or more is finite again
(`word_div_lt_infinity`): rounding takes the significand of the quotient to at most 53 bits and then
raises the exponent by at most one.
-/

namespace PocketCalculator.Binary64
open Float.Model Float.Model.UnpackedFloat

variable {s : Sign} {m n : Nat} {e : Int} {acc : Accuracy} {em : ExtendedMantissa}

/-! ## Rounding -/

theorem mantissa_shiftRight (em : ExtendedMantissa) (n : Nat) :
    (em >>> n).mantissa = em.mantissa / 2 ^ n := by
  change (n.repeat ExtendedMantissa.shiftRightOne em).mantissa = _
  induction n with
  | zero => simp [Nat.repeat]
  | succ n ih =>
    rw [Nat.repeat, Nat.pow_succ, ← Nat.div_div_eq_div_mul, ← ih]
    rfl

theorem mantissa_ofMantissaAndAccuracy (m : Nat) (acc : Accuracy) :
    (ExtendedMantissa.ofMantissaAndAccuracy m acc).mantissa = m := by
  rcases acc with _ | (_ | _ | _) <;> rfl

theorem roundedMantissa_le (em : ExtendedMantissa) : em.roundedMantissa ≤ em.mantissa + 1 := by
  rw [ExtendedMantissa.roundedMantissa]
  rcases em.accuracy with _ | (_ | _ | _) <;> simp only [Accuracy.roundToNearestEven] <;> omega

/-- The exponent that a significand and an exponent are shifted to. -/
theorem targetExponent_eq (m : Nat) (e : Int) :
    Format.binary64.targetExponent (totalExponent m e) = max (m.log2 + 1 + e - 53) (-1074) := rfl

theorem exponent_shiftToTargetExponent (m : Nat) (e : Int) (acc : Accuracy) :
    (shiftToTargetExponent Format.binary64 m e acc).2 =
      max e (max (m.log2 + 1 + e - 53) (-1074)) := by
  change e + ((_ : Int) - e).toNat = _
  rw [targetExponent_eq]
  omega

/-- A shift to the target leaves 53 bits of the significand. -/
theorem mantissa_shiftToTargetExponent_lt (m : Nat) (e : Int) (acc : Accuracy) :
    (shiftToTargetExponent Format.binary64 m e acc).1.mantissa < 2 ^ 53 := by
  have hshift : (shiftToTargetExponent Format.binary64 m e acc).1 =
      ExtendedMantissa.ofMantissaAndAccuracy m acc >>>
        (Format.binary64.targetExponent (totalExponent m e) - e).toNat := rfl
  rw [hshift, mantissa_shiftRight, mantissa_ofMantissaAndAccuracy, targetExponent_eq,
    Nat.div_lt_iff_lt_mul (Nat.two_pow_pos _), ← Nat.pow_add]
  exact Nat.lt_of_lt_of_le Nat.lt_log2_self (Nat.pow_le_pow_right (by decide) (by omega))

theorem log2_le_of_lt {k : Nat} (h : m < 2 ^ (k + 1)) : m.log2 ≤ k := by
  rcases Nat.eq_zero_or_pos m with rfl | hpos
  · simp
  · exact Nat.le_of_lt_succ ((Nat.log2_lt (by omega)).2 h)

/-- Rounding raises the exponent to the target and then by one at most. -/
theorem roundWithAccuracy_eq (s : Sign) (m : Nat) (e : Int) (acc : Accuracy) :
    roundWithAccuracy Format.binary64 s m e acc = .zero s ∨
      ∃ m' e' hpos, roundWithAccuracy Format.binary64 s m e acc = .finite s m' e' hpos ∧
        e' ≤ max e (max (m.log2 + 1 + e - 53) (-1074)) + 1 := by
  simp only [roundWithAccuracy]
  split
  next => exact .inl rfl
  next hzero =>
    refine .inr ⟨_, _, Nat.pos_of_ne_zero hzero, rfl, ?_⟩
    -- Rounding the 53 bits that the first shift leaves gives `2 ^ 53` at most, which the second
    -- shift takes one place further.
    have hrounded := roundedMantissa_le (shiftToTargetExponent Format.binary64 m e acc).1
    have hmant := mantissa_shiftToTargetExponent_lt m e acc
    have hlog : (shiftToTargetExponent Format.binary64 m e acc).1.roundedMantissa.log2 ≤ 53 :=
      log2_le_of_lt (by omega)
    rw [exponent_shiftToTargetExponent, exponent_shiftToTargetExponent]
    omega

theorem toNat_packComponents_lt_infinity {x : BitVec 11} (h : x.toNat ≤ 2046) (y : BitVec 52) :
    (packComponents Format.binary64 s x y).toNat % 2 ^ 63 < infinity := by
  have hy := y.isLt
  rw [toNat_packComponents]
  unfold infinity
  omega

theorem toNat_pack_lt_infinity {hpos : 0 < m} (he : e ≤ 971) :
    (pack Format.binary64 (.finite s m e hpos)).toNat % 2 ^ 63 < infinity := by
  have hbiased : (e + Format.binary64.exponentBias +
      Format.binary64.mantissaBitsWithoutImplicit).toNat ≤ 2046 := by
    change (e + 1023 + 52).toNat ≤ _
    omega
  have hfits : ¬2 ^ Format.binary64.exponentBits ≤ (e + Format.binary64.exponentBias +
      Format.binary64.mantissaBitsWithoutImplicit).toNat + 1 := by
    change ¬2 ^ 11 ≤ _
    omega
  simp only [UnpackedFloat.pack, if_neg hfits]
  split
  · refine toNat_packComponents_lt_infinity (Nat.le_trans ?_ hbiased) _
    rw [BitVec.toNat_ofNat]
    exact Nat.mod_le _ _
  · exact toNat_packComponents_lt_infinity (Nat.zero_le _) _

/-! ## Division -/

/-- The exponent of a quotient by a normal number, and the one of its leading bit. -/
theorem exponent_divCore_le {m₁ m₂ q : Nat} {e₁ e₂ : Int}
    (h : divCore Format.binary64 m₁ e₁ m₂ e₂ = (q, e, acc)) (h₁ : m₁ < 2 ^ 53) (h₂ : 2 ^ 52 ≤ m₂) :
    e ≤ max (e₁ - e₂ - 52) (-1074) ∧ q.log2 + e ≤ e₁ - e₂ := by
  have hlog₁ : m₁.log2 ≤ 52 := log2_le_of_lt h₁
  have hlog₂ : 52 ≤ m₂.log2 := (Nat.le_log2 (by omega)).2 h₂
  have hexp : e = min (e₁ - e₂) (max ((m₁.log2 + 1 + e₁) - (m₂.log2 + 1 + e₂) - 53) (-1074)) :=
    (congrArg (·.2.1) h).symm
  have hquot : q = (m₁ <<< (e₁ - e₂ - e).toNat) / m₂ := by
    rw [hexp]
    exact (congrArg (·.1) h).symm
  have hlog : q.log2 ≤ (e₁ - e₂ - e).toNat := by
    rw [hquot]
    refine log2_le_of_lt (Nat.div_lt_of_lt_mul ?_)
    rw [Nat.shiftLeft_eq, Nat.pow_succ', ← Nat.mul_assoc]
    exact Nat.mul_lt_mul_of_pos_right (by omega) (Nat.two_pow_pos _)
  omega

/-- Division unpacks both numbers, and packs the quotient. -/
theorem word_div (v d : Float) :
    word (v / d) = (pack Format.binary64
      (UnpackedFloat.div Format.binary64 v.toModel.unpack d.toModel.unpack)).toNat % 2 ^ 63 := rfl

theorem word_div_lt_infinity {v d : Float} (hv : word v < infinity) (hd : word d < infinity)
    (htwo : word 2.0 ≤ word d) : word (v / d) < infinity := by
  have htwo : 2 ^ 62 ≤ word d := htwo
  have hzero (s : Sign) : (pack Format.binary64 (.zero s)).toNat % 2 ^ 63 < infinity := by
    rw [pack_zero, toNat_packedZero, Nat.mul_mod_left]
    decide
  rw [word_div, unpack_of_word_lt (by omega) hd]
  by_cases hv0 : word v = 0
  · rw [unpack_of_word_eq_zero hv0]
    exact hzero _
  · -- The exponents of `v` and of `d` are at most 971 and at least -51.
    obtain ⟨hmv, -, hscale, -⟩ := significand_bounds hv
    obtain ⟨-, hmd, -, hsum⟩ := significand_bounds hd
    have hscale' : 1023 ≤ scale (word d) := by
      unfold scale
      omega
    rw [unpack_of_word_lt hv0 hv]
    simp only [UnpackedFloat.div]
    obtain ⟨⟨q, e, acc⟩, hq⟩ : ∃ r, divCore Format.binary64 (significand (word v))
      (scale (word v) - 1074) (significand (word d)) (scale (word d) - 1074) = r := ⟨_, rfl⟩
    obtain ⟨hexp, hlog⟩ := exponent_divCore_le hq hmv (hmd.resolve_left (by omega))
    rw [hq]
    rcases roundWithAccuracy_eq (sign v / sign d) q e acc with h | ⟨m', e', hpos, h, he'⟩
    · rw [h]
      exact hzero _
    · rw [h]
      exact toNat_pack_lt_infinity (by omega)

/-- The hundredth of a finite number is finite. -/
theorem word_hundredth_lt_infinity {v : Float} (hv : word v < infinity) :
    word (v / 100.0) < infinity :=
  word_div_lt_infinity hv (by decide) (by decide)

end PocketCalculator.Binary64
