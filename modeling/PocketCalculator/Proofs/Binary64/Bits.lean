import Mathlib
import PocketCalculator.Binary64

/-!
# Bits of a number

The unpacked form of a number read off its magnitude word (`unpacks`), which tells the kinds of
numbers apart (`kind_iff`), and the round trip of a word through a number (`word_ofWord`).
-/

namespace PocketCalculator.Binary64
open Float.Model Float.Model.UnpackedFloat

/-- The exponent of a magnitude word, counted from that of the subnormals. -/
def scale (w : Nat) : Nat := w / 2 ^ 52 - 1

/-- The significand of a magnitude word. -/
def significand (w : Nat) : Nat := w - scale w * 2 ^ 52

variable {b : BitVec Format.binary64.numBits} {s : Sign} {m : Nat}

/-! ## Parts of a bit vector -/

theorem toNat_append {k n : Nat} (x : BitVec k) (y : BitVec n) :
    (x ++ y).toNat = x.toNat * 2 ^ n + y.toNat := by
  rw [BitVec.toNat_append, ← Nat.shiftLeft_add_eq_or_of_lt y.isLt, Nat.shiftLeft_eq]

theorem toNat_packComponents (s : Sign) (e : BitVec 11) (m : BitVec 52) :
    (packComponents Format.binary64 s e m).toNat =
      s.toBitVec.toNat * 2 ^ 63 + (e.toNat * 2 ^ 52 + m.toNat) := by
  change (s.toBitVec ++ e ++ m).toNat = _
  rw [toNat_append, toNat_append]
  omega

theorem toNat_unpackMantissa (b : BitVec Format.binary64.numBits) :
    (unpackMantissa b).toNat = b.toNat % 2 ^ 52 := by
  simp [unpackMantissa]

theorem toNat_unpackExponent (b : BitVec Format.binary64.numBits) :
    (unpackExponent b).toNat = b.toNat / 2 ^ 52 % 2 ^ 11 := by
  simp [unpackExponent, Nat.shiftRight_eq_div_pow]

theorem unpackExponent_eq_neg_one_iff :
    unpackExponent b = -1#_ ↔ infinity ≤ b.toNat % 2 ^ 63 := by
  rw [← BitVec.toNat_inj, toNat_unpackExponent]
  change _ = 2047 ↔ _
  unfold infinity
  omega

theorem unpackExponent_eq_zero_iff :
    unpackExponent b = 0#_ ↔ b.toNat % 2 ^ 63 < 2 ^ 52 := by
  rw [← BitVec.toNat_inj, toNat_unpackExponent]
  change _ = 0 ↔ _
  omega

theorem unpackMantissa_eq_zero_iff : unpackMantissa b = 0#_ ↔ b.toNat % 2 ^ 52 = 0 := by
  rw [← BitVec.toNat_inj, toNat_unpackMantissa]
  rfl

/-! ## Unpacking -/

theorem unpack_of_infinity_lt (h : infinity < b.toNat % 2 ^ 63) :
    UnpackedFloat.unpack Format.binary64 b = .notANumber := by
  have hmant : unpackMantissa b ≠ 0#_ := by
    rw [Ne, unpackMantissa_eq_zero_iff]
    unfold infinity at h
    omega
  rw [UnpackedFloat.unpack, if_pos (unpackExponent_eq_neg_one_iff.2 (Nat.le_of_lt h)), if_neg hmant]

theorem unpack_of_eq_infinity (h : b.toNat % 2 ^ 63 = infinity) :
    UnpackedFloat.unpack Format.binary64 b = .infinity (.ofBitVec (unpackSign b)) := by
  have hmant : unpackMantissa b = 0#_ := by
    rw [unpackMantissa_eq_zero_iff]
    unfold infinity at h
    omega
  rw [UnpackedFloat.unpack, if_pos (unpackExponent_eq_neg_one_iff.2 (Nat.le_of_eq h.symm)),
    if_pos hmant]

theorem unpack_of_eq_zero (h : b.toNat % 2 ^ 63 = 0) :
    UnpackedFloat.unpack Format.binary64 b = .zero (.ofBitVec (unpackSign b)) := by
  have hexp : unpackExponent b ≠ -1#_ := by
    rw [Ne, unpackExponent_eq_neg_one_iff, h]
    decide
  have hmant : unpackMantissa b = 0#_ := by
    rw [unpackMantissa_eq_zero_iff]
    omega
  rw [UnpackedFloat.unpack, if_neg hexp, if_pos (unpackExponent_eq_zero_iff.2 (by omega)),
    dif_pos hmant]

theorem significand_bounds {w : Nat} (h : w < infinity) :
    significand w < 2 ^ 53 ∧ (scale w = 0 ∨ 2 ^ 52 ≤ significand w) ∧ scale w < 2046 ∧
      scale w * 2 ^ 52 + significand w = w := by
  unfold significand scale
  unfold infinity at h
  omega

theorem significand_pos {w : Nat} (h : w ≠ 0) : 0 < significand w := by
  unfold significand scale
  omega

theorem unpack_of_lt_infinity (h0 : b.toNat % 2 ^ 63 ≠ 0) (h : b.toNat % 2 ^ 63 < infinity) :
    UnpackedFloat.unpack Format.binary64 b =
      .finite (.ofBitVec (unpackSign b)) (significand (b.toNat % 2 ^ 63))
        (scale (b.toNat % 2 ^ 63) - 1074) (significand_pos h0) := by
  have hexp : unpackExponent b ≠ -1#_ := by
    rw [Ne, unpackExponent_eq_neg_one_iff]
    omega
  rw [UnpackedFloat.unpack, if_neg hexp]
  -- The exponents of subnormals and of the least normal numbers are the same.
  split
  next hsub =>
    rw [unpackExponent_eq_zero_iff] at hsub
    have hmant : unpackMantissa b ≠ 0#_ := by
      rw [Ne, unpackMantissa_eq_zero_iff]
      omega
    rw [dif_neg hmant, UnpackedFloat.finite.injEq]
    have hscale : scale (b.toNat % 2 ^ 63) = 0 := by
      unfold scale
      omega
    refine ⟨rfl, ?_, ?_⟩
    · rw [toNat_unpackMantissa, significand, hscale]
      omega
    · rw [toNat_unpackExponent, hscale]
      change _ - (1023 + 52 : Int) + 1 = _
      omega
  next hnormal =>
    rw [unpackExponent_eq_zero_iff] at hnormal
    rw [UnpackedFloat.finite.injEq]
    refine ⟨rfl, ?_, ?_⟩
    · rw [toNat_append, toNat_unpackMantissa]
      change 1 * 2 ^ 52 + _ = _
      unfold significand scale
      omega
    · rw [toNat_unpackExponent]
      change _ - (1023 + 52 : Int) = _
      unfold scale
      omega

/-! ## Packing -/

theorem toNat_packedZero (s : Sign) :
    (packedZero Format.binary64 s).toNat = s.toBitVec.toNat * 2 ^ 63 := by
  rw [packedZero, toNat_packComponents]
  change _ + (0 * 2 ^ 52 + 0) = _
  omega

theorem pack_zero (s : Sign) :
    pack Format.binary64 (.zero s) = packedZero Format.binary64 s := rfl

/-! ## Numbers -/

theorem isNaNBits_eq_false (h : b.toNat % 2 ^ 63 ≤ infinity) : isNaNBits b = false := by
  rw [isNaNBits, decide_eq_false_iff_not, unpackExponent_eq_neg_one_iff, Ne,
    unpackMantissa_eq_zero_iff]
  unfold infinity at *
  omega

theorem toBits_ofBits {x : UInt64} (h : x.toNat % 2 ^ 63 ≤ infinity) :
    (Float.ofBits x).toBits = x := by
  apply UInt64.toBitVec_inj.1
  have hpack := @pack_unpack Format.binary64 x.toBitVec (by decide)
  rw [isNaNBits_eq_false h] at hpack
  exact hpack

variable {w : Nat} {negative : Bool}

theorem toNat_toBits_ofWord (h : w ≤ infinity) :
    (ofWord negative w).toBits.toNat = if negative then 2 ^ 63 + w else w := by
  unfold infinity at h
  have hlt : (if negative then 2 ^ 63 + w else w) < 2 ^ 64 := by split <;> omega
  have hnat : (UInt64.ofNat (if negative then 2 ^ 63 + w else w)).toNat =
      if negative then 2 ^ 63 + w else w := UInt64.toNat_ofNat_of_lt hlt
  rw [ofWord, toBits_ofBits, hnat]
  rw [hnat]
  unfold infinity
  split <;> omega

@[simp] theorem word_ofWord (h : w ≤ infinity) : word (ofWord negative w) = w := by
  rw [word, toNat_toBits_ofWord h]
  unfold infinity at h
  split <;> omega

@[simp] theorem isNegative_ofWord (h : w ≤ infinity) :
    isNegative (ofWord negative w) = negative := by
  rw [isNegative, toNat_toBits_ofWord h]
  unfold infinity at h
  cases negative
  · simp
    omega
  · simp

/-- The sign of a number in its unpacked form. -/
def sign (v : Float) : Sign :=
  .ofBitVec (@unpackSign Format.binary64 v.toBits.toBitVec)

theorem unpack_of_word_lt {v : Float} (h0 : word v ≠ 0) (h : word v < infinity) :
    v.toModel.unpack =
      .finite (sign v) (significand (word v)) (scale (word v) - 1074) (significand_pos h0) :=
  unpack_of_lt_infinity h0 h

theorem unpack_of_word_eq_zero {v : Float} (h : word v = 0) : v.toModel.unpack = .zero (sign v) :=
  unpack_of_eq_zero h

theorem unpack_of_word_eq_infinity {v : Float} (h : word v = infinity) :
    v.toModel.unpack = .infinity (sign v) :=
  unpack_of_eq_infinity h

theorem unpack_of_infinity_lt_word {v : Float} (h : infinity < word v) :
    v.toModel.unpack = .notANumber :=
  unpack_of_infinity_lt h

/-- The four forms that a number has when it is unpacked, by its magnitude word. -/
inductive Unpacks (v : Float) : Prop where
  | zero (h : word v = 0) (hunpack : v.toModel.unpack = .zero (sign v))
  | finite (h0 : word v ≠ 0) (h : word v < infinity)
    (hunpack : v.toModel.unpack =
      .finite (sign v) (significand (word v)) (scale (word v) - 1074) (significand_pos h0))
  | infinite (h : word v = infinity) (hunpack : v.toModel.unpack = .infinity (sign v))
  | notANumber (h : infinity < word v) (hunpack : v.toModel.unpack = .notANumber)

theorem unpacks (v : Float) : Unpacks v := by
  rcases Nat.lt_trichotomy (word v) infinity with h | h | h
  · by_cases h0 : word v = 0
    · exact .zero h0 (unpack_of_word_eq_zero h0)
    · exact .finite h0 h (unpack_of_word_lt h0 h)
  · exact .infinite h (unpack_of_word_eq_infinity h)
  · exact .notANumber h (unpack_of_infinity_lt_word h)

/-- The tests for the kinds of numbers compare the magnitude word with that of infinity. -/
theorem kind_iff (v : Float) :
    (v.isFinite = true ↔ word v < infinity) ∧ (v.isInf = true ↔ word v = infinity) ∧
      (v.isNaN = true ↔ infinity < word v) := by
  change (v.toModel.unpack.isFinite = true ↔ _) ∧ (v.toModel.unpack.isInf = true ↔ _) ∧
    (v.toModel.unpack.isNaN = true ↔ _)
  cases unpacks v with
  | zero h hunpack =>
    rw [hunpack, h]
    exact ⟨iff_of_true rfl (by decide), iff_of_false nofun (by decide),
      iff_of_false nofun (by decide)⟩
  | finite _ h hunpack =>
    rw [hunpack]
    exact ⟨iff_of_true rfl h, iff_of_false nofun (Nat.ne_of_lt h),
      iff_of_false nofun (Nat.lt_asymm h)⟩
  | infinite h hunpack =>
    rw [hunpack, h]
    exact ⟨iff_of_false nofun (Nat.lt_irrefl _), iff_of_true rfl rfl,
      iff_of_false nofun (Nat.lt_irrefl _)⟩
  | notANumber h hunpack =>
    rw [hunpack]
    exact ⟨iff_of_false nofun (Nat.lt_asymm h), iff_of_false nofun (Nat.ne_of_gt h),
      iff_of_true rfl h⟩

theorem isFinite_iff (v : Float) : v.isFinite = true ↔ word v < infinity := (kind_iff v).1

theorem isInf_iff (v : Float) : v.isInf = true ↔ word v = infinity := (kind_iff v).2.1

theorem isNaN_iff (v : Float) : v.isNaN = true ↔ infinity < word v := (kind_iff v).2.2

/-- A number consists of its sign and its magnitude word. -/
@[simp] theorem ofWord_word (v : Float) : ofWord (isNegative v) (word v) = v := by
  have hbits := v.toBits.toNat_lt
  have hnat : (if isNegative v then 2 ^ 63 + word v else word v) = v.toBits.toNat := by
    unfold isNegative word
    split
    next h =>
      have := of_decide_eq_true h
      omega
    next h =>
      have := of_decide_eq_false (Bool.eq_false_iff.2 h)
      omega
  rw [ofWord, hnat, UInt64.ofNat_toNat, Float.ofBits_toBits]

/-- The numbers equal to zero are the two zeros. -/
theorem beq_zero_iff {v : Float} : (v == 0.0) = true ↔ v = 0.0 ∨ v = -0.0 := by
  constructor
  · intro h
    obtain ⟨-, -, h | ⟨h, -⟩ | ⟨h, -⟩⟩ := Float.beq_iff_ne_nan_and_eq.1 h
    · exact .inl h
    · exact .inl h
    · exact .inr h
  · rintro (rfl | rfl) <;> rfl

end PocketCalculator.Binary64
