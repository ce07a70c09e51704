import PocketCalculator.Proofs.Binary64.Quotient

/-!
# Signs and order

A quotient by a positive number has the sign of the dividend (`isNegative_div`), and is infinite if
the dividend is (`word_div_eq_infinity`). Numbers are ordered as their words with their signs
(`le_iff_rank_le`, `lt_iff_rank_lt`), and an absolute value has no sign (`abs_eq`).
-/

namespace PocketCalculator.Binary64
open Float.Model Float.Model.UnpackedFloat

variable {v u d : Float} {s : Sign} {w w' : Nat}

/-! ## Signs -/

theorem sign_eq (v : Float) : sign v = if isNegative v then .negative else .positive := by
  have hbit : @unpackSign Format.binary64 v.toBits.toBitVec = 0#1 ↔ ¬2 ^ 63 ≤ v.toBits.toNat := by
    have hlt := v.toBits.toNat_lt
    have hnat : (@unpackSign Format.binary64 v.toBits.toBitVec).toNat =
        v.toBits.toNat / 2 ^ 63 % 2 := by
      simp [unpackSign_def, Nat.shiftRight_eq_div_pow]
    rw [← BitVec.toNat_inj, hnat, BitVec.toNat_ofNat]
    omega
  rw [sign, Sign.ofBitVec, isNegative]
  simp only [hbit, decide_eq_true_eq, ite_not]

theorem isNegative_eq_of_sign_eq (h : sign v = sign u) : isNegative v = isNegative u := by
  rw [sign_eq, sign_eq] at h
  cases hv : isNegative v <;> cases hu : isNegative u <;> simp [hv, hu] at h ⊢

theorem unpackSign_pack_zero (s : Sign) :
    unpackSign (pack Format.binary64 (.zero s)) = s.toBitVec :=
  unpackSign_packComponents s _ _

theorem unpackSign_pack_infinity (s : Sign) :
    unpackSign (pack Format.binary64 (.infinity s)) = s.toBitVec :=
  unpackSign_packComponents s _ _

theorem unpackSign_pack_finite (s : Sign) (m : Nat) (e : Int) (hpos : 0 < m) :
    unpackSign (pack Format.binary64 (.finite s m e hpos)) = s.toBitVec := by
  simp only [UnpackedFloat.pack]
  split
  · exact unpackSign_packComponents s _ _
  split
  · exact unpackSign_packComponents s _ _
  · exact unpackSign_packComponents s _ _

/-- The sign of a quotient by a finite number other than zero. -/
theorem sign_div (hv : word v ≤ infinity) (hd0 : word d ≠ 0) (hd : word d < infinity) :
    sign (v / d) = sign v / sign d := by
  have hdiv : sign (v / d) = .ofBitVec (unpackSign (pack Format.binary64
    (UnpackedFloat.div Format.binary64 v.toModel.unpack d.toModel.unpack))) := rfl
  rw [hdiv, unpack_of_word_lt hd0 hd]
  cases unpacks v with
  | zero _ hunpack =>
    rw [hunpack]
    simp only [UnpackedFloat.div, unpackSign_pack_zero, Sign.ofBitVec_toBitVec]
  | finite _ _ hunpack =>
    rw [hunpack]
    simp only [UnpackedFloat.div]
    rcases roundWithAccuracy_eq (sign v / sign d) _ _ _ with h | ⟨m, e, hpos, h, -⟩
    · rw [h, unpackSign_pack_zero, Sign.ofBitVec_toBitVec]
    · rw [h, unpackSign_pack_finite, Sign.ofBitVec_toBitVec]
  | infinite _ hunpack =>
    rw [hunpack]
    simp only [UnpackedFloat.div, unpackSign_pack_infinity, Sign.ofBitVec_toBitVec]
  | notANumber hnan _ => exact absurd hv (Nat.not_le.2 hnan)

/-- A quotient by a positive finite number has the sign of the dividend. -/
theorem isNegative_div (hv : word v ≤ infinity) (hd0 : word d ≠ 0) (hd : word d < infinity)
    (hpos : isNegative d = false) : isNegative (v / d) = isNegative v := by
  refine isNegative_eq_of_sign_eq ?_
  rw [sign_div hv hd0 hd, sign_eq d, hpos]
  cases sign v <;> rfl

/-- An infinite number stays infinite when it is divided by a finite one. -/
theorem word_div_eq_infinity (hv : word v = infinity) (hd0 : word d ≠ 0) (hd : word d < infinity) :
    word (v / d) = infinity := by
  rw [word_div, unpack_of_word_lt hd0 hd, unpack_of_word_eq_infinity hv]
  change (packComponents Format.binary64 (sign v / sign d) (-1#11) 0).toNat % 2 ^ 63 = _
  rw [toNat_packComponents, Nat.mul_add_mod_self_right]
  rfl

/-! ## Order -/

theorem scale_significand_of_lt (h : w < w') :
    scale w < scale w' ∨ scale w = scale w' ∧ significand w < significand w' := by
  unfold significand scale
  omega

/-- Finite numbers are compared by exponent first and by significand then, which is how their words
are ordered. -/
theorem compare_scale_significand (w w' : Nat) :
    (compare ((scale w : Int) - 1074) (scale w' - 1074)).then
      (compare (significand w) (significand w')) = compare w w' := by
  rcases Nat.lt_trichotomy w w' with h | rfl | h
  · rw [Nat.compare_eq_lt.2 h]
    rcases scale_significand_of_lt h with hscale | ⟨hscale, hsig⟩
    · rw [Int.compare_eq_lt.2 (by omega), Ordering.lt_then]
    · rw [hscale, Int.compare_eq_eq.2 rfl, Ordering.eq_then, Nat.compare_eq_lt.2 hsig]
  · rw [Int.compare_eq_eq.2 rfl, Ordering.eq_then, Nat.compare_eq_eq.2 rfl, Nat.compare_eq_eq.2 rfl]
  · rw [Nat.compare_eq_gt.2 h]
    rcases scale_significand_of_lt h with hscale | ⟨hscale, hsig⟩
    · rw [Int.compare_eq_gt.2 (by omega), Ordering.gt_then]
    · rw [hscale, Int.compare_eq_eq.2 rfl, Ordering.eq_then, Nat.compare_eq_gt.2 hsig]

/-- The place of a number among the others: its magnitude word with its sign. -/
def rank (v : Float) : Int :=
  if isNegative v then -(word v : Int) else word v

theorem rank_of_isNegative (h : isNegative v = true) : rank v = -(word v : Int) := if_pos h

theorem rank_of_not_isNegative (h : isNegative v = false) : rank v = word v :=
  if_neg (Bool.eq_false_iff.1 h)

theorem rank_of_word_eq_zero (h : word v = 0) : rank v = 0 := by
  unfold rank
  split <;> omega

theorem compare_natCast (a b : Nat) : compare (a : Int) b = compare a b := by
  rcases Nat.lt_trichotomy a b with h | rfl | h
  · rw [Nat.compare_eq_lt.2 h, Int.compare_eq_lt.2 (Int.ofNat_lt.2 h)]
  · rw [Nat.compare_eq_eq.2 rfl, Int.compare_eq_eq.2 rfl]
  · rw [Nat.compare_eq_gt.2 h, Int.compare_eq_gt.2 (Int.ofNat_lt.2 h)]

theorem compare_neg (a b : Int) : compare (-a) (-b) = compare b a := by
  rcases Int.lt_trichotomy a b with h | rfl | h
  · rw [Int.compare_eq_gt.2 h, Int.compare_eq_gt.2 (by omega)]
  · rw [Int.compare_eq_eq.2 rfl, Int.compare_eq_eq.2 rfl]
  · rw [Int.compare_eq_lt.2 h, Int.compare_eq_lt.2 (by omega)]

/-- A number that is not zero is on the side of zero that its sign says. -/
theorem compare_zero_unpack (hv0 : word v ≠ 0) (hv : word v < infinity) (s : Sign) :
    (UnpackedFloat.zero s).compare v.toModel.unpack = some (compare 0 (rank v)) ∧
      v.toModel.unpack.compare (.zero s) = some (compare (rank v) 0) := by
  rw [unpack_of_word_lt hv0 hv, sign_eq]
  cases hsign : isNegative v with
  | true =>
    rw [rank_of_isNegative hsign, Int.compare_eq_gt.2 (by omega), Int.compare_eq_lt.2 (by omega)]
    exact ⟨rfl, rfl⟩
  | false =>
    rw [rank_of_not_isNegative hsign, Int.compare_eq_lt.2 (by omega),
      Int.compare_eq_gt.2 (by omega)]
    exact ⟨rfl, rfl⟩

theorem compare_unpack_finite (hv : word v < infinity) (hu : word u < infinity) :
    v.toModel.unpack.compare u.toModel.unpack = some (compare (rank v) (rank u)) := by
  by_cases hv0 : word v = 0
  · rw [unpack_of_word_eq_zero hv0, rank_of_word_eq_zero hv0]
    by_cases hu0 : word u = 0
    · rw [unpack_of_word_eq_zero hu0, rank_of_word_eq_zero hu0]
      rfl
    · exact (compare_zero_unpack hu0 hu (sign v)).1
  by_cases hu0 : word u = 0
  · rw [unpack_of_word_eq_zero hu0, rank_of_word_eq_zero hu0]
    exact (compare_zero_unpack hv0 hv (sign u)).2
  have hcompare := congrArg some (compare_scale_significand (word v) (word u))
  rw [unpack_of_word_lt hv0 hv, unpack_of_word_lt hu0 hu, sign_eq, sign_eq]
  cases hvs : isNegative v <;> cases hus : isNegative u
  · rw [rank_of_not_isNegative hvs, rank_of_not_isNegative hus, compare_natCast]
    exact hcompare
  · rw [rank_of_not_isNegative hvs, rank_of_isNegative hus, Int.compare_eq_gt.2 (by omega)]
    rfl
  · rw [rank_of_isNegative hvs, rank_of_not_isNegative hus, Int.compare_eq_lt.2 (by omega)]
    rfl
  · rw [rank_of_isNegative hvs, rank_of_isNegative hus, compare_neg, compare_natCast,
      ← Nat.compare_swap]
    exact congrArg (Option.map Ordering.swap) hcompare

theorem abs_rank (v : Float) : |rank v| = word v := by
  unfold rank
  split
  · rw [abs_neg, Nat.abs_cast]
  · exact Nat.abs_cast _

/-- An infinity is behind all finite numbers on its side. -/
theorem compare_unpack_infinity (hv : word v < infinity) (hu : word u = infinity) :
    v.toModel.unpack.compare u.toModel.unpack = some (compare (rank v) (rank u)) ∧
      u.toModel.unpack.compare v.toModel.unpack = some (compare (rank u) (rank v)) := by
  have hrank := abs_le.1 (abs_rank v).le
  have hfinite : (∃ s, v.toModel.unpack = .zero s) ∨ ∃ s m e hpos,
      v.toModel.unpack = .finite s m e hpos := by
    by_cases hv0 : word v = 0
    · exact .inl ⟨_, unpack_of_word_eq_zero hv0⟩
    · exact .inr ⟨_, _, _, _, unpack_of_word_lt hv0 hv⟩
  rw [unpack_of_word_eq_infinity hu, sign_eq]
  cases hsign : isNegative u with
  | true =>
    rw [rank_of_isNegative hsign, Int.compare_eq_gt.2 (by omega), Int.compare_eq_lt.2 (by omega)]
    rcases hfinite with ⟨s, heq⟩ | ⟨s, m, e, hpos, heq⟩
    · rw [heq]
      exact ⟨rfl, rfl⟩
    · rw [heq]
      exact ⟨rfl, rfl⟩
  | false =>
    rw [rank_of_not_isNegative hsign, Int.compare_eq_lt.2 (by omega),
      Int.compare_eq_gt.2 (by omega)]
    rcases hfinite with ⟨s, heq⟩ | ⟨s, m, e, hpos, heq⟩
    · rw [heq]
      exact ⟨rfl, rfl⟩
    · rw [heq]
      exact ⟨rfl, rfl⟩

/-- All numbers but NaNs are ordered by their places. -/
theorem compare_unpack (hv : word v ≤ infinity) (hu : word u ≤ infinity) :
    v.toModel.unpack.compare u.toModel.unpack = some (compare (rank v) (rank u)) := by
  rcases Nat.lt_or_eq_of_le hv with hv | hv <;> rcases Nat.lt_or_eq_of_le hu with hu | hu
  · exact compare_unpack_finite hv hu
  · exact (compare_unpack_infinity hv hu).1
  · exact (compare_unpack_infinity hu hv).2
  · rw [unpack_of_word_eq_infinity hv, unpack_of_word_eq_infinity hu, sign_eq, sign_eq, rank, rank,
      hv, hu]
    cases isNegative v <;> cases isNegative u <;> decide

theorem le_iff_rank_le (hv : word v ≤ infinity) (hu : word u ≤ infinity) :
    v ≤ u ↔ rank v ≤ rank u := by
  have hle : v ≤ u ↔ v.toModel.unpack.le u.toModel.unpack = true := by
    change decide _ = true ↔ _
    rw [decide_eq_true_iff]
    rfl
  rw [hle, UnpackedFloat.le, compare_unpack hv hu]
  exact Int.isLE_compare

theorem lt_iff_rank_lt (hv : word v ≤ infinity) (hu : word u ≤ infinity) :
    v < u ↔ rank v < rank u := by
  have hlt : v < u ↔ v.toModel.unpack.lt u.toModel.unpack = true := by
    change decide _ = true ↔ _
    rw [decide_eq_true_iff]
    rfl
  rw [hlt, UnpackedFloat.lt, compare_unpack hv hu, beq_iff_eq, Option.some_inj,
    Int.compare_eq_lt]

/-! ## Absolute values -/

/-- The absolute value of a number has its magnitude and no sign. -/
theorem abs_eq (hv : word v < infinity) : v.abs = ofWord false (word v) := by
  obtain ⟨u, hu⟩ : ∃ u, ofWord false (word v) = u := ⟨_, rfl⟩
  have hword : word u = word v := by rw [← hu, word_ofWord (Nat.le_of_lt hv)]
  have hsign : sign u = .positive := by
    rw [sign_eq, ← hu, isNegative_ofWord (Nat.le_of_lt hv)]
    rfl
  have hunpack : v.toModel.unpack.abs = u.toModel.unpack := by
    by_cases hv0 : word v = 0
    · rw [unpack_of_word_eq_zero hv0, unpack_of_word_eq_zero (hword.trans hv0), hsign]
      rfl
    · rw [unpack_of_word_lt hv0 hv, unpack_of_word_lt (hword ▸ hv0) (hword ▸ hv), hsign]
      simp only [UnpackedFloat.abs, hword]
  have hpack := @pack_unpack Format.binary64 u.toBits.toBitVec (by decide)
  have hnumber : @isNaNBits Format.binary64 u.toBits.toBitVec = false :=
    isNaNBits_eq_false (Nat.le_of_lt (hword.trans_lt hv))
  rw [hnumber, if_neg Bool.false_ne_true] at hpack
  have hbits : v.abs.toBits = u.toBits := by
    refine UInt64.toBitVec_inj.1 (Eq.trans ?_ hpack)
    exact congrArg (pack Format.binary64) hunpack
  rw [hu, ← Float.ofBits_toBits v.abs, hbits, Float.ofBits_toBits]

theorem word_abs (hv : word v < infinity) : word v.abs = word v := by
  rw [abs_eq hv, word_ofWord (Nat.le_of_lt hv)]

theorem isNegative_abs (hv : word v < infinity) : isNegative v.abs = false := by
  rw [abs_eq hv, isNegative_ofWord (Nat.le_of_lt hv)]

end PocketCalculator.Binary64
