import PocketCalculator.Proofs.Binary64.Bits

/-!
# Values of magnitude words

The values of magnitude words in units of `2 ^ -1074` increase with the words (`units_strictMono`),
and every number of units is between the values of its floor word and of the next word
(`le_floorWord_iff`). Every quotient is in the band of one word (`exists_inBand`). It is rounded to
that word if this is finite (`nearest_eq_of_inBand`), and whatever is large enough to infinity
(`nearest_eq_infinity`).
-/

namespace PocketCalculator.Binary64

variable {w w' n num num' den : Nat}

theorem one_eq : one = 2 ^ 1074 := by decide +kernel

protected theorem one_pos : 0 < one := by decide +kernel

/-! ## Neighbouring words -/

theorem units_eq (w : Nat) : units w = significand w * 2 ^ scale w := rfl

theorem units_add_one (w : Nat) : units (w + 1) = units w + 2 ^ scale w := by
  have hnext : (scale (w + 1) = scale w ∧ significand (w + 1) = significand w + 1) ∨
      (scale (w + 1) = scale w + 1 ∧ significand (w + 1) * 2 = significand w + 1) := by
    unfold significand scale
    omega
  rw [units_eq, units_eq, ← Nat.succ_mul]
  rcases hnext with ⟨hscale, hsig⟩ | ⟨hscale, hsig⟩
  · rw [hscale, hsig]
  · rw [hscale, Nat.pow_succ', ← Nat.mul_assoc, hsig]

theorem units_strictMono : StrictMono units := by
  refine strictMono_nat_of_lt_succ fun w => ?_
  rw [units_add_one]
  exact Nat.lt_add_of_pos_right (Nat.two_pow_pos _)

/-! ## The floor word -/

/-- The floor word keeps 53 bits of a number of units and counts those that it drops. -/
theorem parts_floorWord (n : Nat) :
    scale (floorWord n) = n.log2 - 52 ∧ significand (floorWord n) = n / 2 ^ (n.log2 - 52) := by
  have hupper : n / 2 ^ (n.log2 - 52) < 2 ^ 53 := by
    rw [Nat.div_lt_iff_lt_mul (Nat.two_pow_pos _), ← Nat.pow_add]
    exact Nat.lt_of_lt_of_le Nat.lt_log2_self (Nat.pow_le_pow_right (by decide) (by omega))
  have hlower : n.log2 - 52 = 0 ∨ 2 ^ 52 ≤ n / 2 ^ (n.log2 - 52) := by
    rcases Nat.eq_zero_or_pos (n.log2 - 52) with hzero | hpos
    · exact .inl hzero
    · have hn : n ≠ 0 := by
        rintro rfl
        simp at hpos
      have hsum : 52 + (n.log2 - 52) = n.log2 := by omega
      rw [Nat.le_div_iff_mul_le (Nat.two_pow_pos _), ← Nat.pow_add, hsum]
      exact .inr (Nat.log2_self_le hn)
  unfold scale significand floorWord
  unfold scale
  dsimp only
  generalize n / 2 ^ (n.log2 - 52) = m at *
  generalize n.log2 - 52 = e at *
  omega

theorem units_floorWord_le (n : Nat) : units (floorWord n) ≤ n := by
  obtain ⟨hscale, hsig⟩ := parts_floorWord n
  rw [units_eq, hscale, hsig]
  exact Nat.div_mul_le_self _ _

theorem lt_units_floorWord_add_one (n : Nat) : n < units (floorWord n + 1) := by
  obtain ⟨hscale, hsig⟩ := parts_floorWord n
  rw [units_add_one, units_eq, hscale, hsig, ← Nat.succ_mul]
  exact (Nat.div_lt_iff_lt_mul (Nat.two_pow_pos _)).1 (Nat.lt_succ_self _)

/-- The floor word is the last one whose value is at most the given one. -/
theorem le_floorWord_iff : w ≤ floorWord n ↔ units w ≤ n := by
  constructor
  · intro h
    exact Nat.le_trans (units_strictMono.monotone h) (units_floorWord_le n)
  · intro h
    have hlt : units w < units (floorWord n + 1) :=
      Nat.lt_of_le_of_lt h (lt_units_floorWord_add_one n)
    exact Nat.le_of_lt_succ (units_strictMono.lt_iff_lt.1 hlt)

theorem le_floorWord_div_iff (hden : 0 < den) :
    w ≤ floorWord (num / den) ↔ den * units w ≤ num := by
  rw [le_floorWord_iff, Nat.le_div_iff_mul_le hden, Nat.mul_comm]

/-! ## The nearest word -/

/-- A quotient is between the midpoints around the value of a word, and for an odd word at neither
of them. -/
structure InBand (w num den : Nat) : Prop where
  low : den * (units (w - 1) + units w) ≤ 2 * num
  high : 2 * num ≤ den * (units w + units (w + 1))
  odd : w % 2 = 1 →
    den * (units (w - 1) + units w) ≠ 2 * num ∧ 2 * num ≠ den * (units w + units (w + 1))

/-- Every quotient is in the band of a word. Its nearest word is this one, or infinity if this one
is not finite. -/
theorem exists_inBand (hden : 0 < den) (num : Nat) :
    ∃ w, InBand w num den ∧ nearest num den = min w infinity := by
  have hle : den * units (floorWord (num / den)) ≤ num :=
    (le_floorWord_div_iff hden).1 (Nat.le_refl _)
  have hlt : ¬den * units (floorWord (num / den) + 1) ≤ num := fun h =>
    absurd ((le_floorWord_div_iff hden).2 h) (Nat.not_succ_le_self _)
  rw [nearest]
  generalize floorWord (num / den) = w at hle hlt
  have hprev : den * units (w - 1) ≤ den * units w ∧
      (w % 2 = 1 → den * units (w - 1) < den * units w) :=
    ⟨Nat.mul_le_mul_left _ (units_strictMono.monotone (Nat.sub_le w 1)), fun hodd =>
      Nat.mul_lt_mul_of_pos_left (units_strictMono (by omega)) hden⟩
  have hnext : den * units (w + 1) < den * units (w + 1 + 1) :=
    Nat.mul_lt_mul_of_pos_left (units_strictMono (Nat.lt_succ_self _)) hden
  have hbelow (h : 2 * num < den * (units w + units (w + 1)) ∨
      w % 2 = 0 ∧ 2 * num = den * (units w + units (w + 1))) : InBand w num den := by
    constructor <;> simp only [Nat.mul_add] at h ⊢ <;> omega
  have habove (h : den * (units w + units (w + 1)) < 2 * num ∨
      w % 2 = 1 ∧ 2 * num = den * (units w + units (w + 1))) : InBand (w + 1) num den := by
    constructor <;> simp only [Nat.mul_add, Nat.add_sub_cancel] at h ⊢ <;> omega
  split
  next hcmp => exact ⟨w, hbelow (.inl (Nat.compare_eq_lt.1 hcmp)), rfl⟩
  next hcmp =>
    have htie := Nat.compare_eq_eq.1 hcmp
    rcases Nat.mod_two_eq_zero_or_one w with heven | hodd
    · rw [heven]
      exact ⟨w, hbelow (.inr ⟨heven, htie⟩), rfl⟩
    · rw [hodd]
      exact ⟨w + 1, habove (.inr ⟨hodd, htie⟩), rfl⟩
  next hcmp => exact ⟨w + 1, habove (.inl (Nat.compare_eq_gt.1 hcmp)), rfl⟩

/-- The bands are in the order of their words and have no point in common: the end between two bands
belongs to that of the even word. -/
theorem InBand.le_of_le (hden : 0 < den) (h : InBand w num den) (h' : InBand w' num' den)
    (hle : num ≤ num') : w ≤ w' := by
  by_contra hlt
  rw [Nat.not_le] at hlt
  have hends : den * (units w' + units (w' + 1)) ≤ den * (units (w - 1) + units w) :=
    Nat.mul_le_mul_left _ (Nat.add_le_add (units_strictMono.monotone (by omega))
      (units_strictMono.monotone hlt))
  have hlow := h.low
  have hhigh := h'.high
  have heven : w % 2 ≠ 1 := fun hodd => (h.odd hodd).1 (by omega)
  have heven' : w' % 2 ≠ 1 := fun hodd => (h'.odd hodd).2 (by omega)
  have hgap : den * (units w' + units (w' + 1)) < den * (units (w - 1) + units w) :=
    Nat.mul_lt_mul_of_pos_left (Nat.add_lt_add (units_strictMono (by omega))
      (units_strictMono (by omega))) hden
  omega

/-- A quotient in the band of a finite word is rounded to that word. -/
theorem nearest_eq_of_inBand (hden : 0 < den) (hw : w < infinity) (h : InBand w num den) :
    nearest num den = w := by
  obtain ⟨w', h', hnearest⟩ := exists_inBand hden num
  have heq : w' = w :=
    Nat.le_antisymm (h'.le_of_le hden h (Nat.le_refl _)) (h.le_of_le hden h' (Nat.le_refl _))
  rw [hnearest, heq]
  exact Nat.min_eq_left (Nat.le_of_lt hw)

/-- Rounding keeps the order. -/
theorem nearest_mono (hden : 0 < den) (h : num ≤ num') : nearest num den ≤ nearest num' den := by
  obtain ⟨w, hw, heq⟩ := exists_inBand hden num
  obtain ⟨w', hw', heq'⟩ := exists_inBand hden num'
  rw [heq, heq']
  exact min_le_min_right _ (hw.le_of_le hden hw' h)

/-- The value of a word is in its band. -/
theorem inBand_units (w : Nat) : InBand w (units w) 1 := by
  have hprev : units (w - 1) ≤ units w := units_strictMono.monotone (Nat.sub_le w 1)
  have hnext : units w < units (w + 1) := units_strictMono (Nat.lt_succ_self w)
  refine ⟨by omega, by omega, fun hodd => ?_⟩
  have hlt : units (w - 1) < units w := units_strictMono (by omega)
  omega

theorem units_le_add_two_pow (w : Nat) : units w ≤ units (w - 1) + 2 ^ scale w := by
  rcases Nat.eq_zero_or_pos w with rfl | hw
  · exact Nat.le_add_right _ _
  · have hscale : scale (w - 1) ≤ scale w := by
      unfold scale
      omega
    have hunits := units_add_one (w - 1)
    rw [Nat.sub_add_cancel hw] at hunits
    rw [hunits]
    exact Nat.add_le_add_left (Nat.pow_le_pow_right (by decide) hscale) _

/-- The band of a word has no other multiple of its last place than the value. -/
theorem eq_units_of_inBand {k : Nat} (h : InBand w (k * 2 ^ scale w) 1) :
    k * 2 ^ scale w = units w := by
  obtain ⟨hlow, hhigh, -⟩ := h
  have hprev := units_le_add_two_pow w
  have hpos := Nat.two_pow_pos (scale w)
  rw [units_add_one] at hhigh
  have hvalue := units_eq w
  rcases Nat.lt_trichotomy k (significand w) with hlt | rfl | hgt
  · have hmul := Nat.mul_le_mul_right (2 ^ scale w) hlt
    rw [Nat.succ_mul] at hmul
    omega
  · exact hvalue.symm
  · have hmul := Nat.mul_le_mul_right (2 ^ scale w) hgt
    rw [Nat.succ_mul] at hmul
    omega

theorem units_infinity : units infinity = 2 ^ 52 * 2 ^ 2046 := by
  have hsig : significand infinity = 2 ^ 52 := rfl
  have hscale : scale infinity = 2046 := rfl
  rw [units_eq, hsig, hscale]

/-- A quotient that is as large as the value that infinity would have is rounded to infinity. -/
theorem nearest_eq_infinity (h : units infinity ≤ num / den) : nearest num den = infinity := by
  have hword : infinity ≤ floorWord (num / den) := le_floorWord_iff.2 h
  rw [nearest]
  refine Nat.min_eq_right ?_
  split
  · exact hword
  · exact Nat.le_trans hword (Nat.le_add_right _ _)
  · exact Nat.le_trans hword (Nat.le_add_right _ _)

theorem nearest_mul_right {k : Nat} (hk : 0 < k) (num den : Nat) :
    nearest (num * k) (den * k) = nearest num den := by
  have hquot : num * k / (den * k) = num / den := Nat.mul_div_mul_right _ _ hk
  have hcmp (m : Nat) : compare (2 * (num * k)) (den * k * m) = compare (2 * num) (den * m) := by
    rw [← Nat.mul_assoc, Nat.mul_right_comm den, Nat.compare_eq_ite_lt, Nat.compare_eq_ite_lt]
    simp only [Nat.mul_lt_mul_right hk]
  rw [nearest, nearest, hquot, hcmp]

end PocketCalculator.Binary64
