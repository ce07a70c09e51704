import PocketCalculator.Proofs.Binary64.Order
import PocketCalculator.Proofs.Binary64.Units

/-!
# The number nearest to a rational

What it means that a rational is rounded to a number is said with the values of numbers alone
(`IsNearest`). It is the same as being in the band of the magnitude word of the number
(`isNearest_ofWord`, `encloses_of_isNearest`).
-/

namespace PocketCalculator.Binary64

/-- A magnitude with a sign. -/
def signed (negative : Bool) (x : ℚ) : ℚ :=
  if negative then -x else x

/-- The value of a finite number. -/
def value (v : Float) : ℚ :=
  signed (isNegative v) (units (word v) / one)

/-- Halfway between the last finite number, `2 ^ 1024 - 2 ^ 971`, and the next power of two. -/
def limit : ℚ := 2 ^ 1024 - 2 ^ 970

/-- A rational is rounded to a number. Below the limit this is the nearest finite number, and the
one with an even last bit of two that are equally near. From the limit on it is infinity. -/
structure IsNearest (v : Float) (q : ℚ) : Prop where
  infinite : limit ≤ |q| → v = ofWord (q < 0) infinity
  isFinite : |q| < limit → v.isFinite = true
  le : |q| < limit → ∀ u : Float, u.isFinite = true → |q - value v| ≤ |q - value u|
  even : |q| < limit → ∀ u : Float, u.isFinite = true → |q - value v| = |q - value u| →
    value u = value v ∨ word v % 2 = 0

/-- A number of units is between the midpoints around the value of a word, and for an odd word at
neither of them. -/
structure Encloses (w : Nat) (x : ℚ) : Prop where
  low : (units (w - 1) + units w : ℚ) ≤ 2 * x
  high : 2 * x ≤ (units w + units (w + 1) : ℚ)
  odd : w % 2 = 1 → (units (w - 1) + units w : ℚ) < 2 * x ∧ 2 * x < (units w + units (w + 1) : ℚ)

variable {v u : Float} {w w' num den : Nat} {q x y : ℚ} {negative : Bool}

theorem one_cast_pos : (0 : ℚ) < one := Nat.cast_pos.2 Binary64.one_pos

theorem inBand_iff_encloses (hden : 0 < den) (hx : x * den = num) :
    InBand w num den ↔ Encloses w x := by
  have hden : (0 : ℚ) < den := by exact_mod_cast hden
  have htwice : (2 * num : ℚ) = den * (2 * x) := by
    rw [← hx]
    ring
  have hlow (m n : Nat) : den * (m + n) ≤ 2 * num ↔ (m + n : ℚ) ≤ 2 * x := by
    rw [← mul_le_mul_iff_of_pos_left hden, ← htwice]
    exact_mod_cast Iff.rfl
  have hhigh (m n : Nat) : 2 * num ≤ den * (m + n) ↔ 2 * x ≤ (m + n : ℚ) := by
    rw [← mul_le_mul_iff_of_pos_left hden, ← htwice]
    exact_mod_cast Iff.rfl
  constructor
  · rintro ⟨hl, hh, hodd⟩
    refine ⟨(hlow _ _).1 hl, (hhigh _ _).1 hh, fun hw => ?_⟩
    obtain ⟨hl', hh'⟩ := hodd hw
    rw [← not_le, ← not_le, ← hhigh, ← hlow]
    omega
  · rintro ⟨hl, hh, hodd⟩
    refine ⟨(hlow _ _).2 hl, (hhigh _ _).2 hh, fun hw => ?_⟩
    obtain ⟨hl', hh'⟩ := hodd hw
    rw [← not_le, ← hhigh] at hl'
    rw [← not_le, ← hlow] at hh'
    omega

/-! ## Signs -/

theorem abs_signed (negative : Bool) (x : ℚ) : |signed negative x| = |x| := by
  cases negative with
  | false => rfl
  | true => exact abs_neg x

theorem signed_mul (negative : Bool) (x y : ℚ) :
    signed negative x * y = signed negative (x * y) := by
  cases negative with
  | false => rfl
  | true => exact neg_mul x y

theorem abs_signed_sub (negative : Bool) (x y : ℚ) :
    |signed negative x - signed negative y| = |x - y| := by
  cases negative with
  | false => rfl
  | true => rw [signed, signed, if_pos rfl, if_pos rfl, neg_sub_neg, abs_sub_comm]

/-! ## Enclosed numbers of units -/

theorem units_cast_le (h : w ≤ w') : (units w : ℚ) ≤ units w' :=
  Nat.cast_le.2 (units_strictMono.monotone h)

theorem units_cast_lt (h : w < w') : (units w : ℚ) < units w' :=
  Nat.cast_lt.2 (units_strictMono h)

/-- Of all words the one that encloses a number of units has the nearest value. -/
theorem Encloses.abs_sub_le (h : Encloses w x) (w' : Nat) :
    |x - units w| ≤ |x - units w'| ∧ (|x - units w| = |x - units w'| → w' = w ∨ w % 2 = 0) := by
  obtain ⟨hlow, hhigh, hodd⟩ := h
  rcases Nat.lt_trichotomy w' w with hlt | rfl | hgt
  · have hle := units_cast_le (Nat.le_sub_one_of_lt hlt)
    have hlt := units_cast_lt hlt
    refine ⟨?_, fun heq => .inr ?_⟩
    · rw [abs_of_nonneg (a := x - units w') (by linarith)]
      exact abs_le.2 ⟨by linarith, by linarith⟩
    · by_contra hne
      obtain ⟨hlow, -⟩ := hodd (by omega)
      rcases abs_eq_abs.1 heq with heq | heq <;> linarith
  · exact ⟨le_refl _, fun _ => .inl rfl⟩
  · have hle := units_cast_le (Nat.succ_le_of_lt hgt)
    have hlt := units_cast_lt hgt
    refine ⟨?_, fun heq => .inr ?_⟩
    · rw [abs_of_nonpos (a := x - units w') (by linarith)]
      exact abs_le.2 ⟨by linarith, by linarith⟩
    · by_contra hne
      obtain ⟨-, hhigh⟩ := hodd (by omega)
      rcases abs_eq_abs.1 heq with heq | heq <;> linarith

/-- What lies between two enclosed numbers of units is enclosed. -/
theorem Encloses.of_between {z : ℚ} (hx : Encloses w x) (hz : Encloses w z) (hxy : x ≤ y)
    (hyz : y ≤ z) : Encloses w y where
  low := by linarith [hx.low]
  high := by linarith [hz.high]
  odd hodd := ⟨by linarith [hx.odd hodd], by linarith [hz.odd hodd]⟩

theorem Encloses.eq_zero (h : Encloses w 0) : w = 0 := by
  by_contra hne
  have hpos := units_cast_lt (Nat.pos_of_ne_zero hne)
  have hzero := units_cast_le (Nat.zero_le (w - 1))
  have hlow := h.low
  have hunits : (units 0 : ℚ) = 0 := Nat.cast_zero
  linarith

theorem two_mul_limit_mul_one :
    2 * (limit * one) = (units (infinity - 1) + units infinity : ℚ) := by
  have hunits : units (infinity - 1) + units infinity + 2 * (2 ^ 970 * one) =
      2 * (2 ^ 1024 * one) := by decide +kernel
  have hcast := congrArg (Nat.cast (R := ℚ)) hunits
  rw [Nat.cast_add, Nat.cast_add, Nat.cast_mul, Nat.cast_mul, Nat.cast_mul, Nat.cast_mul,
    Nat.cast_pow, Nat.cast_pow] at hcast
  rw [limit, sub_mul, mul_sub]
  exact sub_eq_of_eq_add hcast.symm

/-- Finite words enclose just what is below the limit. -/
theorem Encloses.lt_limit_iff (h : Encloses w x) : x < limit * one ↔ w < infinity := by
  obtain ⟨hlow, hhigh, hodd⟩ := h
  have hlimit := two_mul_limit_mul_one
  constructor
  · intro hx
    by_contra hle
    rw [Nat.not_lt] at hle
    have hw := units_cast_le hle
    have hprev := units_cast_le (Nat.sub_le_sub_right hle 1)
    linarith
  · intro hw
    rcases Nat.lt_or_eq_of_le (Nat.succ_le_of_lt hw) with hlt | heq
    · have hw := units_cast_lt (Nat.lt_sub_of_add_lt hlt)
      have hnext := units_cast_le (Nat.le_of_lt hlt)
      linarith
    · obtain ⟨-, hhigh⟩ := hodd (by rw [infinity] at heq; omega)
      have hlast : w = infinity - 1 := Nat.eq_sub_of_add_eq heq
      rw [Nat.succ_eq_add_one] at heq
      rw [heq] at hhigh
      rw [hlast] at hhigh
      linarith

/-! ## Rounding -/

theorem abs_sub_mul_one (p q : ℚ) : |p - q| * one = |p * one - q * one| := by
  rw [← sub_mul, abs_mul, abs_of_pos one_cast_pos]

theorem value_mul_one (v : Float) : value v * one = signed (isNegative v) (units (word v)) := by
  rw [value, signed_mul, div_mul_cancel₀ _ one_cast_pos.ne']

theorem abs_value_mul_one (v : Float) : |value v| * one = units (word v) := by
  rw [value, abs_signed, abs_of_nonneg (div_nonneg (Nat.cast_nonneg _) one_cast_pos.le),
    div_mul_cancel₀ _ one_cast_pos.ne']

theorem abs_mul_one (q : ℚ) : |q * one| = |q| * one := by
  rw [abs_mul, abs_of_pos one_cast_pos]

theorem Encloses.ne_zero (h : Encloses w |q * one|) (hw : w ≠ 0) : q ≠ 0 := by
  rintro rfl
  rw [zero_mul, abs_zero] at h
  exact hw h.eq_zero

/-- A rational is rounded to the number of its own sign whose word encloses its magnitude, or to
infinity if this word is not finite. -/
theorem isNearest_ofWord (h : Encloses w |q * one|) (hsign : q = signed negative |q|) :
    IsNearest (ofWord negative (min w infinity)) q := by
  have hlimit : |q| < limit ↔ w < infinity := by
    rw [← h.lt_limit_iff, abs_mul_one, mul_lt_mul_iff_of_pos_right one_cast_pos]
  rcases Nat.lt_or_ge w infinity with hw | hw
  · rw [Nat.min_eq_left (Nat.le_of_lt hw)]
    obtain ⟨v, hv⟩ : ∃ v, ofWord negative w = v := ⟨_, rfl⟩
    have hword : word v = w := by rw [← hv, word_ofWord (Nat.le_of_lt hw)]
    have hneg : isNegative v = negative := by rw [← hv, isNegative_ofWord (Nat.le_of_lt hw)]
    have hq : q * one = signed negative |q * one| := by rw [abs_mul_one, ← signed_mul, ← hsign]
    have hdist : |q - value v| * one = |(|q * one|) - units w| := by
      rw [← abs_signed_sub negative |q * one|, ← hq, abs_sub_mul_one, value_mul_one, hword, hneg]
    have hdist' (u : Float) : |(|q * one|) - units (word u)| ≤ |q - value u| * one := by
      rw [abs_sub_mul_one, ← abs_value_mul_one, ← abs_mul_one]
      exact abs_abs_sub_abs_le _ _
    rw [hv]
    refine ⟨fun hle => absurd (hlimit.2 hw) (not_lt.2 hle), fun _ => ?_, fun _ u _ => ?_,
      fun _ u _ heq => or_iff_not_imp_right.2 fun hodd => ?_⟩
    · rw [isFinite_iff, hword]
      exact hw
    · refine le_of_mul_le_mul_right ?_ one_cast_pos
      rw [hdist]
      exact (h.abs_sub_le (word u)).1.trans (hdist' u)
    · obtain ⟨hle, htie⟩ := h.abs_sub_le (word u)
      rw [hword] at hodd
      rw [← hdist, heq] at hle htie
      have hwordu : word u = word v :=
        ((htie (le_antisymm hle (hdist' u))).resolve_right hodd).trans hword.symm
      have habs : |value u| = |value v| := by
        refine mul_right_cancel₀ one_cast_pos.ne' ?_
        rw [abs_value_mul_one, abs_value_mul_one, hwordu]
      -- Opposite values are equally near to zero only, which is enclosed by an even word.
      have hq : q ≠ 0 := h.ne_zero fun hzero => by simp [hzero] at hodd
      rcases abs_eq_abs.1 habs with hvalue | hvalue
      · exact hvalue
      · rw [hvalue] at heq ⊢
        rcases abs_eq_abs.1 heq with heq | heq <;> grind
  · have hle : limit ≤ |q| := not_lt.1 (hlimit.not.2 (Nat.not_lt.2 hw))
    have hnot : ¬|q| < limit := not_lt.2 hle
    refine ⟨fun _ => ?_, fun hlt => absurd hlt hnot, fun hlt => absurd hlt hnot,
      fun hlt => absurd hlt hnot⟩
    rw [Nat.min_eq_right hw]
    have hne : q ≠ 0 := h.ne_zero fun hzero => by
      rw [hzero] at hw
      exact absurd hw (by decide)
    congr 1
    cases negative with
    | false => exact (decide_eq_false (not_lt.2 (hsign ▸ abs_nonneg q))).symm
    | true =>
      have hneg : q < 0 := lt_of_le_of_ne (hsign ▸ neg_nonpos.2 (abs_nonneg q)) hne
      exact (decide_eq_true hneg).symm

/-! ## Rounding gives the enclosing word -/

theorem add_le_two_mul_of_abs_sub_le {a b : ℚ} (hab : a < b) (h : |x - b| ≤ |x - a|) :
    a + b ≤ 2 * x := by
  by_contra hlt
  have hfar : |x - a| < b - x := abs_lt.2 ⟨by linarith, by linarith⟩
  have hnear := neg_abs_le (x - b)
  linarith

theorem two_mul_le_add_of_abs_sub_le {a b : ℚ} (hab : a < b) (h : |x - a| ≤ |x - b|) :
    2 * x ≤ a + b := by
  by_contra hlt
  have hfar : |x - b| < x - a := abs_lt.2 ⟨by linarith, by linarith⟩
  have hnear := le_abs_self (x - a)
  linarith

theorem abs_sub_eq_of_two_mul_eq_add {a b : ℚ} (h : 2 * x = a + b) : |x - a| = |x - b| := by
  rw [abs_eq_abs]
  exact .inr (by linarith)

theorem signed_signed (negative : Bool) (x : ℚ) : signed negative (signed negative x) = x := by
  cases negative with
  | false => rfl
  | true => exact neg_neg x

theorem IsNearest.lt_limit (h : IsNearest v q) (hv : word v < infinity) : |q| < limit := by
  rw [← not_le]
  intro hle
  rw [h.infinite hle, word_ofWord (Nat.le_refl _)] at hv
  exact Nat.lt_irrefl _ hv

/-- Among the numbers of the same sign the nearest one is the one with the nearest word. -/
theorem IsNearest.abs_sub_le (h : IsNearest v q) (hv : word v < infinity) (hw : w < infinity) :
    let x := signed (isNegative v) (q * one)
    |x - units (word v)| ≤ |x - units w| ∧
      (|x - units (word v)| = |x - units w| → w = word v ∨ word v % 2 = 0) := by
  intro x
  obtain ⟨u, hu⟩ : ∃ u, ofWord (isNegative v) w = u := ⟨_, rfl⟩
  have hword : word u = w := by rw [← hu, word_ofWord (Nat.le_of_lt hw)]
  have hneg : isNegative u = isNegative v := by rw [← hu, isNegative_ofWord (Nat.le_of_lt hw)]
  have hfinite : u.isFinite = true := by rwa [isFinite_iff, hword]
  have hdist (u : Float) (hneg : isNegative u = isNegative v) :
      |x - units (word u)| = |q - value u| * one := by
    rw [abs_sub_mul_one, value_mul_one, hneg, ← abs_signed_sub (isNegative v) (q * one),
      signed_signed]
  have hlimit := h.lt_limit hv
  rw [← hword, hdist v rfl, hdist u hneg]
  refine ⟨mul_le_mul_of_nonneg_right (h.le hlimit u hfinite) one_cast_pos.le, fun heq => ?_⟩
  have htie := h.even hlimit u hfinite (mul_right_cancel₀ one_cast_pos.ne' heq)
  refine htie.imp_left fun hvalue => ?_
  have hunits : (units (word u) : ℚ) = units (word v) := by
    rw [← abs_value_mul_one, ← abs_value_mul_one, hvalue]
  exact units_strictMono.injective (Nat.cast_injective hunits)

/-- The word of a finite number other than zero encloses the magnitudes of the rationals that are
rounded to the number. -/
theorem encloses_of_isNearest (h : IsNearest v q) (hzero : word v ≠ 0) (hv : word v < infinity) :
    Encloses (word v) |q * one| := by
  have hnear {w : Nat} (hw : w < infinity) := h.abs_sub_le hv hw
  have hprev : word v - 1 < word v := Nat.sub_one_lt hzero
  have hlt := units_cast_lt hprev
  obtain ⟨hle, htie⟩ := hnear (hprev.trans hv)
  have hlow := add_le_two_mul_of_abs_sub_le hlt hle
  have hunits : (0 : ℚ) ≤ units (word v - 1) := Nat.cast_nonneg _
  have habs : |q * one| = signed (isNegative v) (q * one) := by
    rw [← abs_signed (isNegative v) (q * one), abs_of_pos (by linarith)]
  rw [habs]
  generalize hx : signed (isNegative v) (q * one) = x at hle htie hlow habs hnear
  have hstrict : word v % 2 = 1 → units (word v - 1) + units (word v) ≠ 2 * x := fun hodd heq => by
    have hsame := htie (abs_sub_eq_of_two_mul_eq_add heq.symm).symm
    omega
  rcases Nat.lt_or_eq_of_le (Nat.succ_le_of_lt hv) with hnext | hnext
  · obtain ⟨hle', htie'⟩ := hnear hnext
    have hlt' := units_cast_lt (Nat.lt_succ_self (word v))
    have hhigh := two_mul_le_add_of_abs_sub_le hlt' hle'
    refine ⟨hlow, hhigh, fun hodd => ⟨hlow.lt_of_ne (hstrict hodd), hhigh.lt_of_ne fun heq => ?_⟩⟩
    have hsame := htie' (abs_sub_eq_of_two_mul_eq_add heq)
    omega
  · have hlimit : x < limit * one := by
      rw [← habs, abs_mul_one]
      exact mul_lt_mul_of_pos_right (h.lt_limit hv) one_cast_pos
    have hhigh : 2 * x < units (word v) + units (word v + 1) := by
      have hlast : word v = infinity - 1 := Nat.eq_sub_of_add_eq hnext
      have hmid := two_mul_limit_mul_one
      rw [← hlast, ← hnext] at hmid
      linarith
    exact ⟨hlow, hhigh.le, fun hodd => ⟨hlow.lt_of_ne (hstrict hodd), hhigh⟩⟩

end PocketCalculator.Binary64
