import PocketCalculator.Decimal.Shortest
import PocketCalculator.Proofs.Decimal.Nearest

/-!
# The shortest decimal

What is picked on a grid is in the band of the word, and the finest grid is so fine that something
is picked there at the latest. So the shortest decimal of a finite word has this word as its nearest
one (`nearestWord_shortest`). Coarser grids have no point in the band
(`not_encloses_of_exponent_lt`), which is why no decimal with fewer digits has the same nearest word
(`coefficient_shortest_lt`).
-/

namespace PocketCalculator.Decimal

open Binary64

namespace Band

variable {b : Band} {x w step c : Nat}

theorem contains_iff :
    b.contains x = true ↔ b.low ≤ x ∧ x ≤ b.high ∧ (b.closed = false → b.low < x ∧ x < b.high) := by
  unfold contains
  cases b.closed with
  | true => simp
  | false =>
    simp only [Bool.false_eq_true, if_false, Bool.and_eq_true, decide_eq_true_eq, forall_const]
    omega

theorem contains_of_lt (hlow : b.low < x) (hhigh : x < b.high) : b.contains x = true :=
  contains_iff.2 ⟨Nat.le_of_lt hlow, Nat.le_of_lt hhigh, fun _ => ⟨hlow, hhigh⟩⟩

/-- What is picked is in the band. -/
theorem contains_of_pick? (h : b.pick? step = some c) : b.contains (c * step) = true := by
  unfold pick? at h
  dsimp only at h
  split at h
  next hbelow habove =>
    split at h
    · cases h
      exact hbelow
    · cases h
      exact habove
  next hbelow _ =>
    cases h
    exact hbelow
  next _ habove =>
    cases h
    exact habove
  next => cases h

theorem step_pos (j : Nat) : 0 < Band.step j := by
  have htwo : 0 < 2 ^ 1075 := by decide +kernel
  exact Nat.mul_pos htwo (ten_pow_pos j)

theorem step_mono {i j : Nat} (h : i ≤ j) : Band.step i ≤ Band.step j :=
  Nat.mul_le_mul_left _ (Nat.pow_le_pow_right (by decide) h)

/-- The band has no gaps. -/
theorem contains_of_between {y z : Nat} (hx : b.contains x = true) (hz : b.contains z = true)
    (hxy : x ≤ y) (hyz : y ≤ z) : b.contains y = true := by
  obtain ⟨hlow, -, hlow'⟩ := contains_iff.1 hx
  obtain ⟨-, hhigh, hhigh'⟩ := contains_iff.1 hz
  refine contains_iff.2 ⟨by omega, by omega, fun hopen => ?_⟩
  exact ⟨Nat.lt_of_lt_of_le (hlow' hopen).1 hxy, Nat.lt_of_le_of_lt hyz (hhigh' hopen).2⟩

/-- Something is picked on every grid that has a point in the band. -/
theorem exists_pick? (hstep : 0 < step) (hvalue : b.contains b.value = true)
    (hc : b.contains (c * step) = true) : ∃ c', b.pick? step = some c' := by
  have hneighbour : b.contains (b.value / step * step) = true ∨
      b.contains ((b.value / step + 1) * step) = true := by
    have hbelow := Nat.div_mul_le_self b.value step
    have habove : b.value < (b.value / step + 1) * step := by
      rw [Nat.succ_mul]
      exact Nat.lt_div_mul_add hstep
    rcases Nat.lt_or_ge (b.value / step) c with hlt | hle
    · exact .inr (contains_of_between hvalue hc (Nat.le_of_lt habove)
        (Nat.mul_le_mul_right _ hlt))
    · exact .inl (contains_of_between hc hvalue (Nat.mul_le_mul_right _ hle) hbelow)
  unfold pick?
  dsimp only
  split
  · split <;> exact ⟨_, rfl⟩
  · exact ⟨_, rfl⟩
  · exact ⟨_, rfl⟩
  next hbelow habove =>
    rw [hbelow, habove] at hneighbour
    simp at hneighbour

/-- The coarsest grid with a point in the band gives such a point. -/
theorem coarsest_eq (h : ∃ c, b.pick? (Band.step 0) = some c) (j : Nat) :
    ∃ i c, b.coarsest j = ⟨c, (i : Nat) - 324⟩ ∧ i ≤ j ∧ b.contains (c * Band.step i) = true ∧
      ∀ k, i < k → k ≤ j → b.pick? (Band.step k) = none := by
  induction j with
  | zero =>
    obtain ⟨c, hc⟩ := h
    refine ⟨0, c, ?_, Nat.le_refl _, contains_of_pick? hc, fun k hlt hle => ?_⟩
    · rw [coarsest, hc]
      rfl
    · exact absurd (Nat.lt_of_lt_of_le hlt hle) (Nat.lt_irrefl _)
  | succ j ih =>
    cases hpick : b.pick? (Band.step (j + 1)) with
    | some c =>
      refine ⟨j + 1, c, ?_, Nat.le_refl _, contains_of_pick? hpick, fun k hlt hle => ?_⟩
      · rw [coarsest, hpick]
      · exact absurd (Nat.lt_of_lt_of_le hlt hle) (Nat.lt_irrefl _)
    | none =>
      obtain ⟨i, c, heq, hi, hc, hcoarser⟩ := ih
      refine ⟨i, c, ?_, Nat.le_succ_of_le hi, hc, fun k hlt hle => ?_⟩
      · rw [coarsest, hpick]
        exact heq
      · rcases Nat.lt_or_eq_of_le hle with hk | rfl
        · exact hcoarser k hlt (Nat.le_of_lt_succ hk)
        · exact hpick

/-! ## Bands of words -/

theorem units_neighbours (hw : w ≠ 0) :
    units (w - 1) + 1 ≤ units w ∧ units w < units (w + 1) :=
  ⟨units_strictMono (Nat.sub_lt (Nat.pos_of_ne_zero hw) Nat.one_pos),
    units_strictMono (Nat.lt_succ_self w)⟩

theorem low_ofWord_pos (hw : w ≠ 0) : 0 < (ofWord w).low := by
  obtain ⟨hprev, -⟩ := units_neighbours hw
  exact Nat.mul_pos (by omega) (ten_pow_pos 324)

theorem value_lt_high (hw : w ≠ 0) : (ofWord w).value < (ofWord w).high := by
  obtain ⟨-, hnext⟩ := units_neighbours hw
  exact Nat.mul_lt_mul_of_pos_right (by omega) (ten_pow_pos 324)

/-- The finest grid fits in between the lower end of a band and its value. -/
theorem low_add_step_le_value (hw : w ≠ 0) : (ofWord w).low + Band.step 0 ≤ (ofWord w).value := by
  obtain ⟨hprev, -⟩ := units_neighbours hw
  have hstep : Band.step 0 ≤ 10 ^ 324 := by
    rw [Band.step, Nat.pow_zero, Nat.mul_one]
    decide +kernel
  calc (units (w - 1) + units w) * 10 ^ 324 + Band.step 0
      ≤ (units (w - 1) + units w) * 10 ^ 324 + 1 * 10 ^ 324 := by
        rw [Nat.one_mul]
        exact Nat.add_le_add_left hstep _
    _ = (units (w - 1) + 1 + units w) * 10 ^ 324 := by
        rw [← Nat.add_mul, Nat.add_right_comm]
    _ ≤ 2 * units w * 10 ^ 324 := Nat.mul_le_mul_right _ (by omega)

theorem contains_value (hw : w ≠ 0) : (ofWord w).contains (ofWord w).value = true :=
  contains_of_lt (Nat.lt_of_lt_of_le (Nat.lt_add_of_pos_right (step_pos 0))
    (low_add_step_le_value hw)) (value_lt_high hw)

/-- The finest grid has a point in the band of every word but zero. -/
theorem exists_pick?_ofWord (hw : w ≠ 0) : ∃ c, (ofWord w).pick? (Band.step 0) = some c := by
  have hlow := low_add_step_le_value hw
  have hhigh := value_lt_high hw
  have hle := Nat.div_mul_le_self (ofWord w).value (Band.step 0)
  have hlt := Nat.lt_div_mul_add (a := (ofWord w).value) (step_pos 0)
  have hfloor : (ofWord w).contains ((ofWord w).value / Band.step 0 * Band.step 0) = true :=
    contains_of_lt (by omega) (by omega)
  exact exists_pick? (step_pos 0) (contains_value hw) hfloor

/-- No finite band reaches grid 633. -/
theorem high_lt_step (hw : w < infinity) : (ofWord w).high < Band.step 633 := by
  have hle : units w + units (w + 1) ≤ 2 * (2 ^ 52 * 2 ^ 2046) := by
    have hw' : units w ≤ units infinity := units_strictMono.monotone (Nat.le_of_lt hw)
    have hnext : units (w + 1) ≤ units infinity := units_strictMono.monotone hw
    rw [units_infinity] at hw' hnext
    rw [Nat.two_mul]
    exact Nat.add_le_add hw' hnext
  refine Nat.lt_of_le_of_lt (Nat.mul_le_mul_right _ hle) ?_
  rw [Band.step]
  decide +kernel

end Band

/-! ## Positions -/

/-- The position of a grid point, from its decimal. -/
theorem position_eq (c i : Nat) :
    2 * numerator ⟨c, (i : Int) - 324⟩ * 10 ^ 324 =
      denominator ⟨c, (i : Int) - 324⟩ * (c * Band.step i) := by
  have hexp : ((i : Int) - 324).toNat + 324 = (-((i : Int) - 324)).toNat + i := by omega
  have hpow : 10 ^ ((i : Int) - 324).toNat * 10 ^ 324 =
      10 ^ (-((i : Int) - 324)).toNat * 10 ^ i := by
    rw [← Nat.pow_add, hexp, Nat.pow_add]
  have htwo : 2 * 2 ^ 1074 = 2 ^ 1075 := by
    have hexp : 1075 = 1074 + 1 := rfl
    rw [hexp, Nat.pow_succ' (n := 1074)]
  simp only [numerator, denominator, Band.step]
  calc 2 * (c * 10 ^ ((i : Int) - 324).toNat * 2 ^ 1074) * 10 ^ 324
      = c * (2 * 2 ^ 1074) * (10 ^ ((i : Int) - 324).toNat * 10 ^ 324) := by
        simp only [Nat.mul_assoc, Nat.mul_left_comm, Nat.mul_comm]
    _ = c * 2 ^ 1075 * (10 ^ (-((i : Int) - 324)).toNat * 10 ^ i) := by
        rw [hpow, htwo]
    _ = 10 ^ (-((i : Int) - 324)).toNat * (c * (2 ^ 1075 * 10 ^ i)) := by
        simp only [Nat.mul_assoc, Nat.mul_left_comm, Nat.mul_comm]

/-- The decimals with a position in the band of a word are those that are rounded to the word. -/
theorem contains_iff_inBand {w x : Nat} {d : Decimal}
    (hx : 2 * d.numerator * 10 ^ 324 = d.denominator * x) :
    (Band.ofWord w).contains x = true ↔ InBand w d.numerator d.denominator := by
  have hle (m : Nat) : m * 10 ^ 324 ≤ x ↔ d.denominator * m ≤ 2 * d.numerator := by
    rw [← Nat.mul_le_mul_left_iff d.denominator_pos, ← hx, ← Nat.mul_assoc]
    exact Nat.mul_le_mul_right_iff (ten_pow_pos 324)
  have hge (m : Nat) : x ≤ m * 10 ^ 324 ↔ 2 * d.numerator ≤ d.denominator * m := by
    rw [← Nat.mul_le_mul_left_iff d.denominator_pos, ← hx, ← Nat.mul_assoc]
    exact Nat.mul_le_mul_right_iff (ten_pow_pos 324)
  have hclosed : (Band.ofWord w).closed = false ↔ w % 2 = 1 := by
    change (w % 2 == 0) = false ↔ _
    rw [beq_eq_false_iff_ne, Nat.mod_two_ne_zero]
  have hlow := hle (units (w - 1) + units w)
  have hhigh := hge (units w + units (w + 1))
  have hlow' := hge (units (w - 1) + units w)
  have hhigh' := hle (units w + units (w + 1))
  rw [Band.contains_iff, hclosed]
  change (_ * 10 ^ 324 ≤ x ∧ x ≤ _ * 10 ^ 324 ∧ (_ → _ * 10 ^ 324 < x ∧ x < _ * 10 ^ 324)) ↔ _
  rw [hlow, hhigh, ← Nat.not_le, ← Nat.not_le, hlow', hhigh']
  constructor
  · rintro ⟨hl, hh, hodd⟩
    exact ⟨hl, hh, by omega⟩
  · rintro ⟨hl, hh, hodd⟩
    exact ⟨hl, hh, by omega⟩

/-! ## The shortest decimal -/

/-- The shortest decimal is in the band of its word, and coarser grids have no point there. -/
theorem shortest_eq {w : Nat} (hw : w ≠ 0) :
    ∃ i c, shortest w = ⟨c, (i : Nat) - 324⟩ ∧ i ≤ 632 ∧
      (Band.ofWord w).contains (c * Band.step i) = true ∧
      ∀ k, i < k → k ≤ 632 → ∀ c', (Band.ofWord w).contains (c' * Band.step k) = false := by
  obtain ⟨i, c, heq, hi, hc, hcoarser⟩ := Band.coarsest_eq (Band.exists_pick?_ofWord hw) 632
  refine ⟨i, c, by rw [shortest, if_neg hw, heq], hi, hc, fun k hlt hle c' => ?_⟩
  rw [Bool.eq_false_iff]
  intro hcontains
  obtain ⟨_, hpick⟩ := Band.exists_pick? (Band.step_pos k) (Band.contains_value hw) hcontains
  rw [hcoarser k hlt hle] at hpick
  cases hpick

theorem inBand_shortest {w : Nat} (hw : w ≠ 0) :
    InBand w (shortest w).numerator (shortest w).denominator := by
  obtain ⟨i, c, heq, -, hc, -⟩ := shortest_eq hw
  rw [heq]
  exact (contains_iff_inBand (position_eq c i)).1 hc

/-- The shortest decimal of a finite word reads back as this word. -/
theorem nearestWord_shortest {w : Nat} (hw : w < infinity) : (shortest w).nearestWord = w := by
  by_cases hzero : w = 0
  · rw [hzero]
    rfl
  · rw [nearestWord_eq_nearest]
    exact nearest_eq_of_inBand (denominator_pos _) hw (inBand_shortest hzero)

/-! ## No shorter decimal -/

/-- The coarsest grids have no point in a finite band. -/
theorem Band.not_contains_of_le {w j : Nat} (hzero : w ≠ 0) (hw : w < infinity) (hj : 633 ≤ j)
    (c : Nat) : (Band.ofWord w).contains (c * Band.step j) = false := by
  rw [Bool.eq_false_iff]
  intro hcontains
  obtain ⟨hlow, hhigh, -⟩ := contains_iff.1 hcontains
  rcases Nat.eq_zero_or_pos c with rfl | hc
  · rw [Nat.zero_mul] at hlow
    exact absurd (low_ofWord_pos hzero) (Nat.not_lt.2 hlow)
  · have hstep : step 633 ≤ c * step j :=
      Nat.le_trans (step_mono hj) (Nat.le_mul_of_pos_left _ hc)
    exact absurd (high_lt_step hw) (Nat.not_lt.2 (Nat.le_trans hstep hhigh))

/-- No decimal with a larger exponent than the shortest one is rounded to the same word. -/
theorem not_encloses_of_exponent_lt {w : Nat} {d : Decimal} (hzero : w ≠ 0) (hw : w < infinity)
    (h : (shortest w).exponent < d.exponent) : ¬Encloses w (d.value * one) := by
  obtain ⟨i, c, heq, -, -, hcoarser⟩ := shortest_eq hzero
  have h : (i : Int) - 324 < d.exponent := by rwa [heq] at h
  obtain ⟨k, hk⟩ : ∃ k : Nat, d.exponent = (k : Int) - 324 := ⟨(d.exponent + 324).toNat, by omega⟩
  have hd : d = ⟨d.coefficient, (k : Int) - 324⟩ := by rw [← hk]
  intro hencloses
  rw [← inBand_iff, hd, ← contains_iff_inBand (position_eq _ k)] at hencloses
  have hnot : (Band.ofWord w).contains (d.coefficient * Band.step k) = false := by
    rcases Nat.lt_or_ge 632 k with hlt | hle
    · exact Band.not_contains_of_le hzero hw hlt _
    · exact hcoarser k (by omega) hle _
  rw [hnot] at hencloses
  cases hencloses

theorem encloses_shortest {w : Nat} (hzero : w ≠ 0) : Encloses w ((shortest w).value * one) :=
  (inBand_iff _).1 (inBand_shortest hzero)

/-- The digits of a shortest decimal do not end in a zero: without it they would be those of a
decimal with a larger exponent. -/
theorem coefficient_shortest_mod_ten {w : Nat} (hzero : w ≠ 0) (hw : w < infinity) :
    (shortest w).coefficient % 10 ≠ 0 := by
  intro hmod
  obtain ⟨c, hc⟩ := Nat.dvd_of_mod_eq_zero hmod
  have hvalue : (shortest w).value = value ⟨c, (shortest w).exponent + 1⟩ := by
    rw [value, value, hc, zpow_add_one₀ (by norm_num)]
    push_cast
    ring
  have hshortest := encloses_shortest hzero
  rw [hvalue] at hshortest
  exact not_encloses_of_exponent_lt hzero hw (Int.lt_succ _) hshortest

/-- The shortest decimal of a word has the least number of digits: otherwise there would be a power
of ten with a larger exponent between it and a decimal with fewer digits. -/
theorem coefficient_shortest_lt {w n : Nat} {d : Decimal} (hzero : w ≠ 0) (hw : w < infinity)
    (hd : Encloses w (d.value * one)) (hn : d.coefficient < 10 ^ n) :
    (shortest w).coefficient < 10 ^ n := by
  by_contra hge
  rw [Nat.not_lt] at hge
  have hten : (0 : ℚ) < 10 := by norm_num
  have hexponent : d.exponent ≤ (shortest w).exponent :=
    Int.not_lt.1 fun hlt => not_encloses_of_exponent_lt hzero hw hlt hd
  have hpos : n ≠ 0 := by
    rintro rfl
    have hc : d.coefficient = 0 := Nat.lt_one_iff.1 hn
    rw [value, hc, Nat.cast_zero, zero_mul, zero_mul] at hd
    exact hzero hd.eq_zero
  have hmid : value ⟨1, n + (shortest w).exponent⟩ = 10 ^ n * 10 ^ (shortest w).exponent := by
    rw [value, Nat.cast_one, one_mul, zpow_add₀ hten.ne', zpow_natCast]
  have hbelow : d.value ≤ value ⟨1, n + (shortest w).exponent⟩ := by
    rw [hmid, value]
    refine mul_le_mul (by exact_mod_cast hn.le) ?_ (zpow_nonneg hten.le _) (by positivity)
    exact zpow_le_zpow_right₀ (by norm_num) hexponent
  have habove : value ⟨1, n + (shortest w).exponent⟩ ≤ (shortest w).value := by
    rw [hmid, value]
    exact mul_le_mul_of_nonneg_right (by exact_mod_cast hge) (zpow_nonneg hten.le _)
  refine not_encloses_of_exponent_lt (d := ⟨1, n + (shortest w).exponent⟩) hzero hw ?_
    (hd.of_between (encloses_shortest hzero) (mul_le_mul_of_nonneg_right hbelow one_cast_pos.le)
      (mul_le_mul_of_nonneg_right habove one_cast_pos.le))
  dsimp only
  omega

end PocketCalculator.Decimal
