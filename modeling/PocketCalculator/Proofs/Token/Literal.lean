import PocketCalculator.Proofs.Decimal.Nearest
import PocketCalculator.Proofs.Token.Lexeme

/-!
# What literals denote

A numeral denotes a rational, the number in front of its point and a fraction of as many places as
there are digits behind it (`rational`, `value_numeral`). A run that is a numeral is read as the
number that this rational is rounded to, whatever its length. Therefore literals of one rational are
one number (`IsLiteral.denotes_of_rational_eq`), and literals are in the order of their rationals
(`literal_nearest`).
-/

namespace PocketCalculator.Token

open Binary64 Decimal

/-- The digits of a run in front of its point. -/
def whole (run : List Char) : List Char := run.takeWhile (· != '.')

/-- The digits of a run behind its point. -/
def places (run : List Char) : List Char := (run.dropWhile (· != '.')).drop 1

/-- The rational that a numeral denotes. -/
def rational (run : List Char) : ℚ :=
  Nat.ofDigitChars 10 (whole run) 0 +
    (Nat.ofDigitChars 10 (places run) 0 : ℚ) / 10 ^ (places run).length

/-- A run is a number wherever it stands as a whole: behind blanks, and in front of a text that does
not continue it. -/
def Denotes (run : List Char) (v : Float) : Prop :=
  ∀ blanks rest : List Char, (∀ c ∈ blanks, Text.isBlank c = true) →
    (∀ c ∈ rest.head?, inLiteral c = false) →
      next? (blanks ++ (run ++ rest)) = some (.ok (.number v), rest)

/-- Digits and at most one point, with at least one digit. -/
structure IsLiteral (run : List Char) : Prop where
  inLiteral : ∀ c ∈ run, inLiteral c = true
  isNumeral : IsNumeral run

variable {run run' : List Char} {v v' : Float}

/-! ## The rational of a numeral -/

theorem value_numeral (run : List Char) : (numeral run).value = rational run := by
  have hten : (10 : ℚ) ^ (places run).length ≠ 0 := pow_ne_zero _ (by norm_num)
  have hcoefficient : (numeral run).coefficient =
      10 ^ (places run).length * Nat.ofDigitChars 10 (whole run) 0 +
        Nat.ofDigitChars 10 (places run) 0 := by
    change Nat.ofDigitChars 10 (run.erase '.') 0 = _
    rw [← erase_point, Nat.ofDigitChars_append, Nat.ofDigitChars_eq_ofDigitChars_zero]
    rfl
  have hexponent : (numeral run).exponent = -((places run).length : Int) := rfl
  rw [Decimal.value, hcoefficient, hexponent, zpow_neg, zpow_natCast, rational]
  push_cast
  field_simp

/-! ## Zeros and points that denote nothing -/

theorem whole_append (h : '.' ∉ run) (run' : List Char) : whole (run ++ run') = run ++ whole run' :=
  List.takeWhile_append_of_pos fun _ hc => bne_iff_ne.2 (ne_of_mem_of_not_mem hc h)

theorem places_append (h : '.' ∉ run) (run' : List Char) : places (run ++ run') = places run' := by
  rw [places, List.dropWhile_append_of_pos fun _ hc => bne_iff_ne.2 (ne_of_mem_of_not_mem hc h)]
  rfl

theorem point_notMem_replicate (n : Nat) : '.' ∉ List.replicate n '0' := by
  intro h
  exact absurd (List.eq_of_mem_replicate h) (by decide)

theorem rational_zeros_append (n : Nat) (run : List Char) :
    rational (List.replicate n '0' ++ run) = rational run := by
  have hpoint := point_notMem_replicate n
  rw [rational, rational, whole_append hpoint, places_append hpoint, Nat.ofDigitChars_append,
    Nat.ofDigitChars_replicate_zero, Nat.mul_zero]

theorem rational_append_zeros (h : '.' ∈ run) (n : Nat) :
    rational (run ++ List.replicate n '0') = rational run := by
  obtain ⟨front, back, rfl, hfront⟩ := List.eq_append_cons_of_mem h
  have hplaces (back : List Char) : places ('.' :: back) = back := rfl
  have hwhole (back : List Char) : whole ('.' :: back) = [] := rfl
  rw [List.append_assoc, List.cons_append, rational, rational, whole_append hfront,
    whole_append hfront, places_append hfront, places_append hfront, hwhole, hwhole, hplaces,
    hplaces, Nat.ofDigitChars_append (l := back), Nat.ofDigitChars_replicate_zero,
    List.length_append, List.length_replicate]
  push_cast
  rw [Nat.add_comm, pow_add, mul_div_mul_left _ _ (pow_ne_zero n (by norm_num))]

theorem rational_append_point (h : '.' ∉ run) : rational (run ++ ['.']) = rational run := by
  have hself : whole (run ++ []) = run ++ [] ∧ places (run ++ []) = [] :=
    ⟨whole_append h [], places_append h []⟩
  rw [List.append_nil] at hself
  have hpoint : whole ['.'] = [] ∧ places ['.'] = [] := ⟨rfl, rfl⟩
  rw [rational, rational, whole_append h, places_append h, hself.1, hself.2, hpoint.1, hpoint.2,
    List.append_nil]

/-! ## Literals -/

namespace IsLiteral

theorem parseFloat? (h : IsLiteral run) :
    Decimal.parseFloat? run = some ((numeral run).toFloat false) := by
  rw [parseFloat?_eq h.inLiteral, if_pos h.isNumeral]

theorem denotes (h : IsLiteral run) : Denotes run ((numeral run).toFloat false) := by
  obtain ⟨⟨c, hc, -⟩, -⟩ := h.isNumeral
  intro blanks rest hblanks hrest
  rw [next?_of_leads hblanks (.run (List.ne_nil_of_mem hc) h.inLiteral hrest),
    lexemeItem_of_run h.inLiteral, runItem, if_pos h.isNumeral]

theorem eq_of_denotes (h : IsLiteral run) (hv : Denotes run v) :
    v = (numeral run).toFloat false := by
  have hnext := hv [] [] (List.forall_mem_nil _) nofun
  rw [h.denotes [] [] (List.forall_mem_nil _) nofun] at hnext
  cases hnext
  rfl

/-- Literals of one rational are one number. -/
theorem denotes_of_rational_eq (h : IsLiteral run) (heq : rational run = rational run') :
    Denotes run ((numeral run').toFloat false) := by
  rw [← value_numeral, ← value_numeral] at heq
  have hv := h.denotes
  rwa [toFloat, nearestWord_congr heq] at hv

/-- A literal stays one when characters are put in, as long as there is one point at most. -/
theorem of_sublist (h : IsLiteral run) (hsub : run.Sublist run')
    (hclass : ∀ c ∈ run', Token.inLiteral c = true) (hcount : run'.count '.' ≤ 1) :
    IsLiteral run' := by
  obtain ⟨⟨c, hc, hdigit⟩, -⟩ := h.isNumeral
  exact ⟨hclass, ⟨c, hsub.subset hc, hdigit⟩, hcount⟩

theorem inLiteral_zeros {c : Char} {n : Nat} (h : c ∈ List.replicate n '0') :
    Token.inLiteral c = true := by
  rw [List.eq_of_mem_replicate h]
  rfl

theorem zeros_append (h : IsLiteral run) (n : Nat) : IsLiteral (List.replicate n '0' ++ run) := by
  refine h.of_sublist (List.sublist_append_right _ _)
    (List.forall_mem_append.2 ⟨fun _ => inLiteral_zeros, h.inLiteral⟩) ?_
  rw [List.count_append, List.count_eq_zero.2 (point_notMem_replicate n), Nat.zero_add]
  exact h.isNumeral.2

theorem append_zeros (h : IsLiteral run) (n : Nat) : IsLiteral (run ++ List.replicate n '0') := by
  refine h.of_sublist (List.sublist_append_left _ _)
    (List.forall_mem_append.2 ⟨h.inLiteral, fun _ => inLiteral_zeros⟩) ?_
  rw [List.count_append, List.count_eq_zero.2 (point_notMem_replicate n)]
  exact h.isNumeral.2

theorem append_point (h : IsLiteral run) (hpoint : '.' ∉ run) : IsLiteral (run ++ ['.']) := by
  refine h.of_sublist (List.sublist_append_left _ _)
    (List.forall_mem_append.2 ⟨h.inLiteral, List.forall_mem_singleton.2 rfl⟩) ?_
  rw [List.count_append, List.count_eq_zero.2 hpoint]
  rfl

end IsLiteral

/-- A literal of any length denotes the number that its rational is rounded to, which is infinity
for large ones, but never a NaN or a number with a sign. Zeros in front of the digits, zeros at the
end of the places and a point without places leave it as it is, and no literal of a larger rational
denotes a smaller number. -/
theorem literal_nearest (h : IsLiteral run) :
    ∃ v, Denotes run v ∧ Decimal.parseFloat? run = some v ∧ IsNearest v (rational run) ∧
      v.isNaN = false ∧ isNegative v = false ∧
      (∀ n, Denotes (List.replicate n '0' ++ run) v) ∧
      ('.' ∈ run → ∀ n, Denotes (run ++ List.replicate n '0') v) ∧
      ('.' ∉ run → Denotes (run ++ ['.']) v) ∧
      ∀ run' v', IsLiteral run' → Denotes run' v' → rational run ≤ rational run' → v ≤ v' := by
  refine ⟨_, h.denotes, h.parseFloat?, ?_, ?_, isNegative_toFloat _ _, fun n => ?_,
    fun hpoint n => ?_, fun hpoint => ?_, fun run' v' h' hv' hrational => ?_⟩
  · rw [← value_numeral]
    exact isNearest_toFloat (numeral run) false
  · rw [Bool.eq_false_iff, Ne, isNaN_iff, Nat.not_lt]
    exact word_toFloat_le _ _
  · exact (h.zeros_append n).denotes_of_rational_eq (rational_zeros_append n run)
  · exact (h.append_zeros n).denotes_of_rational_eq (rational_append_zeros hpoint n)
  · exact (h.append_point hpoint).denotes_of_rational_eq (rational_append_point hpoint)
  · rw [h'.eq_of_denotes hv']
    rw [← value_numeral, ← value_numeral] at hrational
    exact toFloat_mono hrational

theorem literal_nearest_of_tie :
    IsLiteral "9007199254740993".toList ∧
      Denotes "9007199254740993".toList 9007199254740992.0 ∧
      IsNearest 9007199254740992.0 (rational "9007199254740993".toList) ∧
      Denotes "009007199254740993".toList 9007199254740992.0 ∧
      Denotes "9007199254740993.".toList 9007199254740992.0 := by
  have hliteral : IsLiteral "9007199254740993".toList :=
    ⟨List.all_eq_true.1 (by decide +kernel), by decide +kernel⟩
  have hread : Decimal.parseFloat? "9007199254740993".toList = some 9007199254740992.0 := by
    decide +kernel
  obtain ⟨v, hv, hparse, hnearest, -, -, hzeros, -, hpoint, -⟩ := literal_nearest hliteral
  obtain rfl : v = 9007199254740992.0 := Option.some.inj (hparse.symm.trans hread)
  exact ⟨hliteral, hv, hnearest, hzeros 2, hpoint (by decide +kernel)⟩

end PocketCalculator.Token
