import Mathlib.Data.List.Basic
import Mathlib.Data.List.TakeWhile
import PocketCalculator.Decimal.Numeral

/-!
# Reading written digits

Digits in front of a point, behind it and behind the mark of an exponent are read as what they
denote (`ofPlain?_append_point`, `ofScientific?_append_mark`). A sign is read in front of everything
that has none and is no word (`parseFloat?_sign_append`).
-/

namespace PocketCalculator.Decimal

variable {cs whole places : List Char} {c d : Char} {n : Nat} {p : Char → Bool}

/-! ## Digits -/

theorem isDigit_of_mem_toDigits (h : c ∈ Nat.toDigits 10 n) : c.isDigit = true :=
  Nat.isDigit_of_mem_toDigits (by decide) (by decide) h

theorem ne_of_isDigit (h : c.isDigit = true) (hd : d.isDigit = false) : c ≠ d := by
  rintro rfl
  exact Bool.false_ne_true (hd.symm.trans h)

theorem toLower_of_isDigit (h : c.isDigit = true) : c.toLower = c := by
  obtain ⟨-, hle⟩ := Char.isDigit_iff_toNat.1 h
  refine dif_neg fun hupper => ?_
  have hge : 65 ≤ c.toNat := UInt32.le_iff_toNat_le.1 hupper.1
  exact absurd (Nat.le_trans hge hle) (by decide)

/-- Written numbers have no zeros in front. -/
theorem head?_toDigits_ne_zero (hn : 0 < n) : (Nat.toDigits 10 n).head? ≠ some '0' := by
  induction n using Nat.strongRecOn with
  | ind n ih =>
    rcases Nat.lt_or_ge n 10 with hlt | hge
    · rw [Nat.toDigits_of_lt_base hlt]
      have hdigit : ∀ d < 10, 0 < d → some d.digitChar ≠ some '0' := by decide
      exact hdigit n hlt hn
    · rw [Nat.toDigits_of_base_le (by decide) hge,
        List.head?_append_of_ne_nil _ Nat.toDigits_ne_nil]
      exact ih _ (Nat.div_lt_self hn (by decide)) (Nat.div_pos hge (by decide))

theorem natOfDigits?_eq_some (hne : cs ≠ []) (h : ∀ c ∈ cs, c.isDigit = true) :
    natOfDigits? cs = some (Nat.ofDigitChars 10 cs 0) := by
  rw [natOfDigits?, List.all_eq_true.2 h, List.isEmpty_eq_false_iff.2 hne]
  rfl

theorem isSome_natOfDigits?_iff :
    (natOfDigits? cs).isSome = true ↔ cs ≠ [] ∧ ∀ c ∈ cs, c.isDigit = true := by
  constructor
  · intro h
    obtain ⟨n, hn⟩ := Option.isSome_iff_exists.1 h
    simpa [natOfDigits?] using (Option.ite_none_right_eq_some.1 hn).1
  · rintro ⟨hne, h⟩
    rw [natOfDigits?_eq_some hne h, Option.isSome_some]

/-! ## Signs -/

theorem splitSign_of_head? (h : ∀ c ∈ cs.head?, c ≠ '-' ∧ c ≠ '+') :
    splitSign cs = (false, cs) := by
  unfold splitSign
  split
  · exact absurd rfl (h '-' rfl).1
  · exact absurd rfl (h '+' rfl).2
  · rfl

theorem head?_of_isDigit (h : ∀ c ∈ cs, c.isDigit = true) : ∀ c ∈ cs.head?, c ≠ '-' ∧ c ≠ '+' :=
  fun c hc =>
    have hdigit := h c (List.mem_of_mem_head? hc)
    ⟨ne_of_isDigit hdigit rfl, ne_of_isDigit hdigit rfl⟩

theorem splitSign_sign_append (negative : Bool) (h : ∀ c ∈ cs.head?, c ≠ '-' ∧ c ≠ '+') :
    splitSign ((if negative then ['-'] else []) ++ cs) = (negative, cs) := by
  cases negative with
  | false => exact splitSign_of_head? h
  | true => rfl

/-- Digits are read with the sign in front of them. -/
theorem intOfDigits?_sign_append (negative : Bool) (hne : cs ≠ [])
    (h : ∀ c ∈ cs, c.isDigit = true) :
    intOfDigits? ((if negative then ['-'] else []) ++ cs) =
      some (if negative then -(Nat.ofDigitChars 10 cs 0 : Int) else Nat.ofDigitChars 10 cs 0) := by
  rw [intOfDigits?, splitSign_sign_append negative (head?_of_isDigit h)]
  simp only [natOfDigits?_eq_some hne h, Option.map_some]

/-! ## Parts of a text -/

/-- A list is split at the first character that does not satisfy a predicate. -/
theorem span_append (h : ∀ c ∈ cs, p c = true) (hd : p d = false) (rest : List Char) :
    (cs ++ d :: rest).takeWhile p = cs ∧ (cs ++ d :: rest).dropWhile p = d :: rest := by
  rw [List.takeWhile_append_of_pos h, List.dropWhile_append_of_pos h]
  simp [hd]

theorem span_self (h : ∀ c ∈ cs, p c = true) : cs.takeWhile p = cs ∧ cs.dropWhile p = [] :=
  ⟨List.takeWhile_eq_self_iff.2 h, List.dropWhile_eq_nil_iff.2 h⟩

theorem eq_of_dropWhile_eq_cons {rest : List Char} (h : cs.dropWhile (· != d) = c :: rest) :
    c = d := by
  simpa [h] using List.head?_dropWhile_not (· != d) cs

/-- A member of a list is before its first `d`, or is `d`, or is after that. -/
theorem mem_takeWhile_or (d : Char) (h : c ∈ cs) :
    c ∈ cs.takeWhile (· != d) ∨ c = d ∨ c ∈ (cs.dropWhile (· != d)).drop 1 := by
  rw [← List.takeWhile_append_dropWhile (l := cs) (p := (· != d)), List.mem_append] at h
  rcases h with h | h
  · exact .inl h
  · cases hrest : cs.dropWhile (· != d) with
    | nil => simp [hrest] at h
    | cons d' rest =>
      rw [hrest, List.mem_cons, eq_of_dropWhile_eq_cons hrest] at h
      exact .inr h

theorem isDigit_or_point_of_ofPlain? {d : Decimal} (h : ofPlain? cs = some d) (hc : c ∈ cs) :
    c.isDigit = true ∨ c = '.' := by
  obtain ⟨n, hn, -⟩ := Option.map_eq_some_iff.1 h
  have hdigits := (isSome_natOfDigits?_iff.1 (Option.isSome_of_eq_some hn)).2
  rcases mem_takeWhile_or '.' hc with hc | rfl | hc
  · exact .inl (hdigits c (List.mem_append_left _ hc))
  · exact .inr rfl
  · exact .inl (hdigits c (List.mem_append_right _ hc))

theorem ofPlain?_append_point (hne : whole ≠ []) (hwhole : ∀ c ∈ whole, c.isDigit = true)
    (hplaces : ∀ c ∈ places, c.isDigit = true) :
    ofPlain? (whole ++ '.' :: places) =
      some ⟨Nat.ofDigitChars 10 (whole ++ places) 0, -places.length⟩ := by
  have hpoint : ∀ c ∈ whole, (c != '.') = true := fun c hc =>
    bne_iff_ne.2 (ne_of_isDigit (hwhole c hc) rfl)
  obtain ⟨htake, hdrop⟩ := span_append hpoint (d := '.') rfl places
  have hdigits : ∀ c ∈ whole ++ places, c.isDigit = true := by
    intro c hc
    exact (List.mem_append.1 hc).elim (hwhole c) (hplaces c)
  rw [ofPlain?, htake, hdrop, List.drop_one, List.tail_cons,
    natOfDigits?_eq_some (List.append_ne_nil_of_left_ne_nil hne _) hdigits, Option.map_some]

theorem ofScientific?_of_not_mark (h : ∀ c ∈ cs, isMark c = false) :
    ofScientific? cs = ofPlain? cs := by
  obtain ⟨htake, hdrop⟩ := span_self (p := (!isMark ·)) fun c hc => by rw [h c hc]; rfl
  rw [ofScientific?, htake, hdrop]
  exact bind_pure _

theorem ofScientific?_append_mark (h : ∀ c ∈ cs, isMark c = false) (exponent : List Char) :
    ofScientific? (cs ++ 'E' :: exponent) =
      (ofPlain? cs).bind fun d => (intOfDigits? exponent).bind fun e =>
        some ⟨d.coefficient, d.exponent + e⟩ := by
  obtain ⟨htake, hdrop⟩ := span_append (p := (!isMark ·)) (d := 'E')
    (fun c hc => by rw [h c hc]; rfl) rfl exponent
  rw [ofScientific?, htake, hdrop]
  rfl

/-! ## Numbers -/

/-- Every word has the letter `n`. -/
theorem floatOfWord?_eq_none (h : ∀ c ∈ cs, c.toLower ≠ 'n') (negative : Bool) :
    floatOfWord? negative cs = none := by
  have hword {word : List Char} (hn : 'n' ∈ word) : cs.map Char.toLower ≠ word := by
    rintro rfl
    obtain ⟨c, hc, heq⟩ := List.mem_map.1 hn
    exact h c hc heq
  rw [floatOfWord?, if_neg (not_or.2 ⟨hword (by decide), hword (by decide)⟩),
    if_neg (hword (by decide))]

/-- A sign is read in front of every number without one. -/
theorem parseFloat?_sign_append (negative : Bool) (hhead : ∀ c ∈ cs.head?, c ≠ '-' ∧ c ≠ '+')
    (hword : ∀ c ∈ cs, c.toLower ≠ 'n') :
    parseFloat? ((if negative then ['-'] else []) ++ cs) =
      (ofScientific? cs).map (·.toFloat negative) := by
  rw [parseFloat?, splitSign_sign_append negative hhead]
  dsimp only
  cases ofScientific? cs with
  | some d => rfl
  | none => exact floatOfWord?_eq_none hword negative

theorem not_mark_of_isDigit_or_point (h : c.isDigit = true ∨ c = '.') :
    isMark c = false ∧ (c ≠ '-' ∧ c ≠ '+') ∧ c.toLower ≠ 'n' := by
  rcases h with hdigit | rfl
  · have hmark : isMark c = false := by
      rw [isMark, Bool.or_eq_false_iff, beq_eq_false_iff_ne, beq_eq_false_iff_ne]
      exact ⟨ne_of_isDigit hdigit rfl, ne_of_isDigit hdigit rfl⟩
    refine ⟨hmark, ⟨ne_of_isDigit hdigit rfl, ne_of_isDigit hdigit rfl⟩, ?_⟩
    rw [toLower_of_isDigit hdigit]
    exact ne_of_isDigit hdigit rfl
  · decide

/-- A run of digits and points is read as plain digits. -/
theorem parseFloat?_run (h : ∀ c ∈ cs, c.isDigit = true ∨ c = '.') :
    parseFloat? cs = (ofPlain? cs).map (·.toFloat false) := by
  have hclass := fun c hc => not_mark_of_isDigit_or_point (h c hc)
  rw [← ofScientific?_of_not_mark fun c hc => (hclass c hc).1]
  exact parseFloat?_sign_append false (fun c hc => (hclass c (List.mem_of_mem_head? hc)).2.1)
    fun c hc => (hclass c hc).2.2

end PocketCalculator.Decimal
