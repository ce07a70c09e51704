import PocketCalculator.Json.Lexer

/-!
# Quoted characters are read back

`Spells` says which texts spell given parts, and just these are read up to a closing quote
(`read?_append`, `exists_spells_of_read?`).

`part c` is the part that `writeChar c` spells. A character below the blank without a short escape
is written as a unit; such a unit is no surrogate, so it denotes the character it came from. With a
closing quote behind them, quoted characters are thus read as parts that denote them
(`read?_flatMap_writeChar`, `chars?_map_part`).
-/

namespace PocketCalculator.Json.Text

/-- The part that a character is written as. -/
def part (c : Char) : Part :=
  if isControl c ∧ c ∉ ['\x08', '\t', '\n', '\x0C', '\r'] then .unit c.toNat else .char c

theorem hexDigit?_hexChar (n : Nat) : hexDigit? (hexChar n) = some (n % 16) := by
  have hdigit : ∀ d < 16, hexDigit? d.digitChar = some d := by decide
  exact hdigit _ (Nat.mod_lt n (by decide))

/-! ## Reading one part -/

section
variable {c : Char} {rest : List Char}

theorem read?_unit {a b d : Char} {u : Nat} (h : hexUnit? a b c d = some u) :
    read? ('\\' :: 'u' :: a :: b :: c :: d :: rest) =
      (read? rest).map fun p => (.unit u :: p.1, p.2) := by
  rw [read?.eq_3, h]
  cases read? rest <;> rfl

theorem read?_short {e : Char} (he : e ≠ 'u') (h : shortEscape? e = some c) :
    read? ('\\' :: e :: rest) = (read? rest).map fun p => (.char c :: p.1, p.2) := by
  rw [read?.eq_4 _ _ fun _ _ _ _ _ h _ => he h, h]
  cases read? rest <;> rfl

theorem read?_plain (hquote : c ≠ '"') (hslash : c ≠ '\\') (hc : isControl c = false) :
    read? (c :: rest) = (read? rest).map fun p => (.char c :: p.1, p.2) := by
  rw [read?.eq_5 _ _ hquote (fun _ _ _ _ _ h _ => hslash h) fun _ _ h _ => hslash h]
  simp only [hslash, hc, Bool.or_false, decide_false, Bool.false_eq_true, if_false]
  cases read? rest <;> rfl

end

/-! ## Spellings -/

/-- The texts of one part. -/
inductive PartSpells : Part → List Char → Prop where
  | plain {c : Char} (hquote : c ≠ '"') (hslash : c ≠ '\\') (hc : isControl c = false) :
    PartSpells (.char c) [c]
  | short {e c : Char} (h : shortEscape? e = some c) : PartSpells (.char c) ['\\', e]
  | unit {a b c d : Char} {u : Nat} (h : hexUnit? a b c d = some u) :
    PartSpells (.unit u) ['\\', 'u', a, b, c, d]

/-- The texts of parts, without quotes. -/
inductive Spells : Text → List Char → Prop where
  | nil : Spells [] []
  | cons {p : Part} {t : Text} {l cs : List Char} (h : PartSpells p l) (hrest : Spells t cs) :
    Spells (p :: t) (l ++ cs)

variable {t : Text} {cs rest : List Char}

theorem read?_part {p : Part} {l : List Char} (h : PartSpells p l) (rest : List Char) :
    read? (l ++ rest) = (read? rest).map fun r => (p :: r.1, r.2) := by
  cases h with
  | plain hquote hslash hc => exact read?_plain hquote hslash hc
  | unit h => exact read?_unit h
  | short h =>
    refine read?_short ?_ h
    rintro rfl
    cases h

theorem read?_append (h : Spells t cs) (rest : List Char) :
    read? (cs ++ '"' :: rest) = some (t, rest) := by
  induction h with
  | nil => rfl
  | cons hp _ ih => rw [List.append_assoc, read?_part hp, ih]; rfl

theorem exists_spells_of_read? (h : read? cs = some (t, rest)) :
    ∃ l, Spells t l ∧ cs = l ++ '"' :: rest := by
  fun_induction read? cs generalizing t with
  | case1 => cases h
  | case2 =>
    cases h
    exact ⟨[], .nil, rfl⟩
  | case3 a b c d r ih =>
    simp only [Option.bind_eq_bind, Option.bind_eq_some_iff] at h
    obtain ⟨u, hu, ⟨t', r'⟩, hr, h⟩ := h
    cases h
    obtain ⟨l, hl, rfl⟩ := ih hr
    exact ⟨_, .cons (.unit hu) hl, rfl⟩
  | case4 e r _ ih =>
    simp only [Option.bind_eq_bind, Option.bind_eq_some_iff] at h
    obtain ⟨c, hc, ⟨t', r'⟩, hr, h⟩ := h
    cases h
    obtain ⟨l, hl, rfl⟩ := ih hr
    exact ⟨_, .cons (.short hc) hl, rfl⟩
  | case5 => cases h
  | case6 c r hquote _ _ hplain ih =>
    simp only [Option.bind_eq_bind, Option.bind_eq_some_iff] at h
    obtain ⟨⟨t', r'⟩, hr, h⟩ := h
    cases h
    obtain ⟨l, hl, rfl⟩ := ih hr
    simp only [Bool.or_eq_true, decide_eq_true_eq, not_or, Bool.not_eq_true] at hplain
    exact ⟨_, .cons (.plain hquote hplain.1 hplain.2) hl, rfl⟩

/-! ## Reading what was written -/

theorem hexUnit?_hexChar {c : Char} (hc : isControl c = true) :
    hexUnit? '0' '0' (hexChar (c.toNat / 16)) (hexChar c.toNat) = some c.toNat := by
  have hlt : c.toNat < 32 := of_decide_eq_true hc
  have hzero : hexDigit? '0' = some 0 := rfl
  have hvalue : 16 * (c.toNat / 16 % 16) + c.toNat % 16 = c.toNat := by omega
  simp only [hexUnit?, hexDigit?_hexChar, hzero, Option.bind_eq_bind, Option.bind_some,
    Nat.mul_zero, Nat.zero_add, hvalue]

/-- A unit that is written is no surrogate, so it does not matter which part comes next. -/
theorem chars?_part_cons (c : Char) (t : Text) :
    chars? (part c :: t) = (chars? t).map (c :: ·) := by
  unfold part
  split
  next hc =>
    have hlt : c.toNat < 32 := of_decide_eq_true hc.1
    have hhigh : isHigh c.toNat = false := by simp [isHigh]; omega
    have hlow : isLow c.toNat = false := by simp [isLow]; omega
    rcases t with _ | ⟨_ | _, _⟩ <;> simp [chars?, hhigh, hlow]
  · exact chars?.eq_2 _ _

@[simp] theorem chars?_map_part (cs : List Char) : chars? (cs.map part) = some cs := by
  induction cs with
  | nil => rfl
  | cons c cs ih => rw [List.map_cons, chars?_part_cons, ih]; rfl

theorem partSpells_writeChar (c : Char) : PartSpells (part c) (writeChar c) := by
  unfold writeChar
  split
  case h_8 hquote hslash h₁ h₂ h₃ h₄ h₅ =>
    -- Without a short escape, only a control character is not written as itself.
    cases hc : isControl c
    · have hpart : part c = .char c := by simp [part, hc]
      rw [hpart]
      exact .plain hquote hslash hc
    · have hpart : part c = .unit c.toNat := by simp_all [part]
      rw [hpart]
      exact .unit (hexUnit?_hexChar hc)
  all_goals exact .short rfl

theorem spells_flatMap_writeChar (cs : List Char) :
    Spells (cs.map part) (cs.flatMap writeChar) := by
  induction cs with
  | nil => exact .nil
  | cons c cs ih => exact .cons (partSpells_writeChar c) ih

theorem read?_flatMap_writeChar (cs rest : List Char) :
    read? (cs.flatMap writeChar ++ '"' :: rest) = some (cs.map part, rest) :=
  read?_append (spells_flatMap_writeChar cs) rest

end PocketCalculator.Json.Text
