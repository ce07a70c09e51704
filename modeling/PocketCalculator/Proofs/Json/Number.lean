import PocketCalculator.Json.Lexer
import PocketCalculator.Proofs.Decimal.Digits

/-!
# Grammar of numbers

A number is a whole number with an optional sign, places and exponent. Every part is split off just
as the grammar says: what is split off is derived by it (`eq_append_of_number?`), and what is
derived by it is split off in front of a text that does not go on with it (`number?_append`).
-/

namespace PocketCalculator.Json

/-- One or more digits. -/
def IsDigits (ds : List Char) : Prop :=
  ds ≠ [] ∧ ∀ d ∈ ds, d.isDigit = true

/-- The part of a number in front of the point. -/
inductive IsWhole : List Char → Prop where
  | zero : IsWhole ['0']
  | digits {ds : List Char} (h : IsDigits ds) (hhead : ds.head? ≠ some '0') : IsWhole ds

/-- A point and the places behind it, if there are any. -/
inductive IsFraction : List Char → Prop where
  | none : IsFraction []
  | places {ds : List Char} (h : IsDigits ds) : IsFraction ('.' :: ds)

/-- A power of ten behind its mark, if there is one. -/
inductive IsExponent : List Char → Prop where
  | none : IsExponent []
  | power {mark : Char} {s ds : List Char} (hmark : mark = 'e' ∨ mark = 'E')
    (hs : s = [] ∨ s = ['+'] ∨ s = ['-']) (h : IsDigits ds) : IsExponent (mark :: s ++ ds)

/-- A number without a sign. -/
inductive IsUnsigned : List Char → Prop where
  | parts {w f e : List Char} (hw : IsWhole w) (hf : IsFraction f) (he : IsExponent e) :
    IsUnsigned (w ++ f ++ e)

/-- A number. -/
inductive IsNumber : List Char → Prop where
  | unsigned {ds : List Char} (h : IsUnsigned ds) : IsNumber ds
  | negative {ds : List Char} (h : IsUnsigned ds) : IsNumber ('-' :: ds)

/-- Whether a character goes on with a number. -/
def continuesNumber (c : Char) : Bool :=
  c.isDigit || c == '.' || c == 'e' || c == 'E'

variable {c : Char} {cs ds rest s w f e : List Char} {n : Nat}

theorem continuesNumber_eq_false_iff :
    continuesNumber c = false ↔ (c.isDigit = false ∧ c ≠ '.') ∧ ¬(c = 'e' ∨ c = 'E') := by
  simp only [continuesNumber, Bool.or_eq_false_iff, beq_eq_false_iff_ne, not_or, and_assoc]

theorem exponent?_cons (c : Char) (cs : List Char) :
    exponent? (c :: cs) =
      if c = 'e' ∨ c = 'E' then
        (digits? (sign cs).2).map fun p => (c :: (sign cs).1 ++ p.1, p.2)
      else some ([], c :: cs) := by
  simp only [exponent?, Bool.or_eq_true, decide_eq_true_eq]

/-! ## What is split off is derived -/

theorem eq_append_of_digits? (h : digits? cs = some (ds, rest)) :
    cs = ds ++ rest ∧ IsDigits ds := by
  unfold digits? at h
  split at h
  · cases h
  next hne =>
    cases h
    exact ⟨List.takeWhile_append_dropWhile.symm, hne, List.all_eq_true.1 List.all_takeWhile⟩

theorem eq_append_of_whole? (h : whole? cs = some (w, rest)) : cs = w ++ rest ∧ IsWhole w := by
  unfold whole? at h
  split at h
  · cases h
    exact ⟨rfl, .zero⟩
  next hne =>
    obtain ⟨rfl, hdigits⟩ := eq_append_of_digits? h
    refine ⟨rfl, .digits hdigits fun hhead => ?_⟩
    obtain ⟨ds, rfl⟩ := List.head?_eq_some_iff.1 hhead
    exact hne _ rfl

theorem eq_append_of_fraction? (h : fraction? cs = some (f, rest)) :
    cs = f ++ rest ∧ IsFraction f := by
  unfold fraction? at h
  split at h
  · obtain ⟨⟨ds, r⟩, hds, h⟩ := Option.map_eq_some_iff.1 h
    cases h
    obtain ⟨rfl, hdigits⟩ := eq_append_of_digits? hds
    exact ⟨rfl, .places hdigits⟩
  · cases h
    exact ⟨rfl, .none⟩

theorem eq_append_of_sign (cs : List Char) :
    cs = (sign cs).1 ++ (sign cs).2 ∧
      ((sign cs).1 = [] ∨ (sign cs).1 = ['+'] ∨ (sign cs).1 = ['-']) := by
  unfold sign
  split
  · exact ⟨rfl, .inr (.inl rfl)⟩
  · exact ⟨rfl, .inr (.inr rfl)⟩
  · exact ⟨rfl, .inl rfl⟩

theorem eq_append_of_exponent? (h : exponent? cs = some (e, rest)) :
    cs = e ++ rest ∧ IsExponent e := by
  cases cs with
  | nil =>
    cases h
    exact ⟨rfl, .none⟩
  | cons c cs =>
    rw [exponent?_cons] at h
    split at h
    next hmark =>
      obtain ⟨⟨ds, r⟩, hds, heq⟩ := Option.map_eq_some_iff.1 h
      cases heq
      obtain ⟨hsign, hs⟩ := eq_append_of_sign cs
      obtain ⟨hr, hdigits⟩ := eq_append_of_digits? hds
      refine ⟨?_, .power hmark hs hdigits⟩
      rw [List.cons_append, List.cons_append, List.append_assoc, ← hr, ← hsign]
    · cases h
      exact ⟨rfl, .none⟩

theorem eq_append_of_unsigned? (h : unsigned? cs = some (ds, rest)) :
    cs = ds ++ rest ∧ IsUnsigned ds := by
  simp only [unsigned?, Option.bind_eq_bind, Option.bind_eq_some_iff] at h
  obtain ⟨⟨w, r₁⟩, hw, ⟨f, r₂⟩, hf, ⟨e, r₃⟩, he, h⟩ := h
  cases h
  obtain ⟨rfl, hwhole⟩ := eq_append_of_whole? hw
  obtain ⟨rfl, hfraction⟩ := eq_append_of_fraction? hf
  obtain ⟨rfl, hexponent⟩ := eq_append_of_exponent? he
  exact ⟨by simp only [List.append_assoc], .parts hwhole hfraction hexponent⟩

theorem eq_append_of_number? (h : number? cs = some (ds, rest)) :
    cs = ds ++ rest ∧ IsNumber ds := by
  unfold number? at h
  split at h
  · obtain ⟨⟨ds, r⟩, hds, h⟩ := Option.map_eq_some_iff.1 h
    cases h
    obtain ⟨rfl, hunsigned⟩ := eq_append_of_unsigned? hds
    exact ⟨rfl, .negative hunsigned⟩
  · obtain ⟨rfl, hunsigned⟩ := eq_append_of_unsigned? h
    exact ⟨rfl, .unsigned hunsigned⟩

/-! ## What is derived is split off -/

theorem digits?_append (h : IsDigits ds) (hrest : ∀ c ∈ rest.head?, c.isDigit = false) :
    digits? (ds ++ rest) = some (ds, rest) := by
  obtain ⟨hne, hds⟩ := h
  have htake : rest.takeWhile Char.isDigit = [] := by
    cases rest with
    | nil => rfl
    | cons c rest => exact List.takeWhile_cons_of_neg (by simp [hrest c rfl])
  have hdrop : rest.dropWhile Char.isDigit = rest := by
    cases rest with
    | nil => rfl
    | cons c rest => exact List.dropWhile_cons_of_neg (by simp [hrest c rfl])
  rw [digits?, List.takeWhile_append_of_pos hds, List.dropWhile_append_of_pos hds, htake, hdrop,
    List.append_nil]
  cases ds with
  | nil => exact absurd rfl hne
  | cons => rfl

theorem whole?_append (h : IsWhole w) (hrest : ∀ c ∈ rest.head?, c.isDigit = false) :
    whole? (w ++ rest) = some (w, rest) := by
  cases h with
  | zero => rfl
  | digits h hhead =>
    rw [whole?.eq_2 _ ?_, digits?_append h hrest]
    intro r heq
    have heqHead : (w ++ rest).head? = w.head? := List.head?_append_of_ne_nil w h.1
    rw [heq] at heqHead
    exact hhead heqHead.symm

theorem fraction?_append (h : IsFraction f)
    (hrest : ∀ c ∈ rest.head?, c.isDigit = false ∧ c ≠ '.') :
    fraction? (f ++ rest) = some (f, rest) := by
  cases h with
  | none =>
    refine fraction?.eq_2 _ ?_
    rintro _ rfl
    exact (hrest _ rfl).2 rfl
  | @places ds h =>
    change (digits? (ds ++ rest)).map _ = _
    rw [digits?_append h fun c hc => (hrest c hc).1]
    rfl

theorem sign_append (hs : s = [] ∨ s = ['+'] ∨ s = ['-']) (h : IsDigits ds) :
    sign (s ++ (ds ++ rest)) = (s, ds ++ rest) := by
  obtain ⟨d, ds, rfl⟩ := List.exists_cons_of_ne_nil h.1
  rcases hs with rfl | rfl | rfl
  · have hd : d.isDigit = true := h.2 d List.mem_cons_self
    refine sign.eq_3 _ ?_ ?_
    · rintro _ ⟨⟩
      cases hd
    · rintro _ ⟨⟩
      cases hd
  · rfl
  · rfl

theorem exponent?_append (h : IsExponent e) (hrest : ∀ c ∈ rest.head?, continuesNumber c = false) :
    exponent? (e ++ rest) = some (e, rest) := by
  have hstop : ∀ c ∈ rest.head?, (c.isDigit = false ∧ c ≠ '.') ∧ ¬(c = 'e' ∨ c = 'E') :=
    fun c hc => continuesNumber_eq_false_iff.1 (hrest c hc)
  cases h with
  | none =>
    cases rest with
    | nil => rfl
    | cons c rest => rw [List.nil_append, exponent?_cons, if_neg (hstop c rfl).2]
  | @power mark s ds hmark hs h =>
    have hdigits := digits?_append h fun c hc => (hstop c hc).1.1
    rw [List.cons_append, List.cons_append, List.append_assoc, exponent?_cons, if_pos hmark,
      sign_append hs h, hdigits]
    rfl

/-- Whatever stands behind the places ends them. -/
theorem head?_exponent_append (he : IsExponent e)
    (hrest : ∀ c ∈ rest.head?, continuesNumber c = false) :
    ∀ c ∈ (e ++ rest).head?, c.isDigit = false ∧ c ≠ '.' := by
  intro c hc
  cases he with
  | power hmark =>
    cases hc
    rcases hmark with rfl | rfl <;> decide
  | none => exact (continuesNumber_eq_false_iff.1 (hrest c hc)).1

/-- Whatever stands behind a whole number ends its digits. -/
theorem head?_fraction_append (hf : IsFraction f) (he : IsExponent e)
    (hrest : ∀ c ∈ rest.head?, continuesNumber c = false) :
    ∀ c ∈ (f ++ (e ++ rest)).head?, c.isDigit = false := by
  intro c hc
  cases hf with
  | places =>
    cases hc
    rfl
  | none => exact (head?_exponent_append he hrest c hc).1

theorem unsigned?_append (h : IsUnsigned ds)
    (hrest : ∀ c ∈ rest.head?, continuesNumber c = false) :
    unsigned? (ds ++ rest) = some (ds, rest) := by
  cases h with
  | @parts w f e hw hf he =>
    have hwhole := whole?_append hw (head?_fraction_append hf he hrest)
    have hfraction := fraction?_append hf (head?_exponent_append he hrest)
    simp only [unsigned?, List.append_assoc, Option.bind_eq_bind, hwhole, hfraction,
      exponent?_append he hrest, Option.bind_some]

theorem IsUnsigned.head? (h : IsUnsigned ds) : ∃ d ds', ds = d :: ds' ∧ d.isDigit = true := by
  cases h with
  | parts hw =>
    cases hw with
    | zero => exact ⟨'0', _, rfl, rfl⟩
    | digits h =>
      obtain ⟨d, ds, rfl⟩ := List.exists_cons_of_ne_nil h.1
      exact ⟨d, _, rfl, h.2 d List.mem_cons_self⟩

theorem number?_append (h : IsNumber ds) (hrest : ∀ c ∈ rest.head?, continuesNumber c = false) :
    number? (ds ++ rest) = some (ds, rest) := by
  cases h with
  | unsigned h =>
    rw [number?.eq_2 _ ?_, unsigned?_append h hrest]
    obtain ⟨d, ds, rfl, hd⟩ := h.head?
    rintro _ ⟨⟩
    cases hd
  | @negative ds h =>
    change (unsigned? (ds ++ rest)).map _ = _
    rw [unsigned?_append h hrest]
    rfl

/-! ## Natural numbers -/

theorem isUnsigned_toDigits (n : Nat) : IsUnsigned (Nat.toDigits 10 n) := by
  have hwhole : IsWhole (Nat.toDigits 10 n) := by
    rcases Nat.eq_zero_or_pos n with rfl | hn
    · exact .zero
    · exact .digits ⟨Nat.toDigits_ne_nil, fun _ => Decimal.isDigit_of_mem_toDigits⟩
        (Decimal.head?_toDigits_ne_zero hn)
  simpa using IsUnsigned.parts hwhole .none .none

end PocketCalculator.Json
