import PocketCalculator.Glyphs
import PocketCalculator.Proofs.Decimal.NumberText

/-!
# Glyphs of valid settings

Valid settings have two glyphs that are not reserved, so that replacing glyphs keeps number text
(`canonical_of_inNumber`) and makes none (`readFloat?_canonical`). Each glyph is replaced by the
symbol of one operator (`Rewritten.eq`), which is no glyph itself (`Rewritten.notMem_glyphs`).
-/

namespace PocketCalculator

variable {settings : Settings} {c : Char} {text : String}

namespace Settings

/-! ## Valid settings -/

theorem isReserved_of_inNumber (h : inNumber c = true) : isReserved c = true := by
  rw [inNumber, Bool.or_eq_true] at h
  rw [isReserved, Bool.or_assoc, Bool.or_eq_true]
  refine h.imp_right fun h => ?_
  have hmem : c = '.' ∨ c = '-' ∨ c = 'E' := by simpa using h
  rcases hmem with rfl | rfl | rfl <;> decide

theorem fault?_eq_none (h : settings.fault? = none) :
    isReserved settings.multiplyGlyph = false ∧ isReserved settings.divideGlyph = false ∧
      settings.multiplyGlyph ≠ settings.divideGlyph := by
  unfold fault? at h
  split at h
  · cases h
  split at h
  · cases h
  next hmultiply =>
  split at h
  · cases h
  next hdivide =>
  split at h
  · cases h
  next hne =>
  exact ⟨Bool.eq_false_iff.2 hmultiply, Bool.eq_false_iff.2 hdivide, hne⟩

/-! ## The table of glyphs -/

theorem lookup_cons_eq_ite (a b : Char) (table : List (Char × Char)) :
    ((a, b) :: table).lookup c = if c = a then some b else table.lookup c := by
  by_cases h : c = a
  · simp [h]
  · rw [List.lookup_cons, beq_false_of_ne h, if_neg h]

/-- An entry that is added counts for its glyph if the glyph has no entry yet. -/
theorem lookup_addGlyph (table : List (Char × Char)) (g symbol : Char) :
    (addGlyph table (g, symbol)).lookup c =
      (table.lookup c).or (if c = g then some symbol else none) := by
  rw [addGlyph]
  split
  next h =>
    split
    next hc =>
      obtain ⟨entry, hentry, hg⟩ := List.any_eq_true.1 h
      have hsome : table.lookup c ≠ none := by
        intro hnone
        have hne := List.lookup_eq_none_iff.1 hnone entry hentry
        rw [hc, bne_comm, bne, hg] at hne
        cases hne
      obtain ⟨symbol', hsymbol'⟩ := Option.ne_none_iff_exists'.1 hsome
      rw [hsymbol', Option.some_or]
    next => rw [Option.or_none]
  next => rw [List.lookup_append, lookup_cons_eq_ite, List.lookup_nil]

theorem lookup_glyphTable_eq (settings : Settings) (c : Char) :
    settings.glyphTable.lookup c =
      if c = settings.multiplyGlyph then some Operator.multiply.symbol
      else if c = settings.divideGlyph then some Operator.divide.symbol
      else if c = '×' then some Operator.multiply.symbol
      else if c = '÷' then some Operator.divide.symbol else none := by
  simp only [glyphTable, usualGlyphs, List.foldl_cons, List.foldl_nil, lookup_addGlyph,
    lookup_cons_eq_ite, List.lookup_nil]
  split_ifs <;> rfl

theorem mem_map_addGlyph (table : List (Char × Char)) (entry : Char × Char) :
    c ∈ (addGlyph table entry).map Prod.fst ↔ c ∈ table.map Prod.fst ∨ c = entry.1 := by
  rw [addGlyph]
  split
  next h =>
    obtain ⟨entry', hentry', hglyph⟩ := List.any_eq_true.1 h
    refine (or_iff_left_of_imp ?_).symm
    rintro rfl
    rw [← eq_of_beq hglyph]
    exact List.mem_map_of_mem hentry'
  next => rw [List.map_append, List.mem_append, List.map_singleton, List.mem_singleton]

theorem mem_glyphs_iff (settings : Settings) (c : Char) :
    c ∈ settings.glyphTable.map Prod.fst ↔
      c ∈ [settings.multiplyGlyph, settings.divideGlyph, '×', '÷'] := by
  simp only [glyphTable, usualGlyphs, List.foldl_cons, List.foldl_nil, mem_map_addGlyph,
    List.map_cons, List.map_nil, List.mem_cons, List.not_mem_nil, or_false, or_assoc]

theorem notMem_glyphs_of_isReserved (h : settings.fault? = none) (hc : isReserved c = true) :
    c ∉ settings.glyphTable.map Prod.fst := by
  obtain ⟨hmultiply, hdivide, -⟩ := fault?_eq_none h
  have hother {d : Char} (hd : isReserved d = false) : c ≠ d := by
    rintro rfl
    exact Bool.false_ne_true (hd.symm.trans hc)
  simp only [mem_glyphs_iff, List.mem_cons, List.not_mem_nil, or_false, not_or]
  exact ⟨hother hmultiply, hother hdivide, hother (by decide), hother (by decide)⟩

/-! ## Canonical characters -/

theorem canonicalChar_eq (settings : Settings) (c : Char) :
    settings.canonicalChar c =
      if c = settings.multiplyGlyph then '*' else if c = settings.divideGlyph then '/'
      else if c = '×' then '*' else if c = '÷' then '/' else c := by
  rw [canonicalChar, lookup_glyphTable_eq]
  simp only [apply_ite (Option.getD · c), Option.getD_some, Option.getD_none]
  rfl

theorem canonicalChar_multiplyGlyph (settings : Settings) :
    settings.canonicalChar settings.multiplyGlyph = '*' := by
  rw [canonicalChar_eq, if_pos rfl]

theorem canonicalChar_divideGlyph (h : settings.fault? = none) :
    settings.canonicalChar settings.divideGlyph = '/' := by
  obtain ⟨-, -, hne⟩ := fault?_eq_none h
  rw [canonicalChar_eq, if_neg hne.symm, if_pos rfl]

/-- What a character is rewritten to: a chosen glyph to its symbol, a usual sign to its own symbol
unless it is chosen for the other operator, and every other character to itself. -/
inductive Rewritten (s : Settings) : Char → Char → Prop where
  | multiplyGlyph : Rewritten s s.multiplyGlyph '*'
  | divideGlyph : Rewritten s s.divideGlyph '/'
  | times (h : '×' ≠ s.divideGlyph) : Rewritten s '×' '*'
  | obelus (h : '÷' ≠ s.multiplyGlyph) : Rewritten s '÷' '/'
  | other {c : Char} (h : c ∉ [s.multiplyGlyph, s.divideGlyph, '×', '÷']) : Rewritten s c c

theorem rewritten_canonicalChar (settings : Settings) (c : Char) :
    Rewritten settings c (settings.canonicalChar c) := by
  rw [canonicalChar_eq]
  split
  next hc => exact hc ▸ .multiplyGlyph
  next hmultiply =>
  split
  next hc => exact hc ▸ .divideGlyph
  next hdivide =>
  split
  next hc =>
    subst hc
    exact .times hdivide
  next htimes =>
  split
  next hc =>
    subst hc
    exact .obelus hmultiply
  next hobelus =>
  refine .other ?_
  simp only [List.mem_cons, List.not_mem_nil, or_false, not_or]
  exact ⟨hmultiply, hdivide, htimes, hobelus⟩

/-- Nothing that glyphs are rewritten to is a glyph itself. -/
theorem Rewritten.notMem_glyphs {c' : Char} (h : settings.fault? = none)
    (hc : Rewritten settings c c') : c' ∉ settings.glyphTable.map Prod.fst := by
  cases hc with
  | multiplyGlyph | times => exact notMem_glyphs_of_isReserved h (by decide)
  | divideGlyph | obelus => exact notMem_glyphs_of_isReserved h (by decide)
  | other hc => rwa [mem_glyphs_iff]

/-- The glyphs of valid settings differ, so that a character is rewritten in one way only. -/
theorem Rewritten.eq {c' : Char} (h : settings.fault? = none) (hc : Rewritten settings c c') :
    settings.canonicalChar c = c' := by
  cases hc with
  | multiplyGlyph => exact canonicalChar_multiplyGlyph settings
  | divideGlyph => exact canonicalChar_divideGlyph h
  | times hdivide => rw [canonicalChar_eq, if_neg hdivide, if_pos rfl, ite_self]
  | obelus hmultiply =>
    have hne : '÷' ≠ '×' := by decide
    rw [canonicalChar_eq, if_neg hmultiply, if_neg hne, if_pos rfl, ite_self]
  | other hc =>
    simp only [List.mem_cons, List.not_mem_nil, or_false, not_or] at hc
    obtain ⟨hmultiply, hdivide, htimes, hobelus⟩ := hc
    rw [canonicalChar_eq, if_neg hmultiply, if_neg hdivide, if_neg htimes, if_neg hobelus]

theorem canonicalChar_cases (settings : Settings) (c : Char) :
    settings.canonicalChar c = c ∨ settings.canonicalChar c = '*' ∨
      settings.canonicalChar c = '/' := by
  have hc := rewritten_canonicalChar settings c
  generalize settings.canonicalChar c = c' at hc ⊢
  cases hc with
  | multiplyGlyph | times => exact .inr (.inl rfl)
  | divideGlyph | obelus => exact .inr (.inr rfl)
  | other => exact .inl rfl

theorem canonicalChar_of_isReserved (h : settings.fault? = none) (hc : isReserved c = true) :
    settings.canonicalChar c = c :=
  (Rewritten.other ((mem_glyphs_iff settings c).not.1 (notMem_glyphs_of_isReserved h hc))).eq h

/-! ## Canonical text -/

@[simp] theorem toList_canonical (settings : Settings) (text : String) :
    (settings.canonical text).toList = text.toList.map settings.canonicalChar := by
  rw [canonical, String.toList_ofList]

@[simp] theorem length_canonical (settings : Settings) (text : String) :
    (settings.canonical text).length = text.length := by
  rw [← String.length_toList, toList_canonical, List.length_map, String.length_toList]

theorem canonical_append (settings : Settings) (text text' : String) :
    settings.canonical (text ++ text') = settings.canonical text ++ settings.canonical text' := by
  rw [canonical, String.toList_append, List.map_append, String.ofList_append]
  rfl

theorem canonical_singleton (settings : Settings) (c : Char) :
    settings.canonical (.singleton c) = .singleton (settings.canonicalChar c) := by
  rw [canonical, String.toList_singleton, List.map_singleton, String.singleton_eq_ofList]

theorem canonical_eq_self (h : ∀ c ∈ text.toList, settings.canonicalChar c = c) :
    settings.canonical text = text := by
  have hmap : text.toList.map settings.canonicalChar = text.toList :=
    (List.map_congr_left h).trans (List.map_id' _)
  rw [canonical, hmap, String.ofList_toList]

theorem notMem_glyphs_of_mem_canonical (h : settings.fault? = none)
    (hc : c ∈ (settings.canonical text).toList) : c ∉ settings.glyphTable.map Prod.fst := by
  rw [toList_canonical] at hc
  obtain ⟨c', -, rfl⟩ := List.mem_map.1 hc
  exact (rewritten_canonicalChar settings c').notMem_glyphs h

/-- The texts without glyphs are those that stay as they are. -/
theorem canonical_eq_self_iff (h : settings.fault? = none) :
    settings.canonical text = text ↔ ∀ c ∈ text.toList, c ∉ settings.glyphTable.map Prod.fst := by
  constructor
  · intro heq c hc
    rw [← heq] at hc
    exact notMem_glyphs_of_mem_canonical h hc
  · intro hnot
    refine canonical_eq_self fun c hc => ?_
    exact (Rewritten.other ((mem_glyphs_iff settings c).not.1 (hnot c hc))).eq h

theorem canonical_of_isReserved (h : settings.fault? = none)
    (htext : ∀ c ∈ text.toList, isReserved c = true) : settings.canonical text = text :=
  (canonical_eq_self_iff h).2 fun c hc => notMem_glyphs_of_isReserved h (htext c hc)

theorem canonical_of_inNumber (h : settings.fault? = none)
    (htext : ∀ c ∈ text.toList, inNumber c = true) : settings.canonical text = text :=
  canonical_of_isReserved h fun c hc => isReserved_of_inNumber (htext c hc)

/-- No text turns into number text with its glyphs replaced. -/
theorem readFloat?_canonical (h : settings.fault? = none) (text : String) :
    Decimal.readFloat? (settings.canonical text).toList = Decimal.readFloat? text.toList := by
  cases hcanonical : Decimal.readFloat? (settings.canonical text).toList with
  | some v =>
    have hnumber := Decimal.inNumber_of_readFloat? hcanonical
    have hself : settings.canonical text = text := by
      -- In place of a glyph there would be an operator, which no number contains.
      refine canonical_eq_self fun c hc => ?_
      have hc : inNumber (settings.canonicalChar c) = true := by
        refine hnumber _ ?_
        rw [toList_canonical]
        exact List.mem_map_of_mem hc
      rcases canonicalChar_cases settings c with heq | heq | heq
      · exact heq
      · rw [heq] at hc
        exact absurd hc (by decide)
      · rw [heq] at hc
        exact absurd hc (by decide)
    rw [← hcanonical, hself]
  | none =>
    cases htext : Decimal.readFloat? text.toList with
    | none => rfl
    | some v =>
      have hnumber := Decimal.inNumber_of_readFloat? htext
      rw [canonical_of_inNumber h hnumber, htext] at hcanonical
      exact hcanonical.symm

theorem forall₂_rewritten_iff (h : settings.fault? = none) (text out : String) :
    List.Forall₂ (Rewritten settings) text.toList out.toList ↔ out = settings.canonical text := by
  have hrewritten : Rewritten settings = fun c c' => settings.canonicalChar c = c' := by
    funext c c'
    exact propext ⟨fun hc => hc.eq h, fun heq => heq ▸ rewritten_canonicalChar settings c⟩
  rw [hrewritten, ← List.forall₂_map_left_iff, List.forall₂_eq_eq_eq, ← toList_canonical,
    String.toList_inj, eq_comm]

/-- With valid settings the glyphs are the two that are chosen and the usual signs, and a text is
rewritten character by character. No glyphs are left, so that rewriting again changes nothing. What
else means something in an expression is no glyph. -/
theorem canonical_rewrites (h : settings.fault? = none) (text : String) :
    (∀ g, g ∈ settings.glyphTable.map Prod.fst ↔
      g ∈ [settings.multiplyGlyph, settings.divideGlyph, '×', '÷']) ∧
    (settings.canonical text).length = text.length ∧
    (∀ out : String, List.Forall₂ (Rewritten settings) text.toList out.toList ↔
      out = settings.canonical text) ∧
    (∀ c ∈ (settings.canonical text).toList, c ∉ settings.glyphTable.map Prod.fst) ∧
    settings.canonical (settings.canonical text) = settings.canonical text ∧
    (settings.canonical text = text ↔
      ∀ c ∈ text.toList, c ∉ settings.glyphTable.map Prod.fst) ∧
    ∀ c : Char, c.isDigit = true ∨ Text.isBlank c = true ∨ c ∈ ".()+-*/".toList →
      c ∉ settings.glyphTable.map Prod.fst ∧ settings.canonicalChar c = c := by
  refine ⟨mem_glyphs_iff settings, length_canonical settings text, forall₂_rewritten_iff h text,
    fun c => notMem_glyphs_of_mem_canonical h, ?_, canonical_eq_self_iff h, fun c hc => ?_⟩
  · exact (canonical_eq_self_iff h).2 fun c => notMem_glyphs_of_mem_canonical h
  · have hreserved : isReserved c = true := by
      rw [isReserved, Bool.or_assoc, Bool.or_eq_true, Bool.or_eq_true]
      refine hc.imp_right fun hc => hc.imp_right fun hc => ?_
      have hmarks : ".()+-*/eE".toList = ".()+-*/".toList ++ ['e', 'E'] := rfl
      rw [hmarks, List.contains_iff_mem]
      exact List.mem_append_left _ hc
    exact ⟨notMem_glyphs_of_isReserved h hreserved, canonicalChar_of_isReserved h hreserved⟩

theorem canonical_rewrites_swapped :
    let settings : Settings := { multiplyGlyph := '÷', divideGlyph := ':' }
    settings.fault? = none ∧ settings.glyphTable = [('÷', '*'), (':', '/'), ('×', '*')] ∧
      settings.canonical "6÷7:2×1x" = "6*7/2*1x" ∧
      List.Forall₂ (Rewritten settings) "6÷7:2×1x".toList "6*7/2*1x".toList ∧
      settings.canonical "6*7/2*1x" = "6*7/2*1x" := by
  intro settings
  have hvalid : settings.fault? = none := by decide
  have hcanonical : settings.canonical "6÷7:2×1x" = "6*7/2*1x" := by decide +kernel
  obtain ⟨-, -, hrewritten, -, hagain, -⟩ := canonical_rewrites hvalid "6÷7:2×1x"
  rw [hcanonical] at hagain
  exact ⟨hvalid, by decide, hcanonical, (hrewritten _).2 hcanonical.symm, hagain⟩

end Settings

end PocketCalculator
