import PocketCalculator.Proofs.Evaluation.Failures
import PocketCalculator.Proofs.Glyphs

/-!
# Evaluation of texts with glyphs

A glyph in a text is an item of its own, an error, which an operator takes the place of when glyphs
are replaced; no other item changes (`items_canonical`). So replacing glyphs matters just for those
evaluations that stop at a glyph (`evaluate_canonical`).
-/

namespace PocketCalculator
open Text Token

variable {settings : Settings} {c symbol : Char} {items : List Item} {e : EvalError}

/-! ## Unreserved characters -/

theorem not_isReserved (h : Settings.isReserved c = false) :
    isBlank c = false ∧ inLiteral c = false ∧ single c = .error (.invalidCharacter c) := by
  simp only [Settings.isReserved, Bool.or_eq_false_iff] at h
  obtain ⟨⟨hdigit, hblank⟩, hother⟩ := h
  have hne {d : Char} (hd : d ∈ ".()+-*/eE".toList) : c ≠ d := by
    rintro rfl
    rw [List.contains_iff_mem.2 hd] at hother
    cases hother
  refine ⟨hblank, ?_, ?_⟩
  · rw [inLiteral, hdigit, beq_false_of_ne (hne (by decide)), Bool.or_false]
  · have hsymbol : Operator.ofSymbol? c = none := by
      rw [Option.eq_none_iff_forall_ne_some]
      intro op hop
      refine hne ?_ (Operator.ofSymbol?_eq_some_iff.1 hop)
      cases op <;> decide
    rw [single_eq, if_neg (hne (by decide)), if_neg (hne (by decide)), hsymbol]

/-! ## Characters and items with glyphs replaced -/

namespace Settings

theorem canonicalChar_of_lookup (h : settings.glyphTable.lookup c = some symbol) :
    settings.canonicalChar c = symbol := by
  rw [canonicalChar, h, Option.getD_some]

theorem canonicalChar_of_lookup_eq_none (h : settings.glyphTable.lookup c = none) :
    settings.canonicalChar c = c := by
  rw [canonicalChar, h, Option.getD_none]

/-- Glyphs of valid settings are not reserved, and stand for an operator. -/
theorem lookup_glyphTable (h : settings.fault? = none)
    (hc : settings.glyphTable.lookup c = some symbol) :
    isReserved c = false ∧ ∃ op : Operator, symbol = op.symbol := by
  obtain ⟨hmultiply, hdivide, -⟩ := fault?_eq_none h
  rw [lookup_glyphTable_eq] at hc
  split at hc
  next hglyph =>
    cases hc
    exact ⟨hglyph ▸ hmultiply, _, rfl⟩
  split at hc
  next hglyph =>
    cases hc
    exact ⟨hglyph ▸ hdivide, _, rfl⟩
  split at hc
  next hglyph =>
    cases hc
    exact ⟨hglyph ▸ by decide, _, rfl⟩
  split at hc
  next hglyph =>
    cases hc
    exact ⟨hglyph ▸ by decide, _, rfl⟩
  cases hc

theorem isBlank_canonicalChar (h : settings.fault? = none) (c : Char) :
    isBlank (settings.canonicalChar c) = isBlank c := by
  cases hc : settings.glyphTable.lookup c with
  | none => rw [canonicalChar_of_lookup_eq_none hc]
  | some symbol =>
    obtain ⟨hreserved, op, rfl⟩ := lookup_glyphTable h hc
    rw [canonicalChar_of_lookup hc, (not_isReserved hreserved).1]
    cases op <;> decide

theorem inLiteral_canonicalChar (h : settings.fault? = none) (c : Char) :
    inLiteral (settings.canonicalChar c) = inLiteral c := by
  cases hc : settings.glyphTable.lookup c with
  | none => rw [canonicalChar_of_lookup_eq_none hc]
  | some symbol =>
    obtain ⟨hreserved, op, rfl⟩ := lookup_glyphTable h hc
    rw [canonicalChar_of_lookup hc, (not_isReserved hreserved).2.1]
    cases op <;> decide

/-- What becomes of an item when glyphs are replaced. -/
def canonicalItem (settings : Settings) : Item → Item
  | .error (.invalidCharacter c) =>
    match settings.glyphTable.lookup c with
    | some symbol => single symbol
    | none => .error (.invalidCharacter c)
  | item => item

theorem canonicalItem_runItem (settings : Settings) (run : List Char) :
    settings.canonicalItem (runItem run) = runItem run := by
  rw [runItem]
  split <;> rfl

theorem canonicalItem_single (h : settings.fault? = none) (c : Char) :
    settings.canonicalItem (single c) = single (settings.canonicalChar c) := by
  cases hc : settings.glyphTable.lookup c with
  | some symbol =>
    obtain ⟨hreserved, -⟩ := lookup_glyphTable h hc
    rw [canonicalChar_of_lookup hc, (not_isReserved hreserved).2.2]
    simp only [canonicalItem, hc]
  | none =>
    rw [canonicalChar_of_lookup_eq_none hc, single_eq]
    split
    · rfl
    split
    · rfl
    cases Operator.ofSymbol? c with
    | some op => rfl
    | none => simp only [canonicalItem, hc]

/-- Only the error of a glyph is replaced. -/
theorem canonicalItem_cases (settings : Settings) (item : Item) :
    settings.canonicalItem item = item ∨
      ∃ g ∈ settings.glyphTable.map Prod.fst, item = .error (.invalidCharacter g) := by
  unfold canonicalItem
  split
  next c =>
    split
    next symbol hc =>
      obtain ⟨before, after, htable, -⟩ := List.lookup_eq_some_iff.1 hc
      have hmem : (c, symbol) ∈ settings.glyphTable := by
        rw [htable]
        exact List.mem_append_right _ List.mem_cons_self
      exact .inr ⟨c, List.mem_map_of_mem hmem, rfl⟩
    next => exact .inl rfl
  next => exact .inl rfl

/-- No error of a glyph is left. -/
theorem canonicalItem_ne (h : settings.fault? = none)
    (hc : c ∈ settings.glyphTable.map Prod.fst) (item : Item) :
    settings.canonicalItem item ≠ .error (.invalidCharacter c) := by
  intro heq
  unfold canonicalItem at heq
  split at heq
  next d =>
    split at heq
    next symbol hd =>
      obtain ⟨-, op, rfl⟩ := lookup_glyphTable h hd
      cases op <;> cases heq
    next hd =>
      cases heq
      obtain ⟨entry, hentry, rfl⟩ := List.mem_map.1 hc
      simpa using List.lookup_eq_none_iff.1 hd entry hentry
  next hitem => exact hitem _ heq

end Settings

/-! ## Texts -/

theorem Token.Leads.canonical (h : settings.fault? = none) {lexeme rest : List Char}
    (hlead : Leads lexeme rest) :
    Leads (lexeme.map settings.canonicalChar) (rest.map settings.canonicalChar) ∧
      lexemeItem (lexeme.map settings.canonicalChar) =
        settings.canonicalItem (lexemeItem lexeme) := by
  cases hlead with
  | @single c _ hblank hc =>
    have hc' : inLiteral (settings.canonicalChar c) = false := by
      rw [Settings.inLiteral_canonicalChar h, hc]
    refine ⟨.single (by rw [Settings.isBlank_canonicalChar h, hblank]) hc', ?_⟩
    rw [List.map_singleton, lexemeItem_singleton hc', lexemeItem_singleton hc,
      Settings.canonicalItem_single h]
  | run hne hrun hrest =>
    have hself : lexeme.map settings.canonicalChar = lexeme := by
      refine (List.map_congr_left fun c hc => ?_).trans (List.map_id' _)
      refine Settings.canonicalChar_of_isReserved h ?_
      by_contra hreserved
      have := (not_isReserved (Bool.eq_false_iff.2 hreserved)).2.1
      rw [hrun c hc] at this
      cases this
    rw [hself, lexemeItem_of_run hrun, Settings.canonicalItem_runItem]
    refine ⟨.run hne hrun fun c hc => ?_, rfl⟩
    rw [List.head?_map, Option.mem_def, Option.map_eq_some_iff] at hc
    obtain ⟨d, hd, rfl⟩ := hc
    rw [Settings.inLiteral_canonicalChar h, hrest d hd]

/-- Replacing glyphs replaces items one by one. -/
theorem Token.items_canonical (h : settings.fault? = none) (cs : List Char) :
    Token.items (cs.map settings.canonicalChar) = (Token.items cs).map settings.canonicalItem := by
  have hblanks {blanks : List Char} (hblank : ∀ c ∈ blanks, isBlank c = true) :
      ∀ c ∈ blanks.map settings.canonicalChar, isBlank c = true := by
    intro c hc
    obtain ⟨d, hd, rfl⟩ := List.mem_map.1 hc
    rw [Settings.isBlank_canonicalChar h, hblank d hd]
  induction cs using lexeme_induction with
  | blank cs hblank => rw [items_of_isBlank hblank, items_of_isBlank (hblanks hblank), List.map_nil]
  | lexeme blanks lexeme rest hblank hlead ih =>
    obtain ⟨hlead', hitem⟩ := hlead.canonical h
    rw [List.map_append, List.map_append, items_of_leads (hblanks hblank) hlead', hitem, ih,
      items_of_leads hblank hlead, List.map_cons]

/-! ## Evaluation -/

/-- Changing items that are errors anyway changes no evaluation that does not stop at them. -/
theorem evaluateItems_map {f : Item → Item} {P : EvalError → Prop}
    (hf : ∀ item, f item = item ∨ ∃ e, P e ∧ item = .error e) (items : List Item) :
    evaluateItems (items.map f) = evaluateItems items ∨
      ∃ e, P e ∧ evaluateItems items = .error e := by
  have hrun (s : Stacks) : (items.map f).foldlM Stacks.stepItem s = items.foldlM Stacks.stepItem s ∨
      ∃ e, P e ∧ items.foldlM Stacks.stepItem s = .error e := by
    induction items generalizing s with
    | nil => exact .inl rfl
    | cons item items ih =>
      rw [List.map_cons, List.foldlM_cons, List.foldlM_cons]
      rcases hf item with hitem | ⟨e, he, rfl⟩
      · rw [hitem]
        cases s.stepItem item with
        | error e => exact .inl rfl
        | ok s' => exact ih s'
      · exact .inr ⟨e, he, rfl⟩
  rw [evaluateItems, evaluateItems]
  rcases hrun ⟨[], []⟩ with hrun | ⟨e, he, hrun⟩
  · exact .inl (by rw [hrun])
  · exact .inr ⟨e, he, by rw [hrun]; rfl⟩

theorem evaluate_canonical_eq (h : settings.fault? = none) (text : String) :
    evaluate (settings.canonical text) =
      evaluateItems ((Token.items text.toList).map settings.canonicalItem) := by
  rw [evaluate, Settings.toList_canonical, items_canonical h]

theorem evaluate_canonical_ne (h : settings.fault? = none)
    (hc : c ∈ settings.glyphTable.map Prod.fst) (text : String) :
    evaluate (settings.canonical text) ≠ .error (.invalidCharacter c) := by
  intro heval
  rw [evaluate_canonical_eq h] at heval
  rcases evaluateItems_eq_error heval with hstructural | hmem
  · cases hstructural
  · obtain ⟨item, -, hitem⟩ := List.mem_map.1 hmem
    exact Settings.canonicalItem_ne h hc item hitem

theorem evaluate_canonical_eq_self_iff (h : settings.fault? = none) (text : String) :
    evaluate (settings.canonical text) = evaluate text ↔
      ∀ g ∈ settings.glyphTable.map Prod.fst, evaluate text ≠ .error (.invalidCharacter g) := by
  constructor
  · intro heq g hg
    rw [← heq]
    exact evaluate_canonical_ne h hg text
  · intro hne
    have hitems := evaluateItems_map
      (P := fun e => ∃ g ∈ settings.glyphTable.map Prod.fst, e = .invalidCharacter g)
      (fun item => (settings.canonicalItem_cases item).imp_right
        fun ⟨g, hg, hitem⟩ => ⟨_, ⟨g, hg, rfl⟩, hitem⟩) (Token.items text.toList)
    rw [evaluate_canonical_eq h]
    refine hitems.resolve_right ?_
    rintro ⟨_, ⟨g, hg, rfl⟩, heval⟩
    exact hne g hg heval

/-- With valid settings, replacing glyphs leaves every value and every error as it is, but for the
evaluations that stop at a glyph, and these it does change. -/
theorem evaluate_canonical (h : settings.fault? = none) (text : String) :
    (evaluate (settings.canonical text) = evaluate text ↔
      ∀ g ∈ settings.glyphTable.map Prod.fst, evaluate text ≠ .error (.invalidCharacter g)) ∧
    (evaluateDisplayed {} text = evaluate text ↔
      ∀ g ∈ ['x', '×', '÷'], evaluate text ≠ .error (.invalidCharacter g)) := by
  have hdefault : ({} : Settings).fault? = none := by decide
  refine ⟨evaluate_canonical_eq_self_iff h text, ?_⟩
  rw [evaluateDisplayed, evaluate_canonical_eq_self_iff hdefault]
  change (∀ g ∈ ['x', '÷', '×'], _) ↔ _
  simp only [List.forall_mem_cons]
  tauto

theorem evaluate_canonical_lazy :
    let settings : Settings := { multiplyGlyph := '÷', divideGlyph := '×' }
    settings.fault? = none ∧ evaluate (settings.canonical "1)÷2") = evaluate "1)÷2" ∧
      evaluate "1)÷2" = .error .unbalancedParentheses ∧
      evaluate (settings.canonical "6×2") ≠ evaluate "6×2" := by
  intro settings
  have hvalid : settings.fault? = none := by decide
  have hlazy : evaluate "1)÷2" = .error .unbalancedParentheses := by decide +kernel
  have hglyph : evaluate "6×2" = .error (.invalidCharacter '×') := by decide +kernel
  refine ⟨hvalid, ?_, hlazy, fun heq => ?_⟩
  · rw [(evaluate_canonical hvalid "1)÷2").1, hlazy]
    exact fun g _ => by simp
  · exact (evaluate_canonical hvalid "6×2").1.1 heq '×' (by decide) hglyph

end PocketCalculator
