import PocketCalculator.Proofs.Token.Call

/-!
# Errors of items

The items of a text that are errors are about its characters outside the alphabet of expressions and
about its maximal runs of digits and points that are no numerals, and about nothing else
(`mem_items_iff_genuine`). In particular a symbol that is taken for an operator is one, and a run
that passes the count of its points is read as a number.
-/

namespace PocketCalculator.Token
open Text

/-- Whether a character occurs in expressions. -/
def inAlphabet (c : Char) : Bool :=
  isBlank c || inLiteral c || "+-*/()".toList.contains c

/-- A run of digits and points somewhere in a text that the text around it does not continue. -/
structure IsMaximalRun (run before after : List Char) : Prop where
  ne_nil : run ≠ []
  inLiteral : ∀ c ∈ run, inLiteral c = true
  before : ∀ c ∈ before.getLast?, Token.inLiteral c = false
  after : ∀ c ∈ after.head?, Token.inLiteral c = false

/-- An error is about something that is in a text and is wrong there. -/
inductive Genuine (cs : List Char) : EvalError → Prop where
  | character {c : Char} (hmem : c ∈ cs) (h : inAlphabet c = false) :
    Genuine cs (.invalidCharacter c)
  | literal {run before after : List Char} (happend : cs = before ++ (run ++ after))
    (hrun : IsMaximalRun run before after)
    (hbad : 2 ≤ run.count '.' ∨ ∀ c ∈ run, c.isDigit = false) :
    Genuine cs (.invalidLiteral (.ofList run))

variable {cs read rest run : List Char} {c : Char} {e : EvalError}

/-! ## Items of one lexeme -/

theorem not_isNumeral_iff :
    ¬IsNumeral run ↔ 2 ≤ run.count '.' ∨ ∀ c ∈ run, c.isDigit = false := by
  rw [IsNumeral, Classical.not_and_iff_not_or_not, Nat.not_le, or_comm]
  simp only [not_exists, not_and, Bool.not_eq_true]
  rfl

/-- The item of a run is an error just if the run is no numeral, and then it is about the run. -/
theorem runItem_eq_error_iff :
    runItem run = .error e ↔ ¬IsNumeral run ∧ e = .invalidLiteral (.ofList run) := by
  rw [runItem]
  split
  next hnumeral => simp [hnumeral]
  next hnumeral => simp [hnumeral, eq_comm]

theorem inAlphabet_iff :
    inAlphabet c = true ↔ isBlank c = true ∨ inLiteral c = true ∨
      (∃ op : Operator, c = op.symbol) ∨ c = '(' ∨ c = ')' := by
  have hcontains : "+-*/()".toList.contains c = true ↔
      "+-*/".toList.contains c = true ∨ c = '(' ∨ c = ')' := by
    have hlist : "+-*/()".toList = "+-*/".toList ++ ['(', ')'] := rfl
    rw [hlist, List.contains_iff_mem, List.contains_iff_mem, List.mem_append, List.mem_pair]
  rw [inAlphabet, Bool.or_eq_true, Bool.or_eq_true, hcontains, contains_symbols_iff, or_assoc]

/-- The item of a character is an error just if the character is outside the alphabet, and then it
is about the character. -/
theorem single_eq_error_iff (hblank : isBlank c = false) (hc : inLiteral c = false) :
    single c = .error e ↔ inAlphabet c = false ∧ e = .invalidCharacter c := by
  have hfalse : inAlphabet c = false ↔
      ¬((∃ op : Operator, c = op.symbol) ∨ c = '(' ∨ c = ')') := by
    rw [← Bool.not_eq_true, inAlphabet_iff, hblank, hc]
    simp only [Bool.false_eq_true, false_or]
  rw [single_eq, hfalse]
  split
  next hopen => simp [hopen]
  split
  next hclose => simp [hclose]
  next hopen hclose =>
  cases hop : Operator.ofSymbol? c with
  | some op =>
    obtain rfl := Operator.ofSymbol?_eq_some_iff.1 hop
    simp
  | none =>
    have hsymbol : ¬∃ op : Operator, c = op.symbol := by
      rintro ⟨op, rfl⟩
      rw [Operator.ofSymbol?_symbol] at hop
      cases hop
    simp [hopen, hclose, hsymbol, eq_comm]

/-! ## Errors in a text -/

/-- What is genuine in the rest of a text is so in the whole text, if no run reaches over. -/
theorem Genuine.of_splits (h : Splits cs read rest) (hgenuine : Genuine rest e) : Genuine cs e := by
  obtain ⟨rfl, hseam⟩ := h
  cases hgenuine with
  | character hmem hc => exact .character (List.mem_append_right _ hmem) hc
  | @literal run before after happend hrun hbad =>
    subst happend
    refine .literal (List.append_assoc ..).symm ⟨hrun.ne_nil, hrun.inLiteral, ?_, hrun.after⟩ hbad
    intro a ha
    cases before with
    | nil =>
      obtain ⟨b, run, rfl⟩ := List.exists_cons_of_ne_nil hrun.ne_nil
      rw [List.append_nil] at ha
      have hseam := hseam a ha b rfl
      rwa [hrun.inLiteral b List.mem_cons_self, Bool.and_true] at hseam
    | cons d before =>
      rw [List.getLast?_append_of_ne_nil _ (List.cons_ne_nil d before)] at ha
      exact hrun.before a ha

theorem genuine_of_mem_items (h : .error e ∈ items cs) : Genuine cs e := by
  induction cs using lexeme_induction with
  | blank cs hblank =>
    rw [items_of_isBlank hblank] at h
    cases h
  | lexeme blanks lexeme rest hblanks hlead ih =>
    rw [items_of_leads hblanks hlead] at h
    rcases List.mem_cons.1 h with hitem | h
    · cases hlead with
      | single hblank hc =>
        rw [lexemeItem_singleton hc, eq_comm, single_eq_error_iff hblank hc] at hitem
        obtain ⟨halphabet, rfl⟩ := hitem
        exact .character (List.mem_append_right _ List.mem_cons_self) halphabet
      | run hne hrun hrest =>
        rw [lexemeItem_of_run hrun, eq_comm, runItem_eq_error_iff, not_isNumeral_iff] at hitem
        obtain ⟨hbad, rfl⟩ := hitem
        refine .literal rfl ⟨hne, hrun, fun a ha => ?_, hrest⟩ hbad
        exact not_inLiteral_of_isBlank (hblanks a (List.mem_of_getLast? ha))
    · exact (ih h).of_splits (hlead.splits hblanks).1

/-- The errors of the items are just the genuine ones. -/
theorem mem_items_iff_genuine : .error e ∈ items cs ↔ Genuine cs e := by
  refine ⟨genuine_of_mem_items, fun h => ?_⟩
  cases h with
  | @character c hmem hc =>
    obtain ⟨before, after, rfl⟩ := List.append_of_mem hmem
    have hother := hc
    rw [inAlphabet, Bool.or_eq_false_iff, Bool.or_eq_false_iff] at hother
    obtain ⟨⟨hblank, hliteral⟩, -⟩ := hother
    rw [items_append_single hblank hliteral, (single_eq_error_iff hblank hliteral).2 ⟨hc, rfl⟩]
    exact List.mem_append_right _ List.mem_cons_self
  | @literal run before after happend hrun hbad =>
    rw [happend, (Splits.of_getLast? hrun.before).items_eq,
      items_run_append hrun.ne_nil hrun.inLiteral hrun.after,
      runItem_eq_error_iff.2 ⟨not_isNumeral_iff.2 hbad, rfl⟩]
    exact List.mem_append_right _ List.mem_cons_self

end PocketCalculator.Token
