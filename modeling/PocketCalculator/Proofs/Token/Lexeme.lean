import Mathlib.Data.List.SplitBy
import Mathlib.Data.List.TakeWhile
import PocketCalculator.Proofs.Decimal.Digits
import PocketCalculator.Token

/-!
# Lexemes

The items of a text without a scanner: the text is cut into its maximal runs of digits and points
and its other characters, blanks are dropped, and each of the remaining lexemes has an item
(`items_eq`). Texts that do not meet in the middle of a run are read one after the other
(`items_append`).
-/

namespace PocketCalculator.Token
open Text

/-- The maximal runs of digits and points of a text and its other characters, each alone. -/
def pieces (cs : List Char) : List (List Char) :=
  cs.splitBy fun a b => inLiteral a && inLiteral b

/-- The pieces of a text that are not blank. -/
def lexemes (cs : List Char) : List (List Char) :=
  (pieces cs).filter fun p => !p.all isBlank

/-- A run of digits and points with a digit and at most one point. -/
def IsNumeral (run : List Char) : Prop :=
  (∃ c ∈ run, c.isDigit = true) ∧ run.count '.' ≤ 1

instance (run : List Char) : Decidable (IsNumeral run) :=
  decidable_of_iff (run.any Char.isDigit = true ∧ run.count '.' ≤ 1)
    (and_congr_left fun _ => List.any_eq_true)

/-- The number that a numeral denotes: its digits, divided by ten for each digit behind the
point. -/
def numeral (run : List Char) : Decimal where
  coefficient := Nat.ofDigitChars 10 (run.erase '.') 0
  exponent := -((run.dropWhile (· != '.')).drop 1).length

/-- The item of a run of digits and points. -/
def runItem (run : List Char) : Item :=
  if IsNumeral run then .ok (.number ((numeral run).toFloat false))
  else .error (.invalidLiteral (.ofList run))

/-- The item of a lexeme. -/
def lexemeItem : List Char → Item
  | ['+'] => .ok (.operator .add)
  | ['-'] => .ok (.operator .subtract)
  | ['*'] => .ok (.operator .multiply)
  | ['/'] => .ok (.operator .divide)
  | ['('] => .ok .openParen
  | [')'] => .ok .closeParen
  | [c] => if inLiteral c then runItem [c] else .error (.invalidCharacter c)
  | run => runItem run

/-- A lexeme that the text behind it does not continue. -/
inductive Leads : List Char → List Char → Prop where
  | single {c : Char} {cs : List Char} (hblank : isBlank c = false) (h : inLiteral c = false) :
    Leads [c] cs
  | run {run cs : List Char} (hne : run ≠ []) (h : ∀ c ∈ run, inLiteral c = true)
    (hrest : ∀ c ∈ cs.head?, inLiteral c = false) : Leads run cs

variable {cs l m p run : List Char} {c : Char}

/-! ## Classes of characters -/

theorem not_inLiteral_of_isBlank (h : isBlank c = true) : inLiteral c = false := by
  simp only [isBlank, blankRanges, List.any_cons, List.any_nil, Bool.or_eq_true,
    Bool.and_eq_true, decide_eq_true_eq, Bool.false_eq_true, or_false] at h
  have hdigit : c.isDigit = false := by
    rw [Bool.eq_false_iff]
    intro hc
    have ⟨h1, h2⟩ := Char.isDigit_iff_toNat.1 hc
    change 48 ≤ c.toNat at h1
    change c.toNat ≤ 57 at h2
    omega
  have hpoint : c ≠ '.' := by
    rintro rfl
    simp at h
  simp [inLiteral, hdigit, hpoint]

theorem isDigit_iff_of_inLiteral (h : inLiteral c = true) : c.isDigit = true ↔ c ≠ '.' := by
  constructor
  · rintro hc rfl
    simp at hc
  · intro hc
    simpa [inLiteral, hc] using h

/-! ## Runs -/

theorem erase_point (run : List Char) :
    run.takeWhile (· != '.') ++ (run.dropWhile (· != '.')).drop 1 = run.erase '.' := by
  induction run with
  | nil => rfl
  | cons c run ih =>
    by_cases hc : c = '.'
    · simp [hc]
    · simp [hc, ← ih]

/-- A run is a numeral if the characters other than its first point are digits, at least one. -/
theorem isNumeral_iff_erase (h : ∀ c ∈ run, inLiteral c = true) :
    IsNumeral run ↔ run.erase '.' ≠ [] ∧ ∀ c ∈ run.erase '.', c.isDigit = true := by
  have hpoints : (∀ c ∈ run.erase '.', c.isDigit = true) ↔ run.count '.' ≤ 1 := by
    rw [← Nat.sub_eq_zero_iff_le, ← List.count_erase_self, List.count_eq_zero]
    constructor
    · intro hd hp
      exact (isDigit_iff_of_inLiteral rfl).1 (hd _ hp) rfl
    · intro hp c hc
      exact (isDigit_iff_of_inLiteral (h c (List.mem_of_mem_erase hc))).2 fun he => hp (he ▸ hc)
  rw [IsNumeral, ← hpoints]
  refine and_congr_left fun hd => ?_
  constructor
  · rintro ⟨c, hc, hdigit⟩ hnil
    have hne : c ≠ '.' := (isDigit_iff_of_inLiteral (h c hc)).1 hdigit
    have hmem : c ∈ run.erase '.' := (List.mem_erase_of_ne hne).2 hc
    rw [hnil] at hmem
    cases hmem
  · intro hne
    have hmem := List.head_mem hne
    exact ⟨_, List.mem_of_mem_erase hmem, hd _ hmem⟩

theorem ofPlain?_eq (h : ∀ c ∈ run, inLiteral c = true) :
    Decimal.ofPlain? run = if IsNumeral run then some (numeral run) else none := by
  simp only [Decimal.ofPlain?, Decimal.natOfDigits?, erase_point, Bool.and_eq_true,
    Bool.not_eq_true', List.isEmpty_eq_false_iff, List.all_eq_true, ← isNumeral_iff_erase h]
  split <;> rfl

/-- A run is a numeral if it has at most one point, and other characters than points. -/
theorem isNumeral_iff_count (h : ∀ c ∈ run, inLiteral c = true) :
    IsNumeral run ↔ ¬(1 < run.count '.' ∨ run.length = run.count '.') := by
  have hdigit : (∃ c ∈ run, c.isDigit = true) ↔ run.length ≠ run.count '.' := by
    rw [ne_comm, Ne, List.count_eq_length, not_forall]
    refine exists_congr fun c => ?_
    rw [Classical.not_imp, ← Ne, ne_comm]
    exact and_congr_right fun hc => isDigit_iff_of_inLiteral (h c hc)
  rw [IsNumeral, hdigit, not_or, Nat.not_lt, and_comm]

/-- Just the numerals are read. -/
theorem parseFloat?_eq (h : ∀ c ∈ run, inLiteral c = true) :
    Decimal.parseFloat? run =
      if IsNumeral run then some ((numeral run).toFloat false) else none := by
  have hclass : ∀ c ∈ run, c.isDigit = true ∨ c = '.' := by simpa [inLiteral] using h
  rw [Decimal.parseFloat?_run hclass, ofPlain?_eq h]
  split <;> rfl

/-- A run that passes the count of its points is read. -/
theorem literal_eq_runItem (h : ∀ c ∈ run, inLiteral c = true) : literal run = runItem run := by
  unfold literal runItem
  by_cases hrun : IsNumeral run
  · have hcount := (isNumeral_iff_count h).1 hrun
    simp only [if_neg hcount, parseFloat?_eq h, if_pos hrun]
  · have hcount := not_not.1 (mt (isNumeral_iff_count h).2 hrun)
    simp only [if_pos hcount, if_neg hrun]

theorem lexemeItem_of_run (h : ∀ c ∈ run, inLiteral c = true) : lexemeItem run = runItem run := by
  unfold lexemeItem
  split <;> simp_all [inLiteral]

/-- The operators have the symbols that are looked for. -/
theorem contains_symbols_iff :
    "+-*/".toList.contains c = true ↔ ∃ op : Operator, c = op.symbol := by
  rw [List.contains_iff_mem]
  constructor
  · intro h
    simp only [String.reduceToList, List.mem_cons, List.not_mem_nil, or_false] at h
    rcases h with rfl | rfl | rfl | rfl
    · exact ⟨.add, rfl⟩
    · exact ⟨.subtract, rfl⟩
    · exact ⟨.multiply, rfl⟩
    · exact ⟨.divide, rfl⟩
  · rintro ⟨op, rfl⟩
    cases op <;> decide

/-- A symbol that is looked for is that of an operator. -/
theorem single_eq (c : Char) :
    single c = if c = '(' then .ok .openParen else if c = ')' then .ok .closeParen
      else match Operator.ofSymbol? c with
        | some op => .ok (.operator op)
        | none => .error (.invalidCharacter c) := by
  rw [single]
  split
  · rfl
  split
  · rfl
  split
  next hsymbol =>
    obtain ⟨op, rfl⟩ := contains_symbols_iff.1 hsymbol
    simp only [Operator.ofSymbol, Operator.ofSymbol?_symbol]
    rfl
  next hsymbol =>
    cases hop : Operator.ofSymbol? c with
    | none => rfl
    | some op =>
      have hc : c = op.symbol := Operator.ofSymbol?_eq_some_iff.1 hop
      exact absurd (contains_symbols_iff.2 ⟨op, hc⟩) hsymbol

theorem lexemeItem_singleton (h : inLiteral c = false) : lexemeItem [c] = single c := by
  rw [single_eq]
  unfold lexemeItem Operator.ofSymbol?
  split <;> simp_all

theorem span_of_head? (h : ∀ c ∈ cs.head?, inLiteral c = false) :
    cs.takeWhile inLiteral = [] ∧ cs.dropWhile inLiteral = cs := by
  cases cs with
  | nil => exact ⟨rfl, rfl⟩
  | cons c cs => simp [h c rfl]

/-! ## Cutting a text -/

theorem pieces_append
    (h : ∀ a ∈ l.getLast?, ∀ b ∈ m.head?, (inLiteral a && inLiteral b) = false) :
    pieces (l ++ m) = pieces l ++ pieces m :=
  List.splitBy_append h

theorem lexemes_append
    (h : ∀ a ∈ l.getLast?, ∀ b ∈ m.head?, (inLiteral a && inLiteral b) = false) :
    lexemes (l ++ m) = lexemes l ++ lexemes m := by
  rw [lexemes, pieces_append h, List.filter_append]
  rfl

theorem lexemes_of_isBlank (h : ∀ c ∈ cs, isBlank c = true) : lexemes cs = [] := by
  refine List.filter_eq_nil_iff.2 fun p hp => ?_
  have hsub : ∀ c ∈ p, c ∈ cs := by
    intro c hc
    rw [← List.flatten_splitBy (fun a b => inLiteral a && inLiteral b) cs]
    exact List.mem_flatten.2 ⟨p, hp, hc⟩
  simpa using fun c hc => h c (hsub c hc)

theorem lexemes_blanks_append (h : ∀ c ∈ l, isBlank c = true) :
    lexemes (l ++ cs) = lexemes cs := by
  rw [lexemes_append, lexemes_of_isBlank h, List.nil_append]
  intro a ha b _
  rw [not_inLiteral_of_isBlank (h a (List.mem_of_getLast? ha)), Bool.false_and]

namespace Leads

theorem ne_nil (h : Leads l cs) : l ≠ [] := by
  cases h with
  | single => exact List.cons_ne_nil _ _
  | run hne => exact hne

theorem not_isBlank (h : Leads l cs) (hc : c ∈ l) : isBlank c = false := by
  cases h with
  | single hblank => rwa [List.mem_singleton.1 hc]
  | run _ hrun =>
    rw [Bool.eq_false_iff]
    intro hblank
    have := not_inLiteral_of_isBlank hblank
    rw [hrun c hc] at this
    cases this

theorem pieces_eq (h : Leads l cs) : pieces (l ++ cs) = l :: pieces cs := by
  cases h with
  | single _ hc =>
    rw [pieces_append]
    · rfl
    · intro a ha b _
      rw [List.mem_singleton.1 (List.mem_of_getLast? ha), hc, Bool.false_and]
  | run hne hrun hrest =>
    have hchain : l.IsChain fun a b => inLiteral a && inLiteral b := by
      refine (List.pairwise_of_forall_mem_list fun a ha b hb => ?_).isChain
      rw [hrun a ha, hrun b hb]
      rfl
    rw [pieces_append, pieces, List.splitBy_of_isChain hne hchain]
    · rfl
    · intro a _ b hb
      rw [hrest b hb, Bool.and_false]

theorem lexemes_eq (h : Leads l cs) : lexemes (l ++ cs) = l :: lexemes cs := by
  rw [lexemes, h.pieces_eq, List.filter_cons_of_pos]
  · rfl
  · obtain ⟨c, hc⟩ := List.exists_mem_of_ne_nil l h.ne_nil
    simpa using ⟨c, hc, h.not_isBlank hc⟩

end Leads

/-! ## Reading the lexemes in order -/

/-- A text with something else than blanks has a first lexeme. -/
theorem exists_leads (h : ¬∀ c ∈ cs, isBlank c = true) :
    ∃ blanks lexeme rest, cs = blanks ++ (lexeme ++ rest) ∧ (∀ c ∈ blanks, isBlank c = true) ∧
      Leads lexeme rest := by
  rw [← List.dropWhile_eq_nil_iff] at h
  obtain ⟨c, r, hcs⟩ := List.exists_cons_of_ne_nil h
  have hsplit : cs = cs.takeWhile isBlank ++ c :: r := by
    rw [← hcs, List.takeWhile_append_dropWhile]
  have hblanks : ∀ c ∈ cs.takeWhile isBlank, isBlank c = true :=
    List.all_eq_true.1 List.all_takeWhile
  have hblank : isBlank c = false := by
    have := List.head?_dropWhile_not isBlank cs
    simpa [hcs] using this
  cases hc : inLiteral c with
  | false => exact ⟨_, [c], r, hsplit, hblanks, .single hblank hc⟩
  | true =>
    have hrun : ∀ d ∈ c :: r.takeWhile inLiteral, inLiteral d = true :=
      List.forall_mem_cons.2 ⟨hc, List.all_eq_true.1 List.all_takeWhile⟩
    refine ⟨_, c :: r.takeWhile inLiteral, r.dropWhile inLiteral, ?_, hblanks,
      .run (List.cons_ne_nil _ _) hrun fun d hd => ?_⟩
    · rw [List.cons_append, List.takeWhile_append_dropWhile]
      exact hsplit
    · have := List.head?_dropWhile_not inLiteral r
      simpa [Option.mem_def.1 hd] using this

/-- Induction on the lexemes of a text. -/
theorem lexeme_induction {motive : List Char → Prop}
    (blank : ∀ cs, (∀ c ∈ cs, isBlank c = true) → motive cs)
    (lexeme : ∀ blanks l rest, (∀ c ∈ blanks, isBlank c = true) → Leads l rest → motive rest →
      motive (blanks ++ (l ++ rest)))
    (cs : List Char) : motive cs := by
  by_cases h : ∀ c ∈ cs, isBlank c = true
  · exact blank cs h
  · obtain ⟨blanks, l, rest, hcs, hblanks, hlead⟩ := exists_leads h
    have hpos := List.length_pos_iff.2 hlead.ne_nil
    have hlt : rest.length < cs.length := by
      rw [hcs, List.length_append, List.length_append]
      omega
    rw [hcs]
    exact lexeme blanks l rest hblanks hlead (lexeme_induction blank lexeme rest)
termination_by cs.length

theorem next?_of_isBlank (h : ∀ c ∈ cs, isBlank c = true) : next? cs = none := by
  rw [next?, List.dropWhile_eq_nil_iff.2 h]

/-- A reading step passes over blanks and takes the lexeme behind them. -/
theorem next?_of_leads (hblanks : ∀ c ∈ l, isBlank c = true) (h : Leads m cs) :
    next? (l ++ (m ++ cs)) = some (lexemeItem m, cs) := by
  rw [next?, List.dropWhile_append_of_pos hblanks]
  cases h with
  | single hblank hc => simp [hblank, hc, lexemeItem_singleton]
  | run hne hrun hrest =>
    obtain ⟨c, r, rfl⟩ := List.exists_cons_of_ne_nil hne
    obtain ⟨hc, hr⟩ := List.forall_mem_cons.1 hrun
    have hblank : isBlank c = false :=
      (Leads.run hne hrun hrest).not_isBlank List.mem_cons_self
    have htake : (r ++ cs).takeWhile inLiteral = r := by
      rw [List.takeWhile_append_of_pos hr, (span_of_head? hrest).1, List.append_nil]
    have hdrop : (r ++ cs).dropWhile inLiteral = cs := by
      rw [List.dropWhile_append_of_pos hr, (span_of_head? hrest).2]
    simp [hblank, hc, htake, hdrop, lexemeItem_of_run hrun, literal_eq_runItem hrun]

theorem items_of_isBlank (h : ∀ c ∈ cs, isBlank c = true) : items cs = [] := by
  rw [items]
  split
  · rfl
  next h' =>
    rw [next?_of_isBlank h] at h'
    cases h'

theorem items_of_leads (hblanks : ∀ c ∈ l, isBlank c = true) (h : Leads m cs) :
    items (l ++ (m ++ cs)) = lexemeItem m :: items cs := by
  rw [items]
  split
  next h' =>
    rw [next?_of_leads hblanks h] at h'
    cases h'
  next h' =>
    rw [next?_of_leads hblanks h] at h'
    cases h'
    rfl

theorem items_cons_single (cs : List Char) (hblank : isBlank c = false)
    (h : inLiteral c = false) : items (c :: cs) = lexemeItem [c] :: items cs :=
  items_of_leads (List.forall_mem_nil _) (.single hblank h)

/-- A run that the text behind it does not continue is read as a whole. -/
theorem items_run_append (hne : run ≠ []) (hrun : ∀ c ∈ run, inLiteral c = true)
    (hrest : ∀ c ∈ cs.head?, inLiteral c = false) :
    items (run ++ cs) = runItem run :: items cs := by
  rw [← lexemeItem_of_run hrun]
  exact items_of_leads (List.forall_mem_nil _) (.run hne hrun hrest)

/-- A run is a number or a bad literal. -/
theorem runItem_cases (run : List Char) :
    (∃ v, runItem run = .ok (.number v)) ∨
      runItem run = .error (.invalidLiteral (.ofList run)) := by
  rw [runItem]
  split
  · exact .inl ⟨_, rfl⟩
  · exact .inr rfl

theorem items_eq (cs : List Char) : items cs = (lexemes cs).map lexemeItem := by
  induction cs using lexeme_induction with
  | blank cs h => rw [items_of_isBlank h, lexemes_of_isBlank h, List.map_nil]
  | lexeme blanks l rest hblanks hlead ih =>
    rw [items_of_leads hblanks hlead, lexemes_blanks_append hblanks, hlead.lexemes_eq, ih,
      List.map_cons]

theorem flatten_lexemes (cs : List Char) :
    (lexemes cs).flatten = cs.filter fun c => !isBlank c := by
  induction cs using lexeme_induction with
  | blank cs h =>
    rw [lexemes_of_isBlank h]
    simpa using h
  | lexeme blanks l rest hblanks hlead ih =>
    have hnil : blanks.filter (fun c => !isBlank c) = [] := by simpa using hblanks
    have hself : l.filter (fun c => !isBlank c) = l := by simpa using fun c => hlead.not_isBlank
    rw [lexemes_blanks_append hblanks, hlead.lexemes_eq, List.flatten_cons, ih,
      List.filter_append, List.filter_append, hnil, hself, List.nil_append]

/-- The items of a text are those of its lexemes, and the lexemes are all of the text but its
blanks. -/
theorem items_eq_map_lexemes (cs : List Char) :
    items cs = (lexemes cs).map lexemeItem ∧
      (lexemes cs).flatten = cs.filter fun c => !isBlank c :=
  ⟨items_eq cs, flatten_lexemes cs⟩

/-- Two texts that do not meet in the middle of a run are read one after the other. -/
theorem items_append
    (h : ∀ a ∈ l.getLast?, ∀ b ∈ m.head?, (inLiteral a && inLiteral b) = false) :
    items (l ++ m) = items l ++ items m := by
  rw [items_eq, items_eq, items_eq, lexemes_append h, List.map_append]

/-- A character that is no blank and part of no run is read alone, as are the texts around it. -/
theorem items_append_single (hblank : isBlank c = false) (h : inLiteral c = false)
    (before after : List Char) :
    items (before ++ c :: after) = items before ++ single c :: items after := by
  have hseam : ∀ a ∈ before.getLast?, ∀ b ∈ (c :: after).head?,
      (inLiteral a && inLiteral b) = false := by
    rintro a - _ ⟨⟩
    rw [h, Bool.and_false]
  rw [items_append hseam, items_cons_single after hblank h, lexemeItem_singleton h]

end PocketCalculator.Token
