import PocketCalculator.Proofs.Evaluation.Failures
import PocketCalculator.Proofs.Token.Errors

/-!
# Failures are final

An evaluation that fails at an item has read no further (`Stacks.Stops`), and up to there a longer
text is read in the same way, unless it goes on in the middle of a run that the item is about
(`Stacks.Stops.append`). So nothing that is written behind the failing item changes the error, but
a point behind a bad literal at the end does (`evaluate_append_of_stops`).
-/

namespace PocketCalculator
open Text Token

variable {cs rest : List Char} {item : Item} {e : EvalError}

namespace Token

/-- A reading step takes a lexeme. -/
theorem exists_leads_of_next? (h : next? cs = some (item, rest)) :
    ∃ blanks lexeme, cs = blanks ++ (lexeme ++ rest) ∧ (∀ c ∈ blanks, isBlank c = true) ∧
      Leads lexeme rest ∧ item = lexemeItem lexeme := by
  by_cases hblank : ∀ c ∈ cs, isBlank c = true
  · rw [next?_of_isBlank hblank] at h
    cases h
  · obtain ⟨blanks, lexeme, rest', rfl, hblanks, hlead⟩ := exists_leads hblank
    rw [next?_of_leads hblanks hlead] at h
    cases h
    exact ⟨blanks, lexeme, rfl, hblanks, hlead, rfl⟩

theorem items_of_next? (h : next? cs = some (item, rest)) : items cs = item :: items rest := by
  obtain ⟨blanks, lexeme, rfl, hblanks, hlead, rfl⟩ := exists_leads_of_next? h
  exact items_of_leads hblanks hlead

/-- What is written behind a text does not matter to a reading step, unless a run reaches the end of
the text. -/
theorem next?_append (h : next? cs = some (item, rest))
    (hend : rest = [] → (∀ v, item ≠ .ok (.number v)) ∧
      ∀ run, item ≠ .error (.invalidLiteral run)) (after : List Char) :
    next? (cs ++ after) = some (item, rest ++ after) := by
  obtain ⟨blanks, lexeme, rfl, hblanks, hlead, rfl⟩ := exists_leads_of_next? h
  have hlead' : Leads lexeme (rest ++ after) := by
    cases hlead with
    | single hblank hc => exact .single hblank hc
    | run hne hrun hrest =>
      cases rest with
      | nil =>
        obtain ⟨hnumber, hliteral⟩ := hend rfl
        rw [lexemeItem_of_run hrun] at hnumber hliteral
        rcases runItem_cases lexeme with ⟨v, hitem⟩ | hitem
        · exact absurd hitem (hnumber v)
        · exact absurd hitem (hliteral _)
      | cons c rest => exact .run hne hrun hrest
  rw [List.append_assoc, List.append_assoc]
  exact next?_of_leads hblanks hlead'

/-- A bad literal stays bad with a point behind it. -/
theorem not_isNumeral_append_point {run : List Char} (h : ¬IsNumeral run) :
    ¬IsNumeral (run ++ ['.']) := by
  rw [not_isNumeral_iff] at h ⊢
  refine h.imp (fun hpoints => ?_) fun hdigits => ?_
  · rw [List.count_append]
    exact Nat.le_add_right_of_le hpoints
  · exact List.forall_mem_append.2 ⟨hdigits, List.forall_mem_singleton.2 rfl⟩

/-- A bad literal at the end of a text takes in a point that is written behind it. -/
theorem next?_append_point {t : String} (h : next? cs = some (.error (.invalidLiteral t), [])) :
    ∃ t', t' ≠ t ∧ next? (cs ++ ['.']) = some (.error (.invalidLiteral t'), []) := by
  obtain ⟨blanks, lexeme, rfl, hblanks, hlead, hitem⟩ := exists_leads_of_next? h
  cases hlead with
  | single hblank hc =>
    rw [lexemeItem_singleton hc, eq_comm, single_eq_error_iff hblank hc] at hitem
    cases hitem.2
  | run hne hrun hrest =>
    rw [lexemeItem_of_run hrun, eq_comm, runItem_eq_error_iff] at hitem
    obtain ⟨hnumeral, ht⟩ := hitem
    cases ht
    have hrun' : ∀ c ∈ lexeme ++ ['.'], inLiteral c = true :=
      List.forall_mem_append.2 ⟨hrun, List.forall_mem_singleton.2 rfl⟩
    have hlead : Leads (lexeme ++ ['.']) [] :=
      .run (List.append_ne_nil_of_left_ne_nil hne _) hrun' nofun
    have hbad : runItem (lexeme ++ ['.']) = .error (.invalidLiteral (.ofList (lexeme ++ ['.']))) :=
      runItem_eq_error_iff.2 ⟨not_isNumeral_append_point hnumeral, rfl⟩
    refine ⟨.ofList (lexeme ++ ['.']), fun heq => ?_, ?_⟩
    · have hlength := congrArg List.length (String.ofList_injective heq)
      rw [List.length_append] at hlength
      exact Nat.succ_ne_self _ hlength
    · have hnext := next?_of_leads hblanks hlead
      rw [lexemeItem_of_run hrun', hbad, List.append_nil] at hnext
      rwa [List.append_nil, List.append_assoc]

end Token

namespace Stacks

/-- An evaluation that goes on with given stacks and characters fails at an item, while the
characters behind the item have not been read. -/
inductive Stops (item : Item) (e : EvalError) (rest : List Char) : Stacks → List Char → Prop where
  | here {s : Stacks} {cs : List Char} (hnext : next? cs = some (item, rest))
    (hstep : s.stepItem item = .error e) : Stops item e rest s cs
  | later {s s' : Stacks} {cs cs' : List Char} {item' : Item} (hnext : next? cs = some (item', cs'))
    (hstep : s.stepItem item' = .ok s') (h : Stops item e rest s' cs') : Stops item e rest s cs

variable {s : Stacks}

theorem Stops.foldlM_items (h : Stops item e rest s cs) :
    (items cs).foldlM stepItem s = .error e := by
  induction h with
  | here hnext hstep =>
    rw [items_of_next? hnext, List.foldlM_cons, hstep]
    rfl
  | later hnext hstep _ ih =>
    rw [items_of_next? hnext, List.foldlM_cons, hstep]
    exact ih

theorem Stops.ne_nil (h : Stops item e rest s cs) : cs ≠ [] := by
  rintro rfl
  cases h with
  | here hnext | later hnext => cases hnext

/-- The failures at an item are those before the end. -/
theorem foldlM_items_eq_error_iff :
    (items cs).foldlM stepItem s = .error e ↔ ∃ item rest, Stops item e rest s cs := by
  refine ⟨fun h => ?_, fun ⟨_, _, h⟩ => h.foldlM_items⟩
  induction cs using lexeme_induction generalizing s with
  | blank cs hblank =>
    rw [items_of_isBlank hblank] at h
    cases h
  | lexeme blanks lexeme rest hblanks hlead ih =>
    have hnext := next?_of_leads hblanks hlead
    rw [items_of_leads hblanks hlead, List.foldlM_cons, bind_eq_error_iff] at h
    rcases h with hstep | ⟨s', hstep, h⟩
    · exact ⟨_, _, .here hnext hstep⟩
    · obtain ⟨item, rest', hstops⟩ := ih h
      exact ⟨item, rest', .later hnext hstep hstops⟩

/-- An evaluation that fails stops at the same item in every longer text. -/
theorem Stops.append (h : Stops item e rest s cs)
    (hend : rest = [] → ∀ run, item ≠ .error (.invalidLiteral run)) (after : List Char) :
    Stops item e (rest ++ after) s (cs ++ after) := by
  induction h with
  | here hnext hstep =>
    -- Numbers are taken in without failing, so a run that fails is a bad literal.
    have hnumber (v : Float) : item ≠ .ok (.number v) := by
      rintro rfl
      cases hstep
    exact .here (next?_append hnext (fun hrest => ⟨hnumber, hend hrest⟩) after) hstep
  | later hnext hstep h ih =>
    exact .later (next?_append hnext (fun hnil => absurd hnil h.ne_nil) after) hstep ih

/-- An evaluation that fails at a bad literal that reaches the end fails at another one if a point
is written behind it. -/
theorem Stops.append_point {t : String} (h : Stops (.error (.invalidLiteral t)) e [] s cs) :
    e = .invalidLiteral t ∧ ∃ t', t' ≠ t ∧
      Stops (.error (.invalidLiteral t')) (.invalidLiteral t') [] s (cs ++ ['.']) := by
  induction h with
  | here hnext hstep =>
    cases hstep
    obtain ⟨t', hne, hnext'⟩ := next?_append_point hnext
    exact ⟨rfl, t', hne, .here hnext' rfl⟩
  | later hnext hstep h ih =>
    obtain ⟨he, t', hne, hstops⟩ := ih
    exact ⟨he, t', hne,
      .later (next?_append hnext (fun hnil => absurd hnil h.ne_nil) _) hstep hstops⟩

end Stacks

open Stacks

theorem evaluate_of_stops {text : String} (h : Stops item e rest ⟨[], []⟩ text.toList) :
    evaluate text = .error e := by
  rw [evaluate, evaluateItems, h.foldlM_items]
  rfl

/-- An evaluation fails at an item if it fails before the end. Then it fails in the same way
whatever is written behind the text, just if the item is not a bad literal that reaches the end of
the text. -/
theorem evaluate_append_of_stops (text : String) :
    (∀ e, (items text.toList).foldlM stepItem ⟨[], []⟩ = .error e ↔
      ∃ item rest, Stops item e rest ⟨[], []⟩ text.toList) ∧
    ∀ item e rest, Stops item e rest ⟨[], []⟩ text.toList → evaluate text = .error e ∧
      ((rest = [] → ∀ run, item ≠ .error (.invalidLiteral run)) ↔
        ∀ after : String, evaluate (text ++ after) = evaluate text) := by
  refine ⟨fun e => foldlM_items_eq_error_iff, fun item e rest h => ⟨evaluate_of_stops h, ?_⟩⟩
  rw [evaluate_of_stops h]
  refine ⟨fun hend after => ?_, ?_⟩
  · have hstops : Stops item e (rest ++ after.toList) ⟨[], []⟩ (text ++ after).toList := by
      rw [String.toList_append]
      exact h.append hend after.toList
    exact evaluate_of_stops hstops
  · rintro hsame rfl run rfl
    obtain ⟨rfl, run', hne, hstops⟩ := h.append_point
    have hpoint : evaluate (text ++ ".") = .error (.invalidLiteral run') :=
      evaluate_of_stops (by rwa [String.toList_append])
    rw [hsame] at hpoint
    cases hpoint
    exact hne rfl

/-- A bad literal in front of a blank is reported whatever follows. One that reaches the end of the
text can grow. -/
theorem evaluate_append_literal :
    Stops (.error (.invalidLiteral "1..2")) (.invalidLiteral "1..2") " )".toList ⟨[], []⟩
        "6/1..2 )".toList ∧
      evaluate ("6/1..2 )" ++ ".5)×") = evaluate "6/1..2 )" ∧
      evaluate "6/1..2 )" = .error (.invalidLiteral "1..2") ∧
      evaluate "6/1..2" = .error (.invalidLiteral "1..2") ∧
      evaluate ("6/1..2" ++ ".5)×") = .error (.invalidLiteral "1..2.5") := by
  have hnumber : next? "6/1..2 )".toList = some (.ok (.number 6.0), "/1..2 )".toList) := by
    decide +kernel
  have hoperator : next? "/1..2 )".toList = some (.ok (.operator .divide), "1..2 )".toList) := by
    decide +kernel
  have hliteral : next? "1..2 )".toList =
      some (.error (.invalidLiteral "1..2"), " )".toList) := by decide +kernel
  have hstops : Stops (.error (.invalidLiteral "1..2")) (.invalidLiteral "1..2") " )".toList
      ⟨[], []⟩ "6/1..2 )".toList :=
    .later hnumber rfl (.later hoperator rfl (.here hliteral rfl))
  obtain ⟨herror, hsame⟩ := (evaluate_append_of_stops "6/1..2 )").2 _ _ _ hstops
  have happend := hsame.1 fun hnil => nomatch hnil
  exact ⟨hstops, happend ".5)×", herror, by decide +kernel, by decide +kernel⟩

end PocketCalculator
