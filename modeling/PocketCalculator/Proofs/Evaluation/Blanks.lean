import Mathlib.Logic.Relation
import PocketCalculator.Evaluation
import PocketCalculator.Proofs.Token.Call

/-!
# Blanks between lexemes

Blanks that are put into a text change none of its items unless they cut a run in two
(`items_put_blanks_iff`). Texts that can be made of each other by putting in blanks and taking them
out outside runs are those with the same lexemes (`respaced_iff`), so they are evaluated alike
(`evaluate_respaced`).
-/

namespace PocketCalculator
open Text

namespace Token

/-- Blanks are put into a text, but not into the middle of a run. -/
inductive PutsBlanks : List Char → List Char → Prop where
  | intro {cs before blanks after : List Char} (h : Splits cs before after)
    (hblanks : ∀ c ∈ blanks, isBlank c = true) : PutsBlanks cs (before ++ (blanks ++ after))

/-- One text is made of another by putting in blanks and taking them out, outside runs and any
number of times. -/
abbrev Respaced : List Char → List Char → Prop :=
  Relation.EqvGen PutsBlanks

/-- Lexemes with a blank behind each. -/
def spaced (lexemes : List (List Char)) : List Char :=
  lexemes.flatMap (· ++ [' '])

variable {cs cs' before blanks after run run' : List Char}

/-! ## Lexemes around blanks -/

/-- Blanks part the texts around them. -/
theorem lexemes_put_blanks (hne : blanks ≠ []) (hblanks : ∀ c ∈ blanks, isBlank c = true)
    (before after : List Char) :
    lexemes (before ++ (blanks ++ after)) = lexemes before ++ lexemes after := by
  have hhead : ∀ c ∈ (blanks ++ after).head?, inLiteral c = false := by
    intro c hc
    rw [List.head?_append_of_ne_nil _ hne] at hc
    exact not_inLiteral_of_isBlank (hblanks c (List.mem_of_head? hc))
  rw [lexemes_append (Splits.of_head? hhead).seam, lexemes_blanks_append hblanks]

theorem PutsBlanks.lexemes_eq (h : PutsBlanks cs cs') : lexemes cs = lexemes cs' := by
  cases h with
  | @intro before blanks after h hblanks =>
    by_cases hne : blanks = []
    · rw [hne, List.nil_append, h.append_eq]
    · rw [lexemes_put_blanks hne hblanks, h.append_eq, lexemes_append h.seam]

/-! ## Runs that are cut -/

/-- The end of a text is a run, maybe an empty one. -/
theorem exists_run_at_end (cs : List Char) :
    ∃ before run, cs = before ++ run ∧ (∀ c ∈ run, inLiteral c = true) ∧
      ∀ c ∈ before.getLast?, inLiteral c = false := by
  induction cs using List.reverseRecOn with
  | nil => exact ⟨[], [], rfl, nofun, nofun⟩
  | append_singleton cs c ih =>
    cases hc : inLiteral c with
    | false =>
      refine ⟨cs ++ [c], [], (List.append_nil _).symm, nofun, fun d hd => ?_⟩
      rw [List.getLast?_concat, Option.mem_some_iff] at hd
      rw [← hd, hc]
    | true =>
      obtain ⟨before, run, rfl, hrun, hbefore⟩ := ih
      refine ⟨before, run ++ [c], List.append_assoc .., fun d hd => ?_, hbefore⟩
      rcases List.mem_append.1 hd with hd | hd
      · exact hrun d hd
      · rw [List.mem_singleton.1 hd, hc]

theorem exists_run_at_start (cs : List Char) :
    ∃ run after, cs = run ++ after ∧ (∀ c ∈ run, inLiteral c = true) ∧
      ∀ c ∈ after.head?, inLiteral c = false := by
  refine ⟨cs.takeWhile inLiteral, cs.dropWhile inLiteral, List.takeWhile_append_dropWhile.symm,
    List.all_eq_true.1 List.all_takeWhile, fun c hc => ?_⟩
  have hhead := List.head?_dropWhile_not inLiteral cs
  simpa [Option.mem_def.1 hc] using hhead

/-- A run has one item, and its two parts have one each. -/
theorem length_items_of_cut (hne : run ≠ []) (hrun : ∀ c ∈ run, inLiteral c = true)
    (hne' : run' ≠ []) (hrun' : ∀ c ∈ run', inLiteral c = true)
    (hbefore : ∀ c ∈ before.getLast?, inLiteral c = false)
    (hafter : ∀ c ∈ after.head?, inLiteral c = false) :
    (items (before ++ run) ++ items (run' ++ after)).length =
      (items ((before ++ run) ++ (run' ++ after))).length + 1 := by
  have hseam (cs : List Char) : items (before ++ cs) = items before ++ items cs :=
    (Splits.of_getLast? hbefore).items_eq
  have hleft : items run = [runItem run] := by
    have hitems : items (run ++ []) = runItem run :: items [] := items_run_append hne hrun nofun
    rwa [List.append_nil, items_of_isBlank (List.forall_mem_nil _)] at hitems
  have hright := items_run_append hne' hrun' hafter
  have hwhole : items (run ++ (run' ++ after)) = runItem (run ++ run') :: items after := by
    rw [← List.append_assoc]
    exact items_run_append (List.append_ne_nil_of_left_ne_nil hne _)
      (List.forall_mem_append.2 ⟨hrun, hrun'⟩) hafter
  rw [List.append_assoc, hseam, hseam, hleft, hright, hwhole]
  simp only [List.length_append, List.length_cons, List.length_nil]
  omega

/-- Blanks that are put into a text change none of its items just if they cut no run in two. -/
theorem items_put_blanks_iff (hne : blanks ≠ []) (hblanks : ∀ c ∈ blanks, isBlank c = true)
    (happend : cs = before ++ after) :
    items (before ++ (blanks ++ after)) = items cs ↔ Splits cs before after := by
  refine ⟨fun h => ⟨happend, fun a ha b hb => ?_⟩, fun h => ?_⟩
  · rw [items_eq, lexemes_put_blanks hne hblanks, List.map_append, ← items_eq, ← items_eq,
      happend] at h
    rw [← Bool.not_eq_true, Bool.and_eq_true]
    rintro ⟨hal, hbl⟩
    obtain ⟨front, run, rfl, hrun, hfront⟩ := exists_run_at_end before
    obtain ⟨run', back, rfl, hrun', hback⟩ := exists_run_at_start after
    have hrunNe : run ≠ [] := by
      rintro rfl
      rw [List.append_nil] at ha
      exact Bool.false_ne_true ((hfront a ha).symm.trans hal)
    have hrunNe' : run' ≠ [] := by
      rintro rfl
      exact Bool.false_ne_true ((hback b hb).symm.trans hbl)
    have hlength := length_items_of_cut hrunNe hrun hrunNe' hrun' hfront hback
    rw [h] at hlength
    omega
  · rw [items_eq, items_eq, (PutsBlanks.intro h hblanks).lexemes_eq]

/-! ## Any number of places -/

namespace Respaced

theorem lexemes_eq (h : Respaced cs cs') : lexemes cs = lexemes cs' := by
  induction h with
  | rel _ _ h => exact h.lexemes_eq
  | refl => rfl
  | symm _ _ _ ih => exact ih.symm
  | trans _ _ _ _ _ ih ih' => exact ih.trans ih'

/-- A text behind one that does not end in a run can be respaced on its own. -/
theorem append_left (hbefore : ∀ c ∈ before.getLast?, inLiteral c = false)
    (h : Respaced cs cs') : Respaced (before ++ cs) (before ++ cs') := by
  induction h with
  | refl => exact .refl _
  | symm _ _ _ ih => exact .symm _ _ ih
  | trans _ _ _ _ _ ih ih' => exact .trans _ _ _ ih ih'
  | rel _ _ h =>
    cases h with
    | @intro read blanks rest h hblanks =>
      rw [← List.append_assoc]
      exact .rel _ _ (.intro ((Splits.of_getLast? hbefore).append h).1 hblanks)

theorem blanks_append (hblanks : ∀ c ∈ blanks, isBlank c = true) (cs : List Char) :
    Respaced (blanks ++ cs) cs :=
  .symm _ _ (.rel _ _ (.intro (.nil cs) hblanks))

/-- Every text can be respaced to its lexemes with one blank behind each. -/
theorem spaced_lexemes (cs : List Char) : Respaced cs (spaced (lexemes cs)) := by
  induction cs using lexeme_induction with
  | blank cs h =>
    rw [lexemes_of_isBlank h]
    have hblanks := blanks_append h []
    rwa [List.append_nil] at hblanks
  | lexeme blanks lexeme rest hblanks hlead ih =>
    rw [lexemes_blanks_append hblanks, hlead.lexemes_eq, spaced, List.flatMap_cons,
      List.append_assoc]
    have hsplits : Splits (lexeme ++ rest) lexeme rest := (hlead.splits (List.forall_mem_nil _)).1
    have hblank : ∀ c ∈ [' '], isBlank c = true := List.forall_mem_singleton.2 rfl
    have hend : ∀ c ∈ (lexeme ++ [' ']).getLast?, inLiteral c = false := by
      rw [List.getLast?_concat]
      rintro _ ⟨⟩
      rfl
    have hrest := append_left hend ih
    rw [List.append_assoc, List.append_assoc] at hrest
    exact .trans _ _ _ (blanks_append hblanks _)
      (.trans _ _ _ (.rel _ _ (.intro hsplits hblank)) hrest)

end Respaced

/-- Texts differ only in blanks outside runs if they have the same lexemes. -/
theorem respaced_iff : Respaced cs cs' ↔ lexemes cs = lexemes cs' := by
  refine ⟨Respaced.lexemes_eq, fun h => ?_⟩
  have hcs := Respaced.spaced_lexemes cs
  rw [h] at hcs
  exact .trans _ _ _ hcs (.symm _ _ (Respaced.spaced_lexemes cs'))

theorem Respaced.items_eq (h : Respaced cs cs') : items cs = items cs' := by
  rw [Token.items_eq, h.lexemes_eq, Token.items_eq]

end Token

open Token

/-- Blanks that are put into a text at a place with no run around it leave its items and its
evaluation as they are, and at any other place they change its items. So texts that differ in blanks
outside runs only, which are the texts with the same lexemes, are evaluated alike. -/
theorem evaluate_respaced :
    (∀ (text : String) (before blanks after : List Char), text.toList = before ++ after →
      (∀ c ∈ blanks, isBlank c = true) →
      (Splits text.toList before after →
        items (before ++ (blanks ++ after)) = items text.toList ∧
          evaluate (.ofList (before ++ (blanks ++ after))) = evaluate text) ∧
      (blanks ≠ [] → items (before ++ (blanks ++ after)) = items text.toList →
        Splits text.toList before after)) ∧
    (∀ text text' : String, Respaced text.toList text'.toList →
      items text.toList = items text'.toList ∧ evaluate text = evaluate text') ∧
    ∀ cs cs' : List Char, Respaced cs cs' ↔ lexemes cs = lexemes cs' := by
  have heval {text text' : String} (h : Respaced text.toList text'.toList) :
      items text.toList = items text'.toList ∧ evaluate text = evaluate text' :=
    ⟨h.items_eq, congrArg evaluateItems h.items_eq⟩
  refine ⟨fun text before blanks after happend hblanks => ⟨fun h => ?_, fun hne hitems => ?_⟩,
    fun text text' => heval, fun cs cs' => respaced_iff⟩
  · have hput : Respaced text.toList (String.ofList (before ++ (blanks ++ after))).toList := by
      rw [String.toList_ofList]
      exact .rel _ _ (.intro h hblanks)
    obtain ⟨hitems, hvalue⟩ := heval hput
    rw [String.toList_ofList] at hitems
    exact ⟨hitems.symm, hvalue.symm⟩
  · exact (items_put_blanks_iff hne hblanks happend).1 hitems

/-- Blanks beside a bad character are not seen, and those in `6/2` may stand anywhere. Two digits
that a blank parts are two numbers. -/
theorem evaluate_respaced_quotient :
    (Splits "6/.5÷2".toList "6/.5".toList "÷2".toList ∧
      (∀ c ∈ ['\u3000', '\t'], isBlank c = true) ∧
      items ("6/.5".toList ++ (['\u3000', '\t'] ++ "÷2".toList)) = items "6/.5÷2".toList ∧
      evaluate (.ofList ("6/.5".toList ++ (['\u3000', '\t'] ++ "÷2".toList))) =
        evaluate "6/.5÷2") ∧
    (Respaced "\n6 /2".toList "6/ 2 ".toList ∧ evaluate "\n6 /2" = evaluate "6/ 2 " ∧
      evaluate "6/ 2 " = .ok 3.0) ∧
    (¬Splits "12".toList ['1'] ['2'] ∧
      items (['1'] ++ ([' '] ++ ['2'])) ≠ items "12".toList) := by
  obtain ⟨hput, hrespaced, hiff⟩ := evaluate_respaced
  have hsplits : Splits "6/.5÷2".toList "6/.5".toList "÷2".toList := by
    refine ⟨rfl, ?_⟩
    rintro _ ⟨⟩ _ ⟨⟩
    rfl
  have hblanks : ∀ c ∈ ['\u3000', '\t'], isBlank c = true := List.all_eq_true.1 rfl
  have hquotient : Respaced "\n6 /2".toList "6/ 2 ".toList := (hiff _ _).2 (by decide +kernel)
  have hcut : ¬Splits "12".toList ['1'] ['2'] := fun h => nomatch h.seam '1' rfl '2' rfl
  obtain ⟨hitems, hvalue⟩ := (hput _ _ _ _ hsplits.append_eq hblanks).1 hsplits
  have hblank : ∀ c ∈ [' '], isBlank c = true := List.forall_mem_singleton.2 rfl
  have hparted := (hput "12" ['1'] [' '] ['2'] rfl hblank).2 (List.cons_ne_nil _ _)
  exact ⟨⟨hsplits, hblanks, hitems, hvalue⟩,
    ⟨hquotient, (hrespaced _ _ hquotient).2, by decide +kernel⟩, hcut, fun h => hcut (hparted h)⟩

end PocketCalculator
