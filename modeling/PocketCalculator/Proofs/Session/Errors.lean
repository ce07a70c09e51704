import PocketCalculator.Proofs.Session.ResultLine
import PocketCalculator.Proofs.Evaluation.Failures
import PocketCalculator.Proofs.Token.Errors

/-!
# Errors that are reported

An error about the text of an item is reported only for the first item that is an error, and it is
genuine (`genuine_of_evaluate`). Neither an evaluation nor a session ever reports a symbol that
names no operator (`lexical_errors`).
-/

namespace PocketCalculator
open Token

variable {text : String} {e : EvalError}

/-! ## Evaluations -/

theorem genuine_of_evaluate (h : evaluate text = .error e) (he : e.isStructural = false) :
    FirstError (items text.toList) e ∧ Genuine text.toList e := by
  have hfirst : FirstError (items text.toList) e := by
    refine (firstError_of_evaluateItems h).resolve_left fun hstructural => ?_
    rw [he] at hstructural
    cases hstructural
  exact ⟨hfirst, genuine_of_mem_items hfirst.mem⟩

theorem exists_error_of_mem_items (h : .error e ∈ items text.toList) :
    ∃ e', evaluate text = .error e' := by
  cases heval : evaluate text with
  | error e' => exact ⟨e', rfl⟩
  | ok v =>
    obtain ⟨tokens, htokens, -⟩ := counts_of_evaluateItems heval
    rw [htokens] at h
    obtain ⟨t, -, ht⟩ := List.mem_map.1 h
    cases ht

/-- No error is about a symbol that names no operator. -/
theorem evaluate_ne_unsupported (text : String) (symbol : Char) :
    evaluate text ≠ .error (.unsupportedOperator symbol) := by
  intro h
  obtain ⟨-, hgenuine⟩ := genuine_of_evaluate h rfl
  cases hgenuine

/-! ## Sessions -/

theorem Session.error_ne_unsupported (settings : Settings) (keys : List Key) (symbol : Char) :
    (keys.foldl press { settings }).error ≠ some (.unsupportedOperator symbol) := by
  refine invariant_foldl_press (P := fun s => s.error ≠ some (.unsupportedOperator symbol))
    (fun _ hpressed hs => ?_) rfl (Option.some_ne_none _).symm keys
  cases hpressed with
  | ignored | deleted | typed | divided => exact hs
  | cleared | evaluated => exact nofun
  | failed h =>
    rintro ⟨⟩
    exact evaluate_ne_unsupported _ symbol h

/-! ## Both -/

/-- An error about the text of an item is the first one of the items, and genuine. The errors of the
items are all genuine ones, and each of them makes the evaluation fail. A symbol that names no
operator is never reported, neither by an evaluation nor in a session, and so a text over the
alphabet is not reported for a character. -/
theorem lexical_errors :
    (∀ text e, evaluate text = .error e → e.isStructural = false →
      FirstError (items text.toList) e ∧ Genuine text.toList e) ∧
    (∀ (text : String) (e : EvalError), .error e ∈ items text.toList →
      ∃ e', evaluate text = .error e') ∧
    (∀ (text : String) (e : EvalError), .error e ∈ items text.toList ↔ Genuine text.toList e) ∧
    (∀ text symbol, evaluate text ≠ .error (.unsupportedOperator symbol)) ∧
    (∀ (settings : Settings) (calls : List Session.Call) (symbol : Char),
      (calls.foldl Session.call { settings }).error ≠ some (.unsupportedOperator symbol)) ∧
    ∀ text : String, (∀ c ∈ text.toList, inAlphabet c = true) →
      ∀ c, evaluate text ≠ .error (.invalidCharacter c) := by
  refine ⟨fun text e => genuine_of_evaluate, fun text e => exists_error_of_mem_items,
    fun text e => mem_items_iff_genuine, evaluate_ne_unsupported, fun settings calls symbol => ?_,
    fun text halphabet c h => ?_⟩
  · rw [Session.foldl_call]
    exact Session.error_ne_unsupported settings _ symbol
  · obtain ⟨-, hgenuine⟩ := genuine_of_evaluate h rfl
    cases hgenuine with
    | character hmem hc =>
      rw [halphabet c hmem] at hc
      cases hc

theorem lexical_errors_lazy :
    (evaluate "2×1.2.3" = .error (.invalidCharacter '×') ∧
      FirstError (items "2×1.2.3".toList) (.invalidCharacter '×') ∧
      Genuine "2×1.2.3".toList (.invalidCharacter '×')) ∧
    (evaluate "1.2.3×" = .error (.invalidLiteral "1.2.3") ∧
      Genuine "1.2.3×".toList (.invalidLiteral "1.2.3")) ∧
    (.error (.invalidCharacter '×') ∈ items "1)×".toList ∧ (∃ e, evaluate "1)×" = .error e) ∧
      evaluate "1)×" = .error .unbalancedParentheses) ∧
    (([.pressLabels ["2", "%", "^", "="]] : List Session.Call).foldl Session.call {}).error ≠
      some (.unsupportedOperator '%') ∧
    (∀ c ∈ "(2 3".toList, inAlphabet c = true) ∧
      ∀ c, evaluate "(2 3" ≠ .error (.invalidCharacter c) := by
  obtain ⟨hlexical, hfails, hgenuine, -, hsession, halphabet⟩ := lexical_errors
  have hcharacter : evaluate "2×1.2.3" = .error (.invalidCharacter '×') := by decide +kernel
  have hliteral : evaluate "1.2.3×" = .error (.invalidLiteral "1.2.3") := by decide +kernel
  have hmem : .error (.invalidCharacter '×') ∈ items "1)×".toList :=
    (hgenuine _ _).2 (.character (by decide) (by decide))
  have hclean : ∀ c ∈ "(2 3".toList, inAlphabet c = true := List.all_eq_true.1 rfl
  exact ⟨⟨hcharacter, hlexical _ _ hcharacter rfl⟩, ⟨hliteral, (hlexical _ _ hliteral rfl).2⟩,
    ⟨hmem, hfails _ _ hmem, by decide +kernel⟩, hsession {} _ '%', hclean, halphabet _ hclean⟩

end PocketCalculator
