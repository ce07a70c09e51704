import PocketCalculator.Proofs.Display.Reading
import PocketCalculator.Proofs.Session.Press

/-!
# The result line

Only equals and clear write on the result line (`Pressed.shown_eq`), so that it shows what came of
the input line when equals was pressed the last time, and nothing after clear (`result_line`). Calls
by labels, known or not, come down to key presses (`foldl_call`).
-/

namespace PocketCalculator

open Binary64

/-! ## Texts on no display -/

namespace Display

variable {v : Float} {t : String}

/-- A text that is none of the words and has a character of no number is on no display. -/
theorem text_ne (hword : t ∉ ["NaN", "Infinity", "-Infinity"])
    (hchar : ∃ c ∈ t.toList, inNumber c = false) : text v ≠ t := by
  rintro rfl
  rcases Nat.lt_trichotomy (word v) infinity with h | h | h
  · obtain ⟨c, hc, hnumber⟩ := hchar
    rw [inNumber_of_mem_text h hc] at hnumber
    cases hnumber
  · rw [text_of_word_eq_infinity h] at hword
    split at hword <;> simp at hword
  · simp [text_of_isNaN h] at hword

theorem text_ne_error (v : Float) : text v ≠ "Error" :=
  text_ne (by decide) ⟨'r', by decide, rfl⟩

end Display

namespace Session

/-! ## Calls -/

/-- What can be asked of a session: a key, a label or several labels. -/
inductive Call where
  | press (key : Key)
  | pressLabel (label : String)
  | pressLabels (labels : List String)

/-- The session after a call. An unknown label leaves it as it is. -/
def call (s : Session) : Call → Session
  | .press key => s.press key
  | .pressLabel label => (s.pressLabel? label).getD s
  | .pressLabels labels => s.pressLabels labels

/-- The keys that a call presses. -/
def Call.keys : Call → List Key
  | .press key => [key]
  | .pressLabel label => (Key.ofLabel? label).toList
  | .pressLabels labels => labels.filterMap Key.ofLabel?

variable {s s' : Session} {key : Key} {keys : List Key} {outcome : Except EvalError Float}

theorem getD_pressLabel? (s : Session) (label : String) :
    (s.pressLabel? label).getD s = (Key.ofLabel? label).toList.foldl press s := by
  rw [pressLabel?]
  cases Key.ofLabel? label <;> rfl

theorem pressLabels_eq (s : Session) (labels : List String) :
    s.pressLabels labels = (labels.filterMap Key.ofLabel?).foldl press s := by
  induction labels generalizing s with
  | nil => rfl
  | cons label labels ih =>
    have hhead : s.pressLabels (label :: labels) =
        ((s.pressLabel? label).getD s).pressLabels labels := rfl
    rw [hhead, ih, getD_pressLabel?, List.filterMap_cons]
    cases Key.ofLabel? label <;> rfl

theorem call_eq (s : Session) (c : Call) : s.call c = c.keys.foldl press s := by
  cases c with
  | press key => rfl
  | pressLabel label => exact s.getD_pressLabel? label
  | pressLabels labels => exact s.pressLabels_eq labels

/-- Calls press their keys one after the other. -/
theorem foldl_call (calls : List Call) (s : Session) :
    calls.foldl call s = (calls.flatMap Call.keys).foldl press s := by
  rw [List.foldl_flatMap]
  exact List.foldl_ext _ _ _ fun s c _ => s.call_eq c

/-! ## One key -/

/-- The result line shows an outcome, and the error is the one of the outcome. -/
def Shows (s : Session) : Except EvalError Float → Prop
  | .ok v => s.result = Display.text v ∧ s.error = none
  | .error e => s.result = s.settings.errorText ∧ s.error = some e

theorem Shows.congr (h : s.Shows outcome) (hsettings : s'.settings = s.settings)
    (hshown : s'.result = s.result ∧ s'.error = s.error) : s'.Shows outcome := by
  obtain ⟨hresult, herror⟩ := hshown
  cases outcome with
  | ok v => exact ⟨hresult.trans h.1, herror.trans h.2⟩
  | error e => exact ⟨hresult.trans (h.1.trans (by rw [hsettings])), herror.trans h.2⟩

theorem shows_equals (s : Session) :
    (s.press .equals).Shows (evaluate (s.settings.canonical s.input)) := by
  have hpress : s.press .equals = s.equals := rfl
  rw [hpress, equals, evaluateDisplayed]
  cases evaluate (s.settings.canonical s.input) with
  | ok v => exact ⟨rfl, rfl⟩
  | error e => exact ⟨rfl, rfl⟩

theorem Pressed.input_eq (h : s.Pressed .equals s') : s'.input = s.input := by
  cases h with
  | ignored h => simp at h
  | typed h => cases h
  | evaluated | failed => rfl

theorem input_equals (s : Session) : (s.press .equals).input = s.input :=
  (s.pressed .equals).input_eq

/-- Every other key leaves the result line and the error as they are. -/
theorem Pressed.shown_eq (h : s.Pressed key s') (hequals : key ≠ .equals) (hclear : key ≠ .clear) :
    s'.result = s.result ∧ s'.error = s.error := by
  cases h with
  | cleared => exact absurd rfl hclear
  | evaluated | failed => exact absurd rfl hequals
  | ignored | deleted | typed | divided => exact ⟨rfl, rfl⟩

/-! ## Runs -/

theorem shown_foldl_press (s : Session) (hequals : Key.equals ∉ keys) (hclear : Key.clear ∉ keys) :
    (keys.foldl press s).result = s.result ∧ (keys.foldl press s).error = s.error := by
  induction keys generalizing s with
  | nil => exact ⟨rfl, rfl⟩
  | cons key keys ih =>
    obtain ⟨hequals₁, hequals⟩ := List.ne_and_not_mem_of_not_mem_cons hequals
    obtain ⟨hclear₁, hclear⟩ := List.ne_and_not_mem_of_not_mem_cons hclear
    obtain ⟨hresult, herror⟩ := (s.pressed key).shown_eq hequals₁.symm hclear₁.symm
    rw [← hresult, ← herror]
    exact ih (s.press key) hequals hclear

/-- The last equals is what the result line is about. -/
theorem shows_foldl_press (s : Session) (before : List Key) {after : List Key}
    (hequals : Key.equals ∉ after) (hclear : Key.clear ∉ after) :
    ((before ++ .equals :: after).foldl press s).Shows
      (evaluate (s.settings.canonical (before.foldl press s).input)) := by
  rw [List.foldl_append, List.foldl_cons]
  have hshows := (before.foldl press s).shows_equals
  rw [settings_foldl_press before s] at hshows
  exact hshows.congr (settings_foldl_press after _) (shown_foldl_press _ hequals hclear)

/-- Nothing is on the result line as long as every equals is followed by a clear. -/
theorem shown_of_cleared (settings : Settings)
    (h : ∀ before after, keys = before ++ .equals :: after → Key.clear ∈ after) :
    (keys.foldl press { settings }).result = "" ∧ (keys.foldl press { settings }).error = none := by
  induction keys using List.reverseRecOn with
  | nil => exact ⟨rfl, rfl⟩
  | append_singleton keys key ih =>
    rw [List.foldl_append, List.foldl_cons, List.foldl_nil]
    by_cases hclear : key = .clear
    · rw [hclear]
      exact ⟨rfl, rfl⟩
    have hequals : key ≠ .equals := by
      rintro rfl
      exact absurd (h keys [] rfl) (by simp)
    have hkeys := ih fun before after heq => by
      have hmem := h before (after ++ [key]) (by rw [heq, List.append_assoc, List.cons_append])
      exact (List.mem_append.1 hmem).resolve_right fun hlast =>
        hclear (List.mem_singleton.1 hlast).symm
    obtain ⟨hresult, herror⟩ :=
      (pressed (keys.foldl press { settings }) key).shown_eq hequals hclear
    exact ⟨hresult.trans hkeys.1, herror.trans hkeys.2⟩

/-- The error text is only shown for an error, unless some number has it on its display. -/
theorem result_eq_errorText_iff {settings : Settings}
    (htext : ∀ v, Display.text v ≠ settings.errorText) (hblank : settings.errorText ≠ "")
    (keys : List Key) :
    let s := keys.foldl press { settings }
    s.result = settings.errorText ↔ s.error.isSome = true := by
  intro s
  refine invariant_foldl_press (P := fun s => s.result = settings.errorText ↔ s.error.isSome = true)
    (fun hsettings hpressed hs => ?_) rfl (by simp [hblank.symm]) keys
  cases hpressed with
  | ignored | deleted | typed | divided => exact hs
  | cleared => simp [hblank.symm]
  | evaluated => simp [htext]
  | failed => simp [hsettings]

/-- After any calls the result line shows what came of the input line at the last equals, or
nothing if there has been none or the lines have been cleared since. -/
theorem result_line (settings : Settings) (calls : List Call) :
    let s := calls.foldl call { settings }
    let keys := calls.flatMap Call.keys
    s.settings = settings ∧
    ((∀ before after, keys = before ++ .equals :: after → Key.clear ∈ after) →
      s.result = "" ∧ s.error = none) ∧
    (∀ before after, keys = before ++ .equals :: after → Key.equals ∉ after → Key.clear ∉ after →
      s.Shows (evaluate (settings.canonical (before.foldl press { settings }).input))) ∧
    (s.press .equals).input = s.input ∧
    (settings = {} → (s.result = "Error" ↔ s.error.isSome = true) ∧
      (s.press .equals).Shows (evaluateDisplayed {} (s.press .equals).input)) := by
  intro s keys
  have hs : s = keys.foldl press { settings } := foldl_call calls { settings }
  have hsettings : s.settings = settings := by
    rw [hs]
    exact settings_foldl_press keys { settings }
  refine ⟨hsettings, fun h => ?_, fun before after hkeys hequals hclear => ?_, s.input_equals, ?_⟩
  · rw [hs]
    exact shown_of_cleared settings h
  · rw [hs, hkeys]
    exact shows_foldl_press { settings } before hequals hclear
  · rintro rfl
    refine ⟨?_, ?_⟩
    · rw [hs]
      exact result_eq_errorText_iff Display.text_ne_error (by decide) keys
    · rw [s.input_equals, evaluateDisplayed, ← hsettings]
      exact s.shows_equals

theorem result_line_corrected_quotient :
    let calls : List Call := [.pressLabels ["8", "÷", "0", "="], .pressLabel "sin",
      .press (.digit 12), .pressLabels ["⌫", "2", "%"]]
    let s := calls.foldl call {}
    let cleared := [Call.pressLabels ["5", "=", "AC", "7"]].foldl call {}
    s.input = "8÷2" ∧ s.result = "Error" ∧ s.error = some .divisionByZero ∧
      (s.press .equals).Shows (.ok 4.0) ∧ cleared.input = "7" ∧ cleared.result = "" := by
  intro calls s cleared
  obtain ⟨hsettings, -, hlast, hinput, hdefault⟩ := result_line {} calls
  obtain ⟨-, hequals⟩ := hdefault rfl
  have herror := hlast [.digit 8, .operator .divide, .digit 0]
    [.digit 12, .delete, .digit 2, .percent] (by decide) (by decide) (by decide)
  have hquotient : evaluate (({} : Settings).canonical "8÷0") = .error .divisionByZero := by
    decide +kernel
  have hhalf : evaluateDisplayed {} "8÷2" = .ok 4.0 := by decide +kernel
  have hline : s.input = "8÷2" := by decide +kernel
  have hbefore : (([.digit 8, .operator .divide, .digit 0] : List Key).foldl press {}).input =
      "8÷0" := by decide +kernel
  have htext : s.settings.errorText = "Error" := congrArg Settings.errorText hsettings
  rw [hbefore, hquotient] at herror
  rw [hinput, hline, hhalf] at hequals
  have hcleared := (result_line {} [.pressLabels ["5", "=", "AC", "7"]]).2.1 fun before after h => by
    have hkeys : [Key.digit 5] ++ .equals :: [.clear, .digit 7] = before ++ .equals :: after := h
    obtain ⟨-, -, rfl⟩ := (List.append_cons_inj_of_notMem (by decide) (by decide)).1 hkeys
    decide
  exact ⟨hline, herror.1.trans htext, herror.2, hequals, by decide +kernel, hcleared.1⟩

end Session

end PocketCalculator
