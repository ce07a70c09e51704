import PocketCalculator.Session

/-!
# Key presses

What can come of a session when a key is pressed (`pressed`): a key is ignored, edits the input
line, clears both lines, or evaluates the input line. The settings of a session are the same after
any keys (`settings_foldl_press`), and so is every property that each key keeps
(`invariant_foldl_press`).
-/

namespace PocketCalculator.Session

/-- What comes of a session when a key is pressed. -/
inductive Pressed (s : Session) : Key → Session → Prop where
  /-- A text that does not fit, a digit above nine, or percent without a number. -/
  | ignored {key : Key} (h : key ∉ [Key.delete, .clear, .equals]) : Pressed s key s
  | deleted : Pressed s .delete { s with input := .ofList s.input.toList.dropLast }
  | cleared : Pressed s .clear { settings := s.settings }
  | typed {key : Key} {text : String} (h : key.typed? s.settings = some text)
    (hfits : s.fits (s.input.length + text.length) = true) :
    Pressed s key { s with input := s.input ++ text }
  | divided {v : Float} (h : Decimal.readFloat? s.input.toList = some v)
    (hfits : s.fits (Display.text (v / 100.0)).length = true) :
    Pressed s .percent { s with input := Display.text (v / 100.0) }
  | evaluated {v : Float} (h : evaluateDisplayed s.settings s.input = .ok v) :
    Pressed s .equals { s with result := Display.text v, error := none }
  | failed {e : EvalError} (h : evaluateDisplayed s.settings s.input = .error e) :
    Pressed s .equals { s with result := s.settings.errorText, error := some e }

variable {s s' : Session} {key : Key} {v : Float}

/-- Every key without a meaning of its own types its text. -/
theorem press_eq_elim (s : Session) (h : key ∉ [Key.delete, .clear, .percent, .equals]) :
    s.press key = (key.typed? s.settings).elim s s.append := by
  cases htyped : key.typed? s.settings with
  | none | some text =>
    cases key with
    | delete | clear | percent | equals => simp at h
    | digit | doubleZero | point | operator | openParen | closeParen =>
      simp only [press, htyped, Option.elim]

/-- Percent rewrites the input line as a whole, or leaves the session as it is. -/
theorem press_percent (s : Session) :
    s.press .percent = (Decimal.readFloat? s.input.toList).elim s fun v =>
      if s.fits (Display.text (v / 100.0)).length = true then
        { s with input := Display.text (v / 100.0) } else s := by
  change s.percent = _
  rw [percent]
  cases Decimal.readFloat? s.input.toList <;> rfl

theorem press_percent_of_fits (hnumber : Decimal.readFloat? s.input.toList = some v)
    (hfits : s.fits (Display.text (v / 100.0)).length = true) :
    s.press .percent = { s with input := Display.text (v / 100.0) } := by
  rw [press_percent, hnumber, Option.elim_some, if_pos hfits]

theorem press_percent_of_not_fits (hnumber : Decimal.readFloat? s.input.toList = some v)
    (hfits : s.fits (Display.text (v / 100.0)).length = false) : s.press .percent = s := by
  rw [press_percent, hnumber, Option.elim_some, hfits, if_neg Bool.false_ne_true]

theorem pressed (s : Session) (key : Key) : s.Pressed key (s.press key) := by
  cases key with
  | delete => exact .deleted
  | clear => exact .cleared
  | percent =>
    rw [press_percent]
    cases hread : Decimal.readFloat? s.input.toList with
    | none => exact .ignored (by simp)
    | some v =>
      rw [Option.elim_some]
      split
      next hfits => exact .divided hread hfits
      next => exact .ignored (by simp)
  | equals =>
    change s.Pressed _ s.equals
    rw [equals]
    split
    next v hvalue => exact .evaluated hvalue
    next e hvalue => exact .failed hvalue
  | digit | doubleZero | point | operator | openParen | closeParen =>
    rw [press_eq_elim s (by simp)]
    cases htyped : Key.typed? s.settings _ with
    | none => exact .ignored (by simp)
    | some text =>
      rw [Option.elim_some, append]
      split
      next hfits => exact .typed htyped hfits
      next => exact .ignored (by simp)

theorem Pressed.settings_eq (h : s.Pressed key s') : s'.settings = s.settings := by
  cases h <;> rfl

/-- No key changes the settings. -/
theorem settings_press (s : Session) (key : Key) : (s.press key).settings = s.settings :=
  (s.pressed key).settings_eq

theorem settings_foldl_press (keys : List Key) (s : Session) :
    (keys.foldl press s).settings = s.settings := by
  induction keys generalizing s with
  | nil => rfl
  | cons key keys ih => exact (ih (s.press key)).trans (settings_press s key)

/-- What every key keeps is kept by any keys. -/
theorem invariant_foldl_press {P : Session → Prop} {settings : Settings}
    (hkey : ∀ {s key s'}, s.settings = settings → s.Pressed key s' → P s → P s')
    (hsettings : s.settings = settings) (hs : P s) (keys : List Key) : P (keys.foldl press s) := by
  induction keys generalizing s with
  | nil => exact hs
  | cons key keys ih =>
    exact ih ((settings_press s key).trans hsettings) (hkey hsettings (s.pressed key) hs)

end PocketCalculator.Session
