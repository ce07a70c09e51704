import PocketCalculator.Proofs.Evaluation.Numbers
import PocketCalculator.Proofs.Glyphs
import PocketCalculator.Proofs.Session.ResultLine

/-!
# Percent and equals

A number on the input line that has a value as an expression has the same value when it is divided
by a hundred (`eq_of_evaluate_canonical`). The quotient stands on the input line as on the display,
so that equals reads it again in plain notation, and refuses it in scientific notation
(`shows_percent_equals`).
-/

namespace PocketCalculator.Session

open Binary64

variable {s : Session} {u v : Float}

/-- A number that can be evaluated is read in the same way, and has no sign. -/
theorem eq_of_evaluate_canonical (hvalid : s.settings.fault? = none)
    (hnumber : Decimal.readFloat? s.input.toList = some u)
    (hvalue : evaluate (s.settings.canonical s.input) = .ok v) : u = v ∧ isNegative v = false := by
  have hinNumber := Decimal.inNumber_of_readFloat? hnumber
  rw [Settings.canonical_of_inNumber hvalid hinNumber, evaluate_of_readFloat? hnumber] at hvalue
  split at hvalue
  · cases hvalue
  split at hvalue
  · cases hvalue
  next hsign =>
    cases hvalue
    exact ⟨rfl, Bool.eq_false_iff.2 hsign⟩

/-- Equals on the display text of a finite number. -/
theorem shows_equals_text (hvalid : s.settings.fault? = none) (hv : word v < infinity)
    (hinput : s.input = Display.text v) :
    (s.press .equals).Shows
      (if Display.isPlain (word v) then
        if isNegative v then .error .malformedExpression else .ok v
      else .error (.invalidCharacter 'E')) := by
  have hcanonical : s.settings.canonical s.input = Display.text v := by
    rw [hinput]
    exact Settings.canonical_of_inNumber hvalid fun c hc => Display.inNumber_of_mem_text hv hc
  rw [← Display.evaluate_text hv, ← hcanonical]
  exact s.shows_equals

/-- Where equals would show a finite value of a number, percent and equals show the hundredth of it,
if that is zero or in the range of plain notation. Outside this range the hundredth has an exponent,
which is no part of an expression. -/
theorem shows_percent_equals (hvalid : s.settings.fault? = none)
    (hnumber : Decimal.readFloat? s.input.toList = some u)
    (hvalue : evaluate (s.settings.canonical s.input) = .ok v) (hfinite : v.isFinite = true)
    (hfits : s.fits (Display.text (u / 100.0)).length = true) :
    (s.press .percent).input = Display.text (v / 100.0) ∧
      ((s.press .percent).press .equals).Shows
        (if v / 100.0 = 0.0 ∨ 0.001 ≤ v / 100.0 ∧ v / 100.0 < 10000000.0 then .ok (v / 100.0)
        else .error (.invalidCharacter 'E')) := by
  obtain ⟨rfl, hsign⟩ := eq_of_evaluate_canonical hvalid hnumber hvalue
  rw [isFinite_iff] at hfinite
  have hquotient : word (u / 100.0) < infinity :=
    word_div_lt_infinity hfinite (by decide) (by decide)
  have hquotientSign : isNegative (u / 100.0) = false := by
    rw [isNegative_div (Nat.le_of_lt hfinite) (by decide) (by decide) (by decide), hsign]
  have hpress := press_percent_of_fits hnumber hfits
  have hinput : (s.press .percent).input = Display.text (u / 100.0) := by rw [hpress]
  have hvalid' : (s.press .percent).settings.fault? = none := by
    rw [settings_press, hvalid]
  refine ⟨hinput, ?_⟩
  have hshows := shows_equals_text hvalid' hquotient hinput
  simpa only [Display.isPlain_word_iff hquotient hquotientSign, hquotientSign, Bool.false_eq_true,
    if_false] using hshows

theorem shows_percent_equals_five :
    let s : Session := ([.digit 5] : List Key).foldl press {}
    let s' : Session := ([.digit 0, .point, .digit 0, .digit 5] : List Key).foldl press {}
    s.input = "5" ∧ ((s.press .percent).press .equals).Shows (.ok 0.05) ∧
      s'.input = "0.05" ∧ (s'.press .percent).input = "5.0E-4" ∧
      ((s'.press .percent).press .equals).Shows (.error (.invalidCharacter 'E')) := by
  intro s s'
  have hvalid : ({} : Settings).fault? = none := by decide
  have hinput : s.input = "5" := by decide +kernel
  have hinput' : s'.input = "0.05" := by decide +kernel
  have hsettings : s.settings = {} := settings_foldl_press _ {}
  have hsettings' : s'.settings = {} := settings_foldl_press _ {}
  obtain ⟨-, hshows⟩ := shows_percent_equals (s := s) (u := 5.0) (v := 5.0)
    (by rw [hsettings, hvalid]) (by rw [hinput]; decide +kernel)
    (by rw [hinput, hsettings]; decide +kernel) (by decide) (by decide +kernel)
  obtain ⟨htext, hshows'⟩ := shows_percent_equals (s := s') (u := 0.05) (v := 0.05)
    (by rw [hsettings', hvalid]) (by rw [hinput']; decide +kernel)
    (by rw [hinput', hsettings']; decide +kernel) (by decide) (by decide +kernel)
  rw [if_pos (by decide +kernel)] at hshows
  rw [if_neg (by decide +kernel)] at hshows'
  have hhundredth : (5.0 / 100.0 : Float) = 0.05 := by decide +kernel
  rw [hhundredth] at hshows
  exact ⟨hinput, hshows, hinput', htext.trans (by decide +kernel), hshows'⟩

/-- Not every number that has a value can be evaluated after percent. -/
theorem not_forall_shows_percent_equals :
    ¬∀ (settings : Settings) (keys : List Key) (u v : Float), settings.fault? = none →
      let s := keys.foldl press { settings }
      Decimal.readFloat? s.input.toList = some u → evaluate (settings.canonical s.input) = .ok v →
        s.fits (Display.text (u / 100.0)).length = true →
          ((s.press .percent).press .equals).Shows (.ok (v / 100.0)) := by
  intro h
  have hshows := h {} [.digit 0, .point, .digit 0, .digit 5] 0.05 0.05 (by decide)
    (by decide +kernel) (by decide +kernel) (by decide +kernel)
  exact absurd hshows.2 (by decide +kernel)

end PocketCalculator.Session
