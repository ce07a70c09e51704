import PocketCalculator.Display
import PocketCalculator.Glyphs
import PocketCalculator.Key

/-!
# A session at the keypad

Keys edit an input line, and the key for equals evaluates it and shows the value, or the error text,
on a result line.
-/

namespace PocketCalculator

/-- The two lines of a calculator, and why the result line shows the error text if it does. -/
structure Session where
  settings : Settings := {}
  input : String := ""
  result : String := ""
  error : Option EvalError := none

namespace Session

/-- Whether an input line of `n` characters is within the limit. -/
def fits (s : Session) (n : Nat) : Bool :=
  s.settings.inputLimit == 0 || n ≤ s.settings.inputLimit.toNat

/-- Types a text at the end of the input line, all of it or nothing. -/
def append (s : Session) (text : String) : Session :=
  if s.fits (s.input.length + text.length) then { s with input := s.input ++ text } else s

/-- Deletes the last character of the input line. -/
def deleteLast (s : Session) : Session :=
  { s with input := .ofList s.input.toList.dropLast }

/-- Divides the number on the input line by a hundred. An input line that is no number, or would
get too long, stays as it is. -/
def percent (s : Session) : Session :=
  match Decimal.readFloat? s.input.toList with
  | some v =>
    let text := Display.text (v / 100.0)
    if s.fits text.length then { s with input := text } else s
  | none => s

/-- Evaluates the input line and shows the outcome. -/
def equals (s : Session) : Session :=
  match evaluateDisplayed s.settings s.input with
  | .ok v => { s with result := Display.text v, error := none }
  | .error e => { s with result := s.settings.errorText, error := some e }

/-- Presses a key. -/
def press (s : Session) : Key → Session
  | .delete => s.deleteLast
  | .clear => { settings := s.settings }
  | .percent => s.percent
  | .equals => s.equals
  | key => match key.typed? s.settings with
    | some text => s.append text
    | none => s

/-- Presses the key with a given label, if there is one. -/
def pressLabel? (s : Session) (label : String) : Option Session :=
  (Key.ofLabel? label).map s.press

/-- Presses the keys with given labels and passes over labels that are unknown. -/
def pressLabels (s : Session) (labels : List String) : Session :=
  labels.foldl (fun s label => (s.pressLabel? label).getD s) s

end Session

end PocketCalculator
