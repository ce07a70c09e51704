import PocketCalculator.Json.Reader
import PocketCalculator.Settings

/-!
# Settings as text

Settings are written as an object with one member for each setting, and read from an object, or from
an array of values in the order of the settings. What is not given has its default value. Members
with other names are passed over, whatever their values are.
-/

namespace PocketCalculator.Settings

open Json

/-- The name of the error text in a settings text. -/
def errorTextName : String := "error_text"

/-- The name of the input limit in a settings text. -/
def inputLimitName : String := "max_input_len"

/-- The names of all settings, in order. -/
def names : List String :=
  [errorTextName, GlyphField.multiply.name, GlyphField.divide.name, inputLimitName]

/-! ## Writing -/

/-- A member on a line of its own. -/
def writeMember (name : String) (value : List Char) : List Char :=
  ' ' :: ' ' :: Text.write name.toList ++ ':' :: ' ' :: value

/-- The settings text of given settings. -/
def toJson (s : Settings) : String :=
  .ofList <|
    '\x7b' :: '\n' ::
      writeMember errorTextName (Text.write s.errorText.toList) ++
      ',' :: '\n' :: writeMember GlyphField.multiply.name (Text.write [s.multiplyGlyph]) ++
      ',' :: '\n' :: writeMember GlyphField.divide.name (Text.write [s.divideGlyph]) ++
      ',' :: '\n' :: writeMember inputLimitName (Nat.toDigits 10 s.inputLimit.toNat) ++
      ['\n', '\x7d']

/-! ## Reading -/

/-- Reads characters. -/
def chars? : Value → Option (List Char)
  | .text t => Text.chars? t
  | _ => none

/-- Reads a text of one character. -/
def glyph? (v : Value) : Option Char :=
  match chars? v with
  | some [c] => some c
  | _ => none

/-- Reads a number of 64 bits in plain digits. -/
def limit? : Value → Option UInt64
  | .number digits =>
    let n := Nat.ofDigitChars 10 digits 0
    if digits.all Char.isDigit && n < UInt64.size then some (.ofNat n) else none
  | _ => none

/-- Reads the member with a given name, which must not occur twice. -/
def member? {α : Type} (members : List (List Char × Value)) (name : String) (default : α)
    (read : Value → Option α) : Option α :=
  match members.filter fun m => m.1 == name.toList with
  | [] => some default
  | [m] => read m.2
  | _ => none

/-- The settings with given members. -/
def ofMembers? (members : List (List Char × Value)) : Option Settings := do
  let default : Settings := {}
  let errorText ← member? members errorTextName default.errorText
    fun v => (chars? v).map .ofList
  let multiplyGlyph ← member? members GlyphField.multiply.name default.multiplyGlyph glyph?
  let divideGlyph ← member? members GlyphField.divide.name default.divideGlyph glyph?
  let inputLimit ← member? members inputLimitName default.inputLimit limit?
  some { errorText, multiplyGlyph, divideGlyph, inputLimit }

/-- The settings that a value denotes. -/
def ofValue? : Value → Option Settings
  | .object members => do
    ofMembers? (← members.mapM fun (key, v) => do some (← Text.chars? key, v))
  | .array items =>
    if items.length ≤ names.length then ofMembers? ((names.map String.toList).zip items) else none
  | _ => none

/-- Why settings cannot be loaded. -/
inductive LoadError where
  /-- The text denotes no settings. -/
  | unreadable
  /-- The text denotes settings with a fault. -/
  | invalid (fault : Fault)
  deriving DecidableEq, Repr

namespace LoadError

/-- A short name of the cause. -/
def kind : LoadError → String
  | unreadable => "parse"
  | invalid _ => "invalid"

/-- The cause in words. -/
def message : LoadError → String
  | unreadable => "Config parse error"
  | invalid fault => "Invalid config: " ++ fault.message

end LoadError

/-- The valid settings that a settings text denotes. -/
def ofJson (text : String) : Except LoadError Settings :=
  match (read? text.toList).bind ofValue? with
  | none => .error .unreadable
  | some s => match s.fault? with
    | some fault => .error (.invalid fault)
    | none => .ok s

end PocketCalculator.Settings
