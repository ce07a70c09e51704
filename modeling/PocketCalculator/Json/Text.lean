/-!
# Quoted text

A quoted text is a list of parts, since an escape `\u` with four digits gives a UTF-16 unit and not
a character. Parts denote characters if every surrogate unit belongs to a pair. `read?` reads what
stands behind the opening quote, `write` quotes characters, with escapes only where they are needed.
-/

namespace PocketCalculator.Json

/-- A part of a quoted text: a character, written as itself or with a short escape, or a UTF-16
unit, written with four hexadecimal digits. -/
inductive Part where
  | char (c : Char)
  | unit (u : Nat)
  deriving DecidableEq, Repr

/-- The parts of a quoted text. -/
abbrev Text := List Part

namespace Text

/-- The value of a hexadecimal digit in either case. -/
def hexDigit? (c : Char) : Option Nat :=
  if c.isDigit then some (c.toNat - '0'.toNat)
  else if 'a' ≤ c ∧ c ≤ 'f' then some (c.toNat - 'a'.toNat + 10)
  else if 'A' ≤ c ∧ c ≤ 'F' then some (c.toNat - 'A'.toNat + 10)
  else none

/-- The unit with four given hexadecimal digits. -/
def hexUnit? (a b c d : Char) : Option Nat := do
  some (16 * (16 * (16 * (← hexDigit? a) + (← hexDigit? b)) + (← hexDigit? c)) + (← hexDigit? d))

/-- The character that a backslash and a given character stand for. -/
def shortEscape? : Char → Option Char
  | '"' => some '"'
  | '\\' => some '\\'
  | '/' => some '/'
  | 'b' => some '\x08'
  | 'f' => some '\x0C'
  | 'n' => some '\n'
  | 'r' => some '\r'
  | 't' => some '\t'
  | _ => none

/-- Whether a character must not stand for itself in a quoted text. -/
def isControl (c : Char) : Bool :=
  c.toNat < 0x20

/-- Reads the parts up to the closing quote, and gives what is behind the quote as well. -/
def read? : List Char → Option (Text × List Char)
  | [] => none
  | '"' :: rest => some ([], rest)
  | '\\' :: 'u' :: a :: b :: c :: d :: rest => do
    let u ← hexUnit? a b c d
    let (text, rest) ← read? rest
    some (.unit u :: text, rest)
  | '\\' :: e :: rest => do
    let c ← shortEscape? e
    let (text, rest) ← read? rest
    some (.char c :: text, rest)
  | c :: rest =>
    if c = '\\' || isControl c then none
    else do
      let (text, rest) ← read? rest
      some (.char c :: text, rest)

/-- Whether a unit is the first of a surrogate pair. -/
def isHigh (u : Nat) : Bool :=
  0xD800 ≤ u && u < 0xDC00

/-- Whether a unit is the second of a surrogate pair. -/
def isLow (u : Nat) : Bool :=
  0xDC00 ≤ u && u < 0xE000

/-- The character that a surrogate pair stands for. -/
def ofPair (high low : Nat) : Char :=
  .ofNat (0x10000 + 0x400 * (high - 0xD800) + (low - 0xDC00))

/-- The characters that parts denote. A surrogate unit outside a pair denotes none. -/
def chars? : Text → Option (List Char)
  | [] => some []
  | .char c :: rest => (chars? rest).map (c :: ·)
  | .unit u :: .unit v :: rest =>
    if isHigh u && isLow v then (chars? rest).map (ofPair u v :: ·)
    else if isHigh u || isLow u then none
    else (chars? (.unit v :: rest)).map (.ofNat u :: ·)
  | .unit u :: rest =>
    if isHigh u || isLow u then none else (chars? rest).map (.ofNat u :: ·)

/-- A hexadecimal digit in lower case. -/
def hexChar (n : Nat) : Char :=
  (n % 16).digitChar

/-- A character of a quoted text in its written form. -/
def writeChar (c : Char) : List Char :=
  match c with
  | '"' => ['\\', '"']
  | '\\' => ['\\', '\\']
  | '\x08' => ['\\', 'b']
  | '\x0C' => ['\\', 'f']
  | '\n' => ['\\', 'n']
  | '\r' => ['\\', 'r']
  | '\t' => ['\\', 't']
  | c =>
    if isControl c then ['\\', 'u', '0', '0', hexChar (c.toNat / 16), hexChar c.toNat]
    else [c]

/-- Characters in quotes. -/
def write (cs : List Char) : List Char :=
  '"' :: cs.flatMap writeChar ++ ['"']

end Text

end PocketCalculator.Json
