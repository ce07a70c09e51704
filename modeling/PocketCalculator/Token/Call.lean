import PocketCalculator.Token

/-!
# Calls of a token reader

A token reader has one text, of which some characters are left. It can be asked for the next item,
for all tokens and for all items, in any order; every call goes on with the characters that the call
before it has left.
-/

namespace PocketCalculator.Token

/-- What a token reader is asked for. -/
inductive Call where
  /-- The next item. -/
  | next
  /-- The tokens up to the end of the text, or the first error on the way there. -/
  | readAll
  /-- All items up to the end of the text. -/
  | items
  deriving DecidableEq, Repr

/-- What a token reader answers. -/
inductive Answer where
  /-- The next item, unless only blanks were left. -/
  | next (item : Option Item)
  | readAll (tokens : Except EvalError (List Token))
  | items (items : List Item)

/-- The answer to a call while given characters are left, and the characters left behind it. -/
def Call.serve (cs : List Char) : Call → Answer × List Char
  | next => match next? cs with
    | some (item, rest) => (.next (some item), rest)
    | none => (.next none, [])
  | readAll => let (tokens, rest) := Token.readAll cs; (.readAll tokens, rest)
  | items => (.items (Token.items cs), [])

/-- The answers to calls in their order, and the characters left behind them. -/
def serveAll (cs : List Char) : List Call → List Answer × List Char
  | [] => ([], cs)
  | call :: calls =>
    let (answer, rest) := call.serve cs
    let (answers, rest) := serveAll rest calls
    (answer :: answers, rest)

end PocketCalculator.Token
