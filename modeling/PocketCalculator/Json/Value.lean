import PocketCalculator.Json.Text

/-!
# Values and their tokens

A value of the data format keeps what its text says: numbers are kept as they are written, quoted
texts in their parts, and the members of an object in order and with repetitions.
-/

namespace PocketCalculator.Json

/-- A value of the data format. -/
inductive Value where
  | null
  | bool (b : Bool)
  | number (digits : List Char)
  | text (t : Text)
  | array (items : List Value)
  | object (members : List (Text × Value))

/-- A token of the data format. -/
inductive Token where
  | beginArray
  | endArray
  | beginObject
  | endObject
  | comma
  | colon
  | null
  | bool (b : Bool)
  | number (digits : List Char)
  | text (t : Text)
  deriving DecidableEq, Repr

mutual

/-- The tokens that a value is written with. -/
def Value.tokens : Value → List Token
  | .null => [.null]
  | .bool b => [.bool b]
  | .number digits => [.number digits]
  | .text t => [.text t]
  | .array items => .beginArray :: itemTokens items ++ [.endArray]
  | .object members => .beginObject :: memberTokens members ++ [.endObject]

/-- The tokens of items with commas between them. -/
def Value.itemTokens : List Value → List Token
  | [] => []
  | [v] => v.tokens
  | v :: w :: rest => v.tokens ++ .comma :: itemTokens (w :: rest)

/-- The tokens of members with commas between them. -/
def Value.memberTokens : List (Text × Value) → List Token
  | [] => []
  | [(key, v)] => .text key :: .colon :: v.tokens
  | (key, v) :: m :: rest => .text key :: .colon :: v.tokens ++ .comma :: memberTokens (m :: rest)

end

end PocketCalculator.Json
