import PocketCalculator.Json.Lexer

/-!
# Reading values

A value is read one token at a time. What has been read of the arrays and objects around the current
place is kept on a stack, so that texts may be nested to any depth.
-/

namespace PocketCalculator.Json

/-- An array or an object that has been read up to one of its values. -/
inductive Frame where
  /-- The items before the current one, the last one first. -/
  | array (done : List Value)
  /-- The members before the current one, the last one first, and the key of the current one. -/
  | object (done : List (Text × Value)) (key : Text)

/-- A place between two tokens. -/
inductive Place where
  /-- A value comes next. -/
  | value (around : List Frame)
  /-- Behind the beginning of an array. -/
  | arrayBegun (around : List Frame)
  /-- Behind the beginning of an object. -/
  | objectBegun (around : List Frame)
  /-- A key comes next, after members that have been read. -/
  | key (done : List (Text × Value)) (around : List Frame)
  /-- A colon comes next, behind a key. -/
  | colon (done : List (Text × Value)) (key : Text) (around : List Frame)
  /-- A value has been read. -/
  | after (v : Value) (around : List Frame)

namespace Place

/-- Reads the first token of a value. -/
def stepValue (around : List Frame) : Token → Option Place
  | .null => some (.after .null around)
  | .bool b => some (.after (.bool b) around)
  | .number digits => some (.after (.number digits) around)
  | .text t => some (.after (.text t) around)
  | .beginArray => some (.arrayBegun around)
  | .beginObject => some (.objectBegun around)
  | .endArray | .endObject | .comma | .colon => none

/-- Reads one token. -/
def step : Place → Token → Option Place
  | .value around, t => stepValue around t
  | .arrayBegun around, .endArray => some (.after (.array []) around)
  | .arrayBegun around, t => stepValue (.array [] :: around) t
  | .objectBegun around, .endObject => some (.after (.object []) around)
  | .objectBegun around, .text k => some (.colon [] k around)
  | .objectBegun _, _ => none
  | .key done around, .text k => some (.colon done k around)
  | .key _ _, _ => none
  | .colon done k around, .colon => some (.value (.object done k :: around))
  | .colon _ _ _, _ => none
  | .after v (.array done :: around), .comma => some (.value (.array (v :: done) :: around))
  | .after v (.array done :: around), .endArray =>
    some (.after (.array (v :: done).reverse) around)
  | .after v (.object done k :: around), .comma => some (.key ((k, v) :: done) around)
  | .after v (.object done k :: around), .endObject =>
    some (.after (.object ((k, v) :: done).reverse) around)
  | .after _ _, _ => none

end Place

/-- The value that consists of given tokens. -/
def ofTokens? (tokens : List Token) : Option Value :=
  match tokens.foldlM Place.step (.value []) with
  | some (.after v []) => some v
  | _ => none

/-- The value that a text denotes. -/
def read? (cs : List Char) : Option Value :=
  (tokens? cs).bind ofTokens?

end PocketCalculator.Json
