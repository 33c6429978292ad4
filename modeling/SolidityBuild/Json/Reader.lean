import SolidityBuild.Json.Token

/-! # Reading JSON: one token at a time

    The reader is a stack machine, so that no depth of nesting is too deep for it. Each
    state says what it waits for; a text is a value when the machine ends with one complete
    value and an empty stack.
-/

namespace SolidityBuild.Json

/-- A container that is still open, with what it holds so far in reverse. -/
inductive Frame where
  | array (items : List Json)
  /-- an object whose next value belongs to `name` -/
  | member (members : List (Literal × Json)) (name : Literal)
deriving Inhabited

/-- What the reader waits for, under the open containers. -/
inductive Reading where
  /-- a value -/
  | value (stack : List Frame)
  /-- a first item or the end of an array -/
  | firstItem (stack : List Frame)
  /-- a first name or the end of an object -/
  | firstName (stack : List Frame)
  /-- a name -/
  | memberName (members : List (Literal × Json)) (stack : List Frame)
  /-- the colon after a name -/
  | colon (members : List (Literal × Json)) (name : Literal) (stack : List Frame)
  /-- what follows a complete value -/
  | after (v : Json) (stack : List Frame)
deriving Inhabited

namespace Reading

/-- A token where a value must start. -/
def start (stack : List Frame) : Token → Option Reading
  | .null => some (.after .null stack)
  | .bool b => some (.after (.bool b) stack)
  | .number n => some (.after (.number n) stack)
  | .string s => some (.after (.string s) stack)
  | .openArray => some (.firstItem stack)
  | .openObject => some (.firstName stack)
  | _ => none

/-- One more token. -/
def step : Reading → Token → Option Reading
  | .value stack, t => start stack t
  | .firstItem stack, .closeArray => some (.after (.array []) stack)
  | .firstItem stack, t => start (.array [] :: stack) t
  | .firstName stack, .closeObject => some (.after (.object []) stack)
  | .firstName stack, .string s => some (.colon [] s stack)
  | .memberName members stack, .string s => some (.colon members s stack)
  | .colon members name stack, .colon => some (.value (.member members name :: stack))
  | .after v (.array items :: stack), .comma => some (.value (.array (v :: items) :: stack))
  | .after v (.array items :: stack), .closeArray =>
    some (.after (.array (v :: items).reverse) stack)
  | .after v (.member members name :: stack), .comma =>
    some (.memberName ((name, v) :: members) stack)
  | .after v (.member members name :: stack), .closeObject =>
    some (.after (.object ((name, v) :: members).reverse) stack)
  | _, _ => none

end Reading

/-- The value that a list of tokens spells, if it spells one and nothing more. -/
def ofTokens? (tokens : List Token) : Option Json :=
  match tokens.foldlM Reading.step (.value []) with
  | some (.after v []) => some v
  | _ => none

/-- The value that a text spells. -/
def ofChars? (cs : List Char) : Option Json :=
  (tokens? cs).bind ofTokens?

/-- The value that a text spells. -/
def ofText? (s : String) : Option Json :=
  ofChars? s.toList

end SolidityBuild.Json
