import SolidityBuild.Json.Numeral

/-! # JSON values

    Objects keep their members in order and keep repeated names, so that reading loses
    nothing that was written.
-/

namespace SolidityBuild

namespace Json

/-- A JSON string: a text, or escapes that hold half of a surrogate pair and stand for
    none. -/
inductive Literal where
  | text (s : String)
  | unpaired
deriving DecidableEq, Inhabited

/-- The text of a string that stands for one. -/
def Literal.text? : Literal → Option String
  | .text s => some s
  | .unpaired => none

end Json

/-- A JSON value. -/
inductive Json where
  | null
  | bool (b : Bool)
  | number (n : Json.Numeral)
  | string (s : Json.Literal)
  | array (items : List Json)
  | object (members : List (Json.Literal × Json))
deriving Inhabited

namespace Json

/-- The string of a text. -/
def ofString (s : String) : Json :=
  .string (.text s)

/-- The number of a natural number. -/
def ofNat (n : Nat) : Json :=
  .number (.ofNat n)

/-- The array of some texts. -/
def ofStrings (ss : List String) : Json :=
  .array (ss.map ofString)

/-- An object with texts as names. -/
def record (members : List (String × Json)) : Json :=
  .object (members.map fun (name, value) => (.text name, value))

end Json

end SolidityBuild
