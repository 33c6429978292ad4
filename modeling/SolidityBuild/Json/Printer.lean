import SolidityBuild.Json.Basic

/-! # Writing JSON: compact and indented

    Only the quote, the backslash and the characters below U+0020 are escaped. The indented
    form puts each item on a line of its own, two spaces deeper than its container, and
    writes empty containers in one piece.
-/

namespace SolidityBuild.Json

/-- A hexadecimal digit in lower case. -/
def hexDigit (n : Nat) : Char :=
  Nat.digitChar (n % 16)

/-- A character inside a string. -/
def escape (c : Char) : List Char :=
  if c = '\x22' then ['\\', '\x22']
  else if c = '\\' then ['\\', '\\']
  else if c = '\x08' then ['\\', 'b']
  else if c = '\x0c' then ['\\', 'f']
  else if c = '\n' then ['\\', 'n']
  else if c = '\r' then ['\\', 'r']
  else if c = '\t' then ['\\', 't']
  else if c.toNat < 0x20 then
    ['\\', 'u', '0', '0', hexDigit (c.toNat / 16), hexDigit c.toNat]
  else [c]

/-- A string between its quotes; half of a surrogate pair is all that an unpaired one is
    known to hold. -/
def Literal.spelling : Literal → List Char
  | .text s => '\x22' :: (s.toList.flatMap escape ++ ['\x22'])
  | .unpaired => '\x22' :: ("\\ud800".toList ++ ['\x22'])

mutual

/-- A value without blanks. -/
def compactChars : Json → List Char
  | .null => "null".toList
  | .bool b => (if b then "true" else "false").toList
  | .number n => n.spelling
  | .string s => s.spelling
  | .array items => '[' :: (compactItems items ++ [']'])
  | .object members => '\x7b' :: (compactMembers members ++ ['\x7d'])

/-- Items with commas between them. -/
def compactItems : List Json → List Char
  | [] => []
  | [v] => compactChars v
  | v :: rest => compactChars v ++ ',' :: compactItems rest

/-- Members with commas between them. -/
def compactMembers : List (Literal × Json) → List Char
  | [] => []
  | [(name, v)] => name.spelling ++ ':' :: compactChars v
  | (name, v) :: rest => name.spelling ++ ':' :: (compactChars v ++ ',' :: compactMembers rest)

end

/-- A new line with the blanks of a depth. -/
def indent (depth : Nat) : List Char :=
  '\n' :: List.replicate (2 * depth) ' '

mutual

/-- A value in its indented form, inside `depth` containers. -/
def prettyChars (depth : Nat) : Json → List Char
  | .null => "null".toList
  | .bool b => (if b then "true" else "false").toList
  | .number n => n.spelling
  | .string s => s.spelling
  | .array [] => "[]".toList
  | .array (v :: items) =>
    '[' :: (prettyItems (depth + 1) (v :: items) ++ indent depth ++ [']'])
  | .object [] => "\x7b\x7d".toList
  | .object (m :: members) =>
    '\x7b' :: (prettyMembers (depth + 1) (m :: members) ++ indent depth ++ ['\x7d'])

/-- Items on lines of their own. -/
def prettyItems (depth : Nat) : List Json → List Char
  | [] => []
  | [v] => indent depth ++ prettyChars depth v
  | v :: rest => indent depth ++ prettyChars depth v ++ ',' :: prettyItems depth rest

/-- Members on lines of their own. -/
def prettyMembers (depth : Nat) : List (Literal × Json) → List Char
  | [] => []
  | [(name, v)] => indent depth ++ name.spelling ++ ": ".toList ++ prettyChars depth v
  | (name, v) :: rest =>
    indent depth ++ name.spelling ++ ": ".toList ++ prettyChars depth v ++
      ',' :: prettyMembers depth rest

end

/-- The value without blanks. -/
def compact (v : Json) : String :=
  String.ofList (compactChars v)

/-- The value in its indented form. -/
def pretty (v : Json) : String :=
  String.ofList (prettyChars 0 v)

end SolidityBuild.Json
