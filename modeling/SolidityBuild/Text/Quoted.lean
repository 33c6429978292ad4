import SolidityBuild.Text.PrintTable

/-! # Quoted text: strings and lists of strings as they appear in messages -/

namespace SolidityBuild.Text

/-- Whether a character is shown as it is inside quotes. -/
def isPlain (c : Char) : Bool :=
  let n := c.toNat
  if n < 0x80 then 0x20 ≤ n && n < 0x7F
  else !(unprintableRanges.any fun (low, high) => low ≤ n && n ≤ high) &&
    !(graphemeExtendRanges.any fun (low, high) => low ≤ n && n ≤ high)

/-- A character inside quotes: a backslash escape, or its code point in lower-case
    hexadecimal when it is not printable. -/
def quoteChar (c : Char) : List Char :=
  if c = '\x22' then ['\\', '\x22']
  else if c = '\\' then ['\\', '\\']
  else if c = '\n' then ['\\', 'n']
  else if c = '\r' then ['\\', 'r']
  else if c = '\t' then ['\\', 't']
  else if c = '\x00' then ['\\', '0']
  else if isPlain c then [c]
  else ['\\', 'u', '\x7b'] ++ Nat.toDigits 16 c.toNat ++ ['\x7d']

/-- A text between double quotes. -/
def quoted (s : String) : String :=
  String.ofList ('\x22' :: (s.toList.flatMap quoteChar ++ ['\x22']))

/-- A list of quoted texts between brackets. -/
def quotedList (ss : List String) : String :=
  "[" ++ ", ".intercalate (ss.map quoted) ++ "]"

end SolidityBuild.Text
