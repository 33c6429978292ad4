import SolidityBuild.Text.WordTable

/-! # Word characters and word boundaries -/

namespace SolidityBuild.Text

/-- Alphabetic characters, marks, decimal digits, connector punctuation and join controls. -/
def isWord (c : Char) : Bool :=
  if c.toNat < 0x80 then c.isAlphanum || c = '_'
  else wordRanges.any fun (low, high) => low ≤ c.toNat && c.toNat ≤ high

/-- Whether the neighbour that a text has at one side, if any, is a word character. -/
def isWordAt (c? : Option Char) : Bool :=
  c?.any isWord

end SolidityBuild.Text
