/-! # Comments in a source text

    A comment runs from `//` to the end of the line or from two characters `/*` to the next
    `*/`, unless it would start inside a string. Blanking a comment keeps its line feeds and
    its length, so that nothing behind it moves.
-/

namespace SolidityBuild.Source

/-- What surrounds a character of a source text. -/
inductive Mode where
  | code
  | lineComment
  | blockComment
  /-- a string that the quote character closes -/
  | quoted (quote : Char)
deriving DecidableEq, Inhabited

/-- Whether a character opens a string. -/
def isQuote (c : Char) : Bool :=
  c = '\x22' || c = '\x27'

/-- For each character from a mode on, whether it is inside a comment. A line feed ends a
    line comment without being a part of it, and it ends a string too; a backslash in a
    string keeps the next character from ending it. -/
def commentMarks : Mode → List Char → List Bool
  | _, [] => []
  | .code, '/' :: '/' :: cs => true :: true :: commentMarks .lineComment cs
  | .code, '/' :: '*' :: cs => true :: true :: commentMarks .blockComment cs
  | .code, c :: cs => false :: commentMarks (if isQuote c then .quoted c else .code) cs
  | .lineComment, '\n' :: cs => false :: commentMarks .code cs
  | .lineComment, _ :: cs => true :: commentMarks .lineComment cs
  | .blockComment, '*' :: '/' :: cs => true :: true :: commentMarks .code cs
  | .blockComment, _ :: cs => true :: commentMarks .blockComment cs
  | .quoted quote, '\\' :: _ :: cs => false :: false :: commentMarks (.quoted quote) cs
  | .quoted quote, c :: cs =>
    false :: commentMarks (if c = quote || c = '\n' then .code else .quoted quote) cs

/-- A character as it is left when the comments are blanked. -/
def blank (inComment : Bool) (c : Char) : Char :=
  if inComment && c ≠ '\n' then ' ' else c

/-- The text with each comment replaced by spaces. -/
def blankComments (cs : List Char) : List Char :=
  List.zipWith blank (commentMarks .code cs) cs

end SolidityBuild.Source
