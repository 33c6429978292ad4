import SolidityBuild.Path.Normal
import SolidityBuild.Text.Blank

/-! # Remappings: prefix substitutions for imports

    A remapping replaces the stem of an import by a target. Its context, if it has one,
    restricts it to importing files below a directory. The written form is
    `context:stem=target`, or `stem=target` without a context.
-/

namespace SolidityBuild

/-- One substitution of an import's stem. -/
structure Remapping where
  /-- the directory that importing files must lie in -/
  context : Option String := none
  /-- what an import must start with -/
  stem : String
  /-- what replaces it; a relative target is seen from the project root -/
  target : String
deriving DecidableEq, Inhabited

namespace Remapping

/-- The file that lists a project's remappings, one a line. -/
def fileName : String := "remappings.txt"

/-- Why a written remapping is refused; each cause carries the trimmed line. -/
inductive Fault where
  /-- no `=` separates stem and target -/
  | missingTarget (line : String)
  /-- nothing stands where the stem should be -/
  | emptyStem (line : String)
deriving DecidableEq

/-- The message for a refused remapping. -/
def Fault.message : Fault → String
  | missingTarget line => "Invalid remapping '" ++ line ++ "': expected 'prefix=target'"
  | emptyStem line => "Invalid remapping '" ++ line ++ "': prefix cannot be empty"

/-! ## Reading and writing -/

/-- A context, where the empty one is none. -/
def contextOf (s : String) : Option String :=
  if s.isEmpty then none else some s

/-- The remapping with its context replaced. -/
def withContext (r : Remapping) (context : String) : Remapping :=
  { r with context := contextOf context }

/-- Reads `stem=target` or `context:stem=target`; blanks around each part are dropped. -/
def parse (s : String) : Except Fault Remapping :=
  let line := Text.trimChars s.toList
  match Text.splitFirst '=' line with
  | none => .error (.missingTarget (String.ofList line))
  | some (left, target) =>
    let (context, stem) := (Text.splitFirst ':' left).getD ([], left)
    let stem := Text.trimChars stem
    if stem.isEmpty then .error (.emptyStem (String.ofList line))
    else .ok {
      context := contextOf (String.ofList (Text.trimChars context))
      stem := String.ofList stem
      target := String.ofList (Text.trimChars target) }

/-- The written form. -/
def written (r : Remapping) : String :=
  match r.context with
  | some context => context ++ ":" ++ r.stem ++ "=" ++ r.target
  | none => r.stem ++ "=" ++ r.target

/-- The lines of a list that hold a remapping: trimmed, and neither blank nor a comment. -/
def entries (text : String) : List String :=
  ((Text.lines text.toList).map Text.trimChars).filterMap fun line =>
    if line.isEmpty || line.head? = some '#' then none else some (String.ofList line)

/-- Reads a list of remappings, one a line; the first refused line decides. -/
def parseList (text : String) : Except Fault (List Remapping) :=
  (entries text).mapM parse

/-! ## Matching -/

/-- What follows the stem in an import that starts with it. -/
def suffix? (r : Remapping) (specifier : String) : Option String :=
  if r.stem.toList.isPrefixOf specifier.toList then
    some (String.ofList (specifier.toList.drop r.stem.toList.length))
  else none

/-- The length of the context in bytes, zero without one. -/
def contextSize (r : Remapping) : Nat :=
  (r.context.map String.utf8ByteSize).getD 0

end Remapping

end SolidityBuild
