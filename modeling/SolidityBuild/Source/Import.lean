import SolidityBuild.Source.Comment
import SolidityBuild.Text.Blank
import SolidityBuild.Text.Split
import SolidityBuild.Text.Word

/-! # Import directives in a source text

    A directive is the word `import`, a clause and a path between quotes. The clause is
    blank, or it holds no semicolon and its last word is `from`. The clause ends at the
    first quote character and the path at the next one, whichever of the two kinds they are.
-/

namespace SolidityBuild.Source

theorem isWord_of_isQuote {c : Char} (h : isQuote c = true) : Text.isWord c = false := by
  unfold isQuote at h
  rcases Bool.or_eq_true_iff.1 h with h | h
  · rw [of_decide_eq_true h]
    decide
  · rw [of_decide_eq_true h]
    decide

/-- The word that starts a directive. -/
def importWord : List Char := "import".toList

/-- The word that ends a clause before a path, in reverse. -/
def fromWordReversed : List Char := "morf".toList

/-- Whether a clause, the text between `import` and the first quote, leads to a path. -/
def leadsToPath (clause : List Char) : Bool :=
  clause.all Text.isBlank ||
    !clause.contains ';' &&
      match Text.strip? fromWordReversed (clause.reverse.dropWhile Text.isBlank) with
      | some (c :: _) => !Text.isWord c
      | _ => false

/-- The path of a directive whose text after `import` is given, and the text after the
    quote that closes it. -/
def pathAfter? (cs : List Char) : Option (String × List Char) :=
  let clause := cs.takeWhile (!isQuote ·)
  if leadsToPath clause then
    let body := (cs.drop clause.length).drop 1
    let path := body.takeWhile (!isQuote ·)
    match body.drop path.length with
    | [] => none
    | _ :: rest => if path.isEmpty then none else some (String.ofList path, rest)
  else none

theorem pathAfter?_length {cs rest : List Char} {path : String}
    (h : pathAfter? cs = some (path, rest)) : rest.length < cs.length := by
  simp only [pathAfter?] at h
  split at h
  · split at h
    · simp at h
    · rename_i hd
      split at h
      · simp at h
      · have := congrArg List.length hd
        simp only [List.length_drop, List.length_cons] at this
        simp only [Option.some.injEq, Prod.mk.injEq] at h
        have := congrArg List.length h.2
        omega
  · simp at h

/-- The directive that starts with a text, given the character before it. -/
def directive? (before : Option Char) (cs : List Char) : Option (String × List Char) :=
  if Text.isWordAt before then none else (Text.strip? importWord cs).bind pathAfter?

theorem directive?_length {before : Option Char} {cs rest : List Char} {path : String}
    (h : directive? before cs = some (path, rest)) : rest.length < cs.length := by
  unfold directive? at h
  split at h
  · simp at h
  · obtain ⟨after, hs, hp⟩ := Option.bind_eq_some_iff.1 h
    exact Nat.lt_of_lt_of_le (pathAfter?_length hp) (Text.strip?_length hs)

/-- The paths of the directives in a text without comments, given the character before
    it. -/
def paths (before : Option Char) (cs : List Char) : List String :=
  match _h : directive? before cs with
  | some (path, rest) => path :: paths (some '\x22') rest
  | none => match cs with
    | [] => []
    | c :: rest => paths (some c) rest
termination_by cs.length
decreasing_by
  · exact directive?_length _h
  · simp

/-- The paths of the import directives of a source text, in order. -/
def imports (code : String) : List String :=
  paths none (blankComments code.toList)

end SolidityBuild.Source
