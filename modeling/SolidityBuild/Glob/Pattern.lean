import SolidityBuild.Text.Split

/-! # Glob patterns: reading and matching

    `?` stands for one character, `*` for any number of them, a bracket for one character of
    a class, and `**` between slashes for any number of whole segments. Both wildcards also
    match slashes, so a pattern of one segment can match a longer path.
-/

namespace SolidityBuild

/-- One alternative in a character class. -/
inductive ClassItem where
  | single (c : Char)
  | range (low high : Char)
deriving DecidableEq, Inhabited

/-- Whether an alternative covers a character. -/
def ClassItem.covers (c : Char) : ClassItem → Bool
  | .single d => c = d
  | .range low high => low ≤ c && c ≤ high

/-- A piece of a glob pattern. -/
inductive GlobToken where
  | char (c : Char)
  | anyChar
  /-- any characters -/
  | anySequence
  /-- any segments, each with the slash after it -/
  | anySegments
  | within (items : List ClassItem)
  | except (items : List ClassItem)
deriving DecidableEq, Inhabited

/-- The character that a token stands for, when it stands for itself only. -/
def GlobToken.char? : GlobToken → Option Char
  | .char c => some c
  | _ => none

/-- A glob pattern. -/
structure Glob where
  tokens : List GlobToken
deriving DecidableEq, Inhabited

namespace Glob

/-- What is wrong with the spelling of a pattern. -/
inductive Mistake where
  | invalidRange
  | tooManyStars
  | partialSegments
deriving DecidableEq, Inhabited

/-- A mistake and its place, counted in characters. -/
structure Error where
  position : Nat
  mistake : Mistake
deriving DecidableEq, Inhabited

/-- The text for a mistake. -/
def Mistake.message : Mistake → String
  | invalidRange => "invalid range pattern"
  | tooManyStars => "wildcards are either regular `*` or recursive `**`"
  | partialSegments => "recursive wildcards must form a single path component"

/-- The message for a misspelled pattern. -/
def Error.message (e : Error) : String :=
  "Pattern syntax error near position " ++ toString e.position ++ ": " ++ e.mistake.message

/-! ## Reading -/

/-- The alternatives of a character class. -/
def classItems : List Char → List ClassItem
  | low :: '-' :: high :: rest => .range low high :: classItems rest
  | c :: rest => .single c :: classItems rest
  | [] => []

/-- Reads a class after its opening bracket. A bracket that closes it does not count as its
    first character. -/
def readClass? : List Char → Option (GlobToken × List Char)
  | '!' :: first :: rest =>
    (Text.splitFirst ']' rest).map fun (more, rest) => (.except (classItems (first :: more)), rest)
  | '!' :: [] => none
  | first :: rest =>
    (Text.splitFirst ']' rest).map fun (more, rest) => (.within (classItems (first :: more)), rest)
  | [] => none

/-- Reads two stars at a position, given the character before them and the text after. -/
def readSegments (position : Nat) (before : Option Char) (after : List Char) :
    Except Error (List Char) :=
  if before.all (· = '/') then
    match after with
    | [] => .ok []
    | '/' :: rest => .ok rest
    | _ => .error { position := position + 2, mistake := .partialSegments }
  else .error { position := position - 1, mistake := .partialSegments }

/-- Reads the token at a position, given the character before it. -/
def readToken (position : Nat) (before : Option Char) (c : Char) (rest : List Char) :
    Except Error (GlobToken × List Char) :=
  match c with
  | '?' => .ok (.anyChar, rest)
  | '*' =>
    match rest with
    | '*' :: '*' :: _ => .error { position := position + 2, mistake := .tooManyStars }
    | '*' :: after => (readSegments position before after).map fun rest => (.anySegments, rest)
    | _ => .ok (.anySequence, rest)
  | '[' =>
    match readClass? rest with
    | some (token, rest) => .ok (token, rest)
    | none => .error { position, mistake := .invalidRange }
  | c => .ok (.char c, rest)

theorem readClass?_length {cs rest : List Char} {token : GlobToken}
    (h : readClass? cs = some (token, rest)) : rest.length < cs.length := by
  unfold readClass? at h
  split at h
  · obtain ⟨⟨more, after⟩, hs, heq⟩ := Option.map_eq_some_iff.1 h
    have := Text.splitFirst_length hs
    simp only [Prod.mk.injEq] at heq
    simp only [← heq.2, List.length_cons]
    omega
  · simp at h
  · obtain ⟨⟨more, after⟩, hs, heq⟩ := Option.map_eq_some_iff.1 h
    have := Text.splitFirst_length hs
    simp only [Prod.mk.injEq] at heq
    simp only [← heq.2, List.length_cons]
    omega
  · simp at h

theorem readSegments_length {position : Nat} {before : Option Char} {after rest : List Char}
    (h : readSegments position before after = .ok rest) : rest.length ≤ after.length := by
  unfold readSegments at h
  split at h
  · split at h <;> simp_all
  · simp at h

theorem readToken_length {position : Nat} {before : Option Char} {c : Char}
    {rest after : List Char} {token : GlobToken}
    (h : readToken position before c rest = .ok (token, after)) :
    after.length ≤ rest.length := by
  unfold readToken at h
  split at h
  · simp only [Except.ok.injEq, Prod.mk.injEq] at h
    exact Nat.le_of_eq (by rw [h.2])
  · split at h
    · simp at h
    · rename_i following _
      cases hr : readSegments position before following with
      | error e => simp [hr, Except.map] at h
      | ok remaining =>
        simp only [hr, Except.map, Except.ok.injEq, Prod.mk.injEq] at h
        have := readSegments_length hr
        simp only [← h.2, List.length_cons]
        omega
    · simp only [Except.ok.injEq, Prod.mk.injEq] at h
      exact Nat.le_of_eq (by rw [h.2])
  · split at h
    · rename_i hc
      simp only [Except.ok.injEq, Prod.mk.injEq] at h
      rw [← h.2]
      exact Nat.le_of_lt (readClass?_length hc)
    · simp at h
  · simp only [Except.ok.injEq, Prod.mk.injEq] at h
    exact Nat.le_of_eq (by rw [h.2])

/-- Reads the tokens from a position on, given the character before it. -/
def readTokens (position : Nat) (before : Option Char) (cs : List Char) :
    Except Error (List GlobToken) :=
  match cs with
  | [] => .ok []
  | c :: rest =>
    match _h : readToken position before c rest with
    | .error e => .error e
    | .ok (token, after) =>
      let taken := rest.length - after.length
      match readTokens (position + taken + 1) ((c :: rest)[taken]?) after with
      | .error e => .error e
      | .ok tokens => .ok (token :: tokens)
termination_by cs.length
decreasing_by
  have := readToken_length _h
  simp only [List.length_cons]
  omega

/-- Reads a pattern. -/
def ofChars (cs : List Char) : Except Error Glob :=
  (readTokens 0 none cs).map Glob.mk

/-- Reads a pattern. -/
def ofText (s : String) : Except Error Glob :=
  ofChars s.toList

/-- A character as a pattern that matches only it. -/
def escapeChar (c : Char) : List Char :=
  if c = '?' || c = '*' || c = '[' || c = ']' then ['[', c, ']'] else [c]

/-- The pattern that matches only a text. -/
def escape (cs : List Char) : List Char :=
  cs.flatMap escapeChar

/-! ## Matching -/

/-- Whether a token of one character matches it. -/
def matchesChar (c : Char) : GlobToken → Bool
  | .char d => c = d
  | .anyChar => true
  | .within items => items.any (·.covers c)
  | .except items => !items.any (·.covers c)
  | .anySequence => false
  | .anySegments => false

/-- What may remain after any number of characters. -/
def afterAny : List Char → List (List Char)
  | [] => [[]]
  | c :: cs => (c :: cs) :: afterAny cs

/-- What may remain after a slash, or after all. -/
def afterSlash : List Char → List (List Char)
  | [] => [[]]
  | c :: cs => if c = '/' then cs :: afterSlash cs else afterSlash cs

/-- Whether tokens match exactly some characters. -/
def matchesChars : List GlobToken → List Char → Bool
  | [], cs => cs.isEmpty
  | .anySequence :: tokens, cs => (afterAny cs).any (matchesChars tokens)
  | .anySegments :: tokens, cs => (cs :: afterSlash cs).any (matchesChars tokens)
  | _ :: _, [] => false
  | token :: tokens, c :: cs => matchesChar c token && matchesChars tokens cs

/-- Whether a pattern matches a text. -/
def accepts (g : Glob) (s : String) : Bool :=
  matchesChars g.tokens s.toList

/-- Whether a pattern has a wildcard for segments. -/
def isRecursive (g : Glob) : Bool :=
  g.tokens.contains .anySegments

/-- The text that a pattern without wildcards and classes is. -/
def literal? (g : Glob) : Option String :=
  (g.tokens.mapM GlobToken.char?).map String.ofList

/-- Whether a pattern starts with a dot. -/
def startsWithDot (g : Glob) : Bool :=
  g.tokens.head? = some (.char '.')

end Glob

end SolidityBuild
