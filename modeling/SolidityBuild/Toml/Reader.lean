import SolidityBuild.Toml.Scalar

/-! # Reading TOML: values, keys and the lines of a document -/

namespace SolidityBuild.Toml

/-- The number of arrays and inline tables that a value may lie in, its own included, and of
    keys that a dotted key may have. -/
def nestingLimit : Nat := 79

/-! ## Keys -/

/-- Reads one key: a bare word or a one-line string. -/
def readKey : List Char → Option (String × List Char)
  | '\x22' :: rest => readBasic rest.length [] rest
  | '\x27' :: rest => readLiteral rest
  | cs =>
    let word := cs.takeWhile isBareKey
    if word.isEmpty then none else some (String.ofList word, cs.drop word.length)

/-- Reads keys with dots between them, and blanks around each; `fuel` bounds their
    number. -/
def readPath (fuel : Nat) (cs : List Char) : Option (List String × List Char) :=
  match fuel with
  | 0 => none
  | fuel + 1 => do
    let (key, rest) ← readKey (cs.dropWhile isSpace)
    match rest.dropWhile isSpace with
    | '.' :: rest =>
      let (keys, rest) ← readPath fuel rest
      pure (key :: keys, rest)
    | rest => pure ([key], rest)

/-! ## Values -/

/-- The text after blanks, line ends and comments. -/
def skipFiller (inComment : Bool) : List Char → List Char
  | [] => []
  | '\r' :: '\n' :: rest => skipFiller false rest
  | c :: rest =>
    if c = '\n' then skipFiller false rest
    else if inComment then if isCommentChar c then skipFiller true rest else c :: rest
    else if isSpace c then skipFiller false rest
    else if c = '#' then skipFiller true rest
    else c :: rest

/-- Reads the items of an array after its opening bracket; `fuel` bounds their number. -/
def readItems (item : List Char → Option (Value × List Char)) (fuel : Nat)
    (found : Array Value) (cs : List Char) : Option (List Value × List Char) :=
  match fuel with
  | 0 => none
  | fuel + 1 =>
    match skipFiller false cs with
    | ']' :: rest => some (found.toList, rest)
    | cs => do
      let (v, rest) ← item cs
      match skipFiller false rest with
      | ',' :: rest => readItems item fuel (found.push v) rest
      | ']' :: rest => some ((found.push v).toList, rest)
      | _ => none

/-- Reads the assignments of an inline table after its opening brace or a comma; `fuel`
    bounds their number. -/
def readMembers (item : List Char → Option (Value × List Char)) (fuel : Nat)
    (found : Array (List String × Value)) (cs : List Char) :
    Option (List (List String × Value) × List Char) :=
  match fuel with
  | 0 => none
  | fuel + 1 => do
    let (path, rest) ← readPath nestingLimit cs
    let rest ← after? '=' rest
    let (v, rest) ← item (rest.dropWhile isSpace)
    match rest.dropWhile isSpace with
    | ',' :: rest => readMembers item fuel (found.push (path, v)) rest
    | '\x7d' :: rest => some ((found.push (path, v)).toList, rest)
    | _ => none

/-- Reads a value that may hold `depth` levels of arrays and inline tables. -/
def readValue (depth : Nat) (cs : List Char) : Option (Value × List Char) :=
  match cs with
  | '[' :: rest =>
    match depth with
    | 0 => none
    | depth + 1 => do
      let (items, rest) ← readItems (readValue depth) (rest.length + 1) #[] rest
      pure (.array items, rest)
  | '\x7b' :: rest =>
    match depth with
    | 0 => none
    | depth + 1 =>
      match rest.dropWhile isSpace with
      | '\x7d' :: rest => some (.table [], rest)
      | _ => do
        let (pairs, rest) ← readMembers (readValue depth) (rest.length + 1) #[] rest
        let table ← tableOfPairs? pairs
        pure (.table table, rest)
  | '\x22' :: _ => (readString cs).map fun (s, rest) => (.string s, rest)
  | '\x27' :: _ => (readString cs).map fun (s, rest) => (.string s, rest)
  | _ => readWord cs

/-! ## Documents -/

/-- The text after the end of a line, where blanks and a comment may come before it. -/
def lineEnd? (cs : List Char) : Option (List Char) :=
  let rest := cs.dropWhile isSpace
  let rest := match rest with
    | '#' :: comment => comment.dropWhile isCommentChar
    | _ => rest
  match rest with
  | [] => some []
  | _ => newline? rest

/-- Reads what a line says, at its first character that is no blank. -/
def readStatement : List Char → Option (Statement × List Char)
  | '[' :: '[' :: rest => do
    let (path, rest) ← readPath nestingLimit rest
    let rest ← after? ']' rest
    let rest ← after? ']' rest
    pure (.element path, rest)
  | '[' :: rest => do
    let (path, rest) ← readPath nestingLimit rest
    let rest ← after? ']' rest
    pure (.header path, rest)
  | cs => do
    let (path, rest) ← readPath nestingLimit cs
    let rest ← after? '=' rest
    let (v, rest) ← readValue nestingLimit (rest.dropWhile isSpace)
    pure (.assign path v, rest)

/-- The statements of a text after the ones in `found`; `fuel` bounds the number of
    lines. -/
def readLines (fuel : Nat) (found : Array Statement) (cs : List Char) :
    Option (List Statement) :=
  match cs.dropWhile isSpace with
  | [] => some found.toList
  | cs =>
    match fuel with
    | 0 => none
    | fuel + 1 =>
      match lineEnd? cs with
      | some rest => readLines fuel found rest
      | none => do
        let (statement, rest) ← readStatement cs
        let rest ← lineEnd? rest
        readLines fuel (found.push statement) rest

/-- The table that a text spells; a byte order mark may come first. -/
def ofText? (s : String) : Option Table :=
  let cs := match s.toList with
    | '\ufeff' :: rest => rest
    | cs => cs
  (readLines (cs.length + 1) #[] cs).bind tableOf?

end SolidityBuild.Toml
