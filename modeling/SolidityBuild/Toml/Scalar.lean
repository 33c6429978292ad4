import SolidityBuild.Toml.Basic

/-! # TOML scalars: strings, numbers, booleans and dates -/

namespace SolidityBuild.Toml

/-! ## Characters -/

/-- The blanks inside a line. -/
def isSpace (c : Char) : Bool :=
  c = ' ' || c = '\t'

/-- The characters that a comment may hold. -/
def isCommentChar (c : Char) : Bool :=
  c = '\t' || 0x20 ≤ c.toNat && c.toNat ≠ 0x7F

/-- The characters of a bare key. -/
def isBareKey (c : Char) : Bool :=
  c.isAlphanum || c = '-' || c = '_'

/-- The text after one line end, if one comes first. -/
def newline? : List Char → Option (List Char)
  | '\n' :: rest => some rest
  | '\r' :: '\n' :: rest => some rest
  | _ => none

/-- The value of a hexadecimal digit. -/
def hexValue? (c : Char) : Option Nat :=
  if '0' ≤ c && c ≤ '9' then some (c.toNat - 48)
  else if 'a' ≤ c && c ≤ 'f' then some (c.toNat - 87)
  else if 'A' ≤ c && c ≤ 'F' then some (c.toNat - 55)
  else none

/-- The character that `count` hexadecimal digits name, and what follows them. -/
def hexChar? (count : Nat) (cs : List Char) : Option (Char × List Char) := do
  let digits := cs.take count
  if digits.length < count then none
  let n ← digits.foldlM (fun n c => (hexValue? c).map (n * 16 + ·)) 0
  if n < 0xD800 || 0xDFFF < n && n < 0x110000 then some (Char.ofNat n, cs.drop count) else none

/-- The character that an escape stands for, after its backslash. -/
def escape? : List Char → Option (Char × List Char)
  | 'b' :: rest => some ('\x08', rest)
  | 't' :: rest => some ('\t', rest)
  | 'n' :: rest => some ('\n', rest)
  | 'f' :: rest => some ('\x0c', rest)
  | 'r' :: rest => some ('\r', rest)
  | '\x22' :: rest => some ('\x22', rest)
  | '\\' :: rest => some ('\\', rest)
  | 'u' :: rest => hexChar? 4 rest
  | 'U' :: rest => hexChar? 8 rest
  | _ => none

/-! ## Strings

    The readers below start after the opening quotes and collect characters in reverse;
    `fuel` bounds the number of steps by the length of the text. -/

/-- Reads a basic string. -/
def readBasic (fuel : Nat) (found cs : List Char) : Option (String × List Char) :=
  match fuel, cs with
  | _, [] => none
  | 0, _ => none
  | fuel + 1, c :: rest =>
    if c = '\x22' then some (String.ofList found.reverse, rest)
    else if c = '\\' then do
      let (e, rest) ← escape? rest
      readBasic fuel (e :: found) rest
    else if isCommentChar c then readBasic fuel (c :: found) rest
    else none

/-- Reads a literal string. -/
def readLiteral (cs : List Char) : Option (String × List Char) :=
  let body := cs.takeWhile fun c => isCommentChar c && c ≠ '\x27'
  match cs.drop body.length with
  | '\x27' :: rest => some (String.ofList body, rest)
  | _ => none

/-- The text after blanks and line ends. -/
def skipBlanks : List Char → List Char
  | '\r' :: '\n' :: rest => skipBlanks rest
  | c :: rest => if isSpace c || c = '\n' then skipBlanks rest else c :: rest
  | [] => []

/-- The text after a run of `quote`, when the run ends a multi-line string, and how many
    quotes of the run belong to the string. -/
def closing? (quote : Char) (cs : List Char) : Option (Nat × List Char) :=
  let run := (cs.takeWhile (· = quote)).length
  if 3 ≤ run && run ≤ 5 then some (run - 3, cs.drop run) else none

/-- Reads a multi-line string; escapes are read when `quote` is the double one. -/
def readMultiline (quote : Char) (fuel : Nat) (found cs : List Char) :
    Option (String × List Char) :=
  match fuel, cs with
  | _, [] => none
  | 0, _ => none
  | fuel + 1, c :: rest =>
    if c = quote then
      match closing? quote (c :: rest) with
      | some (count, rest) =>
        some (String.ofList (found.reverse ++ List.replicate count quote), rest)
      | none =>
        if (rest.takeWhile (· = quote)).length < 2 then
          readMultiline quote fuel (c :: found) rest
        else none
    else if c = '\\' && quote = '\x22' then
      match newline? (rest.dropWhile isSpace) with
      | some rest => readMultiline quote fuel found (skipBlanks rest)
      | none =>
        match escape? rest with
        | some (e, rest) => readMultiline quote fuel (e :: found) rest
        | none => none
    else match newline? (c :: rest) with
      | some rest => readMultiline quote fuel ('\n' :: found) rest
      | none => if isCommentChar c then readMultiline quote fuel (c :: found) rest else none

/-- Reads a multi-line string after its opening quotes; a line end that follows them
    directly is dropped. -/
def readMultilineBody (quote : Char) (cs : List Char) : Option (String × List Char) :=
  readMultiline quote cs.length [] ((newline? cs).getD cs)

/-- Reads a string of any of the four kinds. -/
def readString : List Char → Option (String × List Char)
  | '\x22' :: '\x22' :: '\x22' :: rest => readMultilineBody '\x22' rest
  | '\x22' :: rest => readBasic rest.length [] rest
  | '\x27' :: '\x27' :: '\x27' :: rest => readMultilineBody '\x27' rest
  | '\x27' :: rest => readLiteral rest
  | _ => none

/-! ## Numbers and dates

    These are recognised as whole words. -/

/-- Digits with single underscores between them, after a digit. -/
def moreDigits (p : Char → Bool) : List Char → Bool
  | [] => true
  | '_' :: d :: rest => p d && moreDigits p rest
  | c :: rest => p c && moreDigits p rest

/-- Digits with single underscores between them. -/
def isDigits (p : Char → Bool) : List Char → Bool
  | [] => false
  | c :: rest => p c && moreDigits p rest

/-- The value of digits in a base; underscores do not count. -/
def digitsValue (base : Nat) (cs : List Char) : Nat :=
  cs.foldl (fun n c => match hexValue? c with
    | some d => n * base + d
    | none => n) 0

/-- A sign, if one comes first, and the rest. -/
def splitSign : List Char → Bool × List Char
  | '+' :: rest => (false, rest)
  | '-' :: rest => (true, rest)
  | cs => (false, cs)

/-- Decimal digits without a leading zero, zero itself apart. -/
def isWhole (cs : List Char) : Bool :=
  cs = ['0'] || cs.head? ≠ some '0' && isDigits Char.isDigit cs

/-- The integer that a word spells, when it fits a signed 64-bit word. -/
def integer? (word : List Char) : Option Int :=
  let unsigned (base : Nat) (p : Char → Bool) (digits : List Char) : Option Int :=
    if isDigits p digits && digitsValue base digits < Nat.pow 2 63 then
      some (digitsValue base digits)
    else none
  match word with
  | '0' :: 'x' :: digits => unsigned 16 (fun c => (hexValue? c).isSome) digits
  | '0' :: 'o' :: digits => unsigned 8 (fun c => '0' ≤ c && c ≤ '7') digits
  | '0' :: 'b' :: digits => unsigned 2 (fun c => c = '0' || c = '1') digits
  | _ =>
    let (negative, digits) := splitSign word
    let n := digitsValue 10 digits
    if !isWhole digits then none
    else if negative then if n ≤ Nat.pow 2 63 then some (-n) else none
    else if n < Nat.pow 2 63 then some n else none

/-- The exponent that a word's end spells: none of it, or `e`, a sign or none, and digits. -/
def exponent? : List Char → Option Int
  | [] => some 0
  | c :: rest =>
    let (negative, digits) := splitSign rest
    if (c = 'e' || c = 'E') && isDigits Char.isDigit digits then
      some (if negative then -(digitsValue 10 digits) else digitsValue 10 digits)
    else none

/-- Whether `n * 10 ^ tens` is too large for a 64-bit float. -/
def overflows (n : Nat) (tens : Int) : Bool :=
  let size := (Nat.toDigits 10 n).length + tens
  if n = 0 || size < 309 then false
  else if 310 < size then true
  else (Float.ofScientific n (tens < 0) tens.natAbs).isInf

/-- Whether a word is a float: a fraction or an exponent or both, or a special one. What is
    too large upwards is none. -/
def isFloat (word : List Char) : Bool :=
  let (negative, rest) := splitSign word
  if rest = "inf".toList || rest = "nan".toList then true
  else
    let whole := rest.takeWhile fun c => c.isDigit || c = '_'
    let digits (fraction : List Char) := digitsValue 10 (whole ++ fraction)
    isWhole whole &&
      match rest.drop whole.length with
      | [] => false
      | '.' :: rest =>
        let fraction := rest.takeWhile fun c => c.isDigit || c = '_'
        let places : Int := (fraction.filter Char.isDigit).length
        isDigits Char.isDigit fraction &&
          match exponent? (rest.drop fraction.length) with
          | some e => negative || !overflows (digits fraction) (e - places)
          | none => false
      | rest =>
        match exponent? rest with
        | some e => negative || !overflows (digits []) e
        | none => false

/-- A number of exactly `count` digits between two bounds, and what follows it. -/
def fixed? (count low high : Nat) (cs : List Char) : Option (Nat × List Char) :=
  let digits := cs.take count
  let n := digitsValue 10 digits
  if digits.length = count && digits.all Char.isDigit && low ≤ n && n ≤ high then
    some (n, cs.drop count)
  else none

/-- The text after a given character. -/
def after? (c : Char) : List Char → Option (List Char)
  | d :: rest => if d = c then some rest else none
  | [] => none

/-- The days of a month. -/
def daysIn (year month : Nat) : Nat :=
  if month = 2 then
    if year % 4 = 0 && (year % 100 ≠ 0 || year % 400 = 0) then 29 else 28
  else if month = 4 || month = 6 || month = 9 || month = 11 then 30
  else 31

/-- The text after a date. -/
def date? (cs : List Char) : Option (List Char) := do
  let (year, rest) ← fixed? 4 0 9999 cs
  let rest ← after? '-' rest
  let (month, rest) ← fixed? 2 1 12 rest
  let rest ← after? '-' rest
  let (_, rest) ← fixed? 2 1 (daysIn year month) rest
  pure rest

/-- The text after a time of day. -/
def time? (cs : List Char) : Option (List Char) := do
  let (_, rest) ← fixed? 2 0 23 cs
  let rest ← after? ':' rest
  let (_, rest) ← fixed? 2 0 59 rest
  let rest ← after? ':' rest
  let (_, rest) ← fixed? 2 0 60 rest
  match rest with
  | '.' :: digits =>
    if (digits.takeWhile Char.isDigit).isEmpty then some rest
    else some (digits.dropWhile Char.isDigit)
  | _ => some rest

/-- The text after an offset from universal time. -/
def offset? : List Char → Option (List Char)
  | 'Z' :: rest => some rest
  | 'z' :: rest => some rest
  | c :: rest =>
    if c = '+' || c = '-' then do
      let (_, rest) ← fixed? 2 0 23 rest
      let rest ← after? ':' rest
      let (_, rest) ← fixed? 2 0 59 rest
      pure rest
    else none
  | [] => none

/-- Whether a text is a time, with an offset or without one. -/
def isTimeOffset (cs : List Char) : Bool :=
  match time? cs with
  | some [] => true
  | some rest => offset? rest = some []
  | none => false

/-- Whether a word is a date, a time, or both. -/
def isDatetime (word : List Char) : Bool :=
  match date? word with
  | some [] => true
  | some (c :: rest) => (c = 'T' || c = 't' || c = ' ') && isTimeOffset rest
  | none => time? word = some []

/-- The characters that end a word. -/
def endsWord (c : Char) : Bool :=
  isSpace c || c = '\n' || c = '\r' || c = ',' || c = ']' || c = '\x7d' || c = '#'

/-- The value of a word that is no string. -/
def wordValue? (word : List Char) : Option Value :=
  if word = "true".toList then some (.boolean true)
  else if word = "false".toList then some (.boolean false)
  else if isDatetime word then some (.datetime (String.ofList word))
  else if isFloat word then some (.float (String.ofList word))
  else (integer? word).map .integer

/-- Reads a number, a boolean or a date; a blank may stand between a date and a time. -/
def readWord (cs : List Char) : Option (Value × List Char) :=
  let word := cs.takeWhile fun c => !endsWord c
  let rest := cs.drop word.length
  let second := (rest.drop 1).takeWhile fun c => !endsWord c
  let both := word ++ ' ' :: second
  if rest.head? = some ' ' && isDatetime both then
    some (.datetime (String.ofList both), cs.drop both.length)
  else (wordValue? word).map fun v => (v, rest)

end SolidityBuild.Toml
