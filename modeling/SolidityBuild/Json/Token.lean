import SolidityBuild.Json.Basic

/-! # JSON tokens: the lexemes of a text

    Blanks separate tokens and carry no meaning. A text is refused when some piece of it is
    no token.
-/

namespace SolidityBuild.Json

/-- A lexeme of JSON. -/
inductive Token where
  | openArray
  | closeArray
  | openObject
  | closeObject
  | comma
  | colon
  | null
  | bool (b : Bool)
  | number (n : Numeral)
  | string (s : Literal)
deriving DecidableEq, Inhabited

namespace Token

/-- The blanks of JSON. -/
def isBlank (c : Char) : Bool :=
  c = ' ' || c = '\n' || c = '\t' || c = '\r'

/-! ## Strings -/

/-- The value of a hexadecimal digit. -/
def hexValue? (c : Char) : Option Nat :=
  if '0' ≤ c && c ≤ '9' then some (c.toNat - 48)
  else if 'a' ≤ c && c ≤ 'f' then some (c.toNat - 87)
  else if 'A' ≤ c && c ≤ 'F' then some (c.toNat - 55)
  else none

/-- The code unit that four hexadecimal digits spell. -/
def hexUnit? (a b c d : Char) : Option Nat := do
  let a ← hexValue? a
  let b ← hexValue? b
  let c ← hexValue? c
  let d ← hexValue? d
  pure (((a * 16 + b) * 16 + c) * 16 + d)

/-- The character after a backslash that a one-letter escape stands for. -/
def escaped? (c : Char) : Option Char :=
  match c with
  | '\x22' => some '\x22'
  | '\\' => some '\\'
  | '/' => some '/'
  | 'b' => some '\x08'
  | 'f' => some '\x0c'
  | 'n' => some '\n'
  | 'r' => some '\r'
  | 't' => some '\t'
  | _ => none

/-- What a string has spelled so far: its characters in reverse, the first half of a
    surrogate pair that waits for the second, and whether no half was left alone. -/
structure Spelled where
  chars : List Char := []
  half : Option Nat := none
  paired : Bool := true

namespace Spelled

/-- One more character. -/
def push (s : Spelled) (c : Char) : Spelled :=
  { chars := c :: s.chars, half := none, paired := s.paired && s.half.isNone }

/-- One more code unit. -/
def pushUnit (s : Spelled) (unit : Nat) : Spelled :=
  if 0xD800 ≤ unit && unit < 0xDC00 then
    { s with half := some unit, paired := s.paired && s.half.isNone }
  else if 0xDC00 ≤ unit && unit < 0xE000 then
    match s.half with
    | some high =>
      { s with
        chars := Char.ofNat (0x10000 + (high - 0xD800) * 0x400 + (unit - 0xDC00)) :: s.chars
        half := none }
    | none => { s with paired := false }
  else s.push (Char.ofNat unit)

/-- The string that was spelled. -/
def literal (s : Spelled) : Literal :=
  if s.paired && s.half.isNone then .text (String.ofList s.chars.reverse) else .unpaired

end Spelled

/-- Reads a string after its opening quote. -/
def readString (s : Spelled) : List Char → Option (Literal × List Char)
  | '\x22' :: rest => some (s.literal, rest)
  | '\\' :: 'u' :: a :: b :: c :: d :: rest =>
    match hexUnit? a b c d with
    | some unit => readString (s.pushUnit unit) rest
    | none => none
  | '\\' :: c :: rest =>
    match escaped? c with
    | some e => readString (s.push e) rest
    | none => none
  | c :: rest => if c.toNat < 0x20 then none else readString (s.push c) rest
  | [] => none

theorem readString_length {s : Spelled} {cs : List Char} {l : Literal} {rest : List Char}
    (h : readString s cs = some (l, rest)) : rest.length < cs.length := by
  fun_induction readString s cs with
  | case1 => simp_all
  | case2 s a b c d tail unit _ ih =>
    have := ih h
    simp only [List.length_cons]
    omega
  | case3 => simp at h
  | case4 s c tail _ e _ ih =>
    have := ih h
    simp only [List.length_cons]
    omega
  | case5 => simp at h
  | case6 => simp at h
  | case7 s c tail _ _ _ _ ih =>
    have := ih h
    simp only [List.length_cons]
    omega
  | case8 => simp at h

/-! ## Numbers -/

/-- The value of a run of digits. -/
def digitsValue (cs : List Char) : Nat :=
  cs.foldl (fun n c => n * 10 + (c.toNat - '0'.toNat)) 0

/-- The digit of a character. -/
def digitOf (c : Char) : Digit :=
  ⟨(c.toNat - '0'.toNat) % 10, Nat.mod_lt _ (by decide)⟩

/-- The leading digits and what follows them. -/
def spanDigits (cs : List Char) : List Char × List Char :=
  (cs.takeWhile Char.isDigit, cs.dropWhile Char.isDigit)

/-- Reads the fraction of a number: nothing, or a point and digits. -/
def readFraction : List Char → Option (List Digit × List Char)
  | '.' :: cs =>
    match spanDigits cs with
    | ([], _) => none
    | (digits, rest) => some (digits.map digitOf, rest)
  | cs => some ([], cs)

/-- Reads the digits of an exponent whose sign has been read. -/
def readPower (negative : Bool) (cs : List Char) : Option (Option Int × List Char) :=
  match spanDigits cs with
  | ([], _) => none
  | (digits, rest) =>
    let n : Int := digitsValue digits
    some (some (if negative then -n else n), rest)

/-- Reads the exponent of a number: nothing, or `e`, a sign or none, and digits. -/
def readExponent : List Char → Option (Option Int × List Char)
  | c :: cs =>
    if c = 'e' || c = 'E' then
      match cs with
      | '+' :: rest => readPower false rest
      | '-' :: rest => readPower true rest
      | rest => readPower false rest
    else some (none, c :: cs)
  | [] => some (none, [])

/-- Reads the digits before the point; a leading zero stands alone. -/
def readWhole : List Char → Option (Nat × List Char)
  | '0' :: rest => some (0, rest)
  | cs =>
    match spanDigits cs with
    | ([], _) => none
    | (digits, rest) => some (digitsValue digits, rest)

/-- Reads a number after its sign. -/
def readMagnitude (negative : Bool) (cs : List Char) : Option (Numeral × List Char) := do
  let (whole, rest) ← readWhole cs
  let (fraction, rest) ← readFraction rest
  let (exponent, rest) ← readExponent rest
  pure ({ negative, whole, fraction, exponent }, rest)

/-- Reads a number. -/
def readNumber : List Char → Option (Numeral × List Char)
  | '-' :: cs => readMagnitude true cs
  | cs => readMagnitude false cs

theorem spanDigits_length (cs : List Char) :
    (spanDigits cs).1.length + (spanDigits cs).2.length = cs.length := by
  rw [spanDigits, ← List.length_append, List.takeWhile_append_dropWhile]

theorem readFraction_length {cs rest : List Char} {ds : List Digit}
    (h : readFraction cs = some (ds, rest)) : rest.length ≤ cs.length := by
  unfold readFraction at h
  split at h
  · rename_i cs
    have := spanDigits_length cs
    split at h <;> grind
  · grind

theorem readPower_length {negative : Bool} {cs rest : List Char} {e : Option Int}
    (h : readPower negative cs = some (e, rest)) : rest.length ≤ cs.length := by
  unfold readPower at h
  have := spanDigits_length cs
  split at h <;> grind

theorem readExponent_length {cs rest : List Char} {e : Option Int}
    (h : readExponent cs = some (e, rest)) : rest.length ≤ cs.length := by
  unfold readExponent at h
  split at h
  · split at h
    · split at h <;> have := readPower_length h <;> simp only [List.length_cons] <;> omega
    · grind
  · grind

theorem readWhole_length {cs rest : List Char} {n : Nat}
    (h : readWhole cs = some (n, rest)) : rest.length < cs.length := by
  have := spanDigits_length cs
  unfold readWhole at h
  split at h
  · simp_all
  · split at h
    · simp at h
    · rename_i digits rest hne heq
      cases digits with
      | nil => exact (hne rfl).elim
      | cons => grind

theorem readMagnitude_length {negative : Bool} {cs rest : List Char} {n : Numeral}
    (h : readMagnitude negative cs = some (n, rest)) : rest.length < cs.length := by
  simp only [readMagnitude, Option.bind_eq_bind, Option.bind_eq_some_iff, Prod.exists,
    Option.pure_def, Option.some.injEq, Prod.mk.injEq] at h
  obtain ⟨whole, rest₁, h₁, fraction, rest₂, h₂, exponent, rest₃, h₃, _, rfl⟩ := h
  have := readWhole_length h₁
  have := readFraction_length h₂
  have := readExponent_length h₃
  omega

theorem readNumber_length {cs rest : List Char} {n : Numeral}
    (h : readNumber cs = some (n, rest)) : rest.length < cs.length := by
  unfold readNumber at h
  split at h
  · have := readMagnitude_length h
    simp only [List.length_cons]
    omega
  · exact readMagnitude_length h

/-! ## Texts -/

/-- Reads the token that starts with `c`. -/
def read (c : Char) (cs : List Char) : Option (Token × List Char) :=
  match c, cs with
  | '[', rest => some (.openArray, rest)
  | ']', rest => some (.closeArray, rest)
  | '\x7b', rest => some (.openObject, rest)
  | '\x7d', rest => some (.closeObject, rest)
  | ',', rest => some (.comma, rest)
  | ':', rest => some (.colon, rest)
  | 'n', 'u' :: 'l' :: 'l' :: rest => some (.null, rest)
  | 't', 'r' :: 'u' :: 'e' :: rest => some (.bool true, rest)
  | 'f', 'a' :: 'l' :: 's' :: 'e' :: rest => some (.bool false, rest)
  | '\x22', rest => (readString {} rest).map fun (s, rest) => (.string s, rest)
  | c, rest => (readNumber (c :: rest)).map fun (n, rest) => (.number n, rest)

theorem read_length {c : Char} {cs rest : List Char} {t : Token}
    (h : read c cs = some (t, rest)) : rest.length ≤ cs.length := by
  unfold read at h
  split at h <;> first
    | grind
    | (simp only [Option.map_eq_some_iff, Prod.mk.injEq, Prod.exists] at h
       obtain ⟨_, _, h, _, rfl⟩ := h
       first
        | exact Nat.le_of_lt (readString_length h)
        | exact Nat.le_of_lt_succ (readNumber_length h))

/-- The tokens of a text after the ones in `found`, if all of it is tokens and blanks. -/
def readAll (found : Array Token) : List Char → Option (Array Token)
  | [] => some found
  | c :: cs =>
    if isBlank c then readAll found cs
    else match _h : read c cs with
      | some (token, rest) => readAll (found.push token) rest
      | none => none
termination_by cs => cs.length
decreasing_by
  · simp
  · have := read_length _h
    simp only [List.length_cons]
    omega

end Token

/-- The tokens of a text, if all of it is tokens and blanks. -/
def tokens? (cs : List Char) : Option (List Token) :=
  (Token.readAll #[] cs).map Array.toList

end SolidityBuild.Json
