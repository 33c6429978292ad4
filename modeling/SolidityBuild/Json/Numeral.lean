import SolidityBuild.Decimal.Shortest

/-! # JSON numerals: their spelling and the number they stand for

    A numeral without fraction and exponent is an integer while it fits a 64-bit word, with
    or without sign. Every other numeral stands for a 64-bit float: the leading digits that
    fit a word, scaled once by a power of ten. Numbers are written back as integers or as
    the shortest decimal of the float.
-/

namespace SolidityBuild.Json

/-- A decimal digit. -/
abbrev Digit := Fin 10

/-- A number as it is spelled in JSON. -/
structure Numeral where
  negative : Bool := false
  /-- the digits before the point -/
  whole : Nat
  /-- the digits after the point; empty without a point -/
  fraction : List Digit := []
  /-- the power of ten that scales the rest -/
  exponent : Option Int := none
deriving DecidableEq, Inhabited

namespace Numeral

/-- The numeral of a natural number. -/
def ofNat (n : Nat) : Numeral :=
  { whole := n }

/-- Whether the spelling has neither a point nor an exponent. -/
def isIntegral (n : Numeral) : Bool :=
  n.fraction.isEmpty && n.exponent.isNone

/-- The integer that the numeral stands for, when it is spelled as one and fits a signed
    64-bit word; a negative zero is no integer. -/
def toInt64? (n : Numeral) : Option Int :=
  if !n.isIntegral then none
  else if n.negative then
    if 0 < n.whole && n.whole ≤ Nat.pow 2 63 then some (-n.whole) else none
  else if n.whole < Nat.pow 2 63 then some n.whole else none

/-- Whether the numeral is an integer of an unsigned or a signed 64-bit word. -/
def isWordInteger (n : Numeral) : Bool :=
  n.isIntegral &&
    if n.negative then 0 < n.whole && n.whole ≤ Nat.pow 2 63 else n.whole < Nat.pow 2 64

/-! ## Floats -/

/-- The digits of a natural number, most significant first. -/
def digitsOf (n : Nat) : List Digit :=
  (Nat.toDigits 10 n).map fun c => Fin.ofNat 10 (c.toNat - '0'.toNat)

/-- The digits that were taken so far and the power of ten that scales them. -/
structure Taken where
  significand : Nat := 0
  tens : Int := 0

/-- Takes digits before the point as long as they fit a word; each one after that only adds
    a power of ten. -/
def takeWhole (t : Taken) (full : Bool) : List Digit → Taken
  | [] => t
  | d :: ds =>
    let next := t.significand * 10 + d.val
    if full || Nat.pow 2 64 ≤ next then takeWhole { t with tens := t.tens + 1 } true ds
    else takeWhole { t with significand := next } false ds

/-- Takes digits after the point up to the first that does not fit a word. -/
def takeFraction (t : Taken) : List Digit → Taken
  | [] => t
  | d :: ds =>
    let next := t.significand * 10 + d.val
    if Nat.pow 2 64 ≤ next then t
    else takeFraction { significand := next, tens := t.tens - 1 } ds

/-- The power of ten that is nearest to `10 ^ n`, for `n` up to 308. -/
def powerOfTen (n : Nat) : Float :=
  Float.ofScientific 1 false n

/-- `x * 10 ^ tens` in one multiplication or division when `tens` is at most 308 in size, by
    way of `1e308` below that; none when it is too large for a float. -/
def scale (x : Float) (tens : Int) : Option Float :=
  if tens.natAbs ≤ 308 then
    if 0 ≤ tens then
      let y := x * powerOfTen tens.natAbs
      if y.isInf then none else some y
    else some (x / powerOfTen tens.natAbs)
  else if x == 0 then some x
  else if 0 ≤ tens then none
  else scale (x / powerOfTen 308) (tens + 308)
termination_by tens.natAbs
decreasing_by omega

/-- The largest exponent that is read as it is spelled. -/
def exponentLimit : Nat := Nat.pow 2 31 - 1

/-- The magnitude of the float that the numeral stands for; none when it is too large. -/
def magnitude? (n : Numeral) : Option Float :=
  let t := takeFraction (takeWhole {} false (digitsOf n.whole)) n.fraction
  let exponent := n.exponent.getD 0
  if exponentLimit < exponent.natAbs then
    if t.significand ≠ 0 && 0 < exponent then none else some 0
  else scale t.significand.toUInt64.toFloat (t.tens + exponent)

/-- The numeral that writes a finite magnitude: positional while the point stands at most
    sixteen digits after the first digit or five places before it, else scientific. -/
def ofMagnitude (negative : Bool) (x : Float) : Numeral :=
  match Decimal.Binary.ofFloat? x with
  | none => { negative, whole := 0, fraction := [0] }
  | some v =>
    let ⟨n, tens⟩ := Decimal.shortest v
    let digits := digitsOf n
    let point : Int := digits.length + tens
    if 0 ≤ tens && point ≤ 16 then
      { negative, whole := n * Nat.pow 10 tens.toNat, fraction := [0] }
    else if 0 < point && point ≤ 16 then
      let unit := Nat.pow 10 (-tens).toNat
      { negative, whole := n / unit, fraction := digits.drop point.toNat }
    else if -5 < point && point ≤ 0 then
      { negative, whole := 0, fraction := List.replicate (-point).toNat 0 ++ digits }
    else
      { negative, whole := (digits.headD 0).val, fraction := digits.drop 1,
        exponent := some (point - 1) }

/-- The numeral that writes the number again: an integer of a word as it is, any other as
    its float; none when that is too large. -/
def settle? (n : Numeral) : Option Numeral :=
  if n.isWordInteger then some n
  else n.magnitude?.map (ofMagnitude n.negative)

/-! ## Spelling -/

/-- The character of a digit. -/
def digitChar (d : Digit) : Char :=
  Nat.digitChar d.val

/-- The exponent with its sign. -/
def exponentChars (e : Int) : List Char :=
  (if e < 0 then '-' else '+') :: Nat.toDigits 10 e.natAbs

/-- The spelling of a numeral. -/
def spelling (n : Numeral) : List Char :=
  (if n.negative then ['-'] else []) ++ Nat.toDigits 10 n.whole ++
  (if n.fraction.isEmpty then [] else '.' :: n.fraction.map digitChar) ++
  match n.exponent with
  | none => []
  | some e => 'e' :: exponentChars e

end Numeral

end SolidityBuild.Json
