/-! # Shortest decimals: the fewest digits that read back to a binary value

    A finite positive binary value is `mantissa * 2 ^ exponent`. The reals that round to it
    form an interval, ends included when the mantissa is even. Of the decimals in the
    interval the ones with the fewest digits are taken, and of those the nearest.
-/

namespace SolidityBuild.Decimal

/-- A positive binary value, and whether the gap below it is half the gap above. -/
structure Binary where
  mantissa : Nat
  exponent : Int
  narrowBelow : Bool

/-- The value `digits * 10 ^ exponent`. -/
structure Scientific where
  digits : Nat
  exponent : Int
deriving DecidableEq, Inhabited

/-- The finite magnitude of a 64-bit float; none for zero. -/
def Binary.ofFloat? (x : Float) : Option Binary :=
  let bits := x.toBits.toNat
  let fraction : Nat := bits % Nat.pow 2 52
  let biased : Nat := bits / Nat.pow 2 52 % Nat.pow 2 11
  if biased = 0 then
    if fraction = 0 then none else some ⟨fraction, -1074, false⟩
  else some ⟨Nat.pow 2 52 + fraction, (biased : Int) - 1075, fraction = 0 && 1 < biased⟩

/-- A ratio of natural numbers. -/
structure Ratio where
  num : Nat
  den : Nat

/-- The ratio `n * 2 ^ twos * 10 ^ tens`. -/
def Ratio.ofPowers (n : Nat) (twos tens : Int) : Ratio :=
  ⟨n * Nat.pow 2 twos.toNat * Nat.pow 10 tens.toNat,
    Nat.pow 2 (-twos).toNat * Nat.pow 10 (-tens).toNat⟩

/-- The number of digits before the point, which is negative or zero below one tenth. -/
def magnitude (v : Binary) : Int :=
  let r := Ratio.ofPowers v.mantissa v.exponent 0
  if r.den ≤ r.num then (Nat.toDigits 10 (r.num / r.den)).length
  else 1 - (Nat.toDigits 10 (r.den / r.num)).length

/-- Whether `n * 10 ^ tens` rounds to `v`: four times `v` lies between the bounds that are
    two, or below a power of two one, quarter steps away. -/
def roundsTo (v : Binary) (n : Nat) (tens : Int) : Bool :=
  let r := Ratio.ofPowers (4 * n) (-v.exponent) tens
  let low := (4 * v.mantissa - if v.narrowBelow then 1 else 2) * r.den
  let high := (4 * v.mantissa + 2) * r.den
  if v.mantissa % 2 = 0 then low ≤ r.num && r.num ≤ high
  else low < r.num && r.num < high

/-- The nearer of the neighbours of `v` on the grid of multiples of `10 ^ tens` that round
    to `v`, if any does. -/
def onGrid? (v : Binary) (tens : Int) : Option Nat :=
  let r := Ratio.ofPowers v.mantissa v.exponent (-tens)
  let below := r.num / r.den
  let rest := r.num % r.den
  let nearerBelow := 2 * rest < r.den || 2 * rest = r.den && below % 2 = 0
  match roundsTo v below tens && 0 < below, roundsTo v (below + 1) tens with
  | true, true => some (if nearerBelow then below else below + 1)
  | true, false => some below
  | false, true => some (below + 1)
  | false, false => none

/-- `n * 10 ^ tens` without zeros at the end of `n`; `fuel` bounds their number. -/
def dropZeros : Nat → Nat → Int → Scientific
  | 0, n, tens => ⟨n, tens⟩
  | fuel + 1, n, tens =>
    if n % 10 = 0 then dropZeros fuel (n / 10) (tens + 1) else ⟨n, tens⟩

/-- The shortest decimal that reads back to `v`; seventeen digits always do. -/
def shortest (v : Binary) : Scientific :=
  let top := magnitude v
  let grids := (List.range 17).map fun (i : Nat) => top - (i + 1)
  match grids.findSome? fun tens => (onGrid? v tens).map fun n => (n, tens) with
  | some (n, tens) => dropZeros 17 n tens
  | none => ⟨v.mantissa, 0⟩

end SolidityBuild.Decimal
