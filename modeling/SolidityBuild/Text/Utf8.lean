/-! # UTF-8: reading bytes as text with replacement characters

    Bytes that are not UTF-8 are read with one U+FFFD for each longest piece that could
    have begun a character.
-/

namespace SolidityBuild.Text

/-- Whether a byte continues a character. -/
def isTail (b : UInt8) : Bool :=
  0x80 ≤ b && b ≤ 0xBF

/-- The bytes that may follow the lead byte `b` directly, as an inclusive range, and the
    number of bytes that follow in all; none when `b` leads no longer character. -/
def leadRange (b : UInt8) : Option (UInt8 × UInt8 × Nat) :=
  if 0xC2 ≤ b && b ≤ 0xDF then some (0x80, 0xBF, 1)
  else if b == 0xE0 then some (0xA0, 0xBF, 2)
  else if b == 0xED then some (0x80, 0x9F, 2)
  else if 0xE1 ≤ b && b ≤ 0xEF then some (0x80, 0xBF, 2)
  else if b == 0xF0 then some (0x90, 0xBF, 3)
  else if 0xF1 ≤ b && b ≤ 0xF3 then some (0x80, 0xBF, 3)
  else if b == 0xF4 then some (0x80, 0x8F, 3)
  else none

/-- Up to `n` leading continuation bytes, and the bytes after them. -/
def takeTails : Nat → List UInt8 → List UInt8 × List UInt8
  | 0, bs => ([], bs)
  | _ + 1, [] => ([], [])
  | n + 1, b :: bs =>
    if isTail b then
      let (tails, rest) := takeTails n bs
      (b :: tails, rest)
    else ([], b :: bs)

theorem takeTails_length (n : Nat) (bs : List UInt8) :
    (takeTails n bs).2.length ≤ bs.length := by
  induction n generalizing bs with
  | zero => simp [takeTails]
  | succ n ih =>
    cases bs with
    | nil => simp [takeTails]
    | cons b bs =>
      simp only [takeTails]
      split
      · exact Nat.le_succ_of_le (ih bs)
      · simp

/-- The character that a lead byte and its continuation bytes spell. -/
def spell (lead : UInt8) (tails : List UInt8) : Char :=
  let bits := match tails.length with
    | 1 => lead.toNat % 0x20
    | 2 => lead.toNat % 0x10
    | _ => lead.toNat % 0x08
  Char.ofNat (tails.foldl (fun n b => n * 0x40 + b.toNat % 0x40) bits)

/-- The first character of a byte sequence, with U+FFFD for a piece that is none, and the
    bytes after it. -/
def decodeFirst (b : UInt8) (bs : List UInt8) : Char × List UInt8 :=
  if b < 0x80 then (Char.ofNat b.toNat, bs)
  else match leadRange b with
    | none => ('\ufffd', bs)
    | some (low, high, count) =>
      match bs with
      | [] => ('\ufffd', [])
      | next :: rest =>
        if low ≤ next && next ≤ high then
          let (tails, after) := takeTails (count - 1) rest
          if tails.length + 1 = count then (spell b (next :: tails), after)
          else ('\ufffd', after)
        else ('\ufffd', bs)

theorem decodeFirst_length (b : UInt8) (bs : List UInt8) :
    (decodeFirst b bs).2.length ≤ bs.length := by
  unfold decodeFirst
  grind [takeTails_length]

/-- The characters of a byte sequence, with U+FFFD for each piece that is not UTF-8. -/
def decodeLossy (bs : List UInt8) (decoded : Array Char) : Array Char :=
  match bs with
  | [] => decoded
  | b :: rest =>
    decodeLossy (decodeFirst b rest).2 (decoded.push (decodeFirst b rest).1)
termination_by bs.length
decreasing_by
  have := decodeFirst_length b rest
  simp only [List.length_cons]
  omega

/-- A byte sequence as text: as it is when it is UTF-8, else with replacement characters. -/
def textOfBytes (bytes : ByteArray) : String :=
  match String.fromUTF8? bytes with
  | some s => s
  | none => String.ofList (decodeLossy bytes.toList #[]).toList

end SolidityBuild.Text
