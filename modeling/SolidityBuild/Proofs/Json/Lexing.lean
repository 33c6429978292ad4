import SolidityBuild.Json.Printer
import SolidityBuild.Json.Token

/-! # Lexing: strings and numerals are read as they were spelled

    A string's spelling shows where it ends. A numeral's does not: it ends where what
    follows cannot go on with a number, which holds of all that a printed value puts behind
    a numeral. So what a piece of text spells is stated for every rest that is `Ended`, and
    pieces are put together by `Spells.append`.
-/

namespace SolidityBuild.Json

namespace Token

/-! ## Strings -/

theorem hexValue?_hexDigit (n : Nat) : hexValue? (hexDigit n) = some (n % 16) := by
  have hall : ∀ d < 16, hexValue? (Nat.digitChar d) = some d := by decide
  exact hall (n % 16) (Nat.mod_lt n (by decide))

/-- The two last digits of a control character's escape spell it. -/
theorem hexUnit?_control {n : Nat} (h : n < 0x20) :
    hexUnit? '0' '0' (hexDigit (n / 16)) (hexDigit n) = some n := by
  have hzero : hexValue? '0' = some 0 := by decide
  have hvalue : ((0 * 16 + 0) * 16 + n / 16 % 16) * 16 + n % 16 = n := by omega
  simp only [hexUnit?, hzero, hexValue?_hexDigit, Option.bind_eq_bind, Option.bind_some,
    Option.pure_def]
  rw [hvalue]

/-- A code unit below the surrogates is a character of its own. -/
theorem pushUnit_control (s : Spelled) {c : Char} (h : c.toNat < 0x20) :
    s.pushUnit c.toNat = s.push c := by
  unfold Spelled.pushUnit
  rw [if_neg (by simp only [Bool.and_eq_true, decide_eq_true_iff]; omega),
    if_neg (by simp only [Bool.and_eq_true, decide_eq_true_iff]; omega), Char.ofNat_toNat]

/-- The three ways to write a character: one letter behind a backslash, four hexadecimal
    digits, or the character as it stands. -/
theorem escape_cases (c : Char) :
    (∃ letter, escape c = ['\\', letter] ∧ letter ≠ 'u' ∧ escaped? letter = some c) ∨
    (c.toNat < 0x20 ∧
      escape c = ['\\', 'u', '0', '0', hexDigit (c.toNat / 16), hexDigit c.toNat]) ∨
    (c ≠ '\x22' ∧ c ≠ '\\' ∧ 0x20 ≤ c.toNat ∧ escape c = [c]) := by
  by_cases hnamed : c ∈ ['\x22', '\\', '\x08', '\x0c', '\n', '\r', '\t']
  · simp only [List.mem_cons, List.not_mem_nil, or_false] at hnamed
    left
    rcases hnamed with rfl | rfl | rfl | rfl | rfl | rfl | rfl
    · exact ⟨'\x22', by decide⟩
    · exact ⟨'\\', by decide⟩
    · exact ⟨'b', by decide⟩
    · exact ⟨'f', by decide⟩
    · exact ⟨'n', by decide⟩
    · exact ⟨'r', by decide⟩
    · exact ⟨'t', by decide⟩
  · simp only [List.mem_cons, List.not_mem_nil, or_false, not_or] at hnamed
    obtain ⟨hquote, hslash, hb, hf, hn, hr, ht⟩ := hnamed
    unfold escape
    rw [if_neg hquote, if_neg hslash, if_neg hb, if_neg hf, if_neg hn, if_neg hr, if_neg ht]
    split
    · rename_i hcontrol
      exact .inr (.inl ⟨hcontrol, rfl⟩)
    · rename_i hcontrol
      exact .inr (.inr ⟨hquote, hslash, Nat.le_of_not_lt hcontrol, rfl⟩)

/-- A character that needs no escape is read as it stands. -/
theorem readString_plain (s : Spelled) {c : Char} (rest : List Char) (hquote : c ≠ '\x22')
    (hslash : c ≠ '\\') (hcontrol : 0x20 ≤ c.toNat) :
    readString s (c :: rest) = readString (s.push c) rest := by
  rw [readString.eq_def]
  split
  · simp_all
  · simp_all
  · simp_all
  · rename_i heq
    obtain ⟨rfl, rfl⟩ := List.cons.inj heq
    rw [if_neg (Nat.not_lt_of_le hcontrol)]
  · simp_all

/-- An escaped character is read as the character. -/
theorem readString_escape (s : Spelled) (c : Char) (rest : List Char) :
    readString s (escape c ++ rest) = readString (s.push c) rest := by
  rcases escape_cases c with ⟨letter, heq, hu, hletter⟩ | ⟨hcontrol, heq⟩ |
    ⟨hquote, hslash, hcontrol, heq⟩
  · -- The letter is no `u`, which would ask for four digits.
    rw [heq, List.cons_append, List.cons_append, List.nil_append, readString.eq_3]
    · rw [hletter]
    · intro _ _ _ _ _ hletter'
      exact absurd hletter' hu
  · rw [heq]
    simp only [List.cons_append, List.nil_append, readString, hexUnit?_control hcontrol]
    rw [pushUnit_control s hcontrol]
  · rw [heq]
    exact readString_plain s rest hquote hslash hcontrol

/-- The characters of a text, each escaped, are read up to the quote behind them. -/
theorem readString_flatMap (found cs rest : List Char) :
    readString { chars := found } (cs.flatMap escape ++ '\x22' :: rest) =
      some (.text (String.ofList (found.reverse ++ cs)), rest) := by
  induction cs generalizing found with
  | nil => simp [readString, Spelled.literal]
  | cons c cs ih =>
    rw [List.flatMap_cons, List.append_assoc, readString_escape]
    change readString { chars := c :: found } _ = _
    rw [ih, List.reverse_cons, List.append_assoc, List.singleton_append]

/-- A string is read as it was spelled, whatever follows it. -/
theorem exists_read_spelling (l : Literal) :
    ∃ body, l.spelling = '\x22' :: body ∧
      ∀ rest, read '\x22' (body ++ rest) = some (.string l, rest) := by
  cases l with
  | text s =>
    refine ⟨s.toList.flatMap escape ++ ['\x22'], rfl, ?_⟩
    intro rest
    have hread := readString_flatMap [] s.toList rest
    rw [List.reverse_nil, List.nil_append, String.ofList_toList] at hread
    simp only [read, List.append_assoc, List.singleton_append]
    rw [hread]
    rfl
  | unpaired =>
    -- Half of a surrogate pair alone stands for no text.
    refine ⟨"\\ud800".toList ++ ['\x22'], rfl, ?_⟩
    intro rest
    simp [read, readString, hexUnit?, hexValue?, Spelled.pushUnit, Spelled.literal]

/-! ## Numerals -/

/-- A number cannot go on with what follows it. -/
def Ended (rest : List Char) : Prop :=
  ∀ c ∈ rest.head?, c.isDigit = false ∧ c ≠ '.' ∧ c ≠ 'e' ∧ c ≠ 'E'

theorem ended_nil : Ended [] := by
  intro c hc
  cases hc

theorem spanDigits_append {ds rest : List Char} (hds : ∀ c ∈ ds, c.isDigit = true)
    (hrest : ∀ c ∈ rest.head?, c.isDigit = false) : spanDigits (ds ++ rest) = (ds, rest) := by
  unfold spanDigits
  rw [List.takeWhile_append_of_pos hds, List.dropWhile_append_of_pos hds]
  cases rest with
  | nil => simp
  | cons c rest => simp [hrest c rfl]

theorem isDigit_of_mem_toDigits {n : Nat} {c : Char} (h : c ∈ Nat.toDigits 10 n) :
    c.isDigit = true :=
  Nat.isDigit_of_mem_toDigits (by decide) (by decide) h

theorem digitsValue_toDigits (n : Nat) : digitsValue (Nat.toDigits 10 n) = n := by
  have hvalue := Nat.ofDigitChars_ten_toDigits (n := n)
  unfold Nat.ofDigitChars at hvalue
  simp only [Nat.mul_comm 10] at hvalue
  exact hvalue

/-- Only the numeral of zero starts with a zero. -/
theorem head?_toDigits_ne {n : Nat} (h : 0 < n) : (Nat.toDigits 10 n).head? ≠ some '0' := by
  induction n using Nat.strongRecOn with
  | _ n ih =>
    by_cases hsmall : n < 10
    · rw [Nat.toDigits_of_lt_base hsmall]
      have hall : ∀ d < 10, 0 < d → [Nat.digitChar d].head? ≠ some '0' := by decide
      exact hall n hsmall h
    · rw [Nat.toDigits_of_base_le (by decide) (Nat.le_of_not_lt hsmall),
        List.head?_append]
      have hfront := ih (n / 10) (by omega) (by omega)
      cases hds : Nat.toDigits 10 (n / 10) with
      | nil => exact absurd hds Nat.toDigits_ne_nil
      | cons d ds =>
        rw [hds] at hfront
        exact hfront

theorem readWhole_toDigits (n : Nat) {rest : List Char}
    (hrest : ∀ c ∈ rest.head?, c.isDigit = false) :
    readWhole (Nat.toDigits 10 n ++ rest) = some (n, rest) := by
  have hspan := spanDigits_append (fun _ => isDigit_of_mem_toDigits (n := n)) hrest
  rcases Nat.eq_zero_or_pos n with rfl | hpos
  · rw [Nat.toDigits_zero]
    rfl
  · have hhead := head?_toDigits_ne hpos
    have hvalue := digitsValue_toDigits n
    cases hds : Nat.toDigits 10 n with
    | nil => exact absurd hds Nat.toDigits_ne_nil
    | cons d ds =>
      rw [hds] at hspan hhead hvalue
      have hd : d ≠ '0' := by simpa using hhead
      rw [List.cons_append] at hspan ⊢
      rw [readWhole.eq_2 _ fun tail heq => hd (List.cons.inj heq).1, hspan]
      simp only [hvalue]

theorem digitOf_digitChar (d : Digit) : digitOf (Numeral.digitChar d) = d := by
  revert d
  decide

theorem isDigit_digitChar (d : Digit) : (Numeral.digitChar d).isDigit = true := by
  revert d
  decide

/-- A fraction is read as it was spelled. -/
theorem readFraction_spelled (ds : List Digit) {rest : List Char}
    (hrest : ∀ c ∈ rest.head?, c.isDigit = false ∧ c ≠ '.') :
    readFraction ((if ds.isEmpty then [] else '.' :: ds.map Numeral.digitChar) ++ rest) =
      some (ds, rest) := by
  cases ds with
  | nil =>
    rw [List.isEmpty_nil, if_pos rfl, List.nil_append, readFraction.eq_2]
    rintro tail rfl
    exact (hrest '.' rfl).2 rfl
  | cons d ds =>
    have hdigits : ∀ c ∈ (d :: ds).map Numeral.digitChar, c.isDigit = true := by
      intro c hc
      obtain ⟨digit, -, rfl⟩ := List.mem_map.1 hc
      exact isDigit_digitChar digit
    have hspan := spanDigits_append hdigits fun c hc => (hrest c hc).1
    have hback : ((d :: ds).map Numeral.digitChar).map digitOf = d :: ds := by
      rw [List.map_map]
      exact (List.map_congr_left fun digit _ => digitOf_digitChar digit).trans (List.map_id _)
    rw [List.isEmpty_cons, if_neg Bool.false_ne_true, List.cons_append, readFraction.eq_1, hspan]
    simp only [List.map_cons] at hback ⊢
    rw [hback]

theorem readPower_toDigits (negative : Bool) (n : Nat) {rest : List Char}
    (hrest : ∀ c ∈ rest.head?, c.isDigit = false) :
    readPower negative (Nat.toDigits 10 n ++ rest) =
      some (some (if negative then -(n : Int) else n), rest) := by
  have hspan := spanDigits_append (fun _ => isDigit_of_mem_toDigits (n := n)) hrest
  have hvalue := digitsValue_toDigits n
  unfold readPower
  rw [hspan]
  cases hds : Nat.toDigits 10 n with
  | nil => exact absurd hds Nat.toDigits_ne_nil
  | cons d ds =>
    rw [hds] at hvalue
    simp only [hvalue]

/-- An exponent is read as it was spelled. -/
theorem readExponent_spelled (e : Option Int) {rest : List Char} (hrest : Ended rest) :
    readExponent ((match e with
      | none => []
      | some e => 'e' :: Numeral.exponentChars e) ++ rest) = some (e, rest) := by
  have hdigit : ∀ c ∈ rest.head?, c.isDigit = false := fun c hc => (hrest c hc).1
  cases e with
  | none =>
    cases rest with
    | nil => rfl
    | cons c rest =>
      obtain ⟨-, -, he, hE⟩ := hrest c rfl
      simp [readExponent, he, hE]
  | some e =>
    rcases Int.lt_or_le e 0 with hneg | hpos
    · have habs : -(e.natAbs : Int) = e := by omega
      have hread := readPower_toDigits true e.natAbs hdigit
      simp only [if_true, habs] at hread
      simp only [Numeral.exponentChars, if_pos hneg, List.cons_append, readExponent]
      exact hread
    · have habs : (e.natAbs : Int) = e := by omega
      have hread := readPower_toDigits false e.natAbs hdigit
      simp only [Bool.false_eq_true, if_false, habs] at hread
      simp only [Numeral.exponentChars, if_neg (Int.not_lt.2 hpos), List.cons_append,
        readExponent]
      exact hread

/-- The magnitude of a numeral is read as it was spelled. -/
theorem readMagnitude_spelled (n : Numeral) {rest : List Char} (hrest : Ended rest) :
    readMagnitude n.negative (Nat.toDigits 10 n.whole ++
      ((if n.fraction.isEmpty then [] else '.' :: n.fraction.map Numeral.digitChar) ++
        ((match n.exponent with
          | none => []
          | some e => 'e' :: Numeral.exponentChars e) ++ rest))) = some (n, rest) := by
  have hexponent := readExponent_spelled n.exponent hrest
  -- What stands behind the digits of a part is a sign of another part, or ended.
  generalize hbehind : (match n.exponent with
    | none => []
    | some e => 'e' :: Numeral.exponentChars e) ++ rest = behind at hexponent ⊢
  have hpoint : ∀ c ∈ behind.head?, c.isDigit = false ∧ c ≠ '.' := by
    subst hbehind
    cases n.exponent with
    | none => exact fun c hc => ⟨(hrest c hc).1, (hrest c hc).2.1⟩
    | some e =>
      intro c hc
      rw [List.cons_append, List.head?_cons, Option.mem_some_iff] at hc
      subst hc
      decide
  have hfraction := readFraction_spelled n.fraction hpoint
  generalize hdigits : (if n.fraction.isEmpty then [] else
    '.' :: n.fraction.map Numeral.digitChar) ++ behind = afterWhole at hfraction ⊢
  have hdigit : ∀ c ∈ afterWhole.head?, c.isDigit = false := by
    subst hdigits
    cases n.fraction with
    | nil => exact fun c hc => (hpoint c hc).1
    | cons d ds =>
      intro c hc
      rw [List.isEmpty_cons, if_neg Bool.false_ne_true, List.cons_append, List.head?_cons,
        Option.mem_some_iff] at hc
      subst hc
      decide
  unfold readMagnitude
  rw [readWhole_toDigits n.whole hdigit]
  simp only [Option.bind_eq_bind, Option.bind_some, hfraction, hexponent, Option.pure_def]

/-- A numeral is read as it was spelled, if what follows ends it. -/
theorem readNumber_spelling (n : Numeral) {rest : List Char} (hrest : Ended rest) :
    readNumber (n.spelling ++ rest) = some (n, rest) := by
  have hread := readMagnitude_spelled n hrest
  unfold Numeral.spelling
  simp only [List.append_assoc]
  cases hnegative : n.negative with
  | true =>
    rw [hnegative] at hread
    simp only [if_true, List.cons_append, List.nil_append, readNumber]
    exact hread
  | false =>
    rw [hnegative] at hread
    simp only [Bool.false_eq_true, if_false, List.nil_append]
    rw [readNumber.eq_2]
    · exact hread
    · -- The first digit is no sign.
      intro tail heq
      cases hds : Nat.toDigits 10 n.whole with
      | nil => exact absurd hds Nat.toDigits_ne_nil
      | cons d ds =>
        have hd : d.isDigit = true := isDigit_of_mem_toDigits (n := n.whole) (by simp [hds])
        rw [hds, List.cons_append] at heq
        rw [(List.cons.inj heq).1] at hd
        exact absurd hd (by decide)

/-- The first character of a numeral's spelling is a digit or a minus sign. -/
theorem exists_spelling_eq_cons (n : Numeral) :
    ∃ c cs, n.spelling = c :: cs ∧ (c.isDigit = true ∨ c = '-') := by
  unfold Numeral.spelling
  simp only [List.append_assoc]
  cases n.negative with
  | true => exact ⟨'-', _, rfl, .inr rfl⟩
  | false =>
    cases hds : Nat.toDigits 10 n.whole with
    | nil => exact absurd hds Nat.toDigits_ne_nil
    | cons d ds =>
      exact ⟨d, _, rfl, .inl (isDigit_of_mem_toDigits (n := n.whole) (by simp [hds]))⟩

/-- What starts like a number is read as one. -/
theorem read_of_digit {c : Char} (hc : c.isDigit = true ∨ c = '-') (rest : List Char) :
    isBlank c = false ∧
      read c rest = (readNumber (c :: rest)).map fun (n, rest) => (.number n, rest) := by
  have hne : ∀ d : Char, d.isDigit = false → d ≠ '-' → c ≠ d := by
    rintro d hdigit hminus rfl
    rcases hc with hc | hc
    · rw [hdigit] at hc
      exact absurd hc Bool.false_ne_true
    · exact hminus hc
  constructor
  · unfold isBlank
    simp [hne ' ' (by decide) (by decide), hne '\n' (by decide) (by decide),
      hne '\t' (by decide) (by decide), hne '\r' (by decide) (by decide)]
  · unfold read
    split
    case h_11 => rfl
    all_goals exact absurd rfl (hne _ (by decide) (by decide))

/-! ## Pieces of text -/

/-- A piece of text is read as some tokens, whatever follows it that ends a number. -/
def Spells (cs : List Char) (ts : List Token) : Prop :=
  ∀ found rest, Ended rest → readAll found (cs ++ rest) = readAll (found ++ ts.toArray) rest

theorem ended_cons {c : Char} (hc : c.isDigit = false ∧ c ≠ '.' ∧ c ≠ 'e' ∧ c ≠ 'E')
    (cs : List Char) : Ended (c :: cs) := by
  intro d hd
  rw [List.head?_cons, Option.mem_some_iff] at hd
  rw [← hd]
  exact hc

theorem readAll_of_read {c : Char} {cs rest : List Char} {t : Token} (found : Array Token)
    (hblank : isBlank c = false) (hread : read c cs = some (t, rest)) :
    readAll found (c :: cs) = readAll (found.push t) rest := by
  rw [readAll, if_neg (by simp [hblank])]
  split
  · rename_i heq
    rw [hread] at heq
    obtain ⟨rfl, rfl⟩ := Prod.mk.inj (Option.some.inj heq)
    rfl
  · rename_i heq
    rw [hread] at heq
    cases heq

variable {cs ds : List Char} {ts us : List Token}

theorem spells_nil : Spells [] [] := by
  intro found rest _
  simp

/-- Two pieces spell what both spell, if the second one ends a number. -/
theorem Spells.append (h : Spells cs ts) (h' : Spells ds us) (hends : ∀ rest, Ended (ds ++ rest)) :
    Spells (cs ++ ds) (ts ++ us) := by
  intro found rest hrest
  rw [List.append_assoc, h found _ (hends rest), h' _ _ hrest]
  simp

/-- A mark in front of a piece is one more token. -/
theorem Spells.mark {c : Char} {t : Token} (h : Spells cs ts) (hblank : isBlank c = false)
    (hread : ∀ rest, read c rest = some (t, rest)) : Spells (c :: cs) (t :: ts) := by
  intro found rest hrest
  rw [List.cons_append, readAll_of_read found hblank (hread _), h _ _ hrest]
  simp

/-- A blank in front of a piece changes nothing. -/
theorem Spells.blank {c : Char} (h : Spells cs ts) (hblank : isBlank c = true) :
    Spells (c :: cs) ts := by
  intro found rest hrest
  rw [List.cons_append, readAll, if_pos hblank]
  exact h found rest hrest

theorem Spells.indent (h : Spells cs ts) (depth : Nat) : Spells (indent depth ++ cs) ts := by
  unfold Json.indent
  refine Spells.blank ?_ rfl
  induction 2 * depth with
  | zero => exact h
  | succ n ih => exact ih.blank rfl

/-- A new line ends a number. -/
theorem ended_indent (depth : Nat) (cs rest : List Char) :
    Ended (Json.indent depth ++ cs ++ rest) :=
  ended_cons (by decide) _

/-- A piece that is read as one token, whatever follows it, spells that token. -/
theorem spells_of_read {c : Char} {t : Token} (hblank : isBlank c = false)
    (hread : ∀ rest, read c (cs ++ rest) = some (t, rest)) : Spells (c :: cs) [t] := by
  intro found rest _
  rw [List.cons_append, readAll_of_read found hblank (hread rest)]
  simp

theorem spells_literal (l : Literal) : Spells l.spelling [.string l] := by
  obtain ⟨body, hbody, hread⟩ := exists_read_spelling l
  rw [hbody]
  exact spells_of_read (by decide) hread

theorem spells_numeral (n : Numeral) : Spells n.spelling [.number n] := by
  intro found rest hrest
  obtain ⟨c, body, hbody, hc⟩ := exists_spelling_eq_cons n
  have hnumber := readNumber_spelling n hrest
  obtain ⟨hblank, hread⟩ := read_of_digit hc (body ++ rest)
  rw [hbody, List.cons_append] at hnumber ⊢
  rw [hnumber] at hread
  rw [readAll_of_read found hblank hread]
  simp

theorem Spells.tokens? (h : Spells cs ts) : Json.tokens? cs = some ts := by
  have hread := h #[] [] ended_nil
  rw [List.append_nil, readAll] at hread
  rw [Json.tokens?, hread]
  simp

end Token

end SolidityBuild.Json
