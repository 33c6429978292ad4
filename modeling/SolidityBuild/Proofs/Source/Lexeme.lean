import SolidityBuild.Source.Import

/-! # Lexemes: a source text as words, symbols, comments and strings

    The lexemes of a text are read one by one, each as long as it can be; a line ends with its
    line feed. Blanking the comments of a text is blanking its comment lexemes, whatever
    stands in its strings, and no word follows a word directly.
-/

namespace SolidityBuild.Source

/-- Whether a character can stand in an identifier. -/
def isNameChar (c : Char) : Bool :=
  Text.isWord c || c = '$'

/-- A piece of a source text. -/
inductive Lexeme where
  /-- an identifier, a keyword or a number -/
  | word (name : List Char)
  /-- any other character of code -/
  | symbol (c : Char)
  /-- a comment with its marks, but without the line feed that ends it -/
  | comment (text : List Char)
  /-- a string as it is spelled between its quotes -/
  | literal (quote : Char) (body : List Char)
  /-- a string that the end of its line or of the text cuts off -/
  | unclosed (quote : Char) (body : List Char)
deriving DecidableEq

namespace Lexeme

/-- The text of a lexeme. -/
def written : Lexeme → List Char
  | word name => name
  | symbol c => [c]
  | comment text => text
  | literal quote body => quote :: (body ++ [quote])
  | unclosed quote body => quote :: body

/-- The text of a lexeme, a comment blanked. -/
def blanked : Lexeme → List Char
  | comment text => text.map (blank true)
  | t => t.written

/-- Whether a lexeme is a string. -/
def isString : Lexeme → Bool
  | literal .. | unclosed .. => true
  | _ => false

/-- Whether a lexeme only separates others. -/
def isSpace : Lexeme → Bool
  | symbol c => Text.isBlank c
  | comment _ => true
  | _ => false

/-- The characters of a lexeme are of its kind. -/
def Valid : Lexeme → Prop
  | word name => name ≠ [] ∧ ∀ c ∈ name, isNameChar c = true
  | symbol c => isNameChar c = false ∧ isQuote c = false
  | comment _ => True
  | literal quote _ | unclosed quote _ => isQuote quote = true

end Lexeme

/-! ## Reading -/

/-- The text up to the end of a block comment, and what follows. -/
def blockEnd : List Char → List Char × List Char
  | [] => ([], [])
  | '*' :: '/' :: cs => (['*', '/'], cs)
  | c :: cs => (c :: (blockEnd cs).1, (blockEnd cs).2)

/-- The text up to the quote or the line feed that ends a string, and what follows. A
    character after a backslash ends no string. -/
def stringBody (quote : Char) : List Char → List Char × List Char
  | [] => ([], [])
  | '\\' :: c :: cs => ('\\' :: c :: (stringBody quote cs).1, (stringBody quote cs).2)
  | c :: cs =>
    if c = quote || c = '\n' then ([], c :: cs)
    else (c :: (stringBody quote cs).1, (stringBody quote cs).2)

/-- The string after its opening quote, and what follows. -/
def readString (quote : Char) (cs : List Char) : Lexeme × List Char :=
  match stringBody quote cs with
  | (body, []) => (.unclosed quote body, [])
  | (body, c :: rest) =>
    if c = quote then (.literal quote body, rest) else (.unclosed quote body, c :: rest)

/-- The first lexeme of a text, and what follows. -/
def readLexeme : Char → List Char → Lexeme × List Char
  | '/', '/' :: cs =>
    (.comment ('/' :: '/' :: cs.takeWhile (· ≠ '\n')), cs.dropWhile (· ≠ '\n'))
  | '/', '*' :: cs => (.comment ('/' :: '*' :: (blockEnd cs).1), (blockEnd cs).2)
  | c, cs =>
    if isQuote c then readString c cs
    else if isNameChar c then (.word (c :: cs.takeWhile isNameChar), cs.dropWhile isNameChar)
    else (.symbol c, cs)

/-! ## Nothing is lost -/

theorem blockEnd_append (cs : List Char) : (blockEnd cs).1 ++ (blockEnd cs).2 = cs := by
  induction cs using blockEnd.induct with
  | case1 => rfl
  | case2 cs => rfl
  | case3 c cs hnot ih =>
    rw [blockEnd]
    · rw [List.cons_append, ih]
    · exact hnot

theorem stringBody_append (quote : Char) (cs : List Char) :
    (stringBody quote cs).1 ++ (stringBody quote cs).2 = cs := by
  induction cs using stringBody.induct quote with
  | case1 => rfl
  | case2 c cs ih =>
    rw [stringBody, List.cons_append, List.cons_append, ih]
  | case3 c cs hnot hend =>
    rw [stringBody, if_pos hend]
    · rfl
    · exact hnot
  | case4 c cs hnot hend ih =>
    rw [stringBody, if_neg hend, List.cons_append, ih]
    exact hnot

theorem readString_written (quote : Char) (cs : List Char) :
    (readString quote cs).1.written ++ (readString quote cs).2 = quote :: cs := by
  have happend := stringBody_append quote cs
  unfold readString
  split
  · rename_i body heq
    rw [heq] at happend
    rw [Lexeme.written, ← happend]
    rfl
  · rename_i body c rest heq
    rw [heq] at happend
    split
    · rename_i hc
      subst hc
      rw [Lexeme.written, ← happend]
      simp
    · rw [Lexeme.written, ← happend]
      rfl

theorem readLexeme_written (c : Char) (cs : List Char) :
    (readLexeme c cs).1.written ++ (readLexeme c cs).2 = c :: cs := by
  unfold readLexeme
  split
  · simp [Lexeme.written]
  · rename_i cs
    simp [Lexeme.written, blockEnd_append]
  · split
    · exact readString_written c cs
    · split
      · simp [Lexeme.written]
      · rfl

theorem readLexeme_written_ne_nil (c : Char) (cs : List Char) :
    (readLexeme c cs).1.written ≠ [] := by
  unfold readLexeme
  split
  · simp [Lexeme.written]
  · simp [Lexeme.written]
  · split
    · unfold readString
      split
      · simp [Lexeme.written]
      · split
        · simp [Lexeme.written]
        · simp [Lexeme.written]
    · split
      · simp [Lexeme.written]
      · simp [Lexeme.written]

theorem readLexeme_length (c : Char) (cs : List Char) :
    (readLexeme c cs).2.length ≤ cs.length := by
  have hne := List.length_pos_iff.2 (readLexeme_written_ne_nil c cs)
  have hlength := congrArg List.length (readLexeme_written c cs)
  simp only [List.length_append, List.length_cons] at hlength
  omega

/-- The lexemes of a text. -/
def lexemes : List Char → List Lexeme
  | [] => []
  | c :: cs => (readLexeme c cs).1 :: lexemes (readLexeme c cs).2
termination_by cs => cs.length
decreasing_by
  exact Nat.lt_succ_of_le (readLexeme_length c cs)

/-- A text is that of its lexemes. -/
theorem flatMap_written_lexemes (cs : List Char) : (lexemes cs).flatMap Lexeme.written = cs := by
  induction cs using lexemes.induct with
  | case1 =>
    rw [lexemes]
    rfl
  | case2 c cs ih => rw [lexemes, List.flatMap_cons, ih, readLexeme_written]

theorem Lexeme.length_blanked (t : Lexeme) : t.blanked.length = t.written.length := by
  cases t with
  | comment text => exact List.length_map ..
  | _ => rfl

/-- Blanking moves nothing. -/
theorem length_flatMap_blanked (ts : List Lexeme) :
    (ts.flatMap Lexeme.blanked).length = (ts.flatMap Lexeme.written).length := by
  induction ts with
  | nil => rfl
  | cons t ts ih =>
    rw [List.flatMap_cons, List.flatMap_cons, List.length_append, List.length_append, ih,
      t.length_blanked]

/-! ## Blanking -/

theorem blank_false (c : Char) : blank false c = c := rfl

theorem blankComments_code {c : Char} {cs : List Char}
    (hline : ∀ rest, c = '/' → cs = '/' :: rest → False)
    (hblock : ∀ rest, c = '/' → cs = '*' :: rest → False) :
    blankComments (c :: cs) =
      c :: List.zipWith blank (commentMarks (if isQuote c then .quoted c else .code) cs) cs := by
  rw [blankComments, commentMarks, List.zipWith_cons_cons, blank_false]
  · exact hline
  · exact hblock

theorem blank_lineComment (cs : List Char) :
    List.zipWith blank (commentMarks .lineComment cs) cs =
      (cs.takeWhile (· ≠ '\n')).map (blank true) ++ blankComments (cs.dropWhile (· ≠ '\n')) := by
  induction cs with
  | nil => rfl
  | cons c cs ih =>
    by_cases hc : c = '\n'
    · subst hc
      rfl
    · rw [commentMarks, List.zipWith_cons_cons, ih]
      · simp [hc]
      · exact hc

theorem blank_blockComment (cs : List Char) :
    List.zipWith blank (commentMarks .blockComment cs) cs =
      (blockEnd cs).1.map (blank true) ++ blankComments (blockEnd cs).2 := by
  induction cs using blockEnd.induct with
  | case1 => rfl
  | case2 cs => rfl
  | case3 c cs hnot ih =>
    rw [blockEnd, commentMarks, List.zipWith_cons_cons, ih]
    · rfl
    · exact hnot
    · exact hnot

theorem blank_quoted (quote : Char) (cs : List Char) :
    List.zipWith blank (commentMarks (.quoted quote) cs) cs = (stringBody quote cs).1 ++
      match (stringBody quote cs).2 with
      | [] => []
      | c :: rest => c :: blankComments rest := by
  induction cs using stringBody.induct quote with
  | case1 => rfl
  | case2 c cs ih =>
    rw [commentMarks, List.zipWith_cons_cons, List.zipWith_cons_cons, ih, stringBody]
    rfl
  | case3 c cs hnot hend =>
    rw [commentMarks, if_pos hend, List.zipWith_cons_cons, stringBody, if_pos hend]
    · rfl
    · exact hnot
    · exact hnot
  | case4 c cs hnot hend ih =>
    rw [commentMarks, if_neg hend, List.zipWith_cons_cons, ih, stringBody, if_neg hend]
    · rfl
    · exact hnot
    · exact hnot

theorem stringBody_stop {quote c : Char} {cs rest : List Char}
    (h : (stringBody quote cs).2 = c :: rest) : c = quote ∨ c = '\n' := by
  induction cs using stringBody.induct quote with
  | case1 => cases h
  | case2 c' cs ih =>
    rw [stringBody] at h
    exact ih h
  | case3 c' cs hnot hend =>
    rw [stringBody, if_pos hend] at h
    · obtain ⟨rfl, -⟩ := List.cons.inj h
      simpa using hend
    · exact hnot
  | case4 c' cs hnot hend ih =>
    rw [stringBody, if_neg hend] at h
    · exact ih h
    · exact hnot

theorem blank_readString (quote : Char) (cs : List Char) :
    quote :: List.zipWith blank (commentMarks (.quoted quote) cs) cs =
      (readString quote cs).1.blanked ++ blankComments (readString quote cs).2 := by
  rw [blank_quoted, readString]
  cases hbody : stringBody quote cs with
  | mk body behind =>
    cases behind with
    | nil =>
      show quote :: (body ++ []) = quote :: body ++ []
      rw [List.append_nil, List.append_nil]
    | cons c rest =>
      have hstop := stringBody_stop (congrArg Prod.snd hbody)
      by_cases hc : c = quote
      · subst hc
        simp [Lexeme.blanked, Lexeme.written]
      · obtain rfl := hstop.resolve_left hc
        simp only [if_neg hc]
        rfl

theorem isNameChar_ne_of {c d : Char} (hc : isNameChar c = true) (hd : isNameChar d = false) :
    c ≠ d := by
  rintro rfl
  rw [hc] at hd
  cases hd

theorem isQuote_of_isNameChar {c : Char} (hc : isNameChar c = true) : isQuote c = false := by
  have hdouble := isNameChar_ne_of hc (d := '\x22') (by decide)
  have hsingle := isNameChar_ne_of hc (d := '\x27') (by decide)
  simp [isQuote, hdouble, hsingle]

/-- Blanking leaves names as they are. -/
theorem blankComments_name {name : List Char} (hname : ∀ c ∈ name, isNameChar c = true)
    (cs : List Char) : blankComments (name ++ cs) = name ++ blankComments cs := by
  induction name with
  | nil => rfl
  | cons c name ih =>
    have hc := hname c (List.mem_cons_self ..)
    have hslash := isNameChar_ne_of hc (d := '/') (by decide)
    rw [List.cons_append, blankComments_code (fun _ h _ => hslash h) (fun _ h _ => hslash h),
      if_neg (by rw [isQuote_of_isNameChar hc]; decide), List.cons_append,
      ← ih fun d hd => hname d (List.mem_cons_of_mem _ hd)]
    rfl

/-- One lexeme is blanked without regard to what follows. -/
theorem blankComments_readLexeme (c : Char) (cs : List Char) :
    blankComments (c :: cs) =
      (readLexeme c cs).1.blanked ++ blankComments (readLexeme c cs).2 := by
  unfold readLexeme
  split
  · rename_i cs
    rw [blankComments, commentMarks, List.zipWith_cons_cons, List.zipWith_cons_cons,
      blank_lineComment]
    rfl
  · rename_i cs
    rw [blankComments, commentMarks, List.zipWith_cons_cons, List.zipWith_cons_cons,
      blank_blockComment]
    rfl
  · rename_i hline hblock
    by_cases hquote : isQuote c = true
    · rw [if_pos hquote, blankComments_code hline hblock, if_pos hquote, blank_readString]
    · rw [if_neg hquote]
      by_cases hname : isNameChar c = true
      · rw [if_pos hname]
        have hwhole : ∀ d ∈ c :: cs.takeWhile isNameChar, isNameChar d = true := by
          intro d hd
          rcases List.mem_cons.1 hd with rfl | hd
          · exact hname
          · exact List.all_eq_true.1 List.all_takeWhile d hd
        have hsplit : c :: cs = (c :: cs.takeWhile isNameChar) ++ cs.dropWhile isNameChar := by
          rw [List.cons_append, List.takeWhile_append_dropWhile]
        rw [hsplit, blankComments_name hwhole]
        rfl
      · rw [if_neg hname, blankComments_code hline hblock, if_neg hquote]
        rfl

/-- **Blanking the comments** of a text is blanking its comment lexemes. -/
theorem blankComments_eq_flatMap (cs : List Char) :
    blankComments cs = (lexemes cs).flatMap Lexeme.blanked := by
  induction cs using lexemes.induct with
  | case1 =>
    rw [lexemes]
    rfl
  | case2 c cs ih => rw [lexemes, List.flatMap_cons, ← ih, blankComments_readLexeme]

/-! ## What a lexeme is next to -/

theorem valid_readString (quote : Char) (hquote : isQuote quote = true) (cs : List Char) :
    (readString quote cs).1.Valid := by
  unfold readString
  split
  · exact hquote
  · split
    · exact hquote
    · exact hquote

theorem valid_readLexeme (c : Char) (cs : List Char) : (readLexeme c cs).1.Valid := by
  unfold readLexeme
  split
  · trivial
  · trivial
  · by_cases hquote : isQuote c = true
    · rw [if_pos hquote]
      exact valid_readString c hquote _
    · rw [if_neg hquote]
      by_cases hname : isNameChar c = true
      · rw [if_pos hname]
        refine ⟨by simp, ?_⟩
        intro d hd
        rcases List.mem_cons.1 hd with rfl | hd
        · exact hname
        · exact List.all_eq_true.1 List.all_takeWhile d hd
      · rw [if_neg hname]
        exact ⟨by simpa using hname, by simpa using hquote⟩

/-- A word starts with its own first character. -/
theorem isNameChar_of_readLexeme {c : Char} {cs name : List Char}
    (h : (readLexeme c cs).1 = .word name) : isNameChar c = true := by
  have hvalid := valid_readLexeme c cs
  have hwritten := readLexeme_written c cs
  rw [h] at hvalid hwritten
  obtain ⟨hne, hname⟩ := hvalid
  obtain ⟨d, rest, rfl⟩ := List.exists_cons_of_ne_nil hne
  obtain ⟨rfl, -⟩ := List.cons.inj hwritten
  exact hname d (List.mem_cons_self ..)

theorem isWord_of_isNameChar {c : Char} (h : isNameChar c = false) : Text.isWord c = false := by
  unfold isNameChar at h
  exact (Bool.or_eq_false_iff.1 h).1

/-- Of a comment there are only spaces and line feeds left. -/
theorem of_mem_blanked {P : Char → Prop} {text : List Char} {c : Char}
    (hc : c ∈ text.map (blank true)) (hspace : P ' ') (hfeed : P '\n') : P c := by
  obtain ⟨d, -, rfl⟩ := List.mem_map.1 hc
  unfold blank
  split
  · exact hspace
  · rename_i hkept
    have hd : d = '\n' := by simpa using hkept
    rw [hd]
    exact hfeed

theorem isWordAt_comment (text : List Char) :
    Text.isWordAt (text.map (blank true)).getLast? = false := by
  cases hlast : (text.map (blank true)).getLast? with
  | none => rfl
  | some c =>
    exact of_mem_blanked (P := (Text.isWord · = false)) (List.mem_of_getLast? hlast)
      (by decide) (by decide)

theorem isWordAt_readString {quote d : Char} {cs rest : List Char}
    (hquote : isQuote quote = true) (h : (readString quote cs).2 = d :: rest)
    (hd : isNameChar d = true) :
    Text.isWordAt (readString quote cs).1.blanked.getLast? = false := by
  unfold readString at h ⊢
  cases hbody : stringBody quote cs with
  | mk body behind =>
    simp only [hbody] at h ⊢
    cases behind with
    | nil => cases h
    | cons c after =>
      by_cases hc : c = quote
      · simp only [if_pos hc]
        show Text.isWordAt (quote :: (body ++ [quote])).getLast? = false
        rw [← List.cons_append, List.getLast?_concat]
        exact isWord_of_isQuote hquote
      · -- A string that is cut off is so by a line feed.
        simp only [if_neg hc] at h
        obtain ⟨rfl, -⟩ := List.cons.inj h
        obtain rfl := (stringBody_stop (congrArg Prod.snd hbody)).resolve_left hc
        cases hd

/-- Where a word follows, there is no word character in front of it. -/
theorem isWordAt_readLexeme {c d : Char} {cs rest : List Char}
    (h : (readLexeme c cs).2 = d :: rest) (hd : isNameChar d = true) :
    Text.isWordAt (readLexeme c cs).1.blanked.getLast? = false := by
  unfold readLexeme at h ⊢
  split
  · exact isWordAt_comment _
  · exact isWordAt_comment _
  · simp only at h
    by_cases hquote : isQuote c = true
    · rw [if_pos hquote] at h ⊢
      exact isWordAt_readString hquote h hd
    · rw [if_neg hquote] at h ⊢
      by_cases hname : isNameChar c = true
      · -- A word is as long as it can be.
        rw [if_pos hname] at h
        have hhead := List.head?_dropWhile_not isNameChar cs
        rw [show cs.dropWhile isNameChar = d :: rest from h] at hhead
        rw [show isNameChar d = false from hhead] at hd
        cases hd
      · rw [if_neg hname]
        exact isWord_of_isNameChar (by simpa using hname)

/-- In a text after the character `before`, the lexemes are valid, and no word follows a word
    character. -/
inductive Lexed : Option Char → List Lexeme → Prop
  | nil {before : Option Char} : Lexed before []
  | cons {before : Option Char} {t : Lexeme} {ts : List Lexeme} (hvalid : t.Valid)
      (hword : ∀ name, t = .word name → Text.isWordAt before = false)
      (hrest : Lexed (t.blanked.getLast?.or before) ts) : Lexed before (t :: ts)

theorem readLexeme_blanked_ne_nil (c : Char) (cs : List Char) :
    (readLexeme c cs).1.blanked ≠ [] := by
  have hne := readLexeme_written_ne_nil c cs
  rw [← List.length_pos_iff] at hne ⊢
  rw [Lexeme.length_blanked]
  exact hne

theorem lexed_lexemes {before : Option Char} {cs : List Char}
    (h : ∀ c rest, cs = c :: rest → isNameChar c = true → Text.isWordAt before = false) :
    Lexed before (lexemes cs) := by
  induction cs using lexemes.induct generalizing before with
  | case1 =>
    rw [lexemes]
    exact .nil
  | case2 c cs ih =>
    rw [lexemes]
    refine .cons (valid_readLexeme c cs) ?_ (ih ?_)
    · intro name hname
      exact h c cs rfl (isNameChar_of_readLexeme hname)
    · intro d rest hrest hd
      have hlast := isWordAt_readLexeme hrest hd
      rw [List.getLast?_eq_some_getLast (readLexeme_blanked_ne_nil c cs)] at hlast ⊢
      exact hlast

end SolidityBuild.Source
