import SolidityBuild.Proofs.Source.Lexeme

/-! # Spelling: the texts that consist of given lexemes

    Blanks and comments may stand around the lexemes, in any number. Nothing need stand
    between two of them unless the first one is a word that would go on otherwise. What is
    read from such a text are the given lexemes, and between them nothing but blanks and
    comments.
-/

namespace SolidityBuild.Source

/-- A text in which the given lexemes stand in order. A comment that starts with `//` ends
    with its line, and one that starts with `/*` ends with the first `*/` after that. -/
inductive Spelled : List Lexeme → List Char → Prop
  | nil : Spelled [] []
  | blank {ts : List Lexeme} {c : Char} {cs : List Char} (hc : Text.isBlank c = true)
      (h : Spelled ts cs) : Spelled ts (c :: cs)
  /-- what follows starts with a line feed, or the text ends -/
  | line {ts : List Lexeme} {body cs : List Char} (hbody : '\n' ∉ body)
      (hend : ∀ c ∈ cs.head?, c = '\n') (h : Spelled ts cs) :
      Spelled ts ('/' :: '/' :: (body ++ cs))
  | block {ts : List Lexeme} {body cs : List Char} (hbody : ¬['*', '/'] <:+: body)
      (h : Spelled ts cs) : Spelled ts ('/' :: '*' :: (body ++ '*' :: '/' :: cs))
  | lexeme {t : Lexeme} {ts : List Lexeme} {cs : List Char}
      (hend : ∀ name, t = .word name → ∀ c ∈ cs.head?, isNameChar c = false)
      (h : Spelled ts cs) : Spelled (t :: ts) (t.written ++ cs)

/-- A lexeme that is read from its own text: a word, a string without escapes, or a symbol that
    is neither a blank nor the start of a comment. -/
def Lexeme.Plain : Lexeme → Prop
  | word name => name ≠ [] ∧ ∀ c ∈ name, isNameChar c = true
  | symbol c => isNameChar c = false ∧ isQuote c = false ∧ c ≠ '/' ∧ Text.isBlank c = false
  | literal quote body => isQuote quote = true ∧ ∀ c ∈ body, c ≠ quote ∧ c ≠ '\\' ∧ c ≠ '\n'
  | comment _ | unclosed .. => False

variable {t : Lexeme} {ts : List Lexeme} {c quote : Char} {cs body name : List Char}

theorem Lexeme.Plain.isSpace_eq_false (h : t.Plain) : t.isSpace = false := by
  cases t with
  | word name => rfl
  | symbol c => exact h.2.2.2
  | comment text => exact h.elim
  | literal quote body => rfl
  | unclosed quote body => rfl

/-! ## Reading one lexeme -/

/-- The code points of the blanks. -/
def blankPoints : List Nat :=
  [9, 10, 11, 12, 13, 0x20, 0x85, 0xA0, 0x1680, 0x2000, 0x2001, 0x2002, 0x2003, 0x2004, 0x2005,
    0x2006, 0x2007, 0x2008, 0x2009, 0x200A, 0x2028, 0x2029, 0x202F, 0x205F, 0x3000]

theorem toNat_mem_blankPoints (h : Text.isBlank c = true) : c.toNat ∈ blankPoints := by
  simp only [Text.isBlank, Bool.or_eq_true, Bool.and_eq_true, decide_eq_true_eq, beq_iff_eq] at h
  simp only [blankPoints, List.mem_cons, List.not_mem_nil, or_false]
  omega

/-- No blank is in a range of word characters. -/
theorem isWord_of_isBlank (h : Text.isBlank c = true) : Text.isWord c = false := by
  have hall : ∀ n ∈ blankPoints, (if n < 0x80 then (Char.ofNat n).isAlphanum || Char.ofNat n = '_'
      else Text.wordRanges.toList.any fun range => range.1 ≤ n && n ≤ range.2) = false := by
    decide +kernel
  have hc := hall c.toNat (toNat_mem_blankPoints h)
  rw [Char.ofNat_toNat, Array.any_toList] at hc
  exact hc

/-- No blank belongs to a word, to a string or to the mark of a comment. -/
theorem symbol_of_isBlank (h : Text.isBlank c = true) :
    isNameChar c = false ∧ isQuote c = false ∧ c ≠ '/' := by
  have hall : ∀ n ∈ blankPoints, Char.ofNat n ≠ '$' ∧ isQuote (Char.ofNat n) = false ∧
      Char.ofNat n ≠ '/' := by
    decide
  obtain ⟨hdollar, hrest⟩ := hall c.toNat (toNat_mem_blankPoints h)
  rw [Char.ofNat_toNat] at hdollar hrest
  refine ⟨?_, hrest⟩
  rw [isNameChar, isWord_of_isBlank h, decide_eq_false hdollar]
  rfl

theorem readLexeme_code (hline : ∀ rest, c = '/' → cs = '/' :: rest → False)
    (hblock : ∀ rest, c = '/' → cs = '*' :: rest → False) :
    readLexeme c cs = if isQuote c then readString c cs
      else if isNameChar c then (.word (c :: cs.takeWhile isNameChar), cs.dropWhile isNameChar)
      else (.symbol c, cs) := by
  rw [readLexeme]
  · exact hline
  · exact hblock

theorem readLexeme_symbol (hname : isNameChar c = false) (hquote : isQuote c = false)
    (hslash : c ≠ '/') (cs : List Char) : readLexeme c cs = (.symbol c, cs) := by
  rw [readLexeme_code (fun _ h _ => hslash h) (fun _ h _ => hslash h), hname, hquote]
  rfl

/-- A word ends where no character follows that could belong to it. -/
theorem readLexeme_word (hname : ∀ d ∈ c :: name, isNameChar d = true)
    (hend : ∀ d ∈ cs.head?, isNameChar d = false) :
    readLexeme c (name ++ cs) = (.word (c :: name), cs) := by
  have hc := hname c (List.mem_cons_self ..)
  have hrest : ∀ d ∈ name, isNameChar d = true := fun d hd => hname d (List.mem_cons_of_mem _ hd)
  have hslash := isNameChar_ne_of hc (d := '/') (by decide)
  -- What follows the word takes no part in it.
  have hstop : cs.takeWhile isNameChar = [] ∧ cs.dropWhile isNameChar = cs := by
    cases cs with
    | nil => exact ⟨rfl, rfl⟩
    | cons d ds =>
      have hd := hend d rfl
      simp [hd]
  rw [readLexeme_code (fun _ h _ => hslash h) (fun _ h _ => hslash h), isQuote_of_isNameChar hc,
    hc, List.takeWhile_append_of_pos hrest, List.dropWhile_append_of_pos hrest, hstop.1, hstop.2,
    List.append_nil]
  rfl

/-- A string without escapes ends at the next quote of its kind. -/
theorem stringBody_plain (hbody : ∀ d ∈ body, d ≠ quote ∧ d ≠ '\\' ∧ d ≠ '\n')
    (hquote : quote ≠ '\\') : stringBody quote (body ++ quote :: cs) = (body, quote :: cs) := by
  induction body with
  | nil =>
    rw [List.nil_append, stringBody, if_pos (by simp)]
    intro d ds hd _
    exact hquote hd
  | cons d body ih =>
    obtain ⟨hne, hescape, hfeed⟩ := hbody d (List.mem_cons_self ..)
    rw [List.cons_append, stringBody, if_neg (by simp [hne, hfeed]),
      ih fun e he => hbody e (List.mem_cons_of_mem _ he)]
    intro e es hd _
    exact hescape hd

theorem ne_of_isQuote {d : Char} (h : isQuote c = true) (hd : isQuote d = false) : c ≠ d := by
  rintro rfl
  rw [h] at hd
  cases hd

theorem readLexeme_literal (hquote : isQuote quote = true)
    (hbody : ∀ d ∈ body, d ≠ quote ∧ d ≠ '\\' ∧ d ≠ '\n') :
    readLexeme quote (body ++ quote :: cs) = (.literal quote body, cs) := by
  have hslash := ne_of_isQuote hquote (d := '/') (by decide)
  have hescape := ne_of_isQuote hquote (d := '\\') (by decide)
  rw [readLexeme_code (fun _ h _ => hslash h) (fun _ h _ => hslash h), if_pos hquote, readString,
    stringBody_plain hbody hescape]
  simp

/-- A comment to the end of the line leaves the line feed. -/
theorem readLexeme_line (hbody : '\n' ∉ body) (hend : ∀ d ∈ cs.head?, d = '\n') :
    readLexeme '/' ('/' :: (body ++ cs)) = (.comment ('/' :: '/' :: body), cs) := by
  have hkept : ∀ d ∈ body, decide (d ≠ '\n') = true := by
    intro d hd
    exact decide_eq_true fun heq => hbody (heq ▸ hd)
  have hstop : cs.takeWhile (· ≠ '\n') = [] ∧ cs.dropWhile (· ≠ '\n') = cs := by
    cases cs with
    | nil => exact ⟨rfl, rfl⟩
    | cons d ds =>
      rw [hend d rfl]
      exact ⟨rfl, rfl⟩
  rw [readLexeme, List.takeWhile_append_of_pos hkept, List.dropWhile_append_of_pos hkept, hstop.1,
    hstop.2, List.append_nil]

/-- A comment that has no end mark inside goes to the first one behind it. -/
theorem blockEnd_append_mark (hbody : ¬['*', '/'] <:+: body) (cs : List Char) :
    blockEnd (body ++ '*' :: '/' :: cs) = (body ++ ['*', '/'], cs) := by
  induction body with
  | nil => rfl
  | cons d body ih =>
    have hrest : ¬['*', '/'] <:+: body := fun h => hbody (h.trans (List.suffix_cons d body).isInfix)
    rw [List.cons_append, blockEnd, ih hrest]
    · rfl
    · -- An end mark at the first character would be inside, or be cut off by the star.
      intro rest hd hmark
      cases body with
      | nil =>
        obtain ⟨hstar, -⟩ := List.cons.inj hmark
        exact absurd hstar (by decide)
      | cons e body =>
        obtain ⟨he, -⟩ := List.cons.inj hmark
        rw [hd, he] at hbody
        exact hbody (List.prefix_append ['*', '/'] body).isInfix

theorem readLexeme_block (hbody : ¬['*', '/'] <:+: body) (cs : List Char) :
    readLexeme '/' ('*' :: (body ++ '*' :: '/' :: cs)) =
      (.comment ('/' :: '*' :: (body ++ ['*', '/'])), cs) := by
  rw [readLexeme, blockEnd_append_mark hbody]

/-- A plain lexeme is read from its text. -/
theorem Lexeme.Plain.exists_readLexeme (h : t.Plain)
    (hend : ∀ name, t = .word name → ∀ c ∈ cs.head?, isNameChar c = false) :
    ∃ c rest, t.written ++ cs = c :: rest ∧ readLexeme c rest = (t, cs) := by
  cases t with
  | word name =>
    obtain ⟨hne, hname⟩ := h
    obtain ⟨c, name, rfl⟩ := List.exists_cons_of_ne_nil hne
    exact ⟨c, name ++ cs, rfl, readLexeme_word hname (hend _ rfl)⟩
  | symbol c => exact ⟨c, cs, rfl, readLexeme_symbol h.1 h.2.1 h.2.2.1 cs⟩
  | comment text => exact h.elim
  | literal quote body =>
    refine ⟨quote, body ++ quote :: cs, ?_, readLexeme_literal h.1 h.2⟩
    simp [Lexeme.written]
  | unclosed quote body => exact h.elim

/-! ## Reading a text -/

theorem lexemes_of_readLexeme {rest : List Char} (h : readLexeme c cs = (t, rest)) :
    lexemes (c :: cs) = t :: lexemes rest := by
  rw [lexemes, h]

theorem filter_lexemes_of_isSpace {rest : List Char} (h : readLexeme c cs = (t, rest))
    (hspace : t.isSpace = true) :
    (lexemes (c :: cs)).filter (!·.isSpace) = (lexemes rest).filter (!·.isSpace) := by
  rw [lexemes_of_readLexeme h, List.filter_cons_of_neg (by simp [hspace])]

theorem filter_lexemes_blank (hc : Text.isBlank c = true) (cs : List Char) :
    (lexemes (c :: cs)).filter (!·.isSpace) = (lexemes cs).filter (!·.isSpace) := by
  obtain ⟨hname, hquote, hslash⟩ := symbol_of_isBlank hc
  exact filter_lexemes_of_isSpace (readLexeme_symbol hname hquote hslash cs) hc

/-- **Plain lexemes are read from each text that spells them**, with nothing but blanks and
    comments between them. -/
theorem filter_lexemes_of_spelled (h : Spelled ts cs) (hplain : ∀ t ∈ ts, t.Plain) :
    (lexemes cs).filter (!·.isSpace) = ts := by
  induction h with
  | nil =>
    rw [lexemes]
    rfl
  | blank hc h ih =>
    rw [filter_lexemes_blank hc]
    exact ih hplain
  | line hbody hend h ih =>
    rw [filter_lexemes_of_isSpace (readLexeme_line hbody hend) rfl]
    exact ih hplain
  | block hbody h ih =>
    rw [filter_lexemes_of_isSpace (readLexeme_block hbody _) rfl]
    exact ih hplain
  | @lexeme t ts cs hend h ih =>
    have ht := hplain t (List.mem_cons_self ..)
    obtain ⟨c, rest, hwritten, hread⟩ := ht.exists_readLexeme hend
    rw [hwritten, lexemes_of_readLexeme hread,
      List.filter_cons_of_pos (by simp [ht.isSpace_eq_false]),
      ih fun u hu => hplain u (List.mem_cons_of_mem _ hu)]

/-! ## Every text is spelled by its lexemes -/

/-- Whether a lexeme is no comment that the end of the text cuts off. -/
def Lexeme.isClosed : Lexeme → Bool
  | comment ('/' :: '*' :: body) => ['*', '/'].isSuffixOf body
  | _ => true

/-- What stands in front of the first end mark. -/
theorem exists_body_of_blockEnd (h : ['*', '/'] <:+ (blockEnd cs).1) :
    ∃ body, ¬['*', '/'] <:+: body ∧ cs = body ++ '*' :: '/' :: (blockEnd cs).2 := by
  induction cs using blockEnd.induct with
  | case1 => exact absurd h (by decide)
  | case2 cs => exact ⟨[], by decide, rfl⟩
  | case3 c cs hnot ih =>
    have happend := blockEnd_append cs
    rw [blockEnd] at h ⊢
    · rcases List.suffix_cons_iff.1 h with hmark | h
      · -- The star and the slash would be the end mark that was read.
        obtain ⟨hc, hslash⟩ := List.cons.inj hmark
        rw [← hslash] at happend
        exact (hnot _ hc.symm happend.symm).elim
      · obtain ⟨body, hbody, hcs⟩ := ih h
        refine ⟨c :: body, ?_, congrArg (c :: ·) hcs⟩
        intro hmark
        rcases List.infix_cons_iff.1 hmark with ⟨rest, hrest⟩ | hmark
        · obtain ⟨hc, hslash⟩ := List.cons.inj hrest
          rw [← hslash] at hcs
          exact hnot _ hc.symm hcs
        · exact hbody hmark
    · exact hnot
    · exact hnot

/-- A lexeme that is no comment, in front of a text that is spelled. -/
theorem Spelled.written_append (h : Spelled ts cs) (hcomment : ∀ text, t ≠ .comment text)
    (hend : ∀ name, t = .word name → ∀ c ∈ cs.head?, isNameChar c = false) :
    Spelled ([t].filter (!·.isSpace) ++ ts) (t.written ++ cs) := by
  cases hspace : t.isSpace with
  | false =>
    rw [List.filter_cons_of_pos (by simp [hspace])]
    exact .lexeme hend h
  | true =>
    rw [List.filter_cons_of_neg (by simp [hspace])]
    cases t with
    -- Of the lexemes that are no comments, only a blank separates others.
    | symbol c => exact .blank hspace h
    | comment text => exact absurd rfl (hcomment text)
    | _ => cases hspace

/-- Behind a quote, a string is read. -/
theorem isString_readString (quote : Char) (cs : List Char) :
    (readString quote cs).1.isString = true := by
  unfold readString
  split
  · rfl
  · split <;> rfl

/-- The first lexeme of a text, in front of a text that is spelled. -/
theorem spelled_readLexeme (hclosed : (readLexeme c cs).1.isClosed = true)
    (h : Spelled ts (readLexeme c cs).2) :
    Spelled ([(readLexeme c cs).1].filter (!·.isSpace) ++ ts) (c :: cs) := by
  have hwritten := readLexeme_written c cs
  unfold readLexeme at hclosed h hwritten ⊢
  split
  · rename_i cs
    have hline : Spelled ts
        ('/' :: '/' :: (cs.takeWhile (· ≠ '\n') ++ cs.dropWhile (· ≠ '\n'))) := by
      refine .line ?_ ?_ h
      · intro hfeed
        have hkept := List.all_eq_true.1 (List.all_takeWhile (p := (· ≠ '\n')) (l := cs)) _ hfeed
        simp at hkept
      · intro d hd
        have hhead := List.head?_dropWhile_not (· ≠ '\n') cs
        rw [show (cs.dropWhile (· ≠ '\n')).head? = some d from hd] at hhead
        simpa using hhead
    rwa [List.takeWhile_append_dropWhile] at hline
  · rename_i cs
    obtain ⟨body, hbody, hcs⟩ := exists_body_of_blockEnd (List.isSuffixOf_iff_suffix.1 hclosed)
    have hblock : Spelled ts ('/' :: '*' :: (body ++ '*' :: '/' :: (blockEnd cs).2)) :=
      .block hbody h
    rwa [← hcs] at hblock
  · simp only at h hwritten
    rw [← hwritten]
    by_cases hquote : isQuote c = true
    · rw [if_pos hquote] at h ⊢
      have hstring := isString_readString c cs
      refine h.written_append ?_ ?_
      · intro text htext
        rw [htext] at hstring
        cases hstring
      · intro name hword
        rw [hword] at hstring
        cases hstring
    · rw [if_neg hquote] at h ⊢
      by_cases hname : isNameChar c = true
      · rw [if_pos hname] at h ⊢
        refine h.written_append (fun _ => Lexeme.noConfusion) ?_
        -- A word is as long as it can be.
        intro name _ d hd
        have hhead := List.head?_dropWhile_not isNameChar cs
        rw [show (cs.dropWhile isNameChar).head? = some d from hd] at hhead
        exact hhead
      · rw [if_neg hname] at h ⊢
        exact h.written_append (fun _ => Lexeme.noConfusion) fun _ hword => by cases hword

/-- A text is spelled by what is read from it, if no comment is cut off. -/
theorem spelled_lexemes (hclosed : ∀ t ∈ lexemes cs, t.isClosed = true) :
    Spelled ((lexemes cs).filter (!·.isSpace)) cs := by
  induction cs using lexemes.induct with
  | case1 =>
    rw [lexemes]
    exact .nil
  | case2 c cs ih =>
    rw [lexemes] at hclosed ⊢
    rw [← List.singleton_append, List.filter_append]
    exact spelled_readLexeme (hclosed _ (List.mem_cons_self ..))
      (ih fun t ht => hclosed t (List.mem_cons_of_mem _ ht))

end SolidityBuild.Source
