import SolidityBuild.Proofs.Source.Directive
import SolidityBuild.Proofs.Source.Spelling

/-! # Forms: the four forms of an import directive

    A directive names a path, and what of the file is imported under which names. A text of
    blanks, comments and such directives has no other words than those of the directives, so
    the search finds each of them. Behind its path it passes over the rest of the
    directive: whatever names are there, a semicolon comes before the next path.
-/

namespace SolidityBuild.Source

/-- A name in a list, and the name it is imported under if that is another one. -/
structure ImportedName where
  name : List Char
  renamed? : Option (List Char) := none

/-- What is imported, and under which names. -/
inductive Form where
  /-- `import "p";` -/
  | all
  /-- `import "p" as A;` -/
  | named (name : List Char)
  /-- `import * as A from "p";` -/
  | starred (name : List Char)
  /-- `import {x, y as z} from "p";` -/
  | listed (names : List ImportedName)

/-- An import directive. -/
structure Directive where
  form : Form
  /-- the quote character on both sides of the path -/
  quote : Char
  path : List Char

/-! ## Tokens -/

def ImportedName.tokens (x : ImportedName) : List Lexeme :=
  match x.renamed? with
  | none => [.word x.name]
  | some other => [.word x.name, .word "as".toList, .word other]

/-- Names with commas between them. -/
def listing : List ImportedName → List Lexeme
  | [] => []
  | [x] => x.tokens
  | x :: y :: rest => x.tokens ++ .symbol ',' :: listing (y :: rest)

/-- What stands between `import` and the path. -/
def Form.clause : Form → List Lexeme
  | all | named _ => []
  | starred name => [.symbol '*', .word "as".toList, .word name, .word "from".toList]
  | listed names => .symbol '{' :: (listing names ++ [.symbol '}', .word "from".toList])

/-- What stands between the path and the semicolon. -/
def Form.ending : Form → List Lexeme
  | named name => [.word "as".toList, .word name]
  | _ => []

/-- The lexemes of a directive, without blanks and comments. -/
def Directive.tokens (d : Directive) : List Lexeme :=
  .word importWord :: (d.form.clause ++ .literal d.quote d.path :: (d.form.ending ++ [.symbol ';']))

/-- An identifier. -/
def IsIdentifier (name : List Char) : Prop :=
  name ≠ [] ∧ ∀ c ∈ name, isNameChar c = true

/-- The names in a member of a list. -/
def ImportedName.names (x : ImportedName) : List (List Char) :=
  x.name :: x.renamed?.toList

/-- The names that a form holds. -/
def Form.names : Form → List (List Char)
  | all => []
  | named name | starred name => [name]
  | listed names => names.flatMap ImportedName.names

/-- The names are identifiers, and the path needs no escapes. -/
structure Directive.Valid (d : Directive) : Prop where
  isQuote_quote : isQuote d.quote = true
  path_ne_nil : d.path ≠ []
  path_plain : ∀ c ∈ d.path, isQuote c = false ∧ c ≠ '\\' ∧ c ≠ '\n'
  names : ∀ name ∈ d.form.names, IsIdentifier name

variable {d : Directive} {t : Lexeme} {ts us vs : List Lexeme} {before : Option Char}

theorem isIdentifier_iff {name : List Char} :
    IsIdentifier name ↔ name ≠ [] ∧ name.all isNameChar = true := by
  rw [List.all_eq_true]
  rfl

instance (name : List Char) : Decidable (IsIdentifier name) :=
  decidable_of_iff _ isIdentifier_iff.symm

theorem Directive.valid_iff {d : Directive} : d.Valid ↔ isQuote d.quote = true ∧ d.path ≠ [] ∧
    d.path.all (fun c => !isQuote c && c ≠ '\\' && c ≠ '\n') = true ∧
    ∀ name ∈ d.form.names, IsIdentifier name := by
  simp only [List.all_eq_true, Bool.and_eq_true, Bool.not_eq_true', decide_eq_true_eq, and_assoc]
  constructor
  · rintro ⟨hquote, hne, hplain, hnames⟩
    exact ⟨hquote, hne, hplain, hnames⟩
  · rintro ⟨hquote, hne, hplain, hnames⟩
    exact ⟨hquote, hne, hplain, hnames⟩

instance (d : Directive) : Decidable d.Valid :=
  decidable_of_iff _ Directive.valid_iff.symm

theorem ImportedName.mem_tokens {x : ImportedName} (ht : t ∈ x.tokens) :
    ∃ name, t = .word name ∧ (name = "as".toList ∨ name ∈ x.names) := by
  unfold ImportedName.tokens at ht
  unfold ImportedName.names
  cases hrenamed : x.renamed? with
  | none =>
    rw [hrenamed, List.mem_singleton] at ht
    exact ⟨x.name, ht, .inr (List.mem_cons_self ..)⟩
  | some other =>
    rw [hrenamed] at ht
    simp only [List.mem_cons, List.not_mem_nil, or_false] at ht
    rcases ht with rfl | rfl | rfl
    · exact ⟨x.name, rfl, .inr (List.mem_cons_self ..)⟩
    · exact ⟨"as".toList, rfl, .inl rfl⟩
    · exact ⟨other, rfl, .inr (by simp)⟩

theorem mem_listing {names : List ImportedName} (ht : t ∈ listing names) :
    t = .symbol ',' ∨ ∃ x ∈ names, t ∈ x.tokens := by
  induction names using listing.induct with
  | case1 => cases ht
  | case2 x => exact .inr ⟨x, List.mem_cons_self .., ht⟩
  | case3 x y rest ih =>
    rw [listing, List.mem_append, List.mem_cons] at ht
    rcases ht with ht | ht | ht
    · exact .inr ⟨x, List.mem_cons_self .., ht⟩
    · exact .inl ht
    · rcases ih ht with hcomma | ⟨z, hz, ht⟩
      · exact .inl hcomma
      · exact .inr ⟨z, List.mem_cons_of_mem _ hz, ht⟩

/-- What stands before and behind the path are symbols of the forms and words. -/
theorem Form.mem_tokens {form : Form} (ht : t ∈ form.clause ++ form.ending) :
    (∃ c ∈ ['*', '\x7b', '\x7d', ','], t = .symbol c) ∨
      ∃ name, t = .word name ∧ (name ∈ ["as".toList, "from".toList] ∨ name ∈ form.names) := by
  cases form with
  | all => cases ht
  | named name =>
    simp only [clause, ending, List.nil_append, List.mem_cons, List.not_mem_nil, or_false] at ht
    rcases ht with rfl | rfl
    · exact .inr ⟨_, rfl, .inl (by simp)⟩
    · exact .inr ⟨_, rfl, .inr (List.mem_cons_self ..)⟩
  | starred name =>
    simp only [clause, ending, List.append_nil, List.mem_cons, List.not_mem_nil, or_false] at ht
    rcases ht with rfl | rfl | rfl | rfl
    · exact .inl ⟨'*', by simp, rfl⟩
    · exact .inr ⟨_, rfl, .inl (by simp)⟩
    · exact .inr ⟨_, rfl, .inr (List.mem_cons_self ..)⟩
    · exact .inr ⟨_, rfl, .inl (by simp)⟩
  | listed names =>
    simp only [clause, ending, List.append_nil, List.mem_cons, List.mem_append, List.not_mem_nil,
      or_false] at ht
    rcases ht with rfl | ht | rfl | rfl
    · exact .inl ⟨'\x7b', by simp, rfl⟩
    · rcases mem_listing ht with rfl | ⟨x, hx, ht⟩
      · exact .inl ⟨',', by simp, rfl⟩
      · obtain ⟨name, rfl, hname⟩ := x.mem_tokens ht
        refine .inr ⟨name, rfl, ?_⟩
        rcases hname with rfl | hname
        · exact .inl (by simp)
        · exact .inr (List.mem_flatMap.2 ⟨x, hx, hname⟩)
    · exact .inl ⟨'\x7d', by simp, rfl⟩
    · exact .inr ⟨_, rfl, .inl (by simp)⟩

/-- No string stands beside the path. -/
theorem Form.isString_eq_false {form : Form} (ht : t ∈ form.clause ++ form.ending) :
    t.isString = false := by
  rcases form.mem_tokens ht with ⟨c, -, rfl⟩ | ⟨name, rfl, -⟩
  · rfl
  · rfl

/-- The lexemes of a valid directive are read as they are written. -/
theorem Directive.Valid.plain (hd : d.Valid) (ht : t ∈ d.tokens) : t.Plain := by
  have hform : t ∈ d.form.clause ++ d.form.ending → t.Plain := by
    intro ht
    rcases d.form.mem_tokens ht with ⟨c, hc, rfl⟩ | ⟨name, rfl, hname | hname⟩
    · simp only [List.mem_cons, List.not_mem_nil, or_false] at hc
      rcases hc with rfl | rfl | rfl | rfl <;>
        exact ⟨by decide, by decide, by decide, by decide⟩
    · have hall : ∀ name ∈ ["as".toList, "from".toList], IsIdentifier name := by
        decide
      exact hall name hname
    · exact hd.names name hname
  simp only [tokens, List.mem_cons, List.mem_append, List.not_mem_nil, or_false] at ht
  rcases ht with rfl | ht | rfl | ht | rfl
  · exact (by decide : IsIdentifier importWord)
  · exact hform (List.mem_append_left _ ht)
  · refine ⟨hd.isQuote_quote, fun c hc => ?_⟩
    obtain ⟨hquote, hescape, hfeed⟩ := hd.path_plain c hc
    exact ⟨(ne_of_isQuote hd.isQuote_quote hquote).symm, hescape, hfeed⟩
  · exact hform (List.mem_append_right _ ht)
  · exact ⟨by decide, by decide, by decide, by decide⟩

/-- The clause of each form is one that leads to a path. -/
theorem Form.isClause_clause (form : Form) : isClause form.clause = true := by
  cases form with
  | all => rfl
  | named name => rfl
  | starred name => simp [clause, isClause]
  | listed names =>
    have hlisted : ∀ t ∈ listing names, t.isListed = true := by
      intro t ht
      rcases mem_listing ht with rfl | ⟨x, -, ht⟩
      · rfl
      · obtain ⟨name, rfl, -⟩ := x.mem_tokens ht
        rfl
    simpa [clause, isClause] using hlisted

/-! ## What the search passes over -/

/-- No directive starts with a blank. -/
theorem directive?_of_isBlank {c : Char} (hc : Text.isBlank c = true) (before : Option Char)
    (cs : List Char) : directive? before (c :: cs) = none := by
  cases hdirective : directive? before (c :: cs) with
  | none => rfl
  | some found =>
    obtain ⟨-, after, clause, path, q, q', htext, -, -⟩ := directive?_eq_some_iff.1 hdirective
    -- A directive starts with the word `import`.
    obtain rfl : c = 'i' := (List.cons.inj htext).1
    cases hc

theorem found_blanks {x : List Char} (hx : ∀ c ∈ x, Text.isBlank c = true)
    (before : Option Char) (rest : List Char) :
    found before (x ++ rest) = found (x.getLast?.or before) rest := by
  induction x generalizing before with
  | nil => rfl
  | cons c x ih =>
    have hlast : (c :: x).getLast?.or before = x.getLast?.or (some c) := by
      rw [List.getLast?_cons, Option.some_or]
      cases x.getLast? with
      | none => rfl
      | some d => rfl
    have hnone := directive?_of_isBlank (hx c (List.mem_cons_self ..)) before (x ++ rest)
    rw [List.cons_append, found_cons hnone, hlast]
    exact ih (fun d hd => hx d (List.mem_cons_of_mem _ hd)) (some c)

theorem leadsToPath_of_semicolon {clause : List Char} (h : ';' ∈ clause) :
    leadsToPath clause = false := by
  have hblank : clause.all Text.isBlank = false := by
    rw [List.all_eq_false]
    exact ⟨';', h, by decide⟩
  have hcontains : clause.contains ';' = true := List.contains_iff_mem.2 h
  unfold leadsToPath
  rw [hblank, hcontains]
  rfl

/-- No directive starts where a semicolon comes before the next quote. -/
theorem directive?_of_semicolon {front : List Char} (hfront : Unquoted front)
    (before : Option Char) (rest : List Char) :
    directive? before (front ++ ';' :: rest) = none := by
  cases hdirective : directive? before (front ++ ';' :: rest) with
  | none => rfl
  | some found =>
    obtain ⟨-, after, clause, path, q, q', htext, hquotes, -⟩ :=
      directive?_eq_some_iff.1 hdirective
    -- The word and the clause are all of the text up to the first quote.
    have hwhole : (front ++ ';' :: rest).takeWhile (!isQuote ·) = importWord ++ clause := by
      rw [htext, hquotes.text, ← List.append_assoc]
      exact takeWhile_of_unquoted (unquoted_importWord.append hquotes.unquoted_clause)
        hquotes.opening _
    have hmem : ';' ∈ importWord ++ clause := by
      rw [← hwhole, List.takeWhile_append_of_pos (fun c hc => by simp [hfront c hc])]
      exact List.mem_append_right _ (by simp [isQuote])
    have hclause : ';' ∈ clause := (List.mem_append.1 hmem).resolve_left (by decide)
    have hleads := hquotes.leads
    rw [leadsToPath_of_semicolon hclause] at hleads
    cases hleads

/-- The search comes to the next semicolon if no quote stands in front of it. -/
theorem found_semicolon {x : List Char} (hx : Unquoted x) (rest : List Char) :
    found before (x ++ ';' :: rest) = found (some ';') rest := by
  induction x generalizing before with
  | nil =>
    have hnone := directive?_of_semicolon hx before rest
    rw [List.nil_append] at hnone ⊢
    exact found_cons hnone
  | cons c x ih =>
    have hnone := directive?_of_semicolon hx before rest
    rw [List.cons_append] at hnone ⊢
    rw [found_cons hnone]
    exact ih fun d hd => hx d (List.mem_cons_of_mem _ hd)

/-! ## One directive after the other -/

/-- Lexemes are split at a given one, with blanks and comments on both sides of it. -/
theorem exists_split_of_filter (h : ts.filter (!·.isSpace) = us ++ t :: vs) :
    ∃ front back, ts = front ++ t :: back ∧ front.filter (!·.isSpace) = us ∧
      back.filter (!·.isSpace) = vs := by
  obtain ⟨front, rest, rfl, hfront, hrest⟩ := List.filter_eq_append_iff.1 h
  obtain ⟨spaces, back, rfl, hspaces, -, hback⟩ := List.filter_eq_cons_iff.1 hrest
  refine ⟨front ++ spaces, back, (List.append_assoc ..).symm, ?_, hback⟩
  rw [List.filter_append, hfront, List.filter_eq_nil_iff.2 hspaces, List.append_nil]

theorem isString_eq_false_of_filter (h : ts.filter (!·.isSpace) = us)
    (hus : ∀ t ∈ us, t.isString = false) : ∀ t ∈ ts, t.isString = false := by
  intro t ht
  cases hspace : t.isSpace with
  | false =>
    refine hus t ?_
    rw [← h]
    exact List.mem_filter.2 ⟨ht, by simp [hspace]⟩
  | true =>
    -- What only separates others is a symbol or a comment.
    cases t with
    | literal quote body => cases hspace
    | unclosed quote body => cases hspace
    | _ => rfl

/-- A path behind a clause is read as such. -/
theorem pathOf?_of_clause {clause after : List Lexeme} {quote : Char} {path : List Char}
    (hstrings : ∀ t ∈ clause, t.isString = false)
    (hclause : isClause (clause.filter (!·.isSpace)) = true) (hpath : path ≠ []) :
    pathOf? (clause ++ .literal quote path :: after) = some (path, after) := by
  have hkept : ∀ t ∈ clause, (!t.isString) = true := by
    intro t ht
    rw [hstrings t ht]
    rfl
  -- The clause ends at the first string, and that is the path.
  have htake : (clause ++ .literal quote path :: after).takeWhile (!·.isString) = clause := by
    rw [List.takeWhile_append_of_pos hkept, List.takeWhile_cons_of_neg (by simp [Lexeme.isString]),
      List.append_nil]
  have hne : path.isEmpty = false := by
    simpa using hpath
  simp only [pathOf?, htake, List.drop_left, hclause, hne]
  rfl

/-- The search finds a directive, and goes on behind its semicolon. -/
theorem found_of_tokens (hd : d.Valid) (hlexed : Lexed before ts)
    (h : ts.filter (!·.isSpace) = d.tokens ++ us) :
    ∃ site rest, site.path = String.ofList d.path ∧ rest.filter (!·.isSpace) = us ∧
      Lexed (some ';') rest ∧ found before (ts.flatMap Lexeme.blanked) =
        site :: found (some ';') (rest.flatMap Lexeme.blanked) := by
  -- The lexemes are split at the word, at the path and at the semicolon.
  obtain ⟨spaces, ts₁, rfl, hspaces, h₁⟩ : ∃ front back, ts = front ++ .word importWord :: back ∧
      front.filter (!·.isSpace) = [] ∧ back.filter (!·.isSpace) =
        d.form.clause ++ .literal d.quote d.path :: (d.form.ending ++ .symbol ';' :: us) := by
    refine exists_split_of_filter ?_
    rw [h, Directive.tokens]
    simp
  obtain ⟨clause, ts₂, rfl, hclause, h₂⟩ := exists_split_of_filter h₁
  obtain ⟨ending, rest, rfl, hending, hrest⟩ := exists_split_of_filter h₂
  have hstrings : ∀ t ∈ clause, t.isString = false :=
    isString_eq_false_of_filter hclause fun t ht =>
      d.form.isString_eq_false (List.mem_append_left _ ht)
  have hstrings' : ∀ t ∈ ending, t.isString = false :=
    isString_eq_false_of_filter hending fun t ht =>
      d.form.isString_eq_false (List.mem_append_right _ ht)
  -- At the word the search sees the directive.
  have hdirective : directiveOf? (.word importWord)
      (clause ++ .literal d.quote d.path :: (ending ++ .symbol ';' :: rest)) =
        some (d.path, ending ++ .symbol ';' :: rest) := by
    rw [directiveOf?, if_pos rfl]
    refine pathOf?_of_clause hstrings ?_ hd.path_ne_nil
    rw [hclause]
    exact d.form.isClause_clause
  have hlexed' := hlexed.append
  have hsearch := directive?_of_directiveOf? hlexed' hdirective fun c hc => (hd.path_plain c hc).1
  -- In front of the word and behind the path, it passes over what is there.
  have hblanks : ∀ c ∈ spaces.flatMap Lexeme.blanked, Text.isBlank c = true := by
    refine isBlank_of_spaces ?_
    intro t ht
    simpa using List.filter_eq_nil_iff.1 hspaces t ht
  have hunquoted : Unquoted (ending.flatMap Lexeme.blanked) := by
    intro c hc
    obtain ⟨t, ht, hc⟩ := List.mem_flatMap.1 hc
    exact (hlexed.valid t (by simp [ht])).unquoted (hstrings' t ht) c hc
  refine ⟨⟨String.ofList d.path, ((ending ++ .symbol ';' :: rest).flatMap Lexeme.blanked).length⟩,
    rest, rfl, hrest, ?_, ?_⟩
  · obtain ⟨quote, -, hafter⟩ := hlexed'.of_directiveOf? hdirective
    cases hafter.append with
    | cons _ _ hlast => exact hlast
  · rw [List.flatMap_append, found_blanks hblanks, found_of_some hsearch, List.flatMap_append,
      List.flatMap_cons]
    exact congrArg _ (found_semicolon hunquoted _)

/-- The search finds the directives that lexemes consist of. -/
theorem paths_of_tokens {ds : List Directive} (hds : ∀ d ∈ ds, d.Valid) (hlexed : Lexed before ts)
    (h : ts.filter (!·.isSpace) = ds.flatMap Directive.tokens) :
    (found before (ts.flatMap Lexeme.blanked)).map Site.path =
      ds.map fun d => String.ofList d.path := by
  induction ds generalizing before ts with
  | nil =>
    -- No directive starts in the blanks that are left, nor at the end of the text.
    have hblanks : ∀ c ∈ ts.flatMap Lexeme.blanked, Text.isBlank c = true := by
      refine isBlank_of_spaces ?_
      intro t ht
      simpa using List.filter_eq_nil_iff.1 h t ht
    have hnone := found_blanks hblanks before []
    rw [List.append_nil] at hnone
    rw [hnone, found_nil]
    · rfl
    · cases hdirective : directive? ((ts.flatMap Lexeme.blanked).getLast?.or before) [] with
      | none => rfl
      | some found =>
        have hlength := directive?_length hdirective
        cases hlength
  | cons d ds ih =>
    rw [List.flatMap_cons] at h
    obtain ⟨site, rest, hsite, hrest, hlexed', hfound⟩ :=
      found_of_tokens (hds d (List.mem_cons_self ..)) hlexed h
    rw [hfound, List.map_cons, List.map_cons, hsite,
      ih (fun d hd => hds d (List.mem_cons_of_mem _ hd)) hlexed' hrest]

/-- **No directive is missed**: of a text that consists of blanks, comments and directives of
    the four forms, the imports are the paths of the directives, in order and as often as they
    are there. -/
theorem imports_of_spelled {ds : List Directive} {code : String} (hds : ∀ d ∈ ds, d.Valid)
    (h : Spelled (ds.flatMap Directive.tokens) code.toList) :
    imports code = ds.map fun d => String.ofList d.path := by
  have hplain : ∀ t ∈ ds.flatMap Directive.tokens, t.Plain := by
    intro t ht
    obtain ⟨d, hd, ht⟩ := List.mem_flatMap.1 ht
    exact (hds d hd).plain ht
  -- The search sees the blanked text, and that consists of the blanked lexemes.
  have hlexed : Lexed none (lexemes code.toList) := lexed_lexemes fun _ _ _ _ => rfl
  rw [imports, paths_eq_map_found, blankComments_eq_flatMap]
  exact paths_of_tokens hds hlexed (filter_lexemes_of_spelled h hplain)

/-- A directive of each form; among the names are the words of a directive. -/
def oneOfEach : List Directive :=
  [{ form := .all, quote := '\x22', path := "a.sol".toList },
   { form := .named "import2".toList, quote := '\x27', path := "lib/b.sol".toList },
   { form := .starred "from".toList, quote := '\x22', path := "c.sol".toList },
   { form := .listed [⟨"from".toList, none⟩, ⟨"imports".toList, some "$from".toList⟩],
     quote := '\x27', path := "a.sol".toList }]

/-- A text that consists of these directives and of comments with quotes, semicolons and
    another directive. -/
def oneOfEachText : String :=
  "/* import \"x.sol\"; */import\"a.sol\";import 'lib/b.sol' as import2 // don't; import\n;" ++
    "import*as from from/* \" */\"c.sol\";\n import {from, imports as $from}from'a.sol';// end"

theorem oneOfEach_found : (∀ d ∈ oneOfEach, d.Valid) ∧
    Spelled (oneOfEach.flatMap Directive.tokens) oneOfEachText.toList ∧
    imports oneOfEachText = ["a.sol", "lib/b.sol", "c.sol", "a.sol"] := by
  have hvalid : ∀ d ∈ oneOfEach, d.Valid := by
    decide +kernel
  have hspelled : Spelled (oneOfEach.flatMap Directive.tokens) oneOfEachText.toList := by
    have hread : Spelled _ oneOfEachText.toList := spelled_lexemes (by decide +kernel)
    rwa [show (lexemes oneOfEachText.toList).filter (!·.isSpace) =
      oneOfEach.flatMap Directive.tokens by decide +kernel] at hread
  exact ⟨hvalid, hspelled, imports_of_spelled hvalid hspelled⟩

end SolidityBuild.Source
