import SolidityBuild.Proofs.Source.Lexeme
import SolidityBuild.Proofs.Source.Scan

/-! # Directives: the import directives of a text by its lexemes

    A directive is the word `import`, a clause of one of three forms and a path. What the
    clause and the path are is decided by lexemes, so no comment and no string can be taken
    for a part of them. The directives of a text whose paths hold no quote character are
    directives of the search, too, and none starts inside the quotes of another.
-/

namespace SolidityBuild.Source

/-- Whether a lexeme can stand in a list of names. -/
def Lexeme.isListed : Lexeme → Bool
  | word _ => true
  | symbol c => c = ','
  | _ => false

/-- Whether lexemes, without those that separate others, stand between `import` and a path:
    nothing, `* as` a name `from`, or a list of names in braces and `from`. -/
def isClause : List Lexeme → Bool
  | [] => true
  | [.symbol '*', .word first, .word _, .word last] =>
    first = "as".toList && last = "from".toList
  | .symbol '{' :: listed =>
    match listed.reverse with
    | .word last :: .symbol '}' :: names =>
      last = "from".toList && names.all Lexeme.isListed
    | _ => false
  | _ => false

/-- The path after a clause, as it is spelled, and what follows it. -/
def pathOf? (ts : List Lexeme) : Option (List Char × List Lexeme) :=
  let clause := ts.takeWhile (!·.isString)
  match ts.drop clause.length with
  | .literal _ path :: after =>
    if isClause (clause.filter (!·.isSpace)) && !path.isEmpty then some (path, after) else none
  | _ => none

/-- The path of a directive that starts with a lexeme, and what follows it. -/
def directiveOf? (t : Lexeme) (rest : List Lexeme) : Option (List Char × List Lexeme) :=
  if t = .word importWord then pathOf? rest else none

variable {before : Option Char} {t : Lexeme} {ts rest after : List Lexeme} {path : List Char}

theorem exists_clause_of_pathOf? (h : pathOf? ts = some (path, after)) :
    ∃ clause quote, ts = clause ++ .literal quote path :: after ∧
      (∀ t ∈ clause, t.isString = false) ∧ isClause (clause.filter (!·.isSpace)) = true ∧
      path ≠ [] := by
  unfold pathOf? at h
  simp only at h
  split at h
  · rename_i quote body more hdrop
    obtain ⟨hts, hclause, -⟩ := exists_split_of_takeWhile hdrop
    split at h
    · rename_i hchecked
      obtain ⟨rfl, rfl⟩ := Prod.mk.inj (Option.some.inj h)
      obtain ⟨hform, hne⟩ := Bool.and_eq_true_iff.1 hchecked
      refine ⟨_, quote, hts, ?_, hform, by simpa using hne⟩
      intro t ht
      simpa using hclause t ht
    · cases h
  · cases h

theorem directiveOf?_length (h : directiveOf? t rest = some (path, after)) :
    after.length < rest.length := by
  unfold directiveOf? at h
  split at h
  · obtain ⟨clause, quote, rfl, -, -, -⟩ := exists_clause_of_pathOf? h
    rw [List.length_append, List.length_cons]
    omega
  · cases h

/-- The import directives of lexemes, in order. -/
def directives : List Lexeme → List Site
  | [] => []
  | t :: rest =>
    match _h : directiveOf? t rest with
    | some (path, after) =>
      ⟨String.ofList path, (after.flatMap Lexeme.written).length⟩ :: directives after
    | none => directives rest
termination_by ts => ts.length
decreasing_by
  · exact Nat.lt_succ_of_lt (directiveOf?_length _h)
  · exact Nat.lt_succ_self _

theorem directives_of_some (h : directiveOf? t rest = some (path, after)) :
    directives (t :: rest) =
      ⟨String.ofList path, (after.flatMap Lexeme.written).length⟩ :: directives after := by
  rw [directives]
  split
  · simp_all
  · simp_all

theorem directives_of_none (h : directiveOf? t rest = none) :
    directives (t :: rest) = directives rest := by
  rw [directives]
  split
  · simp_all
  · rfl

/-! ## Clauses lead to their paths -/

theorem Lexeme.Valid.unquoted (h : t.Valid) (hstring : t.isString = false) :
    Unquoted t.blanked := by
  intro c hc
  cases t with
  | word name => exact isQuote_of_isNameChar (h.2 c hc)
  | symbol d =>
    obtain rfl := List.mem_singleton.1 hc
    exact h.2
  | comment text =>
    exact of_mem_blanked (P := (isQuote · = false)) hc (by decide) (by decide)
  | literal quote body => cases hstring
  | unclosed quote body => cases hstring

theorem Lexeme.isBlank_of_isSpace (h : t.isSpace = true) :
    ∀ c ∈ t.blanked, Text.isBlank c = true := by
  intro c hc
  cases t with
  | symbol d =>
    obtain rfl := List.mem_singleton.1 hc
    exact h
  | comment text =>
    exact of_mem_blanked (P := (Text.isBlank · = true)) hc (by decide) (by decide)
  | word name => cases h
  | literal quote body => cases h
  | unclosed quote body => cases h

theorem isBlank_of_spaces (h : ∀ t ∈ ts, t.isSpace = true) :
    ∀ c ∈ ts.flatMap Lexeme.blanked, Text.isBlank c = true := by
  intro c hc
  obtain ⟨t, ht, hc⟩ := List.mem_flatMap.1 hc
  exact t.isBlank_of_isSpace (h t ht) c hc

/-- A semicolon in code is a lexeme. -/
theorem Lexeme.Valid.eq_semicolon (h : t.Valid) (hstring : t.isString = false)
    (hc : ';' ∈ t.blanked) : t = .symbol ';' := by
  cases t with
  | word name => exact absurd (h.2 _ hc) (by decide)
  | symbol d => rw [List.mem_singleton.1 hc]
  | comment text =>
    have hne : ';' ≠ ';' := of_mem_blanked (P := (· ≠ ';')) hc (by decide) (by decide)
    exact absurd rfl hne
  | literal quote body => cases hstring
  | unclosed quote body => cases hstring

/-- A clause is empty, or its last word is `from`; it holds no semicolon. -/
theorem isClause_cases (h : isClause ts = true) :
    ts = [] ∨ ∃ front, ts = front ++ [.word "from".toList] ∧ front ≠ [] ∧
      .symbol ';' ∉ front := by
  unfold isClause at h
  split at h
  · exact .inl rfl
  · rename_i first name last
    simp only [Bool.and_eq_true, decide_eq_true_eq] at h
    right
    refine ⟨[.symbol '*', .word first, .word name], ?_, by simp, by simp⟩
    rw [h.2]
    rfl
  · rename_i listed
    split at h
    · rename_i last names hreverse
      simp only [Bool.and_eq_true, decide_eq_true_eq, List.all_eq_true] at h
      have hlisted : listed = names.reverse ++ [.symbol '}'] ++ [.word last] := by
        rw [← List.reverse_reverse listed, hreverse]
        simp
      right
      refine ⟨.symbol '{' :: (names.reverse ++ [.symbol '}']), ?_, by simp, ?_⟩
      · rw [hlisted, h.1]
        rfl
      · intro hmem
        simp only [List.mem_cons, List.mem_append, List.mem_reverse, Lexeme.symbol.injEq,
          Char.reduceEq, false_or, or_false, List.not_mem_nil] at hmem
        exact absurd (h.2 _ hmem) (by decide)
    · cases h
  · cases h

/-- What the search asks of a clause that is not blank. -/
theorem leadsToPath_of_from {front spaces : List Char} {c : Char}
    (hlast : front.getLast? = some c) (hword : Text.isWord c = false)
    (hspaces : ∀ c ∈ spaces, Text.isBlank c = true)
    (hsemicolon : ';' ∉ front ++ "from".toList ++ spaces) :
    leadsToPath (front ++ "from".toList ++ spaces) = true := by
  have hreversed : (front ++ "from".toList ++ spaces).reverse.dropWhile Text.isBlank =
      fromWordReversed ++ front.reverse := by
    rw [List.reverse_append, List.dropWhile_append_of_pos, List.reverse_append]
    · rfl
    · intro d hd
      exact hspaces d (List.mem_reverse.1 hd)
  have hstrip : Text.strip? fromWordReversed (fromWordReversed ++ front.reverse) =
      some front.reverse := Text.strip?_eq_some_iff.2 rfl
  have hcontains : (front ++ "from".toList ++ spaces).contains ';' = false := by
    simpa using hsemicolon
  have hhead : front.reverse.head? = some c := by
    rw [List.head?_reverse, hlast]
  obtain ⟨more, hmore⟩ : ∃ more, front.reverse = c :: more := by
    cases hr : front.reverse with
    | nil =>
      rw [hr] at hhead
      cases hhead
    | cons d more =>
      rw [hr] at hhead
      exact ⟨more, by rw [Option.some.inj hhead]⟩
  unfold leadsToPath
  rw [hreversed, hstrip, hcontains, hmore]
  simp [hword]

/-! ## Directives are found where they stand -/

theorem Lexed.append {front : List Lexeme} (h : Lexed before (front ++ ts)) :
    Lexed ((front.flatMap Lexeme.blanked).getLast?.or before) ts := by
  induction front generalizing before with
  | nil => exact h
  | cons t front ih =>
    cases h with
    | cons hvalid hword hrest =>
      rw [List.flatMap_cons, List.getLast?_append, Option.or_assoc]
      exact ih hrest

theorem Lexed.valid (h : Lexed before ts) : ∀ t ∈ ts, t.Valid := by
  induction h with
  | nil =>
    intro t ht
    cases ht
  | cons hvalid hword hrest ih =>
    intro t ht
    rcases List.mem_cons.1 ht with rfl | ht
    · exact hvalid
    · exact ih t ht

theorem Lexeme.Valid.blanked_ne_nil (h : t.Valid) (hspace : t.isSpace = false) :
    t.blanked ≠ [] := by
  cases t with
  | word name => exact h.1
  | comment text => cases hspace
  | symbol c => exact List.cons_ne_nil c []
  | literal quote body => exact List.cons_ne_nil quote _
  | unclosed quote body => exact List.cons_ne_nil quote body

/-- What stands between `import` and a path is a clause of the search once it is blanked. -/
theorem leadsToPath_of_isClause {clause : List Lexeme} (h : Lexed before (clause ++ ts))
    (hstrings : ∀ t ∈ clause, t.isString = false)
    (hclause : isClause (clause.filter (!·.isSpace)) = true) :
    leadsToPath (clause.flatMap Lexeme.blanked) = true := by
  have hvalid : ∀ t ∈ clause, t.Valid :=
    fun t ht => h.valid t (List.mem_append_left _ ht)
  rcases isClause_cases hclause with hnil | ⟨listed, hlisted, hne, hsemicolon⟩
  · have hspaces : ∀ t ∈ clause, t.isSpace = true := by
      intro t ht
      simpa using List.filter_eq_nil_iff.1 hnil t ht
    have hblank := List.all_eq_true.2 (isBlank_of_spaces hspaces)
    unfold leadsToPath
    rw [hblank, Bool.true_or]
  · have hnone : ';' ∉ clause.flatMap Lexeme.blanked := by
      intro hmem
      obtain ⟨t, ht, hc⟩ := List.mem_flatMap.1 hmem
      obtain rfl := (hvalid t ht).eq_semicolon (hstrings t ht) hc
      have hkept : Lexeme.symbol ';' ∈ clause.filter (!·.isSpace) :=
        List.mem_filter.2 ⟨ht, by decide⟩
      rw [hlisted] at hkept
      rcases List.mem_append.1 hkept with hkept | hkept
      · exact hsemicolon hkept
      · simp at hkept
    -- The last lexeme but for spaces is `from`.
    obtain ⟨first, last, rfl, hfirst, hlast⟩ := List.filter_eq_append_iff.1 hlisted
    obtain ⟨between, spaces, rfl, hbetween, -, hspaces⟩ := List.filter_eq_cons_iff.1 hlast
    have hsplit : first ++ (between ++ .word "from".toList :: spaces) =
        (first ++ between) ++ .word "from".toList :: spaces := by
      rw [List.append_assoc]
    have hblank : ∀ t ∈ spaces, t.isSpace = true := by
      intro t ht
      simpa using List.filter_eq_nil_iff.1 hspaces t ht
    rw [hsplit, List.flatMap_append, List.flatMap_cons, ← List.append_assoc] at hnone ⊢
    rw [hsplit, List.append_assoc] at h
    -- Something is in front of it, and it does not end in a word character.
    have hfront : (first ++ between).flatMap Lexeme.blanked ≠ [] := by
      obtain ⟨t, more, hmore⟩ := List.exists_cons_of_ne_nil hne
      have ht : t ∈ first.filter (!·.isSpace) := by
        rw [hfirst, hmore]
        exact List.mem_cons_self ..
      obtain ⟨hin, hspace⟩ := List.mem_filter.1 ht
      obtain ⟨c, hc⟩ := List.exists_mem_of_ne_nil _
        ((hvalid t (List.mem_append_left _ hin)).blanked_ne_nil (by simpa using hspace))
      exact List.ne_nil_of_mem
        (List.mem_flatMap.2 ⟨t, List.mem_append_left _ hin, hc⟩)
    have hword : Text.isWordAt (((first ++ between).flatMap Lexeme.blanked).getLast?.or before) =
        false := by
      cases h.append with
      | cons _ hword _ => exact hword _ rfl
    rw [List.getLast?_eq_some_getLast hfront] at hword
    exact leadsToPath_of_from (List.getLast?_eq_some_getLast hfront) hword
      (isBlank_of_spaces hblank) hnone

/-- A directive whose path holds no quote character is one of the search, too. -/
theorem directive?_of_directiveOf? (h : Lexed before (t :: rest))
    (hdirective : directiveOf? t rest = some (path, after)) (hpath : Unquoted path) :
    directive? before ((t :: rest).flatMap Lexeme.blanked) =
      some (String.ofList path, after.flatMap Lexeme.blanked) := by
  unfold directiveOf? at hdirective
  split at hdirective
  · rename_i ht
    subst ht
    obtain ⟨clause, quote, rfl, hstrings, hclause, hne⟩ := exists_clause_of_pathOf? hdirective
    cases h with
    | cons _ hword hrest =>
      have hvalid := hrest.valid
      have hquote : isQuote quote = true := hvalid (.literal quote path) (by simp)
      have hunquoted : Unquoted (clause.flatMap Lexeme.blanked) := by
        intro c hc
        obtain ⟨t, ht, hc⟩ := List.mem_flatMap.1 hc
        exact (hvalid t (by simp [ht])).unquoted (hstrings t ht) c hc
      have hquotes : Quotes ((clause ++ .literal quote path :: after).flatMap Lexeme.blanked)
          (clause.flatMap Lexeme.blanked) path (after.flatMap Lexeme.blanked) quote quote :=
        { text := by simp [Lexeme.blanked, Lexeme.written]
          unquoted_clause := hunquoted
          opening := hquote
          unquoted_path := hpath
          closing := hquote
          path_ne_nil := hne
          leads := leadsToPath_of_isClause hrest hstrings hclause }
      exact directive?_eq_some_iff.2 ⟨hword _ rfl, _, _, path, quote, quote, rfl, hquotes, rfl⟩
  · cases hdirective

/-- The lexemes behind a directive come after its closing quote. -/
theorem Lexed.of_directiveOf? (h : Lexed before (t :: rest))
    (hdirective : directiveOf? t rest = some (path, after)) :
    ∃ quote, isQuote quote = true ∧ Lexed (some quote) after := by
  unfold directiveOf? at hdirective
  split at hdirective
  · obtain ⟨clause, quote, rfl, -, -, -⟩ := exists_clause_of_pathOf? hdirective
    refine ⟨quote, ?_, ?_⟩
    · exact h.valid (.literal quote path) (by simp)
    · have hfront : Lexed before ((t :: clause) ++ .literal quote path :: after) := h
      cases hfront.append with
      | cons _ _ hafter =>
        have hlast : (Lexeme.literal quote path).blanked.getLast? = some quote := by
          show (quote :: (path ++ [quote])).getLast? = some quote
          rw [← List.cons_append, List.getLast?_concat]
        rw [hlast] at hafter
        exact hafter
  · cases hdirective

/-- Directives with paths without quote characters start outside the quotes of each other. -/
theorem sound_directives (h : Lexed before ts)
    (hpaths : ∀ s ∈ directives ts, Unquoted s.path.toList) :
    Sound before (ts.flatMap Lexeme.blanked) (directives ts) := by
  induction ts using directives.induct generalizing before with
  | case1 =>
    rw [directives]
    intro s hs
    cases hs
  | case2 t rest path after hdirective ih =>
    rw [directives_of_some hdirective] at hpaths ⊢
    obtain ⟨quote, hquote, hafter⟩ := h.of_directiveOf? hdirective
    have hpath : Unquoted path := by
      have hhead := hpaths _ (List.mem_cons_self ..)
      rwa [String.toList_ofList] at hhead
    have hrest := ih hafter fun s hs => hpaths s (List.mem_cons_of_mem _ hs)
    -- What is behind a directive is counted in the source text, and blanking keeps the count.
    rw [← length_flatMap_blanked]
    exact Sound.cons (directive?_of_directiveOf? h hdirective hpath)
      (hrest.congr ((isWordAt_quote hquote).trans (isWordAt_quote (q := '\x22') rfl).symm))
  | case3 t rest hdirective ih =>
    rw [directives_of_none hdirective] at hpaths ⊢
    cases h with
    | cons _ _ hrest =>
      rw [List.flatMap_cons]
      exact (ih hrest hpaths).append

theorem length_written_of_directiveOf? (h : directiveOf? t rest = some (path, after)) :
    (after.flatMap Lexeme.written).length < ((t :: rest).flatMap Lexeme.written).length := by
  unfold directiveOf? at h
  split at h
  · obtain ⟨clause, quote, rfl, -, -, -⟩ := exists_clause_of_pathOf? h
    simp only [List.flatMap_cons, List.flatMap_append, List.length_append, Lexeme.written,
      List.length_cons]
    omega
  · cases h

theorem behind_lt_of_mem_directives {s : Site} (hs : s ∈ directives ts) :
    s.behind < (ts.flatMap Lexeme.written).length := by
  induction ts using directives.induct with
  | case1 =>
    rw [directives] at hs
    cases hs
  | case2 t rest path after hdirective ih =>
    have hlength := length_written_of_directiveOf? hdirective
    rw [directives_of_some hdirective] at hs
    rcases List.mem_cons.1 hs with rfl | hs
    · exact hlength
    · exact Nat.lt_trans (ih hs) hlength
  | case3 t rest hdirective ih =>
    rw [directives_of_none hdirective] at hs
    rw [List.flatMap_cons, List.length_append]
    exact Nat.lt_of_lt_of_le (ih hs) (Nat.le_add_left ..)

theorem ordered_directives (ts : List Lexeme) :
    (directives ts).Pairwise fun s s' => s'.behind < s.behind := by
  induction ts using directives.induct with
  | case1 =>
    rw [directives]
    exact .nil
  | case2 t rest path after hdirective ih =>
    rw [directives_of_some hdirective]
    exact List.pairwise_cons.2 ⟨fun s hs => behind_lt_of_mem_directives hs, ih⟩
  | case3 t rest hdirective ih =>
    rw [directives_of_none hdirective]
    exact ih

end SolidityBuild.Source
