import SolidityBuild.Proofs.Source.Directive

/-! # Exactness: when the search finds the import directives and nothing else

    The search sees the blanked text only, in which strings are still there. So it can see a
    directive that starts inside a string, as in a message that ends with the word `import`
    and is followed by another string; then the text between the two strings is taken for a
    path, and a directive in it is passed over. A path with a quote character of the other
    kind is cut off there. `imports_exact_iff` says that nothing else goes wrong.
-/

namespace SolidityBuild.Source

/-- The import directives of a source text by its lexemes. -/
def importDirectives (code : String) : List Site :=
  directives (lexemes code.toList)

/-- The sites that the search finds in a source text. -/
def importSites (code : String) : List Site :=
  found none (blankComments code.toList)

theorem imports_eq_map_path (code : String) :
    imports code = (importSites code).map Site.path :=
  paths_eq_map_found none (blankComments code.toList)

variable {code : String} {u v x : List Char} {s : Site} {t : Lexeme} {ts : List Lexeme}

/-! ## Where the search sees a directive -/

/-- The rest `v` of the blanked text starts in the lexeme `t` behind its part `x`. -/
def StartsIn (code : String) (v : List Char) (t : Lexeme) (x : List Char) : Prop :=
  ∃ front y after, lexemes code.toList = front ++ t :: after ∧ t.blanked = x ++ y ∧ y ≠ [] ∧
    v = y ++ after.flatMap Lexeme.blanked

/-- The rest `v` starts in a string. -/
def InString (code : String) (v : List Char) : Prop :=
  ∃ t x, StartsIn code v t x ∧ t.isString = true

/-- The rest `v` starts with a word, or behind a `$` in a word. -/
def InWord (code : String) (v : List Char) : Prop :=
  ∃ name x, StartsIn code v (.word name) x ∧ (x = [] ∨ x.getLast? = some '$')

/-- Any rest of a blanked text starts in a lexeme. -/
theorem exists_lexeme_of_append (h : ts.flatMap Lexeme.blanked = u ++ v) (hv : v ≠ []) :
    ∃ front t after x y, ts = front ++ t :: after ∧ u = front.flatMap Lexeme.blanked ++ x ∧
      t.blanked = x ++ y ∧ y ≠ [] ∧ v = y ++ after.flatMap Lexeme.blanked := by
  induction ts generalizing u with
  | nil => exact absurd (List.append_eq_nil_iff.1 h.symm).2 hv
  | cons t ts ih =>
    -- Either all of `t` lies in front of the rest, or the rest starts in `t`.
    have hlater : ∀ w, u = t.blanked ++ w → ts.flatMap Lexeme.blanked = w ++ v →
        ∃ front t' after x y, t :: ts = front ++ t' :: after ∧
          u = front.flatMap Lexeme.blanked ++ x ∧ t'.blanked = x ++ y ∧ y ≠ [] ∧
          v = y ++ after.flatMap Lexeme.blanked := by
      intro w hu hw
      obtain ⟨front, t', after, x, y, rfl, rfl, hrest⟩ := ih hw
      refine ⟨t :: front, t', after, x, y, rfl, ?_, hrest⟩
      rw [hu, List.flatMap_cons, List.append_assoc]
    rw [List.flatMap_cons] at h
    rcases List.append_eq_append_iff.1 h with ⟨w, hu, hw⟩ | ⟨y, ht, hrest⟩
    · exact hlater w hu hw
    · by_cases hy : y = []
      · subst hy
        refine hlater [] ?_ hrest.symm
        rw [ht, List.append_nil, List.append_nil]
      · exact ⟨[], t, ts, u, y, rfl, rfl, ht, hy, hrest⟩

/-- The search sees directives in strings and in words only, and in a word only where a word
    starts for it. -/
theorem StartsAt.in_string_or_word (h : StartsAt none (blankComments code.toList) v s) :
    InString code v ∨ InWord code v := by
  obtain ⟨u, r, htext, hdirective, -⟩ := h
  obtain ⟨hbefore, after, clause, path, q, q', hv, -⟩ := directive?_eq_some_iff.1 hdirective
  have hhead : v.head? = some 'i' := by
    rw [hv]
    rfl
  have hne : v ≠ [] := by
    rintro rfl
    cases hhead
  rw [blankComments_eq_flatMap] at htext
  obtain ⟨front, t, after, x, y, hlexemes, hu, ht, hy, hrest⟩ :=
    exists_lexeme_of_append htext hne
  have hstarts : StartsIn code v t x := ⟨front, y, after, hlexemes, ht, hy, hrest⟩
  have hlexed : Lexed none (lexemes code.toList) := lexed_lexemes fun _ _ _ _ => rfl
  rw [hlexemes] at hlexed
  have hvalid : t.Valid := hlexed.valid t (by simp)
  have hi : 'i' ∈ t.blanked := by
    obtain ⟨c, y, rfl⟩ := List.exists_cons_of_ne_nil hy
    rw [hrest] at hhead
    obtain rfl : c = 'i' := Option.some.inj hhead
    rw [ht]
    exact List.mem_append_right _ (List.mem_cons_self ..)
  cases t with
  | literal quote body => exact .inl ⟨_, x, hstarts, rfl⟩
  | unclosed quote body => exact .inl ⟨_, x, hstarts, rfl⟩
  | comment text =>
    -- A blanked comment holds spaces and line ends only.
    have hne : 'i' ≠ 'i' := of_mem_blanked (P := (· ≠ 'i')) hi (by decide) (by decide)
    exact absurd rfl hne
  | symbol c =>
    rw [← List.mem_singleton.1 hi] at hvalid
    exact absurd hvalid.1 (by decide)
  | word name =>
    refine .inr ⟨name, x, hstarts, ?_⟩
    cases hlast : x.getLast? with
    | none => exact .inl (List.getLast?_eq_none_iff.1 hlast)
    | some c =>
      -- The character in front belongs to the name, but to no word of the search.
      right
      have hname : isNameChar c = true := by
        refine hvalid.2 c ?_
        have hin : c ∈ (Lexeme.word name).blanked := by
          rw [ht]
          exact List.mem_append_left _ (List.mem_of_getLast? hlast)
        exact hin
      rw [hu, List.getLast?_append, hlast] at hbefore
      have hword : Text.isWord c = false := hbefore
      unfold isNameChar at hname
      rw [hword, Bool.false_or, decide_eq_true_iff] at hname
      rw [hname]

/-! ## Exactness -/

/-- The search sees a directive with the site `s` at the rest `v`, where there is none. -/
structure Stray (code : String) (v : List Char) (s : Site) : Prop where
  starts : StartsAt none (blankComments code.toList) v s
  not_mem : s ∉ importDirectives code
  not_covered : ∀ d ∈ importDirectives code, ¬d.Covers v

/-- What misleads the search. -/
inductive Misled (code : String) : Prop
  /-- a directive whose path holds a quote character -/
  | oddPath {s : Site} {c : Char} (hs : s ∈ importDirectives code) (hc : c ∈ s.path.toList)
      (hquote : isQuote c = true)
  /-- a string, no path of a directive, with something like a directive in it -/
  | inString {v : List Char} {s : Site} (hstray : Stray code v s) (hplace : InString code v)
  /-- a word that starts no directive, with something like a directive after it -/
  | inWord {v : List Char} {s : Site} (hstray : Stray code v s) (hplace : InWord code v)

theorem Stray.misled (h : Stray code v s) : Misled code := by
  rcases h.starts.in_string_or_word with hplace | hplace
  · exact .inString h hplace
  · exact .inWord h hplace

/-- What is not misled finds the directives. -/
theorem scans_importDirectives (h : ¬Misled code) :
    Scans none (blankComments code.toList) (importDirectives code) := by
  have hlexed : Lexed none (lexemes code.toList) := lexed_lexemes fun _ _ _ _ => rfl
  refine ⟨?_, ?_, ordered_directives _⟩
  · rw [blankComments_eq_flatMap]
    refine sound_directives hlexed ?_
    intro s hs c hc
    cases hquote : isQuote c with
    | false => rfl
    | true => exact absurd (.oddPath hs hc hquote) h
  · intro v s hstarts
    by_cases hin : s ∈ importDirectives code
    · exact .inl hin
    · by_cases hcovered : ∃ d ∈ importDirectives code, d.Covers v
      · exact .inr hcovered
      · refine absurd (Stray.misled ⟨hstarts, hin, ?_⟩) h
        intro d hd hcovers
        exact hcovered ⟨d, hd, hcovers⟩

theorem unquoted_of_startsAt {before : Option Char} {text : List Char}
    (h : StartsAt before text v s) : Unquoted s.path.toList := by
  obtain ⟨u, r, -, hdirective, -⟩ := h
  obtain ⟨-, after, clause, path, q, q', -, hquotes, hs⟩ := directive?_eq_some_iff.1 hdirective
  rw [hs, String.toList_ofList]
  exact hquotes.unquoted_path

/-- What is misled finds something else. -/
theorem importSites_ne_of_misled (h : Misled code) : importSites code ≠ importDirectives code := by
  intro heq
  have hscans : Scans none (blankComments code.toList) (importDirectives code) :=
    heq ▸ scans_found none (blankComments code.toList)
  -- What the search finds covers every place where it sees a directive, so nothing is stray.
  have hnone : ∀ {v s}, ¬Stray code v s := by
    intro v s hstray
    rcases hscans.covering v s hstray.starts with hin | ⟨d, hd, hcovers⟩
    · exact hstray.not_mem hin
    · exact hstray.not_covered d hd hcovers
  cases h with
  | oddPath hs hc hquote =>
    obtain ⟨v, hv, -⟩ := hscans.sound _ hs
    rw [unquoted_of_startsAt hv _ hc] at hquote
    cases hquote
  | inString hstray _ => exact hnone hstray
  | inWord hstray _ => exact hnone hstray

/-- **The search is exact unless it is misled**: what it finds is where a directive starts for
    it, in a string or at the start of a word and never in a comment; and it finds the import
    directives, in order and where they are, exactly if nothing misleads it. -/
theorem imports_exact_iff (code : String) :
    imports code = (importSites code).map Site.path ∧
      (∀ s ∈ importSites code, ∃ v, StartsAt none (blankComments code.toList) v s ∧
        (InString code v ∨ InWord code v)) ∧
      (importSites code = importDirectives code ↔ ¬Misled code) := by
  refine ⟨imports_eq_map_path code, ?_, ?_⟩
  · intro s hs
    obtain ⟨v, hv, -⟩ := sound_found _ _ s hs
    exact ⟨v, hv, hv.in_string_or_word⟩
  · constructor
    · intro heq hmisled
      exact importSites_ne_of_misled hmisled heq
    · intro h
      exact (scans_found none (blankComments code.toList)).unique (scans_importDirectives h)

/-- Comments mislead nothing. -/
example : importSites
    "import \"a.sol\"; // import \"b.sol\"\nimport * as C from /* \" */ 'c.sol';" =
    [⟨"a.sol", 55⟩, ⟨"c.sol", 1⟩] := by
  decide +kernel

/-- A contract without imports that has a message with the word `import`. -/
def importMessage : String :=
  "contract C \x7b function f(bool ok) public \x7b require(ok, \"bad import\"); " ++
    "revert(\"no\"); \x7d \x7d"

/-- The text between the message and the next string is taken for a path. -/
theorem importMessage_found :
    imports importMessage = ["); revert("] ∧ importDirectives importMessage = [] := by
  decide +kernel

end SolidityBuild.Source
