import SolidityBuild.Build
import SolidityBuild.Proofs.Glob.Descending
import SolidityBuild.Proofs.Text.Affixes

/-! # Searching: what a search for sources finds below its base

    The base of a search is escaped, so it is followed name by name whatever its names are made
    of. Below it every entry is visited, and those that end like a source are found.
-/

namespace SolidityBuild

/-! ## The pattern of a search -/

namespace Text

/-- What ends with a separator is a piece. -/
theorem pieces_flatMap {sep : Char} {f : α → List Char} {xs : List α}
    (hf : ∀ x ∈ xs, sep ∉ f x) (rest : List Char) :
    pieces sep ((xs.flatMap fun x => f x ++ [sep]) ++ rest) = xs.map f ++ pieces sep rest := by
  induction xs with
  | nil => rfl
  | cons x xs ih =>
    rw [List.flatMap_cons, List.append_assoc, List.append_assoc, List.singleton_append,
      pieces_append_sep (hf x (List.mem_cons_self ..)),
      ih fun y hy => hf y (List.mem_cons_of_mem _ hy)]
    rfl

end Text

namespace Glob

variable {names above : List String} {cs : List Char} {d : Disk} {r : SearchRequest} {q : Path}
  {files : List Path}

theorem escape_append (cs ds : List Char) : escape (cs ++ ds) = escape cs ++ escape ds :=
  List.flatMap_append

theorem slash_not_mem_escape (h : '/' ∉ cs) : '/' ∉ escape cs := by
  intro hmem
  obtain ⟨c, hc, hslash⟩ := List.mem_flatMap.1 hmem
  unfold escapeChar at hslash
  split at hslash
  · simp only [List.mem_cons, List.not_mem_nil, or_false] at hslash
    rcases hslash with heq | heq | heq
    · cases heq
    · exact h (heq ▸ hc)
    · cases heq
  · exact h (List.mem_singleton.1 hslash ▸ hc)

/-- The pattern of names that end like a source. -/
def sourceFiles : Glob where
  tokens := [.anySequence, .char '.', .char 's', .char 'o', .char 'l']

/-- The pattern for all sources below a base. -/
def allSources : List Char :=
  ['*', '*', '/', '*', '.', 's', 'o', 'l']

theorem accepts_sourceFiles_iff {text : String} :
    sourceFiles.accepts text = true ↔ ".sol".toList <:+ text.toList := by
  have hmatch (cs : List Char) : matchesChars (['.', 's', 'o', 'l'].map .char ++ []) cs = true ↔
      ∃ post, cs = ['.', 's', 'o', 'l'] ++ post ∧ matchesChars [] post = true :=
    matchesChars_map_append_iff means_char _
  show matchesChars (.anySequence :: (['.', 's', 'o', 'l'].map .char ++ [])) text.toList = true ↔ _
  rw [matchesChars_anySequence_iff]
  constructor
  · intro h
    obtain ⟨stem, last, htext, hlast⟩ := h
    obtain ⟨post, hlast, hpost⟩ := (hmatch last).1 hlast
    rw [matchesChars, List.isEmpty_iff] at hpost
    exact ⟨stem, by rw [htext, hlast, hpost]; rfl⟩
  · intro h
    obtain ⟨stem, htext⟩ := h
    exact ⟨stem, _, htext.symm, (hmatch _).2 ⟨[], rfl, rfl⟩⟩

theorem reads_sourceFiles (before : Option Char) :
    Reads before ['*', '.', 's', 'o', 'l'] sourceFiles.tokens :=
  .anySequence (by decide)
    (.char rfl (.char rfl (.char rfl (.char rfl .nil))))

theorem reads_allSources (before : Option Char) :
    Reads before ('/' :: allSources) (.char '/' :: .anySegments :: sourceFiles.tokens) := by
  refine .char rfl (.anySegments ?_ (reads_sourceFiles _))
  intro c hc
  exact (Option.some.inj hc).symm

/-- The escaped base, and the pattern behind it, with the slashes where segments end. -/
theorem escape_slashed_append (names : List String) (rest : List Char) :
    escape (Path.slashed names) ++ '/' :: rest =
      '/' :: ((names.flatMap fun name => escape name.toList ++ ['/']) ++ rest) := by
  induction names with
  | nil => rfl
  | cons name names ih =>
    have hslashed : Path.slashed (name :: names) = '/' :: (name.toList ++ Path.slashed names) := rfl
    have hslash : escape ('/' :: (name.toList ++ Path.slashed names)) =
        '/' :: (escape name.toList ++ escape (Path.slashed names)) := by
      rw [← escape_append]
      rfl
    rw [hslashed, hslash, List.cons_append, List.append_assoc, ih, List.flatMap_cons]
    simp

theorem searchPattern_eq (hbase : r.base = .ofNames above)
    (habove : ∀ name ∈ above, Path.IsName name) :
    Disk.searchPattern r = escape (Path.slashed above) ++ '/' :: r.wanted.toList := by
  have hdrop : Text.dropEndWhile (· = '/') r.base.text.toList = Path.slashed above := by
    refine Text.dropEndWhile_slash_eq_iff.2 ⟨Path.getLast?_slashed habove, ?_⟩
    rw [hbase]
    by_cases hne : above = []
    · subst hne
      exact ⟨1, rfl⟩
    · exact ⟨0, by rw [Path.toList_ofNames hne]; simp⟩
  unfold Disk.searchPattern
  rw [hdrop]

theorem mapM_map_ok {f : β → Except ε γ} {spell : α → β} {read : α → γ} {xs : List α}
    (hf : ∀ x ∈ xs, f (spell x) = .ok (read x)) :
    (xs.map spell).mapM f = .ok (xs.map read) := by
  induction xs with
  | nil => rfl
  | cons x xs ih =>
    rw [List.map_cons, List.mapM_cons, hf x (List.mem_cons_self ..),
      ih fun y hy => hf y (List.mem_cons_of_mem _ hy)]
    rfl

theorem ofChars_escape (name : String) : ofChars (escape name.toList) = .ok (named name) := by
  have hreads : Reads none (escape name.toList ++ []) (name.toList.map escapeToken ++ []) :=
    .escape_append fun _ => .nil
  rw [List.append_nil, List.append_nil] at hreads
  exact ofChars_eq_ok_iff.2 hreads

/-- Each segment of the pattern is a glob. -/
theorem mapM_ofChars_segments (habove : ∀ name ∈ above, Path.IsName name) :
    (segments ((above.flatMap fun name => escape name.toList ++ ['/']) ++ allSources)).mapM
      ofChars = .ok (above.map named ++ [anyDepth, sourceFiles]) := by
  have hpieces : Text.pieces '/'
      ((above.flatMap fun name => escape name.toList ++ ['/']) ++ allSources) =
      above.map (fun name => escape name.toList) ++ [['*', '*'], ['*', '.', 's', 'o', 'l']] := by
    rw [Text.pieces_flatMap fun name hname => slash_not_mem_escape (habove name hname).2.2.2]
    rfl
  have hstars : ofChars ['*', '*'] = .ok anyDepth :=
    ofChars_eq_ok_iff.2 (.lastSegments nofun)
  have hsources : ofChars ['*', '.', 's', 'o', 'l'] = .ok sourceFiles :=
    ofChars_eq_ok_iff.2 (reads_sourceFiles none)
  have hnames : (above.map fun name => escape name.toList).mapM ofChars =
      .ok (above.map named) :=
    mapM_map_ok fun name _ => ofChars_escape name
  unfold segments
  dsimp only
  rw [hpieces, if_neg (by simp), List.mapM_append, hnames]
  simp [hstars, hsources, bind, Except.bind, pure, Except.pure]

/-- A search that goes from the root through the names of a base, then to any depth, then to
    names that a pattern picks. -/
def searchBelow (d : Disk) (above : List String) (g : Glob) : List Path :=
  expand d false (reach d (above.length + 2)) (above.map named ++ [anyDepth, g]) (.ofNames [])

/-- **Searching**: the search for sources is one for names that end like a source. -/
theorem find_sources (hbase : r.base = .ofNames above)
    (habove : ∀ name ∈ above, Path.IsName name) (hwanted : r.wanted.toList = allSources) :
    find d (Disk.searchPattern r) = .ok (searchBelow d above sourceFiles) := by
  have hreads : Reads none (escape (Path.slashed above) ++ '/' :: allSources)
      ((Path.slashed above).map escapeToken ++
        (.char '/' :: .anySegments :: sourceFiles.tokens)) :=
    .escape_append reads_allSources
  have hvalid : ∃ g, ofChars (Disk.searchPattern r) = .ok g := by
    rw [searchPattern_eq hbase habove, hwanted]
    exact ⟨⟨_⟩, ofChars_eq_ok_iff.2 hreads⟩
  obtain ⟨g, hg⟩ := hvalid
  have hpattern := searchPattern_eq hbase habove
  rw [hwanted, escape_slashed_append] at hpattern
  -- The pattern does not end with a slash, so files are found, too.
  have hlast : (Disk.searchPattern r).getLast? = some 'l' := by
    rw [hpattern, List.getLast?_cons, List.getLast?_append]
    rfl
  have hroot : Path.ofNames [] = ⟨"/"⟩ := rfl
  unfold find searchBelow
  rw [hg, hlast, hpattern]
  simp [bind, Except.bind, pure, Except.pure, mapM_ofChars_segments habove, hroot]

end Glob

end SolidityBuild
