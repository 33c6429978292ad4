import SolidityBuild.Proofs.Glob.BlurredPaths
import SolidityBuild.Proofs.Manifest.Directories

/-! # Exclusion: what a declared build directory does to the search for sources

    The build directory is left out by a pattern in which it stands as it is written. Without
    wildcards and classes it matches its own names only. With them it may be unreadable; and if
    it matches any source at all it also matches a blurred one, which is not in the directory.
-/

namespace SolidityBuild

/-! ## The pattern for a directory -/

namespace Path

variable {p : Path} {names : List String}

theorem names_of_segments (h : ∀ name ∈ names, IsName name)
    (hsegments : p.segments = names.map String.toList) : p.names = names := by
  rw [names_eq, hsegments, filterMap_names h, filterMap_name?_map]

theorem names_along (hne : names ≠ []) (h : ∀ name ∈ names, IsName name) :
    (along names).names = names :=
  names_of_segments h (segments_along hne h)

end Path

namespace Glob

variable {directory : String} {names : List String} {g : Glob} {cs : List Char}
  {tokens : List GlobToken}

/-- The pattern for what lies below a directory, wherever that is. -/
def below (directory : String) : String :=
  "**/" ++ directory ++ "/**"

theorem toList_below (directory : String) :
    (below directory).toList = ['*', '*', '/'] ++ (directory.toList ++ ['/', '*', '*']) := by
  simp [below]

/-- The directory is read after any segments. -/
theorem ofText_below_eq_ok_iff : ofText (below directory) = .ok g ↔
    ∃ tokens, g.tokens = .anySegments :: tokens ∧
      Reads (some '/') (directory.toList ++ ['/', '*', '*']) tokens := by
  unfold ofText
  rw [toList_below, ofChars_eq_ok_iff]
  constructor
  · intro h
    generalize g.tokens = all at h
    cases h with
    | char hc h => cases hc
    | anySequence hrest h => exact absurd rfl hrest
    | anySegments hbefore h => exact ⟨_, rfl, h⟩
  · intro ⟨tokens, htokens, h⟩
    rw [htokens]
    exact .anySegments nofun h

/-! ## Directories without wildcards -/

/-- What the pattern for a directory without wildcards is read as. -/
def plainBelow (directory : String) : Glob where
  tokens := .anySegments :: (directory.toList.map .char ++ [.char '/', .anySegments])

theorem ofText_below_of_plain (h : ∀ c ∈ directory.toList, isSpecial c = false) :
    ofText (below directory) = .ok (plainBelow directory) := by
  have hend : ∀ before, Reads before ['/', '*', '*'] [.char '/', .anySegments] :=
    fun before => .char rfl (.lastSegments fun c hc => (Option.some.inj hc).symm)
  exact ofText_below_eq_ok_iff.2 ⟨_, rfl, .plain_append h hend⟩

/-- It takes the directory, and whatever is below it. -/
theorem matchesChars_plain_iff :
    matchesChars (directory.toList.map .char ++ [.char '/', .anySegments]) cs = true ↔
      ∃ more, cs = directory.toList ++ '/' :: more := by
  rw [matchesChars_map_append_iff means_char]
  have hslash : ∀ post, matchesChars [.char '/', .anySegments] post = true ↔
      ∃ more, post = '/' :: more := by
    intro post
    have hany : ∀ more, matchesChars [.anySegments] more = true :=
      fun more => matchesChars_anySegments_iff.2 (.inr (.inl rfl))
    rw [matchesChars_single_iff (means_char '/').single]
    simp [(means_char '/').matches_iff, hany]
  simp only [hslash]
  constructor
  · intro ⟨post, hcs, more, hpost⟩
    exact ⟨more, by rw [hcs, hpost]⟩
  · intro ⟨more, hcs⟩
    exact ⟨_, hcs, more, rfl⟩

/-- A path that is matched has the segments of the directory somewhere, and at least one more
    behind them. -/
theorem exists_segments_of_accepts (hnames : ∀ name ∈ names, Path.IsName name) (hne : names ≠ [])
    (h : (plainBelow directory).accepts (Path.along names).text = true) :
    ∃ front behind, behind ≠ [] ∧
      names.map String.toList = front ++ (Text.pieces '/' directory.toList ++ behind) := by
  have hsegments : Text.pieces '/' (Path.along names).text.toList = names.map String.toList :=
    Path.segments_along hne hnames
  unfold accepts plainBelow at h
  rw [matchesChars_anySegments_iff] at h
  simp only [matchesChars_plain_iff] at h
  rcases h with ⟨more, htext⟩ | ⟨more, hnil⟩ | ⟨pre, post, htext, more, rfl⟩
  · rw [htext, Text.pieces_append] at hsegments
    exact ⟨[], _, Text.pieces_ne_nil '/' more, hsegments.symm⟩
  · exact absurd hnil.symm (List.append_ne_nil_of_right_ne_nil _ (List.cons_ne_nil _ _))
  · rw [htext, Text.pieces_append, Text.pieces_append] at hsegments
    exact ⟨_, _, Text.pieces_ne_nil '/' more, hsegments.symm⟩

/-- So it goes through the directory. -/
theorem names_within_of_accepts (hnames : ∀ name ∈ names, Path.IsName name) (hne : names ≠ [])
    (h : (plainBelow directory).accepts (Path.along names).text = true) :
    (Path.mk directory).names <:+: names.dropLast := by
  obtain ⟨front, behind, hbehind, hsplit⟩ := exists_segments_of_accepts hnames hne h
  obtain ⟨above, others, rfl, -, hothers⟩ := List.map_eq_append_iff.1 hsplit
  obtain ⟨inside, last, rfl, hinside, hlast⟩ := List.map_eq_append_iff.1 hothers
  have hlast : last ≠ [] := by
    rintro rfl
    exact hbehind hlast.symm
  have hdirectory : (Path.mk directory).names = inside := by
    refine Path.names_of_segments (fun name hname => hnames name ?_) hinside.symm
    simp [hname]
  rw [hdirectory, List.dropLast_append_of_ne_nil (List.append_ne_nil_of_right_ne_nil _ hlast),
    List.dropLast_append_of_ne_nil hlast]
  exact ⟨above, last.dropLast, by simp⟩

/-! ## Directories with wildcards -/

/-- Apart from the two wildcards around it the pattern needs fewer characters of patterns than
    the directory has, unless that is a plain text. -/
theorem countP_needsSyntax_lt (hspecial : ∃ c ∈ directory.toList, isSpecial c = true)
    (h : Reads (some '/') (directory.toList ++ ['/', '*', '*']) tokens) :
    tokens.countP needsSyntax < directory.toList.countP isSyntax := by
  have hstars : ['*', '*'] <:+ directory.toList ++ ['/', '*', '*'] :=
    ⟨directory.toList ++ ['/'], by simp⟩
  have hcount : (directory.toList ++ ['/', '*', '*']).countP isSyntax =
      directory.toList.countP isSyntax + 2 := by
    rw [List.countP_append]
    rfl
  rcases h.countP_add_le hstars with hmore | ⟨-, front, hfront, hplain⟩
  · omega
  · have hdirectory : directory.toList ++ ['/'] = front := by
      rw [List.append_cons] at hfront
      exact List.append_cancel_right hfront
    obtain ⟨c, hc, hspecial⟩ := hspecial
    rw [hplain c (hdirectory ▸ List.mem_append_left _ hc)] at hspecial
    cases hspecial

/-- So a match of the pattern can be blurred to one that is not in the directory. -/
theorem exists_source_beside (hspecial : ∃ c ∈ directory.toList, isSpecial c = true)
    (hg : ofText (below directory) = .ok g) (h : IsSourceAddress names)
    (haccepts : g.accepts (Path.along names).text = true) :
    ∃ names', IsSourceAddress names' ∧ g.accepts (Path.along names').text = true ∧
      ¬ (Path.mk directory).names <:+: names'.dropLast := by
  obtain ⟨tokens, htokens, hreads⟩ := ofText_below_eq_ok_iff.1 hg
  obtain ⟨cs, hmatch, hblurs, hcount⟩ := exists_blurred haccepts
  obtain ⟨names', halong, hsource⟩ := h.blurred hblurs
  rw [← halong] at hmatch hcount
  refine ⟨names', hsource, hmatch, ?_⟩
  intro hwithin
  -- The names of the directory would bring more of these characters than the match needs.
  have hless := countP_needsSyntax_lt hspecial hreads
  have hmore : countSyntax (Path.mk directory).names ≤ countSyntax (Path.along names').names := by
    rw [Path.names_along hsource.ne_nil hsource.named]
    exact countSyntax_le_of_infix (hwithin.trans (List.dropLast_prefix names').isInfix)
  rw [countSyntax_names, countSyntax_names] at hmore
  rw [htokens, List.countP_cons_of_neg (by decide)] at hcount
  exact absurd hless (Nat.not_lt.2 (Nat.le_trans hmore hcount))

end Glob

end SolidityBuild
