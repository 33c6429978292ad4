import Mathlib.Data.List.Nodup
import Mathlib.Data.List.Perm.Subperm
import SolidityBuild.Proofs.Build.BuildDirectory
import SolidityBuild.Proofs.Disk.Unlinked
import SolidityBuild.Proofs.Glob.Limit

/-! # Exactness: a search for sources finds each source once and nothing else

    On a disk without links every path has one way to it, and the patterns of a search go each
    way once: through the names of the base, however these are spelled, and then through the
    listings of the directories below. What is left out lies in a directory with the excluded
    name, and only the directories below the base count for that.
-/

namespace SolidityBuild

namespace Glob

variable {d : Disk} {onlyDirectories? : Bool} {fuel : Nat} {g : Glob} {rest : List Glob}
  {p q : Path} {name directory : String} {names above : List String} {node : FileTree}

/-! ## Through the base -/

theorem flatMap_ite_eq [DecidableEq α] {xs : List α} (hxs : xs.Nodup) (x : α) (f : α → List β) :
    (xs.flatMap fun y => if y = x then f y else []) = if x ∈ xs then f x else [] := by
  induction xs with
  | nil => rfl
  | cons y xs ih =>
    obtain ⟨hy, hxs⟩ := List.nodup_cons.1 hxs
    rw [List.flatMap_cons, ih hxs]
    by_cases heq : y = x
    · subst heq
      simp [hy]
    · simp [heq, Ne.symm heq]

/-- Whether an escaped name leads on from a path: a name that needs no escapes is asked for, any
    other is looked for among those that are listed. -/
def leadsOn (d : Disk) (p : Path) (name : String) : Bool :=
  if (named name).literal?.isSome then d.hasEntry (entryOf p name)
  else d.isDir p && (d.list p).contains name

/-- An escaped name leads on to the entry of this name, once. -/
theorem expand_named (hname : Path.IsName name) (hrest : rest ≠ []) (hlist : (d.list p).Nodup) :
    expand d onlyDirectories? (fuel + 1) (named name :: rest) p =
      if leadsOn d p name then expand d onlyDirectories? fuel rest (entryOf p name) else [] := by
  have hmore : rest.isEmpty = false := by simpa using hrest
  have hnot : isDots name = false := by
    simp [isDots, hname.2.1, hname.2.2.1]
  rw [expand]
  unfold leadsOn
  cases hliteral : (named name).literal? with
  | some segment =>
    obtain rfl := literal?_named hliteral
    simp [hnot, hmore]
  | none =>
    -- Each listed name is tried, and only one is the name itself.
    simp only [hmore, filter_dots_named hname, isRecursive_named, accepts_named_iff,
      List.flatMap_nil, List.nil_append, Bool.false_eq_true, if_false, Option.isSome_none]
    rw [flatMap_ite_eq hlist]
    by_cases hdir : d.isDir p = true
    · simp [hdir]
    · simp [hdir]

/-- Some escaped names lead on to where the names lead, or nowhere. -/
theorem expand_names_cases (hlist : ∀ p, (d.list p).Nodup)
    (habove : ∀ name ∈ above ++ names, Path.IsName name) (hrest : rest ≠ []) :
    expand d onlyDirectories? fuel (names.map named ++ rest) (.ofNames above) = [] ∨
      ∃ fuel', expand d onlyDirectories? fuel (names.map named ++ rest) (.ofNames above) =
        expand d onlyDirectories? fuel' rest (.ofNames (above ++ names)) := by
  induction names generalizing above fuel with
  | nil =>
    right
    exact ⟨fuel, by rw [List.append_nil]; rfl⟩
  | cons name names ih =>
    cases fuel with
    | zero => exact .inl rfl
    | succ fuel =>
      have hname : Path.IsName name := habove name (by simp)
      have hentry := entryOf_ofNames
        (fun other hother => habove other (List.mem_append_left _ hother)) hname
      rw [List.map_cons, List.cons_append,
        expand_named hname (List.append_ne_nil_of_right_ne_nil _ hrest) (hlist _), hentry]
      by_cases hleads : leadsOn d (.ofNames above) name = true
      · rw [if_pos hleads, List.append_cons above name names]
        rw [List.append_cons] at habove
        exact ih habove
      · rw [if_neg hleads]
        exact .inl rfl

/-- Where each name leads on and the fuel allows, they lead there. -/
theorem expand_names (hlist : ∀ p, (d.list p).Nodup)
    (habove : ∀ name ∈ above ++ names, Path.IsName name) (hrest : rest ≠ [])
    (hleads : ∀ front name, front ++ [name] <+: names →
      leadsOn d (.ofNames (above ++ front)) name = true) :
    expand d onlyDirectories? (names.length + fuel) (names.map named ++ rest) (.ofNames above) =
      expand d onlyDirectories? fuel rest (.ofNames (above ++ names)) := by
  induction names generalizing above with
  | nil => simp
  | cons name names ih =>
    have hname : Path.IsName name := habove name (by simp)
    have hentry := entryOf_ofNames
      (fun other hother => habove other (List.mem_append_left _ hother)) hname
    have hfirst : leadsOn d (.ofNames above) name = true := by
      have h := hleads [] name ⟨names, rfl⟩
      rwa [List.append_nil] at h
    have hfuel : (name :: names).length + fuel = names.length + fuel + 1 := by
      rw [List.length_cons]
      omega
    rw [hfuel, List.map_cons, List.cons_append,
      expand_named hname (List.append_ne_nil_of_right_ne_nil _ hrest) (hlist _), hentry,
      if_pos hfirst, List.append_cons above name names]
    rw [List.append_cons] at habove
    apply ih habove
    intro front other hfront
    rw [List.append_assoc]
    exact hleads (name :: front) other (List.cons_prefix_cons.2 ⟨rfl, hfront⟩)

/-! ## Below the base -/

/-- What is found at a name of a directory. -/
def entryFinds (d : Disk) (fuel : Nat) (g : Glob) (directory : Path) (name : String) : List Path :=
  (if g.accepts name then [entryOf directory name] else []) ++
    if d.isDir (entryOf directory name) then
      expand d false fuel [anyDepth, g] (entryOf directory name)
    else []

/-- It starts with the name. -/
theorem exists_names_of_mem_entryFinds (hd : d.Proper) (hg : g.isRecursive = false)
    (habove : ∀ other ∈ above ++ [name], Path.IsName other)
    (hentry : entryOf (.ofNames above) name = .ofNames (above ++ [name]))
    (h : q ∈ entryFinds d fuel g (.ofNames above) name) :
    ∃ names, q = .ofNames (above ++ name :: names) ∧
      ∀ other ∈ above ++ name :: names, Path.IsName other := by
  unfold entryFinds at h
  rw [hentry] at h
  rcases List.mem_append.1 h with hitself | hbelow
  · rw [List.mem_ite_nil_right, List.mem_singleton] at hitself
    exact ⟨[], hitself.2, habove⟩
  · rw [List.mem_ite_nil_right] at hbelow
    obtain ⟨names, hq, hnames, -⟩ := exists_names_of_mem_expand hd hg habove hbelow.2
    have hall := List.forall_mem_append.2 ⟨habove, fun other h => hd.named other (hnames other h)⟩
    rw [List.append_assoc] at hq hall
    exact ⟨names, hq, hall⟩

/-- An entry is not found again below itself. -/
theorem nodup_entryFinds (hd : d.Proper) (hg : g.isRecursive = false)
    (habove : ∀ other ∈ above ++ [name], Path.IsName other)
    (hentry : entryOf (.ofNames above) name = .ofNames (above ++ [name]))
    (hbelow : (expand d false fuel [anyDepth, g] (.ofNames (above ++ [name]))).Nodup) :
    (entryFinds d fuel g (.ofNames above) name).Nodup := by
  unfold entryFinds
  rw [hentry]
  apply List.Nodup.append
  · split
    · exact List.nodup_singleton _
    · exact List.nodup_nil
  · split
    · exact hbelow
    · exact List.nodup_nil
  · -- What is found below has more names than the entry.
    intro q hitself hq
    rw [List.mem_ite_nil_right, List.mem_singleton] at hitself
    rw [List.mem_ite_nil_right] at hq
    obtain ⟨names, heq, hnames, last, hlast, -⟩ := exists_names_of_mem_expand hd hg habove hq.2
    have hall := List.forall_mem_append.2 ⟨habove, fun other h => hd.named other (hnames other h)⟩
    rw [hitself.2, Path.ofNames_inj habove hall] at heq
    have hnil : names = [] := List.self_eq_append_right.1 heq
    rw [hnil] at hlast
    cases hlast

/-- Two stars and a pattern lead to each path once. -/
theorem nodup_expand (hd : d.Unlinked) (hg : g.isRecursive = false)
    (habove : ∀ name ∈ above, Path.IsName name) :
    (expand d false fuel [anyDepth, g] (.ofNames above)).Nodup := by
  -- On the fuel: below each entry there is less of it.
  induction fuel generalizing above with
  | zero => exact List.nodup_nil
  | succ fuel ih =>
    have hnames : ∀ name ∈ d.list (.ofNames above), ∀ other ∈ above ++ [name],
        Path.IsName other := by
      intro name hname other hother
      rcases List.mem_append.1 hother with hother | hother
      · exact habove other hother
      · rw [List.mem_singleton.1 hother]
        exact hd.named name (Disk.mem_names_of_mem_list hname)
    have hentry : ∀ name ∈ d.list (.ofNames above),
        entryOf (.ofNames above) name = .ofNames (above ++ [name]) :=
      fun name hname => entryOf_ofNames habove (hnames name hname name (by simp))
    rw [expand_anyDepth hg]
    split
    · show ((d.list (.ofNames above)).flatMap (entryFinds d fuel g (.ofNames above))).Nodup
      rw [List.nodup_flatMap]
      constructor
      · intro name hname
        exact nodup_entryFinds hd.toProper hg (hnames name hname) (hentry name hname)
          (ih (hnames name hname))
      · -- What is found at two names differs in the name behind the directory.
        apply (hd.nodup_list (.ofNames above)).imp_of_mem
        intro name other hname hother hne q hq hq'
        obtain ⟨more, heq, hmore⟩ := exists_names_of_mem_entryFinds hd.toProper hg
          (hnames name hname) (hentry name hname) hq
        obtain ⟨more', heq', hmore'⟩ := exists_names_of_mem_entryFinds hd.toProper hg
          (hnames other hother) (hentry other hother) hq'
        rw [heq, Path.ofNames_inj hmore hmore'] at heq'
        exact hne (List.cons.inj (List.append_cancel_left heq')).1
    · exact List.nodup_nil

/-! ## To a file -/

/-- On the way to a node every name leads on. -/
theorem leadsOn_of_get? (hd : d.Unlinked)
    (hcheck : Disk.check (.ofNames (above ++ name :: names)) = .ok ())
    (hget : d.tree.get? (above ++ name :: names) = some node) :
    leadsOn d (.ofNames above) name = true := by
  have hnames := hd.isName hget
  have habove : ∀ other ∈ above, Path.IsName other :=
    fun other hother => hnames other (List.mem_append_left _ hother)
  obtain ⟨hdir, hmem⟩ :=
    Disk.isDir_and_mem_list hd.grounded habove (Disk.check_ofNames_front hcheck) hget
  unfold leadsOn
  split
  · rw [List.append_cons] at hcheck hget
    rw [FileTree.get?_append] at hget
    obtain ⟨child, hchild, -⟩ := Option.bind_eq_some_iff.1 hget
    rw [entryOf_ofNames habove (hnames name (by simp))]
    exact hd.hasEntry_ofNames (Disk.check_ofNames_front hcheck) hchild
  · simp [hdir, hmem]

theorem nodup_searchBelow (hd : d.Unlinked) (hg : g.isRecursive = false)
    (habove : ∀ name ∈ above, Path.IsName name) : (searchBelow d above g).Nodup := by
  have hall : ∀ name ∈ [] ++ above, Path.IsName name := habove
  unfold searchBelow
  rcases expand_names_cases hd.nodup_list hall (List.cons_ne_nil _ _) with hnil | ⟨fuel, heq⟩
  · rw [hnil]
    exact List.nodup_nil
  · rw [heq]
    exact nodup_expand hd hg habove

/-- Whatever the pattern picks by its name is found. -/
theorem mem_searchBelow (hd : d.Unlinked) (hg : g.isRecursive = false)
    (hcheck : Disk.check (.ofNames (above ++ names)) = .ok ())
    (hget : d.tree.get? (above ++ names) = some node) (hne : names ≠ [])
    (hlast : ∀ last ∈ names.getLast?, g.accepts last = true) :
    .ofNames (above ++ names) ∈ searchBelow d above g := by
  have habove : ∀ name ∈ above, Path.IsName name :=
    fun name hname => hd.isName hget name (List.mem_append_left _ hname)
  -- The names of the base take as much fuel as there are, and the others are given the rest.
  have hreach := length_le_reach hget (above.length + 2)
  rw [List.length_append] at hreach
  obtain ⟨more, hmore⟩ := Nat.exists_eq_add_of_le hreach
  have hall : ∀ name ∈ [] ++ above, Path.IsName name := habove
  have hleads : ∀ front name, front ++ [name] <+: above →
      leadsOn d (.ofNames ([] ++ front)) name = true := by
    intro front name ⟨back, hback⟩
    rw [← hback, List.append_assoc, List.append_assoc] at hcheck hget
    exact leadsOn_of_get? hd hcheck hget
  unfold searchBelow
  rw [hmore, Nat.add_assoc, expand_names hd.nodup_list hall (List.cons_ne_nil _ _) hleads]
  exact mem_expand_of_leads hg (Leads.of_get? hd.toProper hcheck hget hne) hlast (by omega)

/-! ## What is left out -/

/-- The pattern for a directory with a plain name takes what lies in a directory of this name. -/
theorem accepts_plainBelow_iff (hslash : '/' ∉ directory.toList)
    (hnames : ∀ name ∈ names, Path.IsName name) (hne : names ≠ []) :
    (plainBelow directory).accepts (Path.along names).text = true ↔
      directory ∈ names.dropLast := by
  constructor
  · intro h
    obtain ⟨front, behind, hbehind, hsplit⟩ := exists_segments_of_accepts hnames hne h
    rw [Text.pieces_of_not_mem hslash] at hsplit
    obtain ⟨above, others, rfl, -, hothers⟩ := List.map_eq_append_iff.1 hsplit
    obtain ⟨name, inside, rfl, hname, hinside⟩ := List.map_eq_cons_iff.1 hothers
    -- The last name lies behind the directory, so the directory is not the last name.
    have hmore : inside ≠ [] := by
      intro hnil
      rw [hnil] at hinside
      exact hbehind hinside.symm
    obtain rfl := String.toList_injective hname
    rw [List.append_cons, List.dropLast_append_of_ne_nil hmore]
    simp
  · intro h
    obtain ⟨above, inside, hsplit⟩ := List.append_of_mem h
    have hwhole := List.dropLast_append_getLast hne
    rw [hsplit, List.append_assoc] at hwhole
    -- What follows the directory starts with a slash, and so does what stands before it.
    have hmore : ∃ more, Path.slashed (inside ++ [names.getLast hne]) = '/' :: more := by
      rw [← Path.slash_cons_along (by simp)]
      exact ⟨_, rfl⟩
    obtain ⟨more, hmore⟩ := hmore
    have htext : '/' :: (Path.along names).text.toList =
        Path.slashed above ++ '/' :: (directory.toList ++ '/' :: more) := by
      rw [Path.slash_cons_along hne, ← hwhole, Path.slashed_append, ← hmore]
      rfl
    unfold accepts plainBelow
    rw [matchesChars_anySegments_iff]
    simp only [matchesChars_plain_iff]
    by_cases habove : above = []
    · subst habove
      exact .inl ⟨more, (List.cons.inj htext).2⟩
    · rw [← Path.slash_cons_along habove, List.cons_append] at htext
      exact .inr (.inr ⟨_, _, (List.cons.inj htext).2, more, rfl⟩)

theorem isExcluded_plainBelow_iff (hslash : '/' ∉ directory.toList)
    (hnames : ∀ name ∈ above ++ names, Path.IsName name) (hne : names ≠ []) :
    Disk.isExcluded (.ofNames above) [plainBelow directory] (.ofNames (above ++ names)) = true ↔
      directory ∈ names.dropLast := by
  unfold Disk.isExcluded
  rw [Path.strip?_ofNames hne hnames]
  simp [accepts_plainBelow_iff hslash
    (fun name hname => hnames name (List.mem_append_right _ hname)) hne]

end Glob

/-! ## Sources -/

namespace Disk

variable {d : Disk} {r : SearchRequest} {p : Path} {directory : String} {above : List String}
  {paths : List Path}

/-- A source below a base: a path that leads to a file, with a last name that ends like one of a
    source. None of the directories between the base and the file has the given name. -/
def IsSource (d : Disk) (base : Path) (directory : String) (p : Path) : Prop :=
  ∃ inside name, p = .ofNames (base.names ++ (inside ++ [name])) ∧
    (∀ other ∈ inside ++ [name], Path.IsName other) ∧ d.isFile p = true ∧
    ".sol".toList <:+ name.toList ∧ directory ∉ inside

/-- What a search for sources keeps of what it finds. -/
theorem mem_searchBelow_iff (hd : d.Unlinked) (habove : ∀ name ∈ above, Path.IsName name)
    (hslash : '/' ∉ directory.toList) :
    (p ∈ Glob.searchBelow d above Glob.sourceFiles ∧ d.isFile p = true ∧
      isExcluded (.ofNames above) [Glob.plainBelow directory] p = false) ↔
    d.IsSource (.ofNames above) directory p := by
  unfold IsSource
  rw [Path.names_ofNames habove]
  constructor
  · intro ⟨hfound, hfile, hkept⟩
    obtain ⟨names, rfl, hnames, last, hlast, haccepts⟩ :=
      Glob.exists_names_of_mem_searchBelow hd.toProper rfl habove hfound
    obtain ⟨inside, rfl⟩ := List.getLast?_eq_some_iff.1 hlast
    have hbelow : ∀ other ∈ inside ++ [last], Path.IsName other :=
      fun other hother => hd.named other (hnames other hother)
    have hall := List.forall_mem_append.2 ⟨habove, hbelow⟩
    refine ⟨inside, last, rfl, hbelow, hfile, Glob.accepts_sourceFiles_iff.1 haccepts, ?_⟩
    intro hinside
    rw [Bool.eq_false_iff, Ne, Glob.isExcluded_plainBelow_iff hslash hall (by simp),
      List.dropLast_concat] at hkept
    exact hkept hinside
  · intro ⟨inside, name, hp, hinside, hfile, hsource, hdirectory⟩
    subst hp
    have hnames := List.forall_mem_append.2 ⟨habove, hinside⟩
    obtain ⟨hcheck, contents, program, hget⟩ := (hd.isFile_ofNames_iff hnames).1 hfile
    refine ⟨Glob.mem_searchBelow hd rfl hcheck hget (by simp) ?_, hfile, ?_⟩
    · intro last hlast
      rw [List.getLast?_concat, Option.mem_some_iff] at hlast
      rw [← hlast]
      exact Glob.accepts_sourceFiles_iff.2 hsource
    · rw [Bool.eq_false_iff, Ne, Glob.isExcluded_plainBelow_iff hslash hnames (by simp),
        List.dropLast_concat]
      exact hdirectory

/-- There are no more sources than files. -/
theorem length_le_of_isSource (hd : d.Unlinked) (habove : ∀ name ∈ above, Path.IsName name)
    (hnodup : paths.Nodup) (h : ∀ p ∈ paths, d.IsSource (.ofNames above) directory p) :
    paths.length ≤ d.tree.files.length := by
  have hsubset : paths ⊆ d.tree.files.map .ofNames := by
    intro p hp
    obtain ⟨inside, name, heq, hinside, hfile, -, -⟩ := h p hp
    rw [Path.names_ofNames habove] at heq
    have hnames := List.forall_mem_append.2 ⟨habove, hinside⟩
    rw [heq] at hfile
    obtain ⟨-, contents, program, hget⟩ := (hd.isFile_ofNames_iff hnames).1 hfile
    rw [heq]
    exact List.mem_map_of_mem (FileTree.mem_files hget)
  have hlength := (hnodup.subperm hsubset).length_le
  rwa [List.length_map] at hlength

/-- **Exactness**: on a disk without links, a search for sources that leaves out a directory by
    its plain name returns each source below its base once and nothing else, if its limit is
    not below the number of files. -/
theorem search_sources (hd : d.Unlinked) (habsolute : r.base.isAbsolute = true)
    (hnormal : r.base.normalize = r.base) (hwanted : r.wanted = "**/*.sol")
    (hexcluded : r.excluded = ["**/" ++ directory ++ "/**"]) (hslash : '/' ∉ directory.toList)
    (hplain : ∀ c ∈ directory.toList, Glob.isSpecial c = false)
    (hlimit : d.tree.files.length ≤ r.limit) :
    ∃ files, (d.search r).1 = .ok files ∧ files.Nodup ∧
      ∀ p, p ∈ files ↔ d.IsSource r.base directory p := by
  obtain ⟨above, hbase, habove⟩ := Path.normalize_of_isAbsolute habsolute
  rw [hnormal] at hbase
  have hpattern : r.wanted.toList = Glob.allSources := by
    rw [hwanted]
    rfl
  have hglobs : r.excluded.mapM Glob.ofText = .ok [Glob.plainBelow directory] := by
    rw [hexcluded]
    show [Glob.below directory].mapM Glob.ofText = _
    rw [List.mapM_cons, Glob.ofText_below_of_plain hplain]
    rfl
  obtain ⟨files, hfiles⟩ : ∃ files, files = (Glob.searchBelow d above Glob.sourceFiles).filter
      fun p => d.isFile p && !isExcluded (.ofNames above) [Glob.plainBelow directory] p := ⟨_, rfl⟩
  have hall : d.searchAll r = .ok files := by
    rw [searchAll_eq hglobs (Glob.find_sources hbase habove hpattern), hfiles, hbase]
  have hmem : ∀ p, p ∈ files ↔ d.IsSource r.base directory p := by
    intro p
    rw [hfiles, hbase, List.mem_filter, ← mem_searchBelow_iff hd habove hslash,
      Bool.and_eq_true, Bool.not_eq_true']
  have hnodup : files.Nodup := by
    rw [hfiles]
    exact (Glob.nodup_searchBelow hd rfl habove).filter _
  have hlength : files.length ≤ d.tree.files.length :=
    length_le_of_isSource hd habove hnodup fun p hp => hbase ▸ (hmem p).1 hp
  -- So the limit cuts nothing off.
  refine ⟨files, ?_, hnodup, hmem⟩
  rw [search_of_ok hall, List.take_of_length_le (by omega)]

/-! ## A base that is spelled like a pattern -/

/-- An empty file. -/
def emptyFile : FileTree :=
  .file ByteArray.empty none

/-- A disk with sources in, beside and below directories that are named like a build directory,
    like a source and like a pattern. -/
def sourceShelf : Disk where
  tree := .dir [("build", .dir [
    ("a1", .dir [("E.sol", emptyFile)]),
    ("a[1]*", .dir [
      (".hidden.sol", emptyFile),
      ("B.sol", .dir [("C.sol", emptyFile)]),
      ("build.sol", emptyFile),
      ("lib", .dir [("build", .dir [("D.sol", emptyFile)])]),
      ("notes.txt", emptyFile)])])]
  cwd := []

/-- A search in the directory that is named like a pattern. -/
def shelfSearch : SearchRequest where
  base := ⟨"/build/a[1]*"⟩
  wanted := "**/*.sol"
  excluded := ["**/build/**"]
  limit := 6

theorem unlinked_sourceShelf : sourceShelf.Unlinked where
  named := by
    unfold Path.IsName
    decide +kernel
  grounded := ⟨_, rfl⟩
  distinct := by decide +kernel
  unlinked := by decide +kernel

/-- The hidden source and the one in the directory that is named like a source are found, and the
    build directory above the base does not keep them from that. The one below it does. -/
theorem sourceShelf_found : ∃ files, (sourceShelf.search shelfSearch).1 = .ok files ∧
    files.Nodup ∧
    .ofNames ["build", "a[1]*", ".hidden.sol"] ∈ files ∧
    .ofNames ["build", "a[1]*", "B.sol", "C.sol"] ∈ files ∧
    .ofNames ["build", "a[1]*", "B.sol"] ∉ files ∧
    .ofNames ["build", "a[1]*", "lib", "build", "D.sol"] ∉ files := by
  have hbase : shelfSearch.base.names = ["build", "a[1]*"] := by decide +kernel
  have hfound : ∃ files, (sourceShelf.search shelfSearch).1 = .ok files ∧ files.Nodup ∧
      ∀ p, p ∈ files ↔ sourceShelf.IsSource shelfSearch.base "build" p :=
    search_sources unlinked_sourceShelf (by decide) (by decide +kernel) rfl rfl (by decide)
      (by simp [Glob.isSpecial]) (by decide +kernel)
  obtain ⟨files, hfiles, hnodup, hmem⟩ := hfound
  unfold IsSource at hmem
  rw [hbase] at hmem
  refine ⟨files, hfiles, hnodup, (hmem _).2 ?_, (hmem _).2 ?_, ?_, ?_⟩
  · exact ⟨[], ".hidden.sol", rfl, by simp [Path.IsName], by decide +kernel, by decide,
      by decide⟩
  · exact ⟨["B.sol"], "C.sol", rfl, by simp [Path.IsName], by decide +kernel, by decide,
      by decide⟩
  · intro hdir
    obtain ⟨-, -, -, -, hfile, -⟩ := (hmem _).1 hdir
    revert hfile
    decide +kernel
  · intro hbelow
    obtain ⟨inside, name, hpath, hnames, -, -, hbuild⟩ := (hmem _).1 hbelow
    have hall : ∀ other ∈ ["build", "a[1]*"] ++ (inside ++ [name]), Path.IsName other :=
      List.forall_mem_append.2 ⟨by simp [Path.IsName], hnames⟩
    have heq : ["build", "a[1]*"] ++ (["lib", "build"] ++ ["D.sol"]) =
        ["build", "a[1]*"] ++ (inside ++ [name]) :=
      (Path.ofNames_inj (by simp [Path.IsName]) hall).1 hpath
    obtain ⟨hinside, -⟩ := List.append_inj' (List.append_cancel_left heq) rfl
    rw [← hinside] at hbuild
    exact hbuild (by decide)

end Disk

end SolidityBuild
