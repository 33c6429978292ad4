import SolidityBuild.Proofs.Resolution.Shape

/-! # Confinement: a package import stays in the directories of packages

    An import from a package is looked for in the sources of the package and below the
    directory of all packages. Without `..` in the import neither place can be left by
    climbing. There is one other way out: what follows the first slash may start with a slash
    again, and then it is not seen from the sources but stands alone.
-/

namespace SolidityBuild

/-- A declared directory that does not escape is relative and does not climb. -/
theorem Manifest.escapes_eq_false_iff {directory : String} :
    Manifest.escapes directory = false ↔
      (Path.mk directory).isAbsolute = false ∧ .up ∉ (Path.mk directory).parts := by
  simp [Manifest.escapes]

namespace Resolution

variable {reader : SourceReader} {project : Project} {importer packages sources place path : Path}
  {specifier name rest : String}

/-! ## Staying and leaving -/

/-- Where an import from a package may lead: below the directory of all packages, or into the
    sources of the known package that it names. -/
inductive InPackages (project : Project) (specifier : String) (path : Path) : Prop where
  | below (packages : Path) (hpackages : project.packagesPath? = some packages)
      (hbelow : packages.contains path = true)
  | sources (name rest : String) (p : Package)
      (hparts : packageParts? specifier = some (name, rest))
      (hknown : project.package? name = some p)
      (hsources : (p.sourcesPath project.contractsDir).contains path = true)

/-- A path that comes up when an import is looked for in packages: it is the answer, or it is
    listed when there is none. -/
inductive LookedFor (reader : SourceReader) (project : Project) (importer : Path)
    (specifier : String) (path : Path) : Prop where
  /-- The import leads to the path, by the rule for packages. -/
  | found (h : resolve reader project importer specifier = .ok { path, kind := .package })
  /-- No candidate is a file, and the path is one of those that were tried. -/
  | missed (named : String) (tried : List Path)
      (h : resolve reader project importer specifier = .error (.packageNotFound named tried))
      (htried : path ∈ tried)

/-- What follows the first slash of an import stands alone, although it is meant to be seen
    from the sources of a package. -/
inductive Detached (project : Project) (packages : Path) (specifier rest : String) : Prop where
  | intro (name : String) (sources : Path)
      (hparts : packageParts? specifier = some (name, rest))
      (hsources : packageSources? project packages name = some sources)
      (habsolute : (Path.mk rest).isAbsolute = true)

/-- The import leaves the packages by a rest that stands alone: the rest leads somewhere else,
    and it is a file, or nothing below the directory of all packages is one. -/
structure Escapes (reader : SourceReader) (project : Project) (importer packages : Path)
    (specifier rest : String) : Prop where
  /-- None of the rules before takes the import. -/
  left : LeftToPackages project importer specifier
  /-- There is a directory of all packages. -/
  configured : project.packagesPath? = some packages
  detached : Detached project packages specifier rest
  outside : ¬ InPackages project specifier (Path.normalize ⟨rest⟩)
  /-- The rest comes first, so it is the answer if it is a file, and it is listed if the other
      candidate is none either. -/
  reached : reader.isFile (Path.normalize ⟨rest⟩) = true ∨
    reader.isFile (packages.join ⟨specifier⟩).normalize = false

theorem inPackages_normalize (h : InPackages project specifier path) :
    InPackages project specifier path.normalize := by
  cases h with
  | below packages hpackages hbelow =>
    refine .below packages hpackages ?_
    rw [Path.contains_normalize]
    exact hbelow
  | sources name rest p hparts hknown hsources =>
    refine .sources name rest p hparts hknown ?_
    rw [Path.contains_normalize]
    exact hsources

/-! ## The two places of a package import -/

/-- An import that does not climb has neither a name nor a rest that does. -/
theorem up_not_mem_of_packageParts (hup : .up ∉ (Path.mk specifier).parts)
    (h : packageParts? specifier = some (name, rest)) :
    .up ∉ (Path.mk name).parts ∧ .up ∉ (Path.mk rest).parts := by
  obtain ⟨hname, htext, -⟩ := packageParts?_eq_some_iff.1 h
  have hsegments : (Path.mk specifier).segments = name.toList :: (Path.mk rest).segments := by
    unfold Path.segments
    rw [htext]
    exact Text.pieces_append_sep hname _
  rw [Path.up_mem_parts_iff, hsegments, List.mem_cons, not_or] at hup
  rw [Path.up_mem_parts_iff, Path.up_mem_parts_iff, Path.segments, Text.pieces_of_not_mem hname,
    List.mem_singleton]
  exact hup

/-- The sources of a package lie in the packages, and so does what they contain. -/
theorem inPackages_of_sources (hroot : project.root.isAbsolute)
    (hcontracts : ∀ directory, project.contractsDir = some directory →
      Manifest.escapes directory = false)
    (hup : .up ∉ (Path.mk specifier).parts) (hpackages : project.packagesPath? = some packages)
    (hparts : packageParts? specifier = some (name, rest))
    (hsources : packageSources? project packages name = some sources)
    (hpath : sources.contains path = true) : InPackages project specifier path := by
  unfold packageSources? at hsources
  cases hknown : project.package? name with
  | some p =>
    rw [hknown] at hsources
    obtain rfl := Option.some.inj hsources
    exact .sources name rest p hparts hknown hpath
  | none =>
    -- The sources of an unknown package are two steps below the directory of all packages.
    rw [hknown] at hsources
    obtain ⟨directory, hdirectory, hjoin⟩ := Option.map_eq_some_iff.1 hsources
    obtain ⟨hrelative, hinside⟩ := Manifest.escapes_eq_false_iff.1 (hcontracts directory hdirectory)
    have habsolute := isAbsolute_packagesPath hroot hpackages
    have hname : packages.contains (packages.joinText name) = true :=
      Path.contains_join habsolute
        (Path.isAbsolute_of_not_mem (packageParts?_eq_some_iff.1 hparts).1)
        (up_not_mem_of_packageParts hup hparts).1
    have hbelow : (packages.joinText name).contains sources = true := by
      rw [← hjoin]
      exact Path.contains_join (Path.isAbsolute_join habsolute _) hrelative hinside
    exact .below packages hpackages (Path.contains_trans (Path.contains_trans hname hbelow) hpath)

/-- A place for a package import lies in the packages, unless it is a rest that stands
    alone. -/
theorem inPackages_or_detached (hroot : project.root.isAbsolute)
    (hpaths : ∀ p ∈ project.packages, p.path.isAbsolute)
    (hcontracts : ∀ directory, project.contractsDir = some directory →
      Manifest.escapes directory = false)
    (hup : .up ∉ (Path.mk specifier).parts) (hrelative : (Path.mk specifier).isAbsolute = false)
    (hpackages : project.packagesPath? = some packages)
    (hplace : place ∈ packagePlaces project specifier) :
    InPackages project specifier place ∨
      ∃ rest, Detached project packages specifier rest ∧ place = ⟨rest⟩ := by
  have habsolute := isAbsolute_packagesPath hroot hpackages
  obtain ⟨packages', hpackages', hsources | hdirect⟩ := mem_packagePlaces_iff.1 hplace
  · obtain rfl := Option.some.inj (hpackages.symm.trans hpackages')
    obtain ⟨name, rest, sources, hparts, hsources, hjoin⟩ := inSources?_eq_some_iff.1 hsources
    -- An absolute rest takes the place of the sources that it is joined to.
    by_cases hrest : (Path.mk rest).isAbsolute = true
    · right
      refine ⟨rest, .intro name sources hparts hsources hrest, ?_⟩
      rw [hjoin, Path.join, if_pos hrest]
    · left
      apply inPackages_of_sources hroot hcontracts hup hpackages hparts hsources
      rw [hjoin]
      exact Path.contains_join (isAbsolute_packageSources hpaths habsolute hsources)
        (Bool.eq_false_iff.2 hrest) (up_not_mem_of_packageParts hup hparts).2
  · obtain rfl := Option.some.inj (hpackages.symm.trans hpackages')
    left
    refine .below packages hpackages ?_
    rw [hdirect]
    exact Path.contains_join habsolute hrelative hup

/-! ## What comes up -/

/-- What comes up is a place of a package import, in its normal form. Either it is a file, or
    no place is. -/
theorem LookedFor.exists_place (h : LookedFor reader project importer specifier path) :
    LeftToPackages project importer specifier ∧
      (∃ place ∈ packagePlaces project specifier, path = place.normalize) ∧
      (reader.isFile path = true ∨
        ∀ place ∈ packagePlaces project specifier, reader.isFile place.normalize = false) := by
  cases h with
  | found h =>
    obtain ⟨places, place, hrule, hplace, hpath, hfirst⟩ := Resolution.exists_place h
    obtain rfl := hrule.places_eq
    obtain ⟨before, after, -, hfile, -⟩ := firstPath?_package_eq_some_iff.1 hfirst
    cases hrule with
    | package hleft => exact ⟨hleft, ⟨place, hplace, hpath⟩, .inl hfile⟩
  | missed named tried h htried =>
    obtain ⟨hrule, -, hfiles, hlist⟩ := rule_of_packageNotFound h
    rw [hlist, List.mem_eraseDups] at htried
    obtain ⟨place, hplace, hpath⟩ := List.mem_map.1 htried
    cases hrule with
    | package hleft =>
      refine ⟨hleft, ⟨place, hplace, hpath.symm⟩, .inr fun other hother => ?_⟩
      exact hfiles _ (List.mem_map_of_mem hother)

/-- Below the directory of all packages an import climbs only if it is written with `..`. -/
theorem up_not_mem_parts_direct (hroot : project.root.isAbsolute)
    (hup : .up ∉ (Path.mk specifier).parts) (hrelative : (Path.mk specifier).isAbsolute = false)
    (hpackages : project.packagesPath? = some packages) :
    .up ∉ (packages.join ⟨specifier⟩).parts := by
  have hclean : .up ∉ packages.parts := by
    obtain ⟨directory, -, hinRoot⟩ := Option.map_eq_some_iff.1 hpackages
    rw [← hinRoot]
    exact (clean_normalize (Path.isAbsolute_join hroot _)).noUp
  rw [Path.parts_join (isAbsolute_packagesPath hroot hpackages) hrelative, List.mem_append, not_or]
  exact ⟨hclean, fun hmem => hup (List.mem_append_right _ hmem)⟩

/-- An import has one rest only. -/
theorem Escapes.rest_eq {packages' : Path} {rest' : String}
    (h : Escapes reader project importer packages specifier rest)
    (h' : Escapes reader project importer packages' specifier rest') : rest' = rest := by
  obtain ⟨name, sources, hparts, -, -⟩ := h.detached
  obtain ⟨name', sources', hparts', -, -⟩ := h'.detached
  rw [hparts] at hparts'
  cases hparts'
  rfl

/-- A rest that leaves the packages comes up. -/
theorem Escapes.lookedFor (hroot : project.root.isAbsolute)
    (hpaths : ∀ p ∈ project.packages, p.path.isAbsolute)
    (hup : .up ∉ (Path.mk specifier).parts)
    (h : Escapes reader project importer packages specifier rest) :
    LookedFor reader project importer specifier (Path.normalize ⟨rest⟩) := by
  obtain ⟨name, sources, hparts, hsources, habsolute⟩ := h.detached
  have hplaces : packagePlaces project specifier = [⟨rest⟩, packages.join ⟨specifier⟩] := by
    have hjoin : sources.join ⟨rest⟩ = ⟨rest⟩ := if_pos habsolute
    have hinSources : inSources? project packages specifier = some ⟨rest⟩ :=
      inSources?_eq_some_iff.2 ⟨name, rest, sources, hparts, hsources, hjoin.symm⟩
    simp [packagePlaces, h.configured, hinSources]
  -- Neither place climbs, so the import is not refused.
  have hrefuses : refuses .package (packagePlaces project specifier) = false := by
    rw [← Bool.not_eq_true, refuses_iff fun place hplace =>
      isAbsolute_of_mem_packagePlaces hroot hpaths hplace, hplaces]
    intro ⟨_, place, hplace, hclimbs⟩
    refine Path.not_overclimbs ?_ hclimbs
    simp only [List.mem_cons, List.not_mem_nil, or_false] at hplace
    rcases hplace with rfl | rfl
    · exact (up_not_mem_of_packageParts hup hparts).2
    · exact up_not_mem_parts_direct hroot hup h.left.notAbsolute h.configured
  by_cases hfile : reader.isFile (Path.normalize ⟨rest⟩) = true
  · apply LookedFor.found
    rw [resolve_eq (.package h.left)]
    refine answer_eq_ok_iff.2 ⟨hrefuses, rfl, ?_⟩
    simp [hplaces, firstPath?, hfile]
  · have hdirect := h.reached.resolve_left hfile
    refine .missed specifier (candidatePaths project specifier).eraseDups ?_ ?_
    · rw [resolve_eq (.package h.left)]
      refine answer_eq_packageNotFound_iff.2 ⟨hrefuses, rfl, rfl, ?_, rfl⟩
      simp [hplaces, firstPath?, hfile, hdirect]
    · simp [candidatePaths, hplaces, List.mem_eraseDups]

/-- What comes up outside of the packages is the rest that escapes, and nothing but that. -/
theorem lookedFor_outside_iff (hroot : project.root.isAbsolute)
    (hpaths : ∀ p ∈ project.packages, p.path.isAbsolute)
    (hcontracts : ∀ directory, project.contractsDir = some directory →
      Manifest.escapes directory = false)
    (hup : .up ∉ (Path.mk specifier).parts) :
    LookedFor reader project importer specifier path ∧ ¬ InPackages project specifier path ↔
      ∃ packages rest, Escapes reader project importer packages specifier rest ∧
        path = Path.normalize ⟨rest⟩ := by
  constructor
  · intro ⟨hlooked, hnot⟩
    obtain ⟨hleft, ⟨place, hplace, hpath⟩, hfiles⟩ := hlooked.exists_place
    obtain ⟨packages, hpackages, -⟩ := mem_packagePlaces_iff.1 hplace
    rcases inPackages_or_detached hroot hpaths hcontracts hup hleft.notAbsolute hpackages hplace
      with hin | ⟨rest, hdetached, hrest⟩
    · rw [hpath] at hnot
      exact absurd (inPackages_normalize hin) hnot
    · rw [hrest] at hpath
      rw [hpath] at hnot hfiles
      refine ⟨packages, rest, ⟨hleft, hpackages, hdetached, hnot, ?_⟩, hpath⟩
      refine hfiles.imp_right fun hnone => hnone _ ?_
      exact mem_packagePlaces_iff.2 ⟨packages, hpackages, .inr rfl⟩
  · intro ⟨packages, rest, hescapes, hpath⟩
    rw [hpath]
    exact ⟨hescapes.lookedFor hroot hpaths hup, hescapes.outside⟩

/-- **Confinement**: an import without `..` comes up only with paths in the packages, unless it
    escapes. Then the rest of it, read as an absolute path, is the one that lies elsewhere. -/
theorem confined_iff (hroot : project.root.isAbsolute)
    (hpaths : ∀ p ∈ project.packages, p.path.isAbsolute)
    (hcontracts : ∀ directory, project.contractsDir = some directory →
      Manifest.escapes directory = false)
    (hup : .up ∉ (Path.mk specifier).parts) :
    ((∀ path, LookedFor reader project importer specifier path →
        InPackages project specifier path) ↔
      ∀ packages rest, ¬ Escapes reader project importer packages specifier rest) ∧
    ∀ packages rest, Escapes reader project importer packages specifier rest →
      ∀ path, LookedFor reader project importer specifier path →
        InPackages project specifier path ∨ path = Path.normalize ⟨rest⟩ := by
  refine ⟨⟨?_, ?_⟩, ?_⟩
  · intro hconfined packages rest hescapes
    exact hescapes.outside (hconfined _ (hescapes.lookedFor hroot hpaths hup))
  · intro hnone path hlooked
    by_cases hin : InPackages project specifier path
    · exact hin
    · obtain ⟨packages, rest, hescapes, -⟩ :=
        (lookedFor_outside_iff hroot hpaths hcontracts hup).1 ⟨hlooked, hin⟩
      exact absurd hescapes (hnone packages rest)
  · intro packages rest hescapes path hlooked
    by_cases hin : InPackages project specifier path
    · exact .inl hin
    · obtain ⟨packages', rest', hescapes', hpath⟩ :=
        (lookedFor_outside_iff hroot hpaths hcontracts hup).1 ⟨hlooked, hin⟩
      right
      rw [hpath, hescapes.rest_eq hescapes']

/-! ## An import that stays, and one that leaves -/

theorem ozProject_contracts (directory : String) (h : ozProject.contractsDir = some directory) :
    Manifest.escapes directory = false := by
  obtain rfl := Option.some.inj h
  decide +kernel

/-- What is seen from the sources of the package stays in them. -/
theorem confined_in_sources :
    LookedFor (readerOf "/proj/lib/oz/src/X.sol") ozProject ⟨"/proj/A.sol"⟩ "oz/X.sol"
      ⟨"/proj/lib/oz/src/X.sol"⟩ ∧
    InPackages ozProject "oz/X.sol" ⟨"/proj/lib/oz/src/X.sol"⟩ := by
  have hleft : LeftToPackages ozProject ⟨"/proj/A.sol"⟩ "oz/X.sol" := by
    constructor <;> decide +kernel
  have hfound : LookedFor (readerOf "/proj/lib/oz/src/X.sol") ozProject ⟨"/proj/A.sol"⟩ "oz/X.sol"
      ⟨"/proj/lib/oz/src/X.sol"⟩ := by
    apply LookedFor.found
    rw [resolve_eq (.package hleft)]
    exact answer_eq_ok_iff.2 ⟨by decide +kernel, rfl, by decide +kernel⟩
  have hnone : ∀ packages rest, ¬ Escapes (readerOf "/proj/lib/oz/src/X.sol") ozProject
      ⟨"/proj/A.sol"⟩ packages "oz/X.sol" rest := by
    intro packages rest hescapes
    obtain ⟨name, sources, hparts, -, habsolute⟩ := hescapes.detached
    have hrest : packageParts? "oz/X.sol" = some ("oz", "X.sol") := by
      decide +kernel
    rw [hrest] at hparts
    cases hparts
    exact absurd habsolute (by decide +kernel)
  refine ⟨hfound, (confined_iff ?_ ?_ ozProject_contracts ?_).1.2 hnone _ hfound⟩
  · decide +kernel
  · decide +kernel
  · decide +kernel

/-- After two slashes the rest is an absolute path, and a file that lies there is the answer. -/
theorem escapes_after_two_slashes :
    .up ∉ (Path.mk "oz//etc/X.sol").parts ∧
    LookedFor (readerOf "/etc/X.sol") ozProject ⟨"/proj/A.sol"⟩ "oz//etc/X.sol"
      ⟨"/etc/X.sol"⟩ ∧
    ¬ InPackages ozProject "oz//etc/X.sol" ⟨"/etc/X.sol"⟩ := by
  have hleft : LeftToPackages ozProject ⟨"/proj/A.sol"⟩ "oz//etc/X.sol" := by
    constructor <;> decide +kernel
  refine ⟨by decide +kernel, ?_, ?_⟩
  · apply LookedFor.found
    rw [resolve_eq (.package hleft)]
    exact answer_eq_ok_iff.2 ⟨by decide +kernel, rfl, by decide +kernel⟩
  · intro hin
    cases hin with
    | below packages hpackages hbelow =>
      obtain rfl := Option.some.inj hpackages
      revert hbelow
      decide +kernel
    | sources name rest p hparts hknown hsources =>
      have hrest : packageParts? "oz//etc/X.sol" = some ("oz", "/etc/X.sol") := by
        decide +kernel
      rw [hrest] at hparts
      cases hparts
      obtain rfl := Option.some.inj hknown
      revert hsources
      decide +kernel

end Resolution

end SolidityBuild
