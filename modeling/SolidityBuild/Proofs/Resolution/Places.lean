import SolidityBuild.Proofs.Path.Climbing
import SolidityBuild.Proofs.Resolution.Rules

/-! # Places: what a rule puts together for an import, and what it makes of it

    Each of the four rules puts together some places: paths that are not normal yet. The rule
    for absolute imports takes its one place as it is. The others refuse the import if one of
    their places leads above the root. The answer is the normal form of the first place, and
    in packages that of the first one that is a file.
-/

namespace SolidityBuild.Resolution

/-! ## The places of a rule -/

/-- The place in the sources of the package that an import names. -/
def inSources? (project : Project) (packages : Path) (specifier : String) : Option Path := do
  let (name, rest) ← packageParts? specifier
  let sources ← packageSources? project packages name
  pure (sources.join ⟨rest⟩)

/-- The places for an import from a package: in its sources, and then below the directory of
    all packages. -/
def packagePlaces (project : Project) (specifier : String) : List Path :=
  match project.packagesPath? with
  | some packages => (inSources? project packages specifier).toList ++ [packages.join ⟨specifier⟩]
  | none => []

/-- The rule that an import falls under, with the places that it puts together. -/
inductive Rule (project : Project) (importer : Path) (specifier : String) :
    ResolutionKind → List Path → Prop where
  /-- What replaces the stem is seen from the root of the project. -/
  | remapped (r : Remapping) (hblank : Text.isBlankText specifier = false)
      (hremapping : remapping? project importer specifier = some r) :
      Rule project importer specifier .remapped [project.root.join (replaced r specifier)]
  /-- The import is seen from the directory of the importing file, if that has one. -/
  | relative (hblank : Text.isBlankText specifier = false)
      (hremapping : remapping? project importer specifier = none)
      (hrelative : isRelative specifier = true) :
      Rule project importer specifier .relative
        (importer.parent?.toList.map fun directory => directory.join ⟨specifier⟩)
  /-- The import is the place itself. -/
  | absolute (hblank : Text.isBlankText specifier = false)
      (hremapping : remapping? project importer specifier = none)
      (hrelative : isRelative specifier = false) (habsolute : Path.isAbsolute ⟨specifier⟩ = true) :
      Rule project importer specifier .absolute [⟨specifier⟩]
  /-- The import is seen from the sources of a package and from the directory of all. -/
  | package (hleft : LeftToPackages project importer specifier) :
      Rule project importer specifier .package (packagePlaces project specifier)

/-- The first of some paths that a rule is content with; only a package has to hold it. -/
def firstPath? (reader : SourceReader) (kind : ResolutionKind) (paths : List Path) :
    Option Path :=
  paths.find? fun path => kind ≠ .package || reader.isFile path

/-- Whether a rule refuses the places that it has put together. -/
def refuses (kind : ResolutionKind) (places : List Path) : Bool :=
  kind ≠ .absolute && places.any Path.refused

/-- What a rule answers that has put together some places. -/
def answer (reader : SourceReader) (importer : Path) (specifier : String)
    (kind : ResolutionKind) (places : List Path) : Except ResolutionError Resolution :=
  if refuses kind places then .error (.invalid specifier)
  else match firstPath? reader kind (places.map Path.normalize) with
    | some path => .ok { path, kind }
    | none =>
      if kind = .package then
        .error (.packageNotFound specifier (places.map Path.normalize).eraseDups)
      else .error (.noParent specifier importer)

variable {reader : SourceReader} {project : Project} {importer packages place : Path}
  {specifier : String} {kind : ResolutionKind} {places : List Path}

/-! ## Candidates -/

/-- What is made of a place alone. -/
def settled (specifier : String) (place : Path) : Except ResolutionError Path :=
  if place.refused = true then .error (.invalid specifier) else .ok place.normalize

theorem within_eq (base child : Path) (specifier : String) :
    within base child specifier = settled specifier (base.join child) := by
  unfold within settled
  rw [Path.joinWithin?_eq]
  by_cases hrefused : (base.join child).refused = true
  · simp only [hrefused, if_true]
  · simp only [hrefused, if_false, Bool.false_eq_true]

theorem same_normalize (p q : Path) :
    p.normalize.same q.normalize = (p.normalize == q.normalize) := by
  rw [Bool.eq_iff_iff, beq_iff_eq, Path.same, decide_eq_true_iff]
  constructor
  · intro hparts
    rw [← Path.ofParts_parts (Path.normalize_normalize p), hparts,
      Path.ofParts_parts (Path.normalize_normalize q)]
  · intro heq
    rw [heq]

theorem eraseDups_pair (p q : Path) : [p, q].eraseDups = if q = p then [p] else [p, q] := by
  by_cases heq : q = p
  · simp [List.eraseDups_cons, heq]
  · simp [List.eraseDups_cons, heq]

/-- The candidates are the normal forms of the places, each of them once. -/
theorem candidates_eq (project : Project) (packages : Path) (specifier : String) :
    candidates project packages specifier =
      if ((inSources? project packages specifier).toList ++
          [packages.join ⟨specifier⟩]).any Path.refused = true
      then .error (.invalid specifier)
      else .ok (((inSources? project packages specifier).toList ++
        [packages.join ⟨specifier⟩]).map Path.normalize).eraseDups := by
  have hsources : (do
        let (name, rest) ← packageParts? specifier
        let sources ← packageSources? project packages name
        pure (within sources ⟨rest⟩ specifier)) =
      (inSources? project packages specifier).map (settled specifier) := by
    unfold inSources?
    cases packageParts? specifier with
    | none => rfl
    | some named =>
      obtain ⟨name, rest⟩ := named
      cases hsources : packageSources? project packages name with
      | none => simp [hsources]
      | some sources => simp [hsources, within_eq]
  unfold candidates
  rw [hsources]
  simp only [within_eq]
  cases inSources? project packages specifier with
  | none =>
    by_cases hdirect : (packages.join ⟨specifier⟩).refused = true
    · simp [settled, hdirect, bind, Except.bind]
    · simp [settled, hdirect, bind, Except.bind, pure, Except.pure, List.eraseDups_cons]
  | some place =>
    by_cases hplace : place.refused = true
    · simp [settled, hplace, bind, Except.bind, Except.map]
    · by_cases hdirect : (packages.join ⟨specifier⟩).refused = true
      · simp [settled, hplace, hdirect, bind, Except.bind, Except.map]
      · simp [settled, hplace, hdirect, bind, Except.bind, Except.map, pure, Except.pure,
          same_normalize, eraseDups_pair]

theorem find?_eraseDups (p : Path → Bool) (first : Option Path) (second : Path) :
    (first.toList ++ [second]).eraseDups.find? p = (first.toList ++ [second]).find? p := by
  cases first with
  | none => rfl
  | some path =>
    rw [Option.toList_some, List.singleton_append, eraseDups_pair]
    by_cases heq : second = path
    · rw [if_pos heq, heq]
      by_cases hpath : p path = true
      · simp [hpath]
      · simp [hpath]
    · rw [if_neg heq]

theorem firstPath?_package (reader : SourceReader) (paths : List Path) :
    firstPath? reader .package paths = paths.find? reader.isFile := by
  simp [firstPath?]

/-! ## What every rule answers -/

/-- A rule with one place that need not be a file answers with it, unless it is refused. -/
theorem answer_singleton (h : kind = .remapped ∨ kind = .relative) :
    answer reader importer specifier kind [place] =
      (settled specifier place).map fun path => { path, kind } := by
  have habsolute : kind ≠ .absolute := by
    rcases h with rfl | rfl <;> decide
  have hpackage : kind ≠ .package := by
    rcases h with rfl | rfl <;> decide
  unfold answer refuses settled firstPath?
  by_cases hrefused : place.refused = true
  · simp [habsolute, hrefused, Except.map]
  · simp [hpackage, hrefused, Except.map]

theorem inPackages_eq (reader : SourceReader) (project : Project) (importer : Path)
    (specifier : String) :
    inPackages reader project specifier =
      answer reader importer specifier .package (packagePlaces project specifier) := by
  unfold inPackages packagePlaces
  cases hpackages : project.packagesPath? with
  | none => rfl
  | some packages =>
    simp only [candidates_eq]
    generalize hlist : (inSources? project packages specifier).toList ++
      [packages.join ⟨specifier⟩] = list
    by_cases hrefused : list.any Path.refused = true
    · simp [answer, refuses, hrefused, bind, Except.bind]
    · have hfind : (list.map Path.normalize).eraseDups.find? reader.isFile =
          firstPath? reader .package (list.map Path.normalize) := by
        have hmap : list.map Path.normalize =
            ((inSources? project packages specifier).map Path.normalize).toList ++
              [(packages.join ⟨specifier⟩).normalize] := by
          rw [← hlist, List.map_append, Option.toList_map, List.map_singleton]
        rw [hmap, find?_eraseDups, firstPath?_package]
      simp only [hrefused, if_false, Bool.false_eq_true, bind, Except.bind, hfind, answer,
        refuses, Bool.and_false]
      cases firstPath? reader .package (list.map Path.normalize) with
      | none => rfl
      | some path => rfl

/-- **Resolution**: an import leads to what the rule that it falls under makes of its
    places. -/
theorem resolve_eq (h : Rule project importer specifier kind places) :
    resolve reader project importer specifier =
      answer reader importer specifier kind places := by
  cases h with
  | remapped r hblank hremapping =>
    rw [resolve_of_remapping? hblank hremapping, answer_singleton (.inl rfl), ← within_eq]
  | relative hblank hremapping hrelative =>
    rw [resolve, if_neg (by simp [hblank]), hremapping]
    simp only [hrelative, if_true]
    cases importer.parent? with
    | none => rfl
    | some directory =>
      rw [Option.toList_some, List.map_singleton, answer_singleton (.inr rfl), ← within_eq]
  | absolute hblank hremapping hrelative habsolute =>
    rw [resolve, if_neg (by simp [hblank]), hremapping]
    simp [hrelative, habsolute, answer, refuses, firstPath?]
  | package hleft => rw [hleft.resolve_eq, inPackages_eq reader project importer]

/-- Only a blank import falls under no rule. -/
theorem exists_rule (hblank : Text.isBlankText specifier = false) :
    ∃ kind places, Rule project importer specifier kind places := by
  cases hremapping : remapping? project importer specifier with
  | some r => exact ⟨_, _, .remapped r hblank hremapping⟩
  | none =>
    cases hrelative : isRelative specifier with
    | true => exact ⟨_, _, .relative hblank hremapping hrelative⟩
    | false =>
      cases habsolute : Path.isAbsolute ⟨specifier⟩ with
      | true => exact ⟨_, _, .absolute hblank hremapping hrelative habsolute⟩
      | false => exact ⟨_, _, .package ⟨hblank, hremapping, hrelative, habsolute⟩⟩

theorem Rule.places_eq (h : Rule project importer specifier .package places) :
    places = packagePlaces project specifier := by
  cases h
  rfl

theorem resolve_of_blank (hblank : Text.isBlankText specifier = true) :
    resolve reader project importer specifier = .error (.invalid specifier) := by
  unfold resolve
  rw [if_pos hblank]

/-- What an import leads to comes from a rule, or the import is blank. -/
theorem resolve_cases (reader : SourceReader) (project : Project) (importer : Path)
    (specifier : String) :
    Text.isBlankText specifier = true ∧
        resolve reader project importer specifier = .error (.invalid specifier) ∨
      ∃ kind places, Rule project importer specifier kind places ∧
        resolve reader project importer specifier =
          answer reader importer specifier kind places := by
  by_cases hblank : Text.isBlankText specifier = true
  · exact .inl ⟨hblank, resolve_of_blank hblank⟩
  · obtain ⟨kind, places, hrule⟩ := exists_rule (Bool.eq_false_iff.2 hblank)
    exact .inr ⟨kind, places, hrule, resolve_eq hrule⟩

/-- A failure names the import that leads nowhere. -/
theorem specifier_of_resolve_eq_error {e : ResolutionError}
    (h : resolve reader project importer specifier = .error e) : e.specifier = specifier := by
  rcases resolve_cases reader project importer specifier with ⟨-, hinvalid⟩ |
    ⟨kind, places, -, hanswer⟩
  · rw [h] at hinvalid
    cases hinvalid
    rfl
  · rw [h] at hanswer
    unfold answer at hanswer
    split at hanswer
    · cases hanswer
      rfl
    · split at hanswer
      · cases hanswer
      · split at hanswer
        · cases hanswer
          rfl
        · cases hanswer
          rfl

/-! ## Places start at the root -/

theorem isAbsolute_sourcesPath {p : Package} (hpath : p.path.isAbsolute)
    (directory : Option String) : (p.sourcesPath directory).isAbsolute := by
  unfold Package.sourcesPath
  split
  · exact Path.isAbsolute_join hpath _
  · exact hpath

theorem isAbsolute_packagesPath (hroot : project.root.isAbsolute)
    (h : project.packagesPath? = some packages) : packages.isAbsolute := by
  obtain ⟨directory, -, hinRoot⟩ := Option.map_eq_some_iff.1 h
  rw [← hinRoot, Project.inRoot, Path.joinText]
  exact Path.isAbsolute_normalize (Path.isAbsolute_join hroot _)

theorem isAbsolute_packageSources {sources : Path} {name : String}
    (hpaths : ∀ p ∈ project.packages, p.path.isAbsolute) (hpackages : packages.isAbsolute)
    (h : packageSources? project packages name = some sources) : sources.isAbsolute := by
  unfold packageSources? at h
  cases hpackage : project.package? name with
  | some p =>
    rw [hpackage] at h
    obtain rfl := Option.some.inj h
    exact isAbsolute_sourcesPath (hpaths p (List.mem_of_find?_eq_some hpackage)) _
  | none =>
    rw [hpackage] at h
    obtain ⟨directory, -, hsources⟩ := Option.map_eq_some_iff.1 h
    rw [← hsources]
    exact Path.isAbsolute_join (Path.isAbsolute_join hpackages _) _

/-- An import is taken apart at its first slash, unless it ends there. -/
theorem packageParts?_eq_some_iff {name rest : String} :
    packageParts? specifier = some (name, rest) ↔
      '/' ∉ name.toList ∧ specifier.toList = name.toList ++ '/' :: rest.toList ∧ rest ≠ "" := by
  rw [← and_assoc, ← Text.splitFirst_eq_some_iff]
  unfold packageParts?
  cases hsplit : Text.splitFirst '/' specifier.toList with
  | none => simp
  | some parts =>
    obtain ⟨before, after⟩ := parts
    have hparts : some (before, after) = some (name.toList, rest.toList) ↔
        (String.ofList before, String.ofList after) = (name, rest) := by
      rw [Option.some.injEq, Prod.mk.injEq, Prod.mk.injEq, ← String.toList_inj,
        ← String.toList_inj, String.toList_ofList, String.toList_ofList]
    by_cases hempty : after = []
    · simp only [hempty, List.isEmpty_nil, if_true, reduceCtorEq, Option.some.injEq,
        Prod.mk.injEq, false_iff]
      intro ⟨⟨_, hrest⟩, hne⟩
      exact hne (String.toList_eq_nil_iff.1 hrest.symm)
    · simp only [hparts, List.isEmpty_iff, hempty, if_false, Option.some.injEq]
      refine (and_iff_left_of_imp ?_).symm
      intro heq hrest
      rw [Prod.mk.injEq, hrest] at heq
      exact hempty (String.ofList_eq_empty_iff.1 heq.2)

/-- Where the place in the sources comes from. -/
theorem inSources?_eq_some_iff :
    inSources? project packages specifier = some place ↔
      ∃ name rest sources, packageParts? specifier = some (name, rest) ∧
        packageSources? project packages name = some sources ∧ place = sources.join ⟨rest⟩ := by
  unfold inSources?
  rw [Option.bind_eq_bind, Option.bind_eq_some_iff]
  constructor
  · intro ⟨⟨name, rest⟩, hparts, h⟩
    obtain ⟨sources, hsources, hplace⟩ := Option.bind_eq_some_iff.1 h
    exact ⟨name, rest, sources, hparts, hsources, (Option.some.inj hplace).symm⟩
  · intro ⟨name, rest, sources, hparts, hsources, hplace⟩
    refine ⟨(name, rest), hparts, Option.bind_eq_some_iff.2 ⟨sources, hsources, ?_⟩⟩
    rw [hplace]
    rfl

/-- A place for a package import lies in the sources or below the directory of all
    packages. -/
theorem mem_packagePlaces_iff :
    place ∈ packagePlaces project specifier ↔
      ∃ packages, project.packagesPath? = some packages ∧
        (inSources? project packages specifier = some place ∨
          place = packages.join ⟨specifier⟩) := by
  unfold packagePlaces
  cases project.packagesPath? with
  | none => simp
  | some packages => simp

theorem isAbsolute_of_mem_packagePlaces (hroot : project.root.isAbsolute)
    (hpaths : ∀ p ∈ project.packages, p.path.isAbsolute)
    (h : place ∈ packagePlaces project specifier) : place.isAbsolute := by
  obtain ⟨packages, hpackages, hplace⟩ := mem_packagePlaces_iff.1 h
  have habsolute := isAbsolute_packagesPath hroot hpackages
  rcases hplace with hsources | hdirect
  · obtain ⟨name, rest, sources, -, hsources, hjoin⟩ := inSources?_eq_some_iff.1 hsources
    rw [hjoin]
    exact Path.isAbsolute_join (isAbsolute_packageSources hpaths habsolute hsources) _
  · rw [hdirect]
    exact Path.isAbsolute_join habsolute _

/-- From absolute files and directories every rule puts together absolute places. -/
theorem Rule.isAbsolute (hroot : project.root.isAbsolute)
    (hpaths : ∀ p ∈ project.packages, p.path.isAbsolute) (himporter : importer.isAbsolute)
    (h : Rule project importer specifier kind places) (hplace : place ∈ places) :
    place.isAbsolute := by
  cases h with
  | remapped r =>
    rw [List.mem_singleton.1 hplace]
    exact Path.isAbsolute_join hroot _
  | relative =>
    obtain ⟨directory, hparent, hjoin⟩ := List.mem_map.1 hplace
    rw [← hjoin]
    exact Path.isAbsolute_join
      (Path.isAbsolute_parent himporter (Option.mem_toList.1 hparent)) _
  | absolute _ _ _ habsolute =>
    rw [List.mem_singleton.1 hplace]
    exact habsolute
  | package => exact isAbsolute_of_mem_packagePlaces hroot hpaths hplace

/-- A rule refuses absolute places exactly if one of them leads above the root, and the rule is
    not the one for absolute imports. -/
theorem refuses_iff (h : ∀ place ∈ places, place.isAbsolute) :
    refuses kind places = true ↔
      kind ≠ .absolute ∧ ∃ place ∈ places, Path.Overclimbs place.parts := by
  unfold refuses
  rw [Bool.and_eq_true, decide_eq_true_iff, List.any_eq_true]
  refine and_congr_right fun _ => exists_congr fun place => and_congr_right fun hplace => ?_
  exact Path.refused_iff (h place hplace)

/-! ## Reading an answer -/

theorem answer_eq_ok_iff {resolution : Resolution} :
    answer reader importer specifier kind places = .ok resolution ↔
      refuses kind places = false ∧ resolution.kind = kind ∧
        firstPath? reader kind (places.map Path.normalize) = some resolution.path := by
  unfold answer
  by_cases hrefuses : refuses kind places = true
  · simp [hrefuses]
  · cases hfirst : firstPath? reader kind (places.map Path.normalize) with
    | some path =>
      cases resolution
      simp [hrefuses, eq_comm, and_comm]
    | none =>
      by_cases hpackage : kind = .package
      · subst hpackage
        simp [hrefuses]
      · simp [hrefuses, hpackage]

theorem answer_eq_invalid_iff {named : String} :
    answer reader importer specifier kind places = .error (.invalid named) ↔
      refuses kind places = true ∧ named = specifier := by
  unfold answer
  by_cases hrefuses : refuses kind places = true
  · simp [hrefuses, eq_comm]
  · cases hfirst : firstPath? reader kind (places.map Path.normalize) with
    | some path => simp [hrefuses]
    | none =>
      by_cases hpackage : kind = .package
      · subst hpackage
        simp [hrefuses]
      · simp [hrefuses, hpackage]

theorem answer_eq_packageNotFound_iff {named : String} {tried : List Path} :
    answer reader importer specifier kind places = .error (.packageNotFound named tried) ↔
      refuses kind places = false ∧ kind = .package ∧ named = specifier ∧
        firstPath? reader kind (places.map Path.normalize) = none ∧
        tried = (places.map Path.normalize).eraseDups := by
  unfold answer
  by_cases hrefuses : refuses kind places = true
  · simp [hrefuses]
  · cases hfirst : firstPath? reader kind (places.map Path.normalize) with
    | some path => simp [hrefuses]
    | none =>
      by_cases hpackage : kind = .package
      · subst hpackage
        simp [hrefuses, @eq_comm _ named, @eq_comm _ tried]
      · simp [hrefuses, hpackage]

/-! ## A project with one package -/

/-- A package whose sources are in the contracts directory. -/
def oz : Package where
  name := "oz"
  path := ⟨"/proj/lib/oz"⟩

/-- A project with the package. -/
def ozProject : Project where
  root := ⟨"/proj"⟩
  packagesDir := some "lib"
  contractsDir := some "src"
  packages := [oz]

/-- A reader with one file. -/
def readerOf (path : String) : SourceReader :=
  (TextStore.ofList [(⟨path⟩, "contract X {}")]).reader

end SolidityBuild.Resolution
