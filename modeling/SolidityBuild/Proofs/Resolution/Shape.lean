import SolidityBuild.Proofs.Resolution.Places

/-! # Shape: what every answer of the resolver looks like

    Whatever the rule, an answer is an absolute path in its normal form, so that it can be a
    key without further checks. In packages it is the first candidate that is a file. Where
    none is, the failure lists the candidates, each once and in their order.
-/

namespace SolidityBuild.Resolution

variable {reader : SourceReader} {project : Project} {importer path : Path} {specifier : String}
  {kind : ResolutionKind} {places : List Path}

/-- The paths that an import from a package may lead to, the preferred one first. -/
def candidatePaths (project : Project) (specifier : String) : List Path :=
  (packagePlaces project specifier).map Path.normalize

/-- A path that can be a key as it is: it starts at the root, is spelled like its normal form,
    and has neither `.` nor `..` among its parts. -/
structure Clean (path : Path) : Prop where
  absolute : path.isAbsolute
  /-- Making it normal once more changes nothing. -/
  normal : path.normalize = path
  noHere : .here ∉ path.parts
  noUp : .up ∉ path.parts

/-- The path is the first of some paths that is a file. -/
def FirstFile (reader : SourceReader) (paths : List Path) (path : Path) : Prop :=
  ∃ before after, paths = before ++ path :: after ∧ reader.isFile path = true ∧
    ∀ other ∈ before, reader.isFile other = false

theorem clean_normalize (h : path.isAbsolute) : Clean path.normalize := by
  obtain ⟨names, hnormal, hnames⟩ := Path.normalize_of_isAbsolute h
  have hparts : path.normalize.parts = .root :: names.map .name := by
    rw [hnormal]
    exact Path.parts_ofNames hnames
  refine ⟨Path.isAbsolute_normalize h, Path.normalize_normalize path, ?_, ?_⟩
  · simp [hparts]
  · simp [hparts]

/-- In packages the first file counts. -/
theorem firstPath?_package_eq_some_iff {paths : List Path} :
    firstPath? reader .package paths = some path ↔ FirstFile reader paths path := by
  rw [firstPath?_package, List.find?_eq_some_iff_append]
  unfold FirstFile
  simp only [Bool.not_eq_true']
  constructor
  · rintro ⟨hfile, before, after, hpaths, hbefore⟩
    exact ⟨before, after, hpaths, hfile, hbefore⟩
  · rintro ⟨before, after, hpaths, hfile, hbefore⟩
    exact ⟨hfile, before, after, hpaths, hbefore⟩

theorem firstPath?_package_eq_none_iff {paths : List Path} :
    firstPath? reader .package paths = none ↔ ∀ other ∈ paths, reader.isFile other = false := by
  simp [firstPath?]

/-- An answer is the normal form of one of the places of its rule. -/
theorem exists_place {resolution : Resolution}
    (h : resolve reader project importer specifier = .ok resolution) :
    ∃ places place, Rule project importer specifier resolution.kind places ∧ place ∈ places ∧
      resolution.path = place.normalize ∧
      firstPath? reader resolution.kind (places.map Path.normalize) = some resolution.path := by
  rcases resolve_cases reader project importer specifier with ⟨-, hinvalid⟩ |
    ⟨kind, places, hrule, hanswer⟩
  · rw [h] at hinvalid
    cases hinvalid
  · rw [h] at hanswer
    obtain ⟨-, hkind, hfirst⟩ := answer_eq_ok_iff.1 hanswer.symm
    subst hkind
    obtain ⟨place, hplace, hpath⟩ := List.mem_map.1 (List.mem_of_find?_eq_some hfirst)
    exact ⟨places, place, hrule, hplace, hpath.symm, hfirst⟩

/-- Where no package has the import, all candidates were tried. -/
theorem rule_of_packageNotFound {named : String} {tried : List Path}
    (h : resolve reader project importer specifier = .error (.packageNotFound named tried)) :
    Rule project importer specifier .package (packagePlaces project specifier) ∧
      named = specifier ∧
      (∀ other ∈ candidatePaths project specifier, reader.isFile other = false) ∧
      tried = (candidatePaths project specifier).eraseDups := by
  rcases resolve_cases reader project importer specifier with ⟨-, hinvalid⟩ |
    ⟨kind, places, hrule, hanswer⟩
  · rw [h] at hinvalid
    cases hinvalid
  · rw [h] at hanswer
    obtain ⟨-, hkind, hnamed, hnone, htried⟩ := answer_eq_packageNotFound_iff.1 hanswer.symm
    subst hkind
    obtain rfl := hrule.places_eq
    exact ⟨hrule, hnamed, firstPath?_package_eq_none_iff.1 hnone, htried⟩

/-- There is a candidate wherever there is a directory of packages. -/
theorem candidatePaths_eq_nil_iff :
    candidatePaths project specifier = [] ↔ project.packagesDir = none := by
  unfold candidatePaths packagePlaces Project.packagesPath?
  cases project.packagesDir with
  | none => simp
  | some directory => simp

theorem eraseDups_eq_nil_iff {paths : List Path} : paths.eraseDups = [] ↔ paths = [] := by
  cases paths with
  | nil => rfl
  | cons path paths => simp [List.eraseDups_cons]

/-- **Shape**: every answer is a clean path, and in packages it is the first candidate that is a
    file. A package is missing only if no candidate is a file, and then the candidates are
    listed, each once; there is none only without a directory of packages. A package import
    comes to one of these two ends unless a place of it leads above the root. -/
theorem resolve_shape (hroot : project.root.isAbsolute)
    (hpaths : ∀ p ∈ project.packages, p.path.isAbsolute) (himporter : importer.isAbsolute) :
    (∀ resolution, resolve reader project importer specifier = .ok resolution →
      Clean resolution.path ∧ (resolution.kind = .package →
        FirstFile reader (candidatePaths project specifier) resolution.path)) ∧
    (∀ named tried, resolve reader project importer specifier =
        .error (.packageNotFound named tried) →
      named = specifier ∧
        (∀ other ∈ candidatePaths project specifier, reader.isFile other = false) ∧
        tried = (candidatePaths project specifier).eraseDups ∧
        (tried = [] ↔ project.packagesDir = none)) ∧
    (Rule project importer specifier .package (packagePlaces project specifier) →
      (∀ place ∈ packagePlaces project specifier, ¬ Path.Overclimbs place.parts) →
      (∃ path, resolve reader project importer specifier = .ok { path, kind := .package }) ∨
        ∃ tried, resolve reader project importer specifier =
          .error (.packageNotFound specifier tried)) := by
  refine ⟨?_, ?_, ?_⟩
  · intro resolution hresolve
    obtain ⟨places, place, hrule, hplace, hpath, hfirst⟩ := exists_place hresolve
    constructor
    · rw [hpath]
      exact clean_normalize (hrule.isAbsolute hroot hpaths himporter hplace)
    · intro hpackage
      rw [hpackage] at hrule hfirst
      rw [hrule.places_eq] at hfirst
      exact firstPath?_package_eq_some_iff.1 hfirst
  · intro named tried hresolve
    obtain ⟨-, hnamed, hfiles, htried⟩ := rule_of_packageNotFound hresolve
    refine ⟨hnamed, hfiles, htried, ?_⟩
    rw [htried, eraseDups_eq_nil_iff, candidatePaths_eq_nil_iff]
  · intro hrule hclimbs
    have hrefuses : refuses .package (packagePlaces project specifier) = false := by
      rw [← Bool.not_eq_true, refuses_iff fun place hplace =>
        isAbsolute_of_mem_packagePlaces hroot hpaths hplace]
      intro ⟨_, place, hplace, hoverclimbs⟩
      exact hclimbs place hplace hoverclimbs
    rw [resolve_eq hrule]
    cases hfirst : firstPath? reader .package (candidatePaths project specifier) with
    | some path => exact .inl ⟨path, answer_eq_ok_iff.2 ⟨hrefuses, rfl, hfirst⟩⟩
    | none =>
      right
      exact ⟨_, answer_eq_packageNotFound_iff.2 ⟨hrefuses, rfl, rfl, hfirst, rfl⟩⟩

/-! ## The second candidate, and none -/

theorem candidatePaths_ozProject :
    candidatePaths ozProject "oz/X.sol" = [⟨"/proj/lib/oz/src/X.sol"⟩, ⟨"/proj/lib/oz/X.sol"⟩] := by
  decide +kernel

/-- A file beside the sources is the answer, because there is none in them. Without it both
    candidates are listed. -/
theorem shape_beside_sources :
    (∃ path, resolve (readerOf "/proj/lib/oz/X.sol") ozProject ⟨"/proj/A.sol"⟩ "oz/X.sol" =
        .ok { path, kind := .package } ∧
      Clean path ∧
      FirstFile (readerOf "/proj/lib/oz/X.sol")
        [⟨"/proj/lib/oz/src/X.sol"⟩, ⟨"/proj/lib/oz/X.sol"⟩] path) ∧
    ∃ tried, resolve ({} : TextStore).reader ozProject ⟨"/proj/A.sol"⟩ "oz/X.sol" =
        .error (.packageNotFound "oz/X.sol" tried) ∧
      tried = [⟨"/proj/lib/oz/src/X.sol"⟩, ⟨"/proj/lib/oz/X.sol"⟩] := by
  have hroot : ozProject.root.isAbsolute := by
    decide +kernel
  have hpaths : ∀ p ∈ ozProject.packages, p.path.isAbsolute := by
    decide +kernel
  have himporter : (Path.mk "/proj/A.sol").isAbsolute := by
    decide +kernel
  have hrule : Rule ozProject ⟨"/proj/A.sol"⟩ "oz/X.sol" .package
      (packagePlaces ozProject "oz/X.sol") := by
    refine .package ⟨?_, ?_, ?_, ?_⟩
    · decide +kernel
    · decide +kernel
    · decide +kernel
    · decide +kernel
  constructor
  · have hresolve : resolve (readerOf "/proj/lib/oz/X.sol") ozProject ⟨"/proj/A.sol"⟩ "oz/X.sol" =
        .ok { path := ⟨"/proj/lib/oz/X.sol"⟩, kind := .package } := by
      rw [resolve_eq hrule]
      exact answer_eq_ok_iff.2 ⟨by decide +kernel, rfl, by decide +kernel⟩
    obtain ⟨hclean, hfirst⟩ := (resolve_shape hroot hpaths himporter).1 _ hresolve
    rw [candidatePaths_ozProject] at hfirst
    exact ⟨_, hresolve, hclean, hfirst rfl⟩
  · have hresolve : resolve ({} : TextStore).reader ozProject ⟨"/proj/A.sol"⟩ "oz/X.sol" =
        .error (.packageNotFound "oz/X.sol"
          ((packagePlaces ozProject "oz/X.sol").map Path.normalize).eraseDups) := by
      rw [resolve_eq hrule]
      exact answer_eq_packageNotFound_iff.2 ⟨by decide +kernel, rfl, rfl, by decide +kernel, rfl⟩
    obtain ⟨-, -, htried, -⟩ := (resolve_shape hroot hpaths himporter).2.1 _ _ hresolve
    refine ⟨_, hresolve, ?_⟩
    rw [htried, candidatePaths_ozProject]
    decide +kernel

end SolidityBuild.Resolution
