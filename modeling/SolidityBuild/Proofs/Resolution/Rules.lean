import SolidityBuild.Resolution

/-! # Rules of resolution: which one answered, and with what

    An answer tells by its kind which of the four rules gave it. Each rule is stated once
    with all that it checks and computes, so that nothing else has to open `resolve`.
-/

namespace SolidityBuild.Resolution

variable {reader : SourceReader} {project : Project} {importer : Path} {specifier : String}
  {resolution : Resolution}

theorem within_eq_ok_iff {base child path : Path} :
    within base child specifier = .ok path ↔ base.joinWithin? child = some path := by
  unfold within
  cases base.joinWithin? child <;> simp

/-- A package answers with the first of its candidates that is a file. -/
theorem inPackages_eq_ok_iff :
    inPackages reader project specifier = .ok resolution ↔
      ∃ packages paths, project.packagesPath? = some packages ∧
        candidates project packages specifier = .ok paths ∧
        paths.find? reader.isFile = some resolution.path ∧ resolution.kind = .package := by
  unfold inPackages
  cases hpackages : project.packagesPath? with
  | none => simp
  | some packages =>
    cases hpaths : candidates project packages specifier with
    | error e => simp [hpaths, bind, Except.bind]
    | ok paths =>
      cases hfind : paths.find? reader.isFile with
      | none => simp [hpaths, hfind, bind, Except.bind]
      | some path =>
        cases resolution
        simp [hpaths, hfind, bind, Except.bind, pure, Except.pure, eq_comm]

/-- The first three rules leave an import to the packages. -/
structure LeftToPackages (project : Project) (importer : Path) (specifier : String) : Prop where
  filled : Text.isBlankText specifier = false
  unmapped : remapping? project importer specifier = none
  notRelative : isRelative specifier = false
  notAbsolute : Path.isAbsolute ⟨specifier⟩ = false

theorem LeftToPackages.resolve_eq (h : LeftToPackages project importer specifier) :
    resolve reader project importer specifier = inPackages reader project specifier := by
  unfold resolve
  simp only [h.filled, h.unmapped, h.notRelative, h.notAbsolute, Bool.false_eq_true, if_false]

/-- What replaces the stem of the remapping that is chosen is made absolute. -/
theorem resolve_of_remapping? {r : Remapping} (hblank : Text.isBlankText specifier = false)
    (hremapping : remapping? project importer specifier = some r) :
    resolve reader project importer specifier =
      (within project.root (replaced r specifier) specifier).map
        fun path => { path, kind := .remapped } := by
  unfold resolve
  rw [hblank, if_neg Bool.false_ne_true, hremapping]

/-- Everything that an answer can come from. -/
inductive Answered (reader : SourceReader) (project : Project) (importer : Path)
    (specifier : String) (resolution : Resolution) : Prop where
  | remapped (r : Remapping) (hkind : resolution.kind = .remapped)
      (hremapping : remapping? project importer specifier = some r)
      (hpath : within project.root (replaced r specifier) specifier = .ok resolution.path)
  | relative (directory : Path) (hkind : resolution.kind = .relative)
      (hremapping : remapping? project importer specifier = none)
      (hrelative : isRelative specifier = true) (hparent : importer.parent? = some directory)
      (hpath : within directory ⟨specifier⟩ specifier = .ok resolution.path)
  | absolute (hkind : resolution.kind = .absolute)
      (hremapping : remapping? project importer specifier = none)
      (hrelative : isRelative specifier = false) (habsolute : Path.isAbsolute ⟨specifier⟩ = true)
      (hpath : resolution.path = Path.normalize ⟨specifier⟩)
  | package (hkind : resolution.kind = .package)
      (hremapping : remapping? project importer specifier = none)
      (hrelative : isRelative specifier = false)
      (habsolute : Path.isAbsolute ⟨specifier⟩ = false)
      (hpackages : inPackages reader project specifier = .ok resolution)

/-- Every answer comes from one of the four rules. -/
theorem answered_of_resolve (h : resolve reader project importer specifier = .ok resolution) :
    Answered reader project importer specifier resolution := by
  unfold resolve at h
  -- The cases follow the order in which the rules are tried.
  by_cases hblank : Text.isBlankText specifier = true
  · rw [if_pos hblank] at h
    cases h
  rw [if_neg hblank] at h
  cases hr : remapping? project importer specifier with
  | some r =>
    simp only [hr] at h
    cases hpath : within project.root (replaced r specifier) specifier with
    | error e =>
      rw [hpath] at h
      cases h
    | ok path =>
      rw [hpath] at h
      cases h
      exact .remapped r rfl hr hpath
  | none =>
    simp only [hr] at h
    cases hrelative : isRelative specifier with
    | true =>
      simp only [hrelative, if_true] at h
      cases hparent : importer.parent? with
      | none =>
        rw [hparent] at h
        cases h
      | some directory =>
        simp only [hparent] at h
        cases hpath : within directory ⟨specifier⟩ specifier with
        | error e =>
          rw [hpath] at h
          cases h
        | ok path =>
          rw [hpath] at h
          cases h
          exact .relative directory rfl hr hrelative hparent hpath
    | false =>
      simp only [hrelative, Bool.false_eq_true, if_false] at h
      cases habsolute : Path.isAbsolute ⟨specifier⟩ with
      | true =>
        rw [habsolute, if_pos rfl] at h
        cases h
        exact .absolute rfl hr hrelative habsolute rfl
      | false =>
        rw [habsolute, if_neg Bool.false_ne_true] at h
        obtain ⟨-, -, -, -, -, hkind⟩ := inPackages_eq_ok_iff.1 h
        exact .package hkind hr hrelative habsolute h

/-- An import is remapped only by the remapping that the resolver chose. -/
theorem remapping?_of_remapped
    (h : resolve reader project importer specifier = .ok resolution)
    (hkind : resolution.kind = .remapped) :
    ∃ r, remapping? project importer specifier = some r ∧
      within project.root (replaced r specifier) specifier = .ok resolution.path := by
  cases answered_of_resolve h with
  | remapped r _ hr hpath => exact ⟨r, hr, hpath⟩
  | relative _ hkind' => cases hkind.symm.trans hkind'
  | absolute hkind' => cases hkind.symm.trans hkind'
  | package hkind' => cases hkind.symm.trans hkind'

/-- Only a path that is not absolute leads to a package, through the candidates there. -/
theorem inPackages_of_package
    (h : resolve reader project importer specifier = .ok resolution)
    (hkind : resolution.kind = .package) :
    Path.isAbsolute ⟨specifier⟩ = false ∧
      inPackages reader project specifier = .ok resolution := by
  cases answered_of_resolve h with
  | remapped _ hkind' => cases hkind.symm.trans hkind'
  | relative _ hkind' => cases hkind.symm.trans hkind'
  | absolute hkind' => cases hkind.symm.trans hkind'
  | package _ _ _ habsolute hpackages => exact ⟨habsolute, hpackages⟩

end SolidityBuild.Resolution
