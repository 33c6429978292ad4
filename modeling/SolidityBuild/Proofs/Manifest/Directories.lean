import SolidityBuild.Project.Basic
import SolidityBuild.Proofs.Path.Descent
import SolidityBuild.Proofs.Resolution.Confinement
import SolidityBuild.Proofs.Text.Affixes

/-! # Declared directories: all of them lie in the package

    A manifest is refused for what its directories are written like, without the slashes at
    their end: none may start with a slash or have a segment `..`. That is enough for all uses
    of the others. Seen from any directory, even from one that is relative or climbs itself, a
    declared one adds names to the normal parts and takes none away.
-/

namespace SolidityBuild

namespace Manifest

variable {m : Manifest} {written : Option String} {field text directory : String}
  {fault : Fault}

/-! ## Slashes at the end -/

/-- The directory is declared: it is what was written without the slashes at the end, and is
    not empty. -/
def Declares (written : Option String) (directory : String) : Prop :=
  directory ≠ "" ∧ directory.toList.getLast? ≠ some '/' ∧
    ∃ text count, written = some text ∧
      text.toList = directory.toList ++ List.replicate count '/'

theorem trimmed?_eq_some_iff : trimmed? written = some directory ↔ Declares written directory := by
  have htrim : ∀ text : String, trimmed? (some text) = some directory ↔
      directory ≠ "" ∧ Text.dropEndWhile (· = '/') text.toList = directory.toList := by
    intro text
    show (if (text.toList.reverse.dropWhile (· = '/')).isEmpty = true then none
      else some (String.ofList (Text.dropEndWhile (· = '/') text.toList))) = some directory ↔ _
    rw [Option.ite_none_left_eq_some, Option.some.injEq, List.isEmpty_iff]
    constructor
    · intro ⟨hne, hdirectory⟩
      rw [← hdirectory, String.toList_ofList]
      refine ⟨?_, rfl⟩
      intro hempty
      exact hne (List.reverse_eq_nil_iff.1 (String.ofList_eq_empty_iff.1 hempty))
    · intro ⟨hne, hdirectory⟩
      rw [hdirectory, String.ofList_toList]
      refine ⟨?_, rfl⟩
      intro hempty
      have hnil : Text.dropEndWhile (· = '/') text.toList = [] := List.reverse_eq_nil_iff.2 hempty
      rw [hdirectory] at hnil
      exact hne (String.toList_eq_nil_iff.1 hnil)
  unfold Declares
  cases written with
  | none => simp [trimmed?]
  | some text =>
    rw [htrim, Text.dropEndWhile_slash_eq_iff]
    simp

/-- A declared directory is refused if it starts with a slash or has a segment `..`. -/
def Refused (directory : String) : Prop :=
  directory.toList.head? = some '/' ∨ ['.', '.'] ∈ Text.pieces '/' directory.toList

theorem escapes_iff_refused : escapes directory = true ↔ Refused directory := by
  unfold escapes Refused
  rw [Bool.or_eq_true, List.contains_iff_mem, Path.up_mem_parts_iff, Path.isAbsolute,
    decide_eq_true_iff]
  rfl

/-! ## What is refused -/

theorem check_eq_error_iff : check field (trimmed? written) = .error fault ↔
    ∃ directory, Declares written directory ∧ Refused directory ∧
      fault = .outside field directory := by
  simp only [← trimmed?_eq_some_iff, ← escapes_iff_refused]
  unfold check
  cases trimmed? written with
  | none => simp
  | some directory =>
    dsimp only
    by_cases hescapes : escapes directory = true
    · rw [if_pos hescapes, Except.error.injEq]
      constructor
      · intro hfault
        exact ⟨directory, rfl, hescapes, hfault.symm⟩
      · intro ⟨directory', hsame, _, hfault⟩
        rw [hfault, Option.some.inj hsame]
    · rw [if_neg hescapes]
      constructor
      · intro h
        cases h
      · intro ⟨directory', hsame, hescapes', _⟩
        rw [← Option.some.inj hsame] at hescapes'
        exact absurd hescapes' hescapes

/-- The sources are checked first. -/
theorem validate_eq_error_iff : m.validate = .error fault ↔
    check "sol_sources" m.sources? = .error fault ∨
      check "sol_sources" m.sources? = .ok () ∧ check "build_dir" m.build? = .error fault := by
  unfold validate
  cases check "sol_sources" m.sources? with
  | error e => simp [bind, Except.bind]
  | ok u => simp [bind, Except.bind]

/-- Only declared directories are refused, and a single one is enough. -/
theorem exists_validate_error_iff : (∃ fault, m.validate = .error fault) ↔
    ∃ written ∈ [m.solSources, m.buildDir], ∃ directory,
      Declares written directory ∧ Refused directory := by
  simp only [List.mem_cons, List.not_mem_nil, or_false, exists_eq_or_imp, exists_eq_left]
  constructor
  · intro ⟨fault, h⟩
    rcases validate_eq_error_iff.1 h with hsources | ⟨_, hbuild⟩
    · obtain ⟨directory, hdeclares, hrefused, -⟩ := check_eq_error_iff.1 hsources
      exact .inl ⟨directory, hdeclares, hrefused⟩
    · obtain ⟨directory, hdeclares, hrefused, -⟩ := check_eq_error_iff.1 hbuild
      exact .inr ⟨directory, hdeclares, hrefused⟩
  · intro h
    cases hsources : check "sol_sources" m.sources? with
    | error fault => exact ⟨fault, validate_eq_error_iff.2 (.inl hsources)⟩
    | ok u =>
      obtain ⟨directory, hdeclares, hrefused⟩ | ⟨directory, hdeclares, hrefused⟩ := h
      · have herror : check "sol_sources" m.sources? = .error (.outside "sol_sources" directory) :=
          check_eq_error_iff.2 ⟨directory, hdeclares, hrefused, rfl⟩
        rw [herror] at hsources
        cases hsources
      · have herror : check "build_dir" m.build? = .error (.outside "build_dir" directory) :=
          check_eq_error_iff.2 ⟨directory, hdeclares, hrefused, rfl⟩
        exact ⟨_, validate_eq_error_iff.2 (.inr ⟨hsources, herror⟩)⟩

/-! ## What is accepted -/

/-- Some text is accepted as the manifest. -/
def Accepted (m : Manifest) : Prop :=
  ∃ text, ofText text = .ok m

theorem ofText_eq_of_decoded (h : (Json.ofText? text).bind ofJson? = some m) :
    ofText text = m.validate.map fun _ => m := by
  unfold ofText
  rw [h]
  cases hvalidate : m.validate <;>
    simp [hvalidate, bind, Except.bind, Except.map, pure, Except.pure]

theorem Accepted.validate_eq (h : m.Accepted) : m.validate = .ok () := by
  obtain ⟨text, htext⟩ := h
  unfold ofText at htext
  split at htext
  · cases htext
  · rename_i m' _
    cases hvalidate : m'.validate with
    | error fault =>
      rw [hvalidate] at htext
      cases htext
    | ok u =>
      rw [hvalidate] at htext
      cases htext
      exact hvalidate

/-- A directory that passes is relative and does not climb. -/
theorem escapes_eq_false_of_validate (h : m.validate = .ok ())
    (hdirectory : m.sources? = some directory ∨ m.build? = some directory) :
    escapes directory = false := by
  rw [← Bool.not_eq_true, escapes_iff_refused]
  intro hrefused
  have herror : ∃ fault, m.validate = .error fault := by
    rw [exists_validate_error_iff]
    rcases hdirectory with hsources | hbuild
    · exact ⟨m.solSources, by simp, directory, trimmed?_eq_some_iff.1 hsources, hrefused⟩
    · exact ⟨m.buildDir, by simp, directory, trimmed?_eq_some_iff.1 hbuild, hrefused⟩
  obtain ⟨fault, hfault⟩ := herror
  rw [h] at hfault
  cases hfault

/-- A declared directory of an accepted manifest is relative and does not climb. -/
theorem Accepted.escapes_eq_false (h : m.Accepted)
    (hdirectory : m.sources? = some directory ∨ m.build? = some directory) :
    escapes directory = false :=
  escapes_eq_false_of_validate h.validate_eq hdirectory

/-- Seen from a package, it adds its names to the normal parts of the package. -/
theorem Accepted.parts_joinText (h : m.Accepted)
    (hdirectory : m.sources? = some directory ∨ m.build? = some directory) (package : Path) :
    (package.joinText directory).normalize.parts =
      package.normalize.parts ++ (Path.mk directory).names.map .name := by
  obtain ⟨hrelative, hup⟩ := escapes_eq_false_iff.1 (h.escapes_eq_false hdirectory)
  rw [Path.parts_normalize, Path.parts_normalize]
  exact Path.normalParts_join_names package hrelative hup

theorem Accepted.contains_joinText (h : m.Accepted)
    (hdirectory : m.sources? = some directory ∨ m.build? = some directory) (package : Path) :
    package.contains (package.joinText directory).normalize = true := by
  have hparts := h.parts_joinText hdirectory package
  rw [Path.parts_normalize, Path.parts_normalize] at hparts
  rw [Path.contains_normalize]
  unfold Path.contains
  rw [List.isPrefixOf_iff_prefix, hparts]
  exact List.prefix_append _ _

/-- **Declared directories**: those of an accepted manifest lie in the package, wherever that
    is; a text that is decoded as a manifest is refused exactly if one of its directories is
    absolute or climbs once the slashes at the end are gone; and the directories of a project
    with an accepted manifest lie below its root. -/
theorem declared_stay_inside :
    (∀ m : Manifest, m.Accepted → ∀ (package : Path) (directory : String),
      m.sources? = some directory ∨ m.build? = some directory →
        package.contains (package.joinText directory).normalize = true) ∧
    (∀ (text : String) (m : Manifest), (Json.ofText? text).bind ofJson? = some m →
      ((∃ fault, ofText text = .error fault) ↔
        ∃ written ∈ [m.solSources, m.buildDir], ∃ directory,
          Declares written directory ∧ Refused directory)) ∧
    ∀ project : Project, project.manifest.Accepted →
      project.root.contains project.sourcesPath = true ∧
        ∀ build ∈ project.buildPath?, project.root.contains build = true := by
  refine ⟨?_, ?_, ?_⟩
  · intro m h package directory hdirectory
    exact h.contains_joinText hdirectory package
  · intro text m hdecoded
    rw [ofText_eq_of_decoded hdecoded, ← exists_validate_error_iff]
    cases m.validate <;> simp [Except.map]
  · intro project h
    constructor
    · unfold Project.sourcesPath
      cases hsources : project.manifest.sources? with
      | some directory => exact h.contains_joinText (.inl hsources) project.root
      | none => exact List.isPrefixOf_iff_prefix.2 (List.prefix_refl _)
    · intro build hbuild
      obtain ⟨directory, hdirectory, rfl⟩ := Option.map_eq_some_iff.1 hbuild
      exact h.contains_joinText (.inr hdirectory) project.root

/-- A manifest with both directories, of which the sources have slashes at the end. -/
def nested : Manifest where
  solSources := some "contracts//"
  buildDir := some "./out/sol"

/-- How it is written. -/
def nestedText : String :=
  "\x7b\"sol_sources\": \"contracts//\", \"build_dir\": \"./out/sol\"\x7d"

/-- A manifest whose sources lie beside its package. -/
def sideways : Manifest where
  solSources := some "lib/../../contracts"

/-- How it is written. -/
def sidewaysText : String :=
  "\x7b\"sol_sources\": \"lib/../../contracts\"\x7d"

/-- A project with the first one, under a root that is not spelled plainly. -/
def nestedProject : Project where
  root := ⟨"/work/../token/."⟩
  manifest := nested

/-- Seen from a package that climbs itself, the sources of the first manifest lie in it; the
    second one is refused; and both directories of the project lie below its root. -/
theorem nested_stays_inside :
    ((Path.mk "../lib/token").joinText "contracts").normalize = ⟨"../lib/token/contracts"⟩ ∧
    (Path.mk "../lib/token").contains
      ((Path.mk "../lib/token").joinText "contracts").normalize = true ∧
    (∃ fault, ofText sidewaysText = .error fault) ∧
    nestedProject.sourcesPath = ⟨"/token/contracts"⟩ ∧
    nestedProject.root.contains nestedProject.sourcesPath = true ∧
    nestedProject.buildPath? = some ⟨"/token/out/sol"⟩ ∧
    nestedProject.root.contains ⟨"/token/out/sol"⟩ = true := by
  obtain ⟨hinside, hrefused, hproject⟩ := declared_stay_inside
  have haccepted : nested.Accepted := ⟨nestedText, by decide +kernel⟩
  have hdeclared : nested.sources? = some "contracts" := by decide
  have hdecoded : (Json.ofText? sidewaysText).bind ofJson? = some sideways := by decide +kernel
  have hclimbs : Declares sideways.solSources "lib/../../contracts" ∧
      Refused "lib/../../contracts" :=
    ⟨trimmed?_eq_some_iff.1 (by decide), escapes_iff_refused.1 (by decide)⟩
  have hbuild : nestedProject.buildPath? = some ⟨"/token/out/sol"⟩ := by decide
  obtain ⟨hsources, hbuilds⟩ := hproject nestedProject haccepted
  exact ⟨by decide, hinside nested haccepted _ _ (.inl hdeclared),
    (hrefused sidewaysText sideways hdecoded).2 ⟨_, List.mem_cons_self .., _, hclimbs⟩,
    by decide, hsources, hbuild, hbuilds _ hbuild⟩

end Manifest

end SolidityBuild
