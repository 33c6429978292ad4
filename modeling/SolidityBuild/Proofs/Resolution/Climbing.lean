import SolidityBuild.Proofs.Resolution.Places

/-! # Climbing imports: which ones are refused

    To make a path normal drops the climbs that lead above the root, so an import with too
    many of them would come back to some file of another name. Three of the four rules look
    for such climbs before they make a path normal, and refuse the import. The rule for
    absolute imports does not look for them.
-/

namespace SolidityBuild.Resolution

variable {reader : SourceReader} {project : Project} {importer : Path} {specifier : String}
  {kind : ResolutionKind} {places : List Path}

/-- The rule for absolute imports answers with the normal form of what is written. -/
theorem resolve_of_absolute (hrule : Rule project importer specifier .absolute places) :
    resolve reader project importer specifier =
      .ok { path := Path.normalize ⟨specifier⟩, kind := .absolute } := by
  rw [resolve_eq hrule]
  cases hrule
  rfl

/-- **Climbing**: an import is refused as invalid exactly if a place that its rule puts together
    leads above the root, unless that is the rule for absolute imports. That rule drops the
    climbs and answers with the path that is left. -/
theorem refused_iff_climbing (hroot : project.root.isAbsolute)
    (hpaths : ∀ p ∈ project.packages, p.path.isAbsolute) (himporter : importer.isAbsolute)
    (hrule : Rule project importer specifier kind places) :
    (resolve reader project importer specifier = .error (.invalid specifier) ↔
      kind ≠ .absolute ∧ ∃ place ∈ places, Path.Overclimbs place.parts) ∧
    (kind = .absolute → resolve reader project importer specifier =
      .ok { path := Path.normalize ⟨specifier⟩, kind := .absolute }) := by
  have hplaces : ∀ place ∈ places, place.isAbsolute :=
    fun place hplace => hrule.isAbsolute hroot hpaths himporter hplace
  rw [resolve_eq hrule, answer_eq_invalid_iff, refuses_iff hplaces]
  refine ⟨and_iff_left rfl, ?_⟩
  intro habsolute
  subst habsolute
  rw [← resolve_eq hrule]
  exact resolve_of_absolute hrule

/-! ## A climb that is refused, and one that is dropped -/

/-- A project without packages and remappings. -/
def bareProject : Project where
  root := ⟨"/proj"⟩

/-- Seen from its file, a relative import leads above the root. -/
theorem climbing_refused_relative :
    Rule bareProject ⟨"/proj/A.sol"⟩ "../../X.sol" .relative [⟨"/proj/../../X.sol"⟩] ∧
    Path.Overclimbs (Path.mk "/proj/../../X.sol").parts ∧
    resolve ({} : TextStore).reader bareProject ⟨"/proj/A.sol"⟩ "../../X.sol" =
      .error (.invalid "../../X.sol") := by
  have hplace : (Path.parent? ⟨"/proj/A.sol"⟩).toList.map
      (fun directory => directory.join ⟨"../../X.sol"⟩) = [⟨"/proj/../../X.sol"⟩] := by
    decide +kernel
  have hrule : Rule bareProject ⟨"/proj/A.sol"⟩ "../../X.sol" .relative
      [⟨"/proj/../../X.sol"⟩] := by
    rw [← hplace]
    exact .relative (by decide +kernel) rfl (by decide +kernel)
  have hclimbs : Path.Overclimbs (Path.mk "/proj/../../X.sol").parts :=
    Path.climbsAbove_iff.1 (by decide +kernel)
  refine ⟨hrule, hclimbs, ?_⟩
  apply (refused_iff_climbing (by decide +kernel) (by simp [bareProject]) (by decide +kernel)
    hrule).1.2
  exact ⟨by decide, _, List.mem_singleton_self _, hclimbs⟩

/-- An absolute import climbs as far, and leads to a file all the same. -/
theorem climbing_dropped_absolute :
    Rule bareProject ⟨"/proj/A.sol"⟩ "/../X.sol" .absolute [⟨"/../X.sol"⟩] ∧
    Path.Overclimbs (Path.mk "/../X.sol").parts ∧
    resolve ({} : TextStore).reader bareProject ⟨"/proj/A.sol"⟩ "/../X.sol" =
      .ok { path := ⟨"/X.sol"⟩, kind := .absolute } := by
  have hrule : Rule bareProject ⟨"/proj/A.sol"⟩ "/../X.sol" .absolute [⟨"/../X.sol"⟩] :=
    .absolute (by decide +kernel) rfl (by decide +kernel) (by decide +kernel)
  have hpath : Path.normalize ⟨"/../X.sol"⟩ = ⟨"/X.sol"⟩ := by
    decide +kernel
  refine ⟨hrule, Path.climbsAbove_iff.1 (by decide +kernel), ?_⟩
  rw [resolve_of_absolute hrule, hpath]

end SolidityBuild.Resolution
