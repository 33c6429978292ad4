import SolidityBuild.Proofs.Remapping.Entry
import SolidityBuild.Proofs.Resolution.Candidates
import SolidityBuild.Proofs.Resolution.Places

/-! # Packages: when the entry of a package leads to the file that was resolved

    The compiler gets one entry for a package, which replaces its name by the directory of
    its sources. The resolver looks there first, and then below the directory of all
    packages. So the compiler looks up the same file only if the resolver finds it at the
    first place, or if both places are the same. What follows the name may start with a
    slash: then the resolver takes it as an absolute path, and the compiler does not.
-/

namespace SolidityBuild.Resolution

variable {reader : SourceReader} {project : Project} {importer : Path} {p : Package}
  {rest : String}

/-- The import of something from a package. -/
def packageSpecifier (p : Package) (rest : String) : String :=
  p.name ++ "/" ++ rest

/-- The path that the compiler looks up when it applies the entry of a package. -/
def compilerPath (project : Project) (p : Package) (rest : String) : Path :=
  Path.normalize ⟨(project.ofPackage p).target ++ rest⟩

/-- The path of the compiler is the first candidate of the resolver. -/
def Reached (reader : SourceReader) (project : Project) (p : Package) (rest : String) : Prop :=
  ∃ packages, project.packagesPath? = some packages ∧
    First reader project packages (packageSpecifier p rest) (compilerPath project p rest)

/-- A package that imports by its name lead to, with sources that are spelled for the compiler
    as they are. -/
structure Regular (project : Project) (p : Package) : Prop where
  registered : project.package? p.name = some p
  named : '/' ∉ p.name.toList
  slashes : '\\' ∉ (p.sourcesPath project.contractsDir).text.toList

/-- The compiler meets the resolver after a rest that starts with a slash. Such a rest stands
    alone for the resolver, and below the sources for the compiler. -/
def MetAfterSlash (reader : SourceReader) (project : Project) (p : Package) (rest : String) :
    Prop :=
  ∃ packages, project.packagesPath? = some packages ∧
    (reader.isFile (Path.normalize ⟨rest⟩) = true ∧
        (p.sourcesPath project.contractsDir).normalize = ⟨"/"⟩ ∨
      reader.isFile (Path.normalize ⟨rest⟩) = false ∧
        (p.sourcesPath project.contractsDir).normalize = (packages.joinText p.name).normalize)

/-! ## The two places -/

theorem packageParts?_specifier (hname : '/' ∉ p.name.toList) (hrest : rest ≠ "") :
    packageParts? (packageSpecifier p rest) = some (p.name, rest) := by
  have htext : (packageSpecifier p rest).toList = p.name.toList ++ '/' :: rest.toList := by
    simp [packageSpecifier, String.toList_append]
  exact packageParts?_eq_some_iff.2 ⟨hname, htext, hrest⟩

namespace Regular

theorem compilerPath_eq (h : Regular project p) (rest : String) :
    compilerPath project p rest =
      Path.normalize ⟨(p.sourcesPath project.contractsDir).text ++ "/" ++ rest⟩ := by
  show Path.normalize ⟨(p.sourcesPath project.contractsDir).forward ++ "/" ++ rest⟩ = _
  rw [Path.forward_of_not_mem h.slashes]

theorem packageSources?_eq (h : Regular project p) (packages : Path) :
    packageSources? project packages p.name = some (p.sourcesPath project.contractsDir) := by
  simp [packageSources?, h.registered]

theorem preferred?_eq (h : Regular project p) (hrest : rest ≠ "") (packages : Path) :
    preferred? project packages (packageSpecifier p rest) =
      (p.sourcesPath project.contractsDir).joinWithin? ⟨rest⟩ := by
  simp [preferred?, packageParts?_specifier h.named hrest, h.packageSources?_eq packages]

/-- A relative rest leads the compiler to the preferred candidate. -/
theorem compilerPath_of_relative {path : Path} (h : Regular project p)
    (hpath : p.path.isAbsolute) (hrelative : (Path.mk rest).isAbsolute = false)
    (hjoin : (p.sourcesPath project.contractsDir).joinWithin? ⟨rest⟩ = some path) :
    compilerPath project p rest = path := by
  rw [h.compilerPath_eq, (Path.joinWithin?_eq_some_iff.1 hjoin).1]
  exact (Path.normalize_congr
    (Path.parts_joinText (isAbsolute_sourcesPath hpath _) hrelative)).symm

/-- The direct candidate is the rest below the directory of the name. -/
theorem direct_eq_iff {packages path : Path} (h : Regular project p)
    (hpath : p.path.isAbsolute) (hpackages : packages.isAbsolute)
    (hspecifier : (Path.mk (packageSpecifier p rest)).isAbsolute = false)
    (habsolute : (Path.mk rest).isAbsolute)
    (hclimbs : Path.climbsAbove (Path.mk rest).parts = false)
    (hjoin : packages.joinWithin? ⟨packageSpecifier p rest⟩ = some path) :
    compilerPath project p rest = path ↔
      (p.sourcesPath project.contractsDir).normalize =
        (packages.joinText p.name).normalize := by
  have hname : (Path.mk p.name).isAbsolute = false := Path.isAbsolute_of_not_mem h.named
  have hbelow : path = Path.normalize ⟨packages.text ++ "/" ++ p.name ++ "/" ++ rest⟩ := by
    rw [(Path.joinWithin?_eq_some_iff.1 hjoin).1]
    refine (Path.normalize_congr (Path.parts_joinText hpackages hspecifier)).trans ?_
    simp only [packageSpecifier, String.append_assoc]
  rw [h.compilerPath_eq, hbelow, Path.normalize_congr (Path.parts_joinText hpackages hname)]
  exact Path.normalize_append_eq_iff (isAbsolute_sourcesPath hpath _)
    (Path.isAbsolute_append (Path.isAbsolute_append hpackages "/") p.name) habsolute hclimbs

/-- After a slash the compiler goes on below the sources, and the resolver from the root or
    below the directory of the name. -/
theorem met_iff {packages path : Path} (h : Regular project p) (hrest : rest ≠ "")
    (hroot : project.root.isAbsolute) (hpath : p.path.isAbsolute)
    (hspecifier : (Path.mk (packageSpecifier p rest)).isAbsolute = false)
    (habsolute : (Path.mk rest).isAbsolute)
    (hpackages : project.packagesPath? = some packages)
    (hwithin : ∃ path, (p.sourcesPath project.contractsDir).joinWithin? ⟨rest⟩ = some path)
    (hfirst : First reader project packages (packageSpecifier p rest) path) :
    compilerPath project p rest = path ↔ MetAfterSlash reader project p rest := by
  obtain ⟨preferred, hjoin⟩ := hwithin
  have hpreferred := h.preferred?_eq hrest packages
  have halone : (p.sourcesPath project.contractsDir).join ⟨rest⟩ = ⟨rest⟩ := if_pos habsolute
  obtain ⟨heq, hclimbs⟩ := Path.joinWithin?_eq_some_iff.1 hjoin
  rw [halone] at heq hclimbs
  rw [habsolute, Bool.true_and] at hclimbs
  subst heq
  rw [hjoin] at hpreferred
  have hmet : MetAfterSlash reader project p rest ↔
      reader.isFile (Path.normalize ⟨rest⟩) = true ∧
          (p.sourcesPath project.contractsDir).normalize = ⟨"/"⟩ ∨
        reader.isFile (Path.normalize ⟨rest⟩) = false ∧
          (p.sourcesPath project.contractsDir).normalize =
            (packages.joinText p.name).normalize := by
    unfold MetAfterSlash
    simp [hpackages]
  rw [hmet]
  rcases hfirst with ⟨hpath', hfile⟩ | ⟨hnone, hdirect⟩
  · obtain rfl := Option.some.inj (hpreferred.symm.trans hpath')
    have hself : compilerPath project p rest = Path.normalize ⟨rest⟩ ↔
        (p.sourcesPath project.contractsDir).normalize = ⟨"/"⟩ := by
      rw [h.compilerPath_eq]
      exact Path.normalize_append_eq_self_iff (isAbsolute_sourcesPath hpath _) habsolute hclimbs
    rw [hself]
    simp [hfile]
  · rw [h.direct_eq_iff hpath (isAbsolute_packagesPath hroot hpackages) hspecifier habsolute
      hclimbs hdirect]
    simp [hnone _ hpreferred]

end Regular

/-! ## The agreement theorem -/

/-- **Package agreement**: the entry of a package leads the compiler to the file that an import
    from the package was resolved to exactly if that file is the first candidate of the
    resolver. For a regular package this says: if the file is there at all, and after a
    slash, if the sources are where the resolver goes on. -/
theorem package_agrees_iff {resolution : Resolution} (hroot : project.root.isAbsolute)
    (hp : p ∈ project.packages) (hpath : p.path.isAbsolute) (hrest : rest ≠ "")
    (hresolve : resolve reader project importer (packageSpecifier p rest) = .ok resolution)
    (hkind : resolution.kind = .package) :
    (project.ofPackage p).written ∈ project.compilerRemappings ∧
    (compilerPath project p rest = resolution.path ↔ Reached reader project p rest) ∧
    (Regular project p → (Path.mk rest).isAbsolute = false →
      (compilerPath project p rest = resolution.path ↔
        reader.isFile (compilerPath project p rest) = true)) ∧
    (Regular project p → (Path.mk rest).isAbsolute = true →
      (compilerPath project p rest = resolution.path ↔ MetAfterSlash reader project p rest)) := by
  obtain ⟨hspecifier, hinPackages⟩ := inPackages_of_package hresolve hkind
  obtain ⟨packages, hpackages, hwithin, hfile, hfirst⟩ := inPackages_ok hinPackages
  have hjoin : Regular project p →
      ∃ path, (p.sourcesPath project.contractsDir).joinWithin? ⟨rest⟩ = some path :=
    fun hregular => hwithin _ _ _ (packageParts?_specifier hregular.named hrest)
      (hregular.packageSources?_eq packages)
  refine ⟨?_, ?_, ?_, ?_⟩
  · rw [project.compilerRemappings_eq]
    exact List.mem_map_of_mem (List.mem_append_right _ (List.mem_map_of_mem hp))
  · constructor
    · intro heq
      rw [← heq] at hfirst
      exact ⟨packages, hpackages, hfirst⟩
    · rintro ⟨packages', hpackages', hreached⟩
      obtain rfl := Option.some.inj (hpackages.symm.trans hpackages')
      exact hreached.unique hfirst
  · intro hregular hrelative
    obtain ⟨path, hpath'⟩ := hjoin hregular
    have heq := hregular.compilerPath_of_relative hpath hrelative hpath'
    constructor
    · intro hcompiler
      rw [hcompiler]
      exact hfile
    · intro hthere
      -- The preferred candidate is a file, so nothing else can be the first that counts.
      rw [heq] at hthere ⊢
      have hpreferred := (hregular.preferred?_eq hrest packages).trans hpath'
      exact First.unique (.inl ⟨hpreferred, hthere⟩) hfirst
  · intro hregular habsolute
    exact hregular.met_iff hrest hroot hpath hspecifier habsolute hpackages (hjoin hregular) hfirst

/-! ## A file outside the sources -/

theorem resolve_ozProject (path : String)
    (h : path = "/proj/lib/oz/src/X.sol" ∨ path = "/proj/lib/oz/X.sol") :
    resolve (readerOf path) ozProject ⟨"/proj/A.sol"⟩ (packageSpecifier oz "X.sol") =
      .ok { path := ⟨path⟩, kind := .package } := by
  rcases h with rfl | rfl
  · decide +kernel
  · decide +kernel

theorem regular_oz : Regular ozProject oz := by
  refine ⟨?_, ?_, ?_⟩
  · decide +kernel
  · decide +kernel
  · decide +kernel

/-- A file in the sources of the package is looked up where it was resolved. -/
theorem compilerPath_in_sources :
    resolve (readerOf "/proj/lib/oz/src/X.sol") ozProject ⟨"/proj/A.sol"⟩
        (packageSpecifier oz "X.sol") =
      .ok { path := ⟨"/proj/lib/oz/src/X.sol"⟩, kind := .package } ∧
    compilerPath ozProject oz "X.sol" = ⟨"/proj/lib/oz/src/X.sol"⟩ := by
  have hresolve := resolve_ozProject "/proj/lib/oz/src/X.sol" (.inl rfl)
  obtain ⟨-, -, hrelative, -⟩ := package_agrees_iff (by decide +kernel)
    (List.mem_singleton.2 rfl) (by decide +kernel) (by decide) hresolve rfl
  exact ⟨hresolve, (hrelative regular_oz (by decide +kernel)).2 (by decide +kernel)⟩

/-- A file beside the sources is resolved, and the compiler looks for it in the sources. -/
theorem compilerPath_beside_sources :
    resolve (readerOf "/proj/lib/oz/X.sol") ozProject ⟨"/proj/A.sol"⟩
        (packageSpecifier oz "X.sol") =
      .ok { path := ⟨"/proj/lib/oz/X.sol"⟩, kind := .package } ∧
    ozProject.compilerRemappings = ["oz/=/proj/lib/oz/src/"] ∧
    compilerPath ozProject oz "X.sol" = ⟨"/proj/lib/oz/src/X.sol"⟩ := by
  exact ⟨resolve_ozProject _ (.inr rfl), by decide +kernel, by decide +kernel⟩

end SolidityBuild.Resolution
