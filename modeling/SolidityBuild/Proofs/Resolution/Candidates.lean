import SolidityBuild.Proofs.Resolution.Places

/-! # Candidates: where an import from a package may lead

    There are at most two candidates. The preferred one lies in the sources of the package
    that the import names, the direct one is the whole import seen from the directory of the
    packages. The first of them that is a file is the answer.
-/

namespace SolidityBuild.Resolution

variable {reader : SourceReader} {project : Project} {packages : Path} {specifier : String}

/-- The candidate in the sources of the package that an import names. -/
def preferred? (project : Project) (packages : Path) (specifier : String) : Option Path := do
  let (name, rest) ← packageParts? specifier
  let sources ← packageSources? project packages name
  sources.joinWithin? ⟨rest⟩

/-- The first candidate that counts: the preferred one if it is a file, else the direct one. -/
def First (reader : SourceReader) (project : Project) (packages : Path) (specifier : String)
    (path : Path) : Prop :=
  preferred? project packages specifier = some path ∧ reader.isFile path = true ∨
    (∀ preferred, preferred? project packages specifier = some preferred →
      reader.isFile preferred = false) ∧
    packages.joinWithin? ⟨specifier⟩ = some path

theorem First.unique {path path' : Path} (h : First reader project packages specifier path)
    (h' : First reader project packages specifier path') : path = path' := by
  -- Of the four combinations the mixed ones contradict what is a file and what is not.
  rcases h with ⟨hpreferred, hfile⟩ | ⟨hnone, hdirect⟩
  · rcases h' with ⟨hpreferred', -⟩ | ⟨hnone', -⟩
    · exact Option.some.inj (hpreferred.symm.trans hpreferred')
    · rw [hnone' _ hpreferred] at hfile
      cases hfile
  · rcases h' with ⟨hpreferred', hfile'⟩ | ⟨-, hdirect'⟩
    · rw [hnone _ hpreferred'] at hfile'
      cases hfile'
    · exact Option.some.inj (hdirect.symm.trans hdirect')

/-- The preferred candidate is the place in the sources, unless that one is refused. -/
theorem preferred?_eq (project : Project) (packages : Path) (specifier : String) :
    preferred? project packages specifier =
      (inSources? project packages specifier).bind fun place =>
        if place.refused = true then none else some place.normalize := by
  unfold preferred? inSources?
  cases packageParts? specifier with
  | none => rfl
  | some named =>
    obtain ⟨name, rest⟩ := named
    cases hsources : packageSources? project packages name with
    | none => simp [hsources]
    | some sources => simp [hsources, Path.joinWithin?_eq]

/-- **Package imports**: the answer is a file, and it is the first candidate that counts. -/
theorem inPackages_ok {resolution : Resolution}
    (h : inPackages reader project specifier = .ok resolution) :
    ∃ packages, project.packagesPath? = some packages ∧
      (∀ name rest sources, packageParts? specifier = some (name, rest) →
        packageSources? project packages name = some sources →
        ∃ path, sources.joinWithin? ⟨rest⟩ = some path) ∧
      reader.isFile resolution.path = true ∧
      First reader project packages specifier resolution.path := by
  -- No importing file plays a part in packages, so any may stand for it.
  rw [inPackages_eq reader project default specifier] at h
  obtain ⟨hrefuses, -, hfirst⟩ := answer_eq_ok_iff.1 h
  have hfree : ∀ place ∈ packagePlaces project specifier, place.refused = false := by
    simpa [refuses] using hrefuses
  rw [firstPath?_package] at hfirst
  have hfile : reader.isFile resolution.path = true := List.find?_some hfirst
  obtain ⟨place, hplace, -⟩ := List.mem_map.1 (List.mem_of_find?_eq_some hfirst)
  obtain ⟨packages, hpackages, -⟩ := mem_packagePlaces_iff.1 hplace
  have hdirect : packages.joinWithin? ⟨specifier⟩ = some (packages.join ⟨specifier⟩).normalize := by
    have hnot := hfree _ (mem_packagePlaces_iff.2 ⟨packages, hpackages, .inr rfl⟩)
    rw [Path.joinWithin?_eq, hnot, if_neg Bool.false_ne_true]
  have hplaces : packagePlaces project specifier =
      (inSources? project packages specifier).toList ++ [packages.join ⟨specifier⟩] := by
    unfold packagePlaces
    rw [hpackages]
  refine ⟨packages, hpackages, ?_, hfile, ?_⟩
  · intro name rest sources hparts hsources
    have hin := inSources?_eq_some_iff.2 ⟨name, rest, sources, hparts, hsources, rfl⟩
    have hnot := hfree _ (mem_packagePlaces_iff.2 ⟨packages, hpackages, .inl hin⟩)
    refine ⟨(sources.join ⟨rest⟩).normalize, ?_⟩
    rw [Path.joinWithin?_eq, hnot, if_neg Bool.false_ne_true]
  · unfold First
    rw [preferred?_eq, hdirect]
    rw [hplaces] at hfirst
    cases hin : inSources? project packages specifier with
    | none =>
      rw [hin] at hfirst
      have hmem := List.mem_of_find?_eq_some hfirst
      refine .inr ⟨by simp, ?_⟩
      simpa [eq_comm] using hmem
    | some inside =>
      have hnot := hfree _ (mem_packagePlaces_iff.2 ⟨packages, hpackages, .inl hin⟩)
      simp only [Option.bind_some, hnot, Bool.false_eq_true, if_false, Option.some.injEq,
        forall_eq']
      rw [hin, Option.toList_some, List.singleton_append, List.map_cons, List.map_singleton,
        List.find?_cons] at hfirst
      cases hthere : reader.isFile inside.normalize with
      | true =>
        rw [hthere] at hfirst
        exact .inl ⟨Option.some.inj hfirst, hfile⟩
      | false =>
        rw [hthere] at hfirst
        have hmem := List.mem_of_find?_eq_some hfirst
        exact .inr ⟨rfl, (List.mem_singleton.1 hmem).symm⟩

end SolidityBuild.Resolution
