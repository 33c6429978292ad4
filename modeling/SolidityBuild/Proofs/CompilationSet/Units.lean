import SolidityBuild.Proofs.Collection.Graph

/-! # Units: what the compiler gets of a collection

    The units are the documents outside the build directory, each once, in the dependency
    order. Leaving out the others neither loses nor moves a unit.
-/

namespace SolidityBuild.Collection

variable {c : Collection} {project : Project}

/-- Looking up the paths of some documents gives these documents. -/
theorem Keyed.filterMap_get? (h : c.Keyed) {docs : List Document}
    (hdocs : ∀ doc ∈ docs, doc ∈ c.documents) :
    (docs.map Document.path).filterMap c.get? = docs := by
  rw [List.filterMap_map]
  conv_rhs => rw [← List.filterMap_some (l := docs)]
  apply List.filterMap_congr
  intro doc hdoc
  exact h.get?_eq_some_iff.2 ⟨hdocs doc hdoc, rfl⟩

/-- The units are those of the documents outside the build directory, in some order. -/
theorem WellFormed.units_perm (h : WellFormed c) (project : Project) (runs : Nat) :
    (c.compilationSet project runs).units.Perm
      ((c.documents.filter fun doc => !project.inBuildDir doc.path).map .ofDocument) := by
  unfold compilationSet
  have hperm := (h.order_perm.filter fun path => !project.inBuildDir path).filterMap c.get?
  rw [List.filter_map, h.keyed.filterMap_get? (fun doc hdoc => List.mem_of_mem_filter hdoc)]
    at hperm
  exact hperm.map _

/-- A unit comes after the unit of each dependency that does not lead to it. -/
theorem WellFormed.units_sublist (h : WellFormed c) (runs : Nat) {u v : Document}
    (hu : u ∈ c.documents) (hv : v ∈ c.documents)
    (hubuild : project.inBuildDir u.path = false) (hvbuild : project.inBuildDir v.path = false)
    (hrecords : c.Records u.path v.path)
    (hnot : ¬ Relation.TransGen c.Records v.path u.path) :
    [CompilationUnit.ofDocument v, CompilationUnit.ofDocument u].Sublist
      (c.compilationSet project runs).units := by
  have hgetu : c.get? u.path = some u := h.keyed.get?_eq_some_iff.2 ⟨hu, rfl⟩
  have hgetv : c.get? v.path = some v := h.keyed.get?_eq_some_iff.2 ⟨hv, rfl⟩
  have horder := h.order_sublist hu hv hrecords hnot
  have hkept := ((horder.filter fun path => !project.inBuildDir path).filterMap c.get?).map
    CompilationUnit.ofDocument
  unfold compilationSet
  simpa [hubuild, hvbuild, hgetu, hgetv] using hkept

/-- **Compilation set**: after any calls, the units have different paths; with their contents
    they are the collected documents outside the build directory with their texts; and of two
    units, where one records the other as a dependency and the other does not lead back to it,
    the other one comes first. -/
theorem compilationSet_units (calls : List Call) (project : Project) (runs : Nat) :
    (((ofCalls calls).compilationSet project runs).units.map CompilationUnit.path).Nodup ∧
    (((ofCalls calls).compilationSet project runs).units.map fun unit =>
        (unit.path, unit.content)).Perm
      (((ofCalls calls).documents.filter fun doc => !project.inBuildDir doc.path).map fun doc =>
        (doc.path, doc.code)) ∧
    ∀ u ∈ ((ofCalls calls).compilationSet project runs).units,
      ∀ v ∈ ((ofCalls calls).compilationSet project runs).units,
        (ofCalls calls).Records u.path v.path →
        ¬ Relation.TransGen (ofCalls calls).Records v.path u.path →
        [v, u].Sublist ((ofCalls calls).compilationSet project runs).units := by
  have h : WellFormed (ofCalls calls) := wellFormed_ofCalls calls
  have hperm := h.units_perm project runs
  -- A unit is that of a document outside the build directory.
  have hunit : ∀ unit ∈ ((ofCalls calls).compilationSet project runs).units,
      ∃ doc ∈ (ofCalls calls).documents, project.inBuildDir doc.path = false ∧
        unit = .ofDocument doc := by
    intro unit hunit
    obtain ⟨doc, hdoc, rfl⟩ := List.mem_map.1 (hperm.mem_iff.1 hunit)
    obtain ⟨hdoc, hbuild⟩ := List.mem_filter.1 hdoc
    exact ⟨doc, hdoc, by simpa using hbuild, rfl⟩
  refine ⟨?_, ?_, ?_⟩
  · rw [(hperm.map CompilationUnit.path).nodup_iff, List.map_map]
    exact (h.keyed).sublist (List.filter_sublist.map _)
  · have hpairs := hperm.map fun unit => (unit.path, unit.content)
    rw [List.map_map] at hpairs
    exact hpairs
  · intro u hu v hv hrecords hnot
    obtain ⟨du, hdu, hubuild, rfl⟩ := hunit u hu
    obtain ⟨dv, hdv, hvbuild, rfl⟩ := hunit v hv
    exact h.units_sublist runs hdu hdv hubuild hvbuild hrecords hnot

end SolidityBuild.Collection
