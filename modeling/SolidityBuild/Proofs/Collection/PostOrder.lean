import SolidityBuild.Proofs.Collection.Graph
import SolidityBuild.Proofs.ImportGraph.PostOrder

/-! # Post-order of a collection: its documents, traversed through their dependencies

    The graph of a collection is made from the documents in their order, each with its
    dependencies in theirs. A dependency may so come into the graph before its own turn. This
    changes nothing: it comes right behind a document that imports it, so a traversal has been
    there already. What remains is the traversal of the documents themselves.
-/

namespace SolidityBuild

/-- The additions to the graph that a document stands for. -/
def Document.edits (doc : Document) : List ImportGraph.Edit :=
  .document doc.path :: doc.dependencies.map (.dependency doc.path)

namespace Collection

open ImportGraph (Edit ofEdits namedKeys declaredKeys dependencyOrder_ofEdits)

/-- The additions that make the graph of a collection. -/
def edits (c : Collection) : List Edit :=
  c.documents.flatMap Document.edits

/-- What the document at a path records as its dependencies. -/
def dependenciesOf (c : Collection) (p : Path) : List Path :=
  ((c.get? p).map Document.dependencies).getD []

/-- The paths of the documents, in the order in which they were added. -/
def paths (c : Collection) : List Path :=
  c.documents.map Document.path

variable {c : Collection} {doc : Document} {p : Path}

/-! ## The graph as additions -/

theorem graph_eq_ofEdits (c : Collection) : c.graph = ofEdits c.edits := by
  have hdoc : ∀ (g : ImportGraph) (doc : Document),
      addToGraph g doc = doc.edits.foldl ImportGraph.edit g := by
    intro g doc
    unfold addToGraph Document.edits
    rw [List.foldl_cons, List.foldl_map]
    rfl
  unfold graph ofEdits edits
  rw [List.foldl_flatMap]
  congr 1
  funext g doc
  exact hdoc g doc

/-- What a document declares, it declares for itself. -/
theorem flatMap_importedBy_edits (doc : Document) (key : Path.Key) :
    doc.edits.flatMap (Edit.importedBy key) =
      if doc.path.parts = key then doc.dependencies.map Path.parts else [] := by
  unfold Document.edits
  rw [List.flatMap_cons, List.flatMap_map]
  by_cases hkey : doc.path.parts = key
  · rw [if_pos hkey, List.map_eq_flatMap]
    simp [Edit.importedBy, hkey]
  · rw [if_neg hkey]
    simp [Edit.importedBy, hkey]

theorem WellFormed.dependenciesOf_path (h : WellFormed c) (hdoc : doc ∈ c.documents) :
    c.dependenciesOf doc.path = doc.dependencies := by
  unfold dependenciesOf
  rw [h.keyed.get?_eq_some_iff.2 ⟨hdoc, rfl⟩]
  rfl

/-- The paths of documents are told apart by their keys. -/
theorem WellFormed.injOn_parts (h : WellFormed c) :
    Set.InjOn Path.parts {p | p ∈ c.paths} := by
  intro p hp q hq heq
  obtain ⟨doc, hdoc, rfl⟩ := List.mem_map.1 hp
  obtain ⟨other, hother, rfl⟩ := List.mem_map.1 hq
  exact Path.eq_of_parts_eq (h.normal doc hdoc) (h.normal other hother) heq

theorem WellFormed.map_ofParts (h : WellFormed c) {ps : List Path} (hps : ∀ p ∈ ps, p ∈ c.paths) :
    (ps.map Path.parts).map Path.ofParts = ps := by
  rw [List.map_map]
  have hself : ∀ p ∈ ps, (Path.ofParts ∘ Path.parts) p = p := by
    intro p hp
    obtain ⟨doc, hdoc, rfl⟩ := List.mem_map.1 (hps p hp)
    exact Path.ofParts_parts (h.normal doc hdoc)
  exact (List.map_congr_left hself).trans (List.map_id' ps)

/-- The graph gives a document the dependencies that it records. -/
theorem WellFormed.declaredKeys_edits (h : WellFormed c) (hp : p ∈ c.paths) :
    declaredKeys c.edits p.parts = (c.dependenciesOf p).map Path.parts := by
  obtain ⟨doc, hdoc, rfl⟩ := List.mem_map.1 hp
  obtain ⟨before, after, hsplit⟩ := List.append_of_mem hdoc
  -- No other document has the key.
  have hnone : ∀ others : List Document, (∀ other ∈ others, other ∈ c.documents) →
      (∀ other ∈ others, other.path ≠ doc.path) →
      others.flatMap (fun other => other.edits.flatMap (Edit.importedBy doc.path.parts)) = [] := by
    intro others hsub hne
    rw [List.flatMap_eq_nil_iff]
    intro other hother
    rw [flatMap_importedBy_edits, if_neg]
    intro hkey
    have hpath := h.injOn_parts (List.mem_map_of_mem (hsub other hother)) hp hkey
    exact hne other hother hpath
  have hkeyed : (c.documents.map Document.path).Nodup := h.keyed
  rw [hsplit, List.map_append, List.map_cons] at hkeyed
  obtain ⟨-, hnodup, hdisjoint⟩ := List.nodup_append.1 hkeyed
  rw [h.dependenciesOf_path hdoc]
  unfold declaredKeys edits
  rw [List.flatMap_assoc, hsplit, List.flatMap_append, List.flatMap_cons,
    hnone before, hnone after, flatMap_importedBy_edits, if_pos rfl, List.append_nil,
    List.nil_append]
  · intro other hother
    rw [hsplit]
    exact List.mem_append_right _ (List.mem_cons_of_mem _ hother)
  · intro other hother heq
    apply (List.nodup_cons.1 hnodup).1
    rw [← heq]
    exact List.mem_map_of_mem hother
  · intro other hother
    rw [hsplit]
    exact List.mem_append_left _ hother
  · intro other hother
    exact hdisjoint _ (List.mem_map_of_mem hother) _ (List.mem_cons_self ..)

/-- The graph names each document, and behind it nothing but the document and what it
    depends on. -/
theorem WellFormed.namedKeys_edits (h : WellFormed c) :
    namedKeys c.edits = (c.paths.map Path.parts).flatMap fun key =>
      key :: (declaredKeys c.edits key).flatMap fun other => [key, other] := by
  unfold namedKeys edits paths
  rw [List.flatMap_assoc, List.map_map, List.flatMap_map]
  apply List.flatMap_congr
  intro doc hdoc
  show doc.edits.flatMap Edit.keys = doc.path.parts ::
    (declaredKeys c.edits doc.path.parts).flatMap fun other => [doc.path.parts, other]
  rw [h.declaredKeys_edits (List.mem_map_of_mem hdoc), h.dependenciesOf_path hdoc]
  unfold Document.edits
  rw [List.flatMap_cons, List.flatMap_map, List.flatMap_map]
  rfl

/-! ## The traversal of the documents -/

/-- Dependencies of documents are documents. -/
theorem WellFormed.mem_paths_of_mem_dependenciesOf (h : WellFormed c) (hp : p ∈ c.paths) :
    ∀ q ∈ c.dependenciesOf p, q ∈ c.paths := by
  obtain ⟨doc, hdoc, rfl⟩ := List.mem_map.1 hp
  rw [h.dependenciesOf_path hdoc]
  intro q hq
  exact (has_iff_mem_paths c q).1 (h.closed doc.path q ⟨doc, hdoc, rfl, hq⟩)

/-- The graph names the keys of the documents. -/
theorem WellFormed.toFinset_namedKeys (h : WellFormed c) :
    (namedKeys c.edits).toFinset = c.paths.toFinset.image Path.parts := by
  ext key
  rw [List.mem_toFinset, h.namedKeys_edits, List.mem_flatMap, Finset.mem_image]
  constructor
  · intro hkey
    obtain ⟨own, hown, hkey⟩ := hkey
    obtain ⟨p, hp, rfl⟩ := List.mem_map.1 hown
    rcases List.mem_cons.1 hkey with heq | hkey
    · exact ⟨p, List.mem_toFinset.2 hp, heq.symm⟩
    · obtain ⟨other, hother, hkey⟩ := List.mem_flatMap.1 hkey
      rw [h.declaredKeys_edits hp] at hother
      obtain ⟨q, hq, rfl⟩ := List.mem_map.1 hother
      rcases List.mem_pair.1 hkey with heq | heq
      · exact ⟨p, List.mem_toFinset.2 hp, heq.symm⟩
      · exact ⟨q, List.mem_toFinset.2 (h.mem_paths_of_mem_dependenciesOf hp q hq), heq.symm⟩
  · intro hkey
    obtain ⟨p, hp, heq⟩ := hkey
    refine ⟨p.parts, List.mem_map_of_mem (List.mem_toFinset.1 hp), ?_⟩
    rw [← heq]
    exact List.mem_cons_self ..

/-- The dependency order of a well-formed collection is the post-order of its documents. -/
theorem WellFormed.dependencyOrder_graph (h : WellFormed c) :
    c.graph.dependencyOrder = postOrder c.dependenciesOf c.paths.toFinset c.paths := by
  -- The roots that the graph has besides the documents make no difference.
  have halso : ∀ key, ∀ other ∈ (declaredKeys c.edits key).flatMap fun other => [key, other],
      other = key ∨ other ∈ declaredKeys c.edits key := by
    intro key other hother
    obtain ⟨child, hchild, hother⟩ := List.mem_flatMap.1 hother
    rcases List.mem_pair.1 hother with heq | heq
    · exact .inl heq
    · rw [heq]
      exact .inr hchild
  have hroots : ∀ key ∈ c.paths.map Path.parts, key ∈ c.paths.toFinset.image Path.parts := by
    intro key hkey
    obtain ⟨p, hp, heq⟩ := List.mem_map.1 hkey
    exact Finset.mem_image.2 ⟨p, List.mem_toFinset.2 hp, heq⟩
  have hnone : ∀ key ∈ c.paths.toFinset.image Path.parts,
      key ∉ c.paths.toFinset.image Path.parts →
      ∀ child ∈ declaredKeys c.edits key, child ∉ c.paths.toFinset.image Path.parts :=
    fun key hkey hnot => absurd hkey hnot
  have hkeys : c.graph.dependencyOrder.map Path.parts =
      (postOrder c.dependenciesOf c.paths.toFinset c.paths).map Path.parts := by
    rw [graph_eq_ofEdits, dependencyOrder_ofEdits, h.toFinset_namedKeys, h.namedKeys_edits,
      (traversal_flatMap_children halso hroots hnone).2]
    exact (traversal_map h.injOn_parts
      (fun p hp => h.mem_paths_of_mem_dependenciesOf hp)
      (fun p hp => h.declaredKeys_edits hp)
      (fun p hp => List.mem_toFinset.1 hp) (fun p hp => hp)).2
  -- Both orders consist of paths of documents, which their keys tell apart.
  have horder : ∀ p ∈ c.graph.dependencyOrder, p ∈ c.paths := by
    intro p hp
    obtain ⟨doc, hdoc, rfl⟩ := h.exists_of_mem_order hp
    exact List.mem_map_of_mem hdoc
  have hpost : ∀ p ∈ postOrder c.dependenciesOf c.paths.toFinset c.paths, p ∈ c.paths :=
    fun p hp => List.mem_toFinset.1 (mem_of_mem_postOrder hp)
  rw [← h.map_ofParts horder, hkeys, h.map_ofParts hpost]

/-- **Post-order**: whatever documents and imports are added to a graph, the dependency order
    is the post-order of the recursive traversal over the documents of the graph in their
    order and over the imports of each one in theirs. It is the same to go over the additions,
    from each document that one of them names to what they declare as its imports. And the
    order of a collection is the post-order over its documents as they were added and over
    the dependencies that each one records. -/
theorem dependencyOrder_eq_recursive :
    (∀ edits : List Edit,
      (ofEdits edits).dependencyOrder.map Path.parts =
          postOrder (ofEdits edits).childKeys (ofEdits edits).keys.toFinset
            (ofEdits edits).keys ∧
        (ofEdits edits).dependencyOrder.map Path.parts =
          postOrder (declaredKeys edits) (namedKeys edits).toFinset (namedKeys edits)) ∧
    ∀ c : Collection, Reachable c →
      c.graph.dependencyOrder = postOrder c.dependenciesOf c.paths.toFinset c.paths := by
  refine ⟨?_, ?_⟩
  · intro edits
    exact ⟨ImportGraph.dependencyOrder_eq_postOrder _, dependencyOrder_ofEdits edits⟩
  · intro c h
    exact h.wellFormed.dependencyOrder_graph

/-- The order of a document with imports, and of what could be read of them. -/
theorem threeImports_in_post_order :
    Reachable (addAll oneFile.reader { root := ⟨"/proj"⟩ } {} [threeImports]) ∧
    (addAll oneFile.reader { root := ⟨"/proj"⟩ } {} [threeImports]).graph.dependencyOrder =
      postOrder (addAll oneFile.reader { root := ⟨"/proj"⟩ } {} [threeImports]).dependenciesOf
        (addAll oneFile.reader { root := ⟨"/proj"⟩ } {} [threeImports]).paths.toFinset
        (addAll oneFile.reader { root := ⟨"/proj"⟩ } {} [threeImports]).paths := by
  have hreach := reachable_addAll (TextStore.canonical_reader oneFile) { root := ⟨"/proj"⟩ }
    [threeImports]
  exact ⟨hreach, dependencyOrder_eq_recursive.2 _ hreach⟩

end Collection

end SolidityBuild
