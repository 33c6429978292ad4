import SolidityBuild.CompilationSet
import SolidityBuild.Proofs.Collection.History
import SolidityBuild.Proofs.ImportGraph.Order

/-! # The graph of a collection: its documents and what they record

    The graph of any collection is consistent, and its imports are the recorded dependencies.
    In a well-formed collection paths are normal and dependencies are collected, so that the
    keys of the graph stand for the documents one to one, and the dependency order lists the
    paths of the documents.
-/

namespace SolidityBuild

theorem Path.eq_of_parts_eq {p q : Path} (hp : p.normalize = p) (hq : q.normalize = q)
    (h : p.parts = q.parts) : p = q := by
  rw [← ofParts_parts hp, h, ofParts_parts hq]

namespace Collection

open ImportGraph (Imports Spells Consistent)

/-! ## The graph of some documents -/

variable {g : ImportGraph} {doc : Document} {key other : Path.Key} {p : Path}

theorem consistent_addToGraph (h : g.Consistent) (doc : Document) :
    (addToGraph g doc).Consistent := by
  unfold addToGraph
  have hstart : (g.addModule doc.path).Consistent := h.addModule doc.path
  generalize g.addModule doc.path = start at hstart
  induction doc.dependencies generalizing start with
  | nil => exact hstart
  | cons dep deps ih => exact ih _ (hstart.addImport doc.path dep)

/-- A document adds itself and its dependencies. -/
theorem mem_addToGraph : key ∈ (addToGraph g doc).nodes ↔
    key ∈ (doc.path :: doc.dependencies).map Path.parts ∨ key ∈ g.nodes := by
  have hdeps : ∀ start : ImportGraph, doc.path.parts ∈ start.nodes →
      (key ∈ (doc.dependencies.foldl (fun g dep => g.addImport doc.path dep) start).nodes ↔
        key ∈ doc.dependencies.map Path.parts ∨ key ∈ start.nodes) := by
    induction doc.dependencies with
    | nil => simp
    | cons dep deps ih =>
      intro start hstart
      have hself : doc.path.parts ∈ (start.addImport doc.path dep).nodes :=
        ImportGraph.mem_addImport.2 (.inl rfl)
      have hnext : key ∈ (start.addImport doc.path dep).nodes ↔
          key = dep.parts ∨ key ∈ start.nodes := by
        rw [ImportGraph.mem_addImport]
        constructor
        · rintro (rfl | hkey)
          · exact .inr hstart
          · exact hkey
        · exact .inr
      rw [List.foldl_cons, ih _ hself, hnext, List.map_cons, List.mem_cons, ← or_assoc,
        or_comm (b := key = dep.parts)]
  unfold addToGraph
  rw [hdeps _ (ImportGraph.mem_addModule.2 (.inl rfl)), ImportGraph.mem_addModule, ← or_assoc,
    List.map_cons, List.mem_cons, or_comm (b := key = doc.path.parts)]

/-- A document adds its dependencies as imports. -/
theorem imports_addToGraph : (addToGraph g doc).Imports key other ↔
    g.Imports key other ∨ key = doc.path.parts ∧ other ∈ doc.dependencies.map Path.parts := by
  have hdeps : ∀ start : ImportGraph,
      (doc.dependencies.foldl (fun g dep => g.addImport doc.path dep) start).Imports key other ↔
        start.Imports key other ∨
          key = doc.path.parts ∧ other ∈ doc.dependencies.map Path.parts := by
    induction doc.dependencies with
    | nil => simp
    | cons dep deps ih =>
      intro start
      rw [List.foldl_cons, ih, ImportGraph.imports_addImport, List.map_cons, List.mem_cons,
        and_or_left, or_assoc]
  unfold addToGraph
  rw [hdeps, ImportGraph.imports_addModule]

theorem spells_addToGraph (h : (addToGraph g doc).Spells p) :
    p = doc.path ∨ p ∈ doc.dependencies ∨ g.Spells p := by
  unfold addToGraph at h
  have hstart : ∀ start : ImportGraph,
      (doc.dependencies.foldl (fun g dep => g.addImport doc.path dep) start).Spells p →
        p = doc.path ∨ p ∈ doc.dependencies ∨ start.Spells p := by
    induction doc.dependencies with
    | nil => exact fun start h => .inr (.inr h)
    | cons dep deps ih =>
      intro start h
      rcases ih _ h with h | h | h
      · exact .inl h
      · exact .inr (.inl (List.mem_cons_of_mem _ h))
      · rcases ImportGraph.spells_addImport h with h | h | h
        · exact .inl h
        · rw [h]
          exact .inr (.inl (List.mem_cons_self ..))
        · exact .inr (.inr h)
  rcases hstart _ h with h | h | h
  · exact .inl h
  · exact .inr (.inl h)
  · rcases ImportGraph.spells_addModule h with h | h
    · exact .inl h
    · exact .inr (.inr h)

variable (c : Collection)

theorem consistent_graph : c.graph.Consistent := by
  unfold graph
  induction c.documents using List.reverseRec with
  | nil => exact ImportGraph.consistent_empty
  | append_singleton docs doc ih =>
    rw [List.foldl_append]
    exact consistent_addToGraph ih doc

/-- The order lists no path twice. -/
theorem nodup_dependencyOrder : c.graph.dependencyOrder.Nodup := by
  have hparts := ImportGraph.dependencyOrder_perm c.consistent_graph
  exact List.Nodup.of_map Path.parts (hparts.nodup_iff.2 c.consistent_graph.nodup)

theorem mem_graph {doc : Document} (hdoc : doc ∈ c.documents) :
    doc.path.parts ∈ c.graph.nodes := by
  unfold graph
  generalize c.documents = docs at hdoc
  induction docs using List.reverseRec with
  | nil => cases hdoc
  | append_singleton docs last ih =>
    rw [List.foldl_append]
    refine mem_addToGraph.2 ?_
    rcases List.mem_append.1 hdoc with hdoc | hdoc
    · exact .inr (ih hdoc)
    · rw [List.mem_singleton.1 hdoc]
      exact .inl (List.mem_cons_self ..)

/-- The imports of the graph are the recorded dependencies. -/
theorem imports_graph_iff : c.graph.Imports key other ↔
    ∃ p q, c.Records p q ∧ p.parts = key ∧ q.parts = other := by
  have hdocs : c.graph.Imports key other ↔ ∃ doc ∈ c.documents,
      key = doc.path.parts ∧ other ∈ doc.dependencies.map Path.parts := by
    unfold graph
    induction c.documents using List.reverseRec with
    | nil => simp [Imports]
    | append_singleton docs doc ih =>
      rw [List.foldl_append]
      refine imports_addToGraph.trans ?_
      rw [ih]
      simp only [List.mem_append, List.mem_singleton, or_and_right, exists_or, exists_eq_left]
  rw [hdocs]
  constructor
  · rintro ⟨doc, hdoc, rfl, hother⟩
    obtain ⟨q, hq, rfl⟩ := List.mem_map.1 hother
    exact ⟨doc.path, q, ⟨doc, hdoc, rfl, hq⟩, rfl, rfl⟩
  · rintro ⟨p, q, ⟨doc, hdoc, rfl, hq⟩, rfl, rfl⟩
    exact ⟨doc, hdoc, rfl, List.mem_map_of_mem hq⟩

theorem spells_graph (h : c.graph.Spells p) :
    (∃ doc ∈ c.documents, doc.path = p) ∨ ∃ q, c.Records q p := by
  have hdocs : ∃ doc ∈ c.documents, p = doc.path ∨ p ∈ doc.dependencies := by
    unfold graph at h
    generalize c.documents = docs at h
    induction docs using List.reverseRec with
    | nil =>
      rcases h with h | ⟨key, node, hnode, -⟩
      · exact absurd h (Array.not_mem_empty p)
      · simp at hnode
    | append_singleton docs doc ih =>
      rw [List.foldl_append] at h
      rcases spells_addToGraph h with h | h | h
      · exact ⟨doc, by simp, .inl h⟩
      · exact ⟨doc, by simp, .inr h⟩
      · obtain ⟨d, hd, hp⟩ := ih h
        exact ⟨d, List.mem_append_left _ hd, hp⟩
  obtain ⟨doc, hdoc, hp | hp⟩ := hdocs
  · exact .inl ⟨doc, hdoc, hp.symm⟩
  · exact .inr ⟨doc.path, doc, hdoc, rfl, hp⟩

/-! ## The order of a well-formed collection -/

variable {c}

/-- In a well-formed collection every path of the graph is that of a document. -/
theorem WellFormed.exists_of_spells (h : WellFormed c) (hp : c.graph.Spells p) :
    ∃ doc ∈ c.documents, doc.path = p := by
  rcases c.spells_graph hp with hdoc | ⟨q, hq⟩
  · exact hdoc
  · exact (has_iff c p).1 (h.closed q p hq)

theorem WellFormed.exists_of_mem_order (h : WellFormed c) (hp : p ∈ c.graph.dependencyOrder) :
    ∃ doc ∈ c.documents, doc.path = p :=
  h.exists_of_spells (ImportGraph.spells_of_mem_dependencyOrder c.consistent_graph hp)

/-- A path of the graph with the parts of a document's path is that path. -/
theorem WellFormed.eq_of_parts_eq (h : WellFormed c) (hp : p ∈ c.graph.dependencyOrder)
    {doc : Document} (hdoc : doc ∈ c.documents) (hparts : p.parts = doc.path.parts) :
    p = doc.path := by
  obtain ⟨d, hd, rfl⟩ := h.exists_of_mem_order hp
  exact Path.eq_of_parts_eq (h.normal d hd) (h.normal doc hdoc) hparts

/-- The dependency order lists the path of every document once. -/
theorem WellFormed.order_perm (h : WellFormed c) :
    c.graph.dependencyOrder.Perm (c.documents.map Document.path) := by
  have hparts := ImportGraph.dependencyOrder_perm c.consistent_graph
  refine (List.perm_ext_iff_of_nodup c.nodup_dependencyOrder h.keyed).2 ?_
  intro p
  constructor
  · intro hp
    obtain ⟨doc, hdoc, rfl⟩ := h.exists_of_mem_order hp
    exact List.mem_map_of_mem hdoc
  · intro hp
    obtain ⟨doc, hdoc, rfl⟩ := List.mem_map.1 hp
    have hkey : doc.path.parts ∈ c.graph.dependencyOrder.map Path.parts :=
      hparts.mem_iff.2 ((c.consistent_graph.mem_iff _).1 (c.mem_graph hdoc))
    obtain ⟨q, hq, hqparts⟩ := List.mem_map.1 hkey
    rw [← h.eq_of_parts_eq hq hdoc hqparts]
    exact hq

/-- What leads to a document in the graph does so through recorded dependencies. -/
theorem WellFormed.reaches (h : WellFormed c)
    (hreaches : c.graph.Reaches key other) :
    Relation.TransGen c.Records (Path.ofParts key) (Path.ofParts other) := by
  refine Relation.TransGen.lift Path.ofParts ?_ _ _ hreaches
  intro key other himports
  obtain ⟨p, q, hrecords, rfl, rfl⟩ := c.imports_graph_iff.1 himports
  obtain ⟨doc, hdoc, rfl⟩ := (has_iff c q).1 (h.closed p q hrecords)
  obtain ⟨importer, himporter, rfl, -⟩ := id hrecords
  show c.Records (Path.ofParts importer.path.parts) (Path.ofParts doc.path.parts)
  rw [Path.ofParts_parts (h.normal doc hdoc), Path.ofParts_parts (h.normal importer himporter)]
  exact hrecords

/-- A document comes after each dependency that does not lead to it. -/
theorem WellFormed.order_sublist (h : WellFormed c) {u v : Document} (hu : u ∈ c.documents)
    (hv : v ∈ c.documents) (hrecords : c.Records u.path v.path)
    (hnot : ¬ Relation.TransGen c.Records v.path u.path) :
    [v.path, u.path].Sublist c.graph.dependencyOrder := by
  have himports : c.graph.Imports u.path.parts v.path.parts :=
    c.imports_graph_iff.2 ⟨u.path, v.path, hrecords, rfl, rfl⟩
  have hback : ¬ c.graph.Reaches v.path.parts u.path.parts := by
    intro hreaches
    have hpath := h.reaches hreaches
    rw [Path.ofParts_parts (h.normal v hv), Path.ofParts_parts (h.normal u hu)] at hpath
    exact hnot hpath
  obtain ⟨pair, hpair, hparts⟩ := List.sublist_map_iff.1
    (ImportGraph.sublist_dependencyOrder c.consistent_graph himports hback)
  obtain ⟨q, rest, rfl, hq, hrest⟩ := List.map_eq_cons_iff.1 hparts.symm
  obtain ⟨p, rfl, hp⟩ := List.map_eq_singleton_iff.1 hrest
  -- Documents are spelled in one way only, so the keys give the paths.
  have hqv : q = v.path := h.eq_of_parts_eq (hpair.subset (by simp)) hv hq
  have hpu : p = u.path := h.eq_of_parts_eq (hpair.subset (by simp)) hu hp
  rw [← hqv, ← hpu]
  exact hpair

end Collection

end SolidityBuild
