import SolidityBuild.Proofs.ImportGraph.Order
import Mathlib.Data.List.Induction

/-! # Completeness of the dependency order: whatever was added, once and after its imports

    A graph is what some additions of documents and imports make of the empty graph. Its
    documents are those that an addition names, and its imports are the added ones, up to the
    spelling of paths. So the dependency order can be read off the additions alone: it lists
    what they name, once, and an import before its importer unless it leads back to it.

    A walk is a total function, so an order is there for every graph, cyclic or not.
-/

namespace SolidityBuild.ImportGraph

/-! ## Additions -/

/-- One addition to a graph. -/
inductive Edit where
  | document (p : Path)
  /-- that the document at `importer` imports the one at `imported` -/
  | dependency (importer imported : Path)

/-- The keys of the documents that an addition names. -/
def Edit.keys : Edit → List Path.Key
  | .document p => [p.parts]
  | .dependency importer imported => [importer.parts, imported.parts]

/-- The graph after one more addition. -/
def edit (g : ImportGraph) : Edit → ImportGraph
  | .document p => g.addModule p
  | .dependency importer imported => g.addImport importer imported

/-- The graph that some additions make, in their order. -/
def ofEdits (edits : List Edit) : ImportGraph :=
  edits.foldl edit {}

/-- One of the additions says that the document with the key `key` imports the one with the
    key `other`. -/
def Declared (edits : List Edit) (key other : Path.Key) : Prop :=
  ∃ p q, .dependency p q ∈ edits ∧ p.parts = key ∧ q.parts = other

variable {g : ImportGraph} {e : Edit} {edits : List Edit} {p : Path} {key other : Path.Key}

/-! ## One addition -/

theorem Consistent.edit (h : g.Consistent) (e : Edit) : (g.edit e).Consistent := by
  cases e with
  | document p => exact h.addModule p
  | dependency p q => exact h.addImport p q

/-- An addition adds the documents that it names. -/
theorem mem_edit : key ∈ (g.edit e).nodes ↔ key ∈ e.keys ∨ key ∈ g.nodes := by
  cases e with
  | document p =>
    show key ∈ (g.addModule p).nodes ↔ key ∈ [p.parts] ∨ key ∈ g.nodes
    rw [mem_addModule, List.mem_singleton]
  | dependency p q =>
    show key ∈ (g.addImport p q).nodes ↔ key ∈ [p.parts, q.parts] ∨ key ∈ g.nodes
    rw [mem_addImport, List.mem_pair, or_assoc]

/-- An addition adds the import that it declares, if it declares one. -/
theorem imports_edit : (g.edit e).Imports key other ↔
    g.Imports key other ∨ Declared [e] key other := by
  unfold Declared
  cases e with
  | document p =>
    show (g.addModule p).Imports key other ↔ _
    simp [imports_addModule]
  | dependency p q =>
    show (g.addImport p q).Imports key other ↔ _
    rw [imports_addImport]
    apply or_congr_right
    constructor
    · intro h
      exact ⟨p, q, List.mem_singleton_self _, h.1.symm, h.2.symm⟩
    · intro h
      obtain ⟨p', q', hmem, hp, hq⟩ := h
      cases List.mem_singleton.1 hmem
      exact ⟨hp.symm, hq.symm⟩

/-! ## Any number of additions -/

theorem ofEdits_concat (edits : List Edit) (e : Edit) :
    ofEdits (edits ++ [e]) = (ofEdits edits).edit e :=
  List.foldl_append

theorem consistent_ofEdits (edits : List Edit) : (ofEdits edits).Consistent := by
  induction edits using List.reverseRec with
  | nil => exact consistent_empty
  | append_singleton edits e ih =>
    rw [ofEdits_concat]
    exact ih.edit e

/-- The documents of a graph are those that the additions name. -/
theorem mem_ofEdits : key ∈ (ofEdits edits).nodes ↔ ∃ e ∈ edits, key ∈ e.keys := by
  induction edits using List.reverseRec with
  | nil => simp [ofEdits]
  | append_singleton edits e ih =>
    rw [ofEdits_concat, mem_edit, ih]
    simp only [List.mem_append, List.mem_singleton, or_and_right, exists_or, exists_eq_left]
    exact or_comm

/-- The imports of a graph are the declared ones. -/
theorem imports_ofEdits : (ofEdits edits).Imports key other ↔ Declared edits key other := by
  induction edits using List.reverseRec with
  | nil => simp [ofEdits, Imports, Declared]
  | append_singleton edits e ih =>
    rw [ofEdits_concat, imports_edit, ih]
    unfold Declared
    simp only [List.mem_append, or_and_right, exists_or]

/-- So one document leads to another exactly through declared imports. -/
theorem reaches_ofEdits :
    (ofEdits edits).Reaches key other ↔ Relation.TransGen (Declared edits) key other := by
  have hsame : (ofEdits edits).Imports = Declared edits := by
    funext key other
    exact propext imports_ofEdits
  unfold Reaches
  rw [hsame]

/-! ## The order -/

/-- **Dependency order**: whatever documents and imports are added, in whatever order and
    under whatever spellings, the dependency order lists each document that an addition names
    once, and nothing else; of two documents, where one imports the other and the other does
    not lead back to it, the other comes first. Without cycles every import comes before its
    importer. -/
theorem dependencyOrder_complete (edits : List Edit) :
    ((ofEdits edits).dependencyOrder.map Path.parts).Nodup ∧
    (∀ key, key ∈ (ofEdits edits).dependencyOrder.map Path.parts ↔
      ∃ e ∈ edits, key ∈ e.keys) ∧
    (∀ p q, .dependency p q ∈ edits →
      ¬ Relation.TransGen (Declared edits) q.parts p.parts →
      [q.parts, p.parts].Sublist ((ofEdits edits).dependencyOrder.map Path.parts)) ∧
    ((∀ key, ¬ Relation.TransGen (Declared edits) key key) →
      ∀ p q, .dependency p q ∈ edits →
        [q.parts, p.parts].Sublist ((ofEdits edits).dependencyOrder.map Path.parts)) := by
  have hg : (ofEdits edits).Consistent := consistent_ofEdits edits
  have hbefore : ∀ p q, .dependency p q ∈ edits →
      ¬ Relation.TransGen (Declared edits) q.parts p.parts →
      [q.parts, p.parts].Sublist ((ofEdits edits).dependencyOrder.map Path.parts) := by
    intro p q hedit hnot
    apply sublist_dependencyOrder hg
    · exact imports_ofEdits.2 ⟨p, q, hedit, rfl, rfl⟩
    · rw [reaches_ofEdits]
      exact hnot
  refine ⟨?_, ?_, hbefore, ?_⟩
  · exact (dependencyOrder_perm hg).nodup_iff.2 hg.nodup
  · intro key
    rw [mem_map_dependencyOrder hg, mem_ofEdits]
  · intro hacyclic p q hedit
    apply hbefore p q hedit
    -- An import that leads back to its importer closes a cycle.
    intro hback
    have hedge : Declared edits p.parts q.parts := ⟨p, q, hedit, rfl, rfl⟩
    exact hacyclic p.parts (Relation.TransGen.head hedge hback)

end SolidityBuild.ImportGraph
