import SolidityBuild.ImportGraph.Basic
import Mathlib.Data.List.Nodup
import Mathlib.Logic.Relation

/-! # Construction of import graphs: what every graph keeps

    A graph grows by documents and by imports between them. Whatever is added, its order lists
    the documents, each once, and an import always leads to a document of the graph. Adding a
    document adds no import, and adding an import adds exactly that one.
-/

namespace SolidityBuild.ImportGraph

/-! ## Views of a graph -/

/-- The document with the key `key` imports one with the key `other`. -/
def Imports (g : ImportGraph) (key other : Path.Key) : Prop :=
  ∃ node, g.nodes[key]? = some node ∧ ∃ q ∈ node.imports, q.parts = other

/-- The path is spelled like this in the graph: as a document or as an import. -/
def Spells (g : ImportGraph) (p : Path) : Prop :=
  p ∈ g.order ∨ ∃ (key : Path.Key) (node : ImportNode), g.nodes[key]? = some node ∧ p ∈ node.imports

/-- The order lists the documents, each once, and imports lead to documents. -/
structure Consistent (g : ImportGraph) : Prop where
  nodup : (g.order.toList.map Path.parts).Nodup
  mem_iff : ∀ key, key ∈ g.nodes ↔ key ∈ g.order.toList.map Path.parts
  closed : ∀ key other, g.Imports key other → other ∈ g.nodes

variable {g : ImportGraph} {p q : Path} {key other : Path.Key}

theorem mem_importsOf : q ∈ g.importsOf p ↔
    ∃ node, g.nodes[p.parts]? = some node ∧ q ∈ node.imports := by
  unfold importsOf get?
  cases g.nodes[p.parts]? <;> simp

theorem imports_iff_importsOf :
    g.Imports p.parts other ↔ ∃ q ∈ g.importsOf p, q.parts = other := by
  simp only [mem_importsOf, Imports]
  constructor
  · rintro ⟨node, hnode, q, hq, hother⟩
    exact ⟨q, ⟨node, hnode, hq⟩, hother⟩
  · rintro ⟨q, ⟨node, hnode, hq⟩, hother⟩
    exact ⟨node, hnode, q, hq, hother⟩

theorem spells_of_mem_importsOf (h : q ∈ g.importsOf p) : g.Spells q := by
  obtain ⟨node, hnode, hq⟩ := mem_importsOf.1 h
  exact .inr ⟨p.parts, node, hnode, hq⟩

theorem consistent_empty : Consistent {} := by
  refine ⟨List.nodup_nil, ?_, ?_⟩
  · intro key
    simp
  · rintro key other ⟨node, hnode, -⟩
    simp at hnode

/-! ## One more document -/

theorem addModule_of_mem (h : p.parts ∈ g.nodes) : g.addModule p = g := by
  unfold addModule
  rw [if_pos (Std.HashMap.contains_iff_mem.2 h)]

theorem addModule_of_not_mem (h : p.parts ∉ g.nodes) :
    g.addModule p =
      { order := g.order.push p, nodes := g.nodes.insert p.parts { path := p } } := by
  unfold addModule
  rw [if_neg (fun hcontains => h (Std.HashMap.contains_iff_mem.1 hcontains))]

theorem mem_addModule : key ∈ (g.addModule p).nodes ↔ key = p.parts ∨ key ∈ g.nodes := by
  by_cases h : p.parts ∈ g.nodes
  · rw [addModule_of_mem h]
    constructor
    · exact .inr
    · rintro (rfl | hkey)
      · exact h
      · exact hkey
  · rw [addModule_of_not_mem h, Std.HashMap.mem_insert, beq_iff_eq, eq_comm]

/-- A new document has no imports yet. -/
theorem imports_addModule : (g.addModule p).Imports key other ↔ g.Imports key other := by
  by_cases h : p.parts ∈ g.nodes
  · rw [addModule_of_mem h]
  · rw [addModule_of_not_mem h]
    unfold Imports
    by_cases hkey : p.parts = key
    · subst hkey
      simp [Std.HashMap.getElem?_eq_none h]
    · simp [Std.HashMap.getElem?_insert, hkey]

theorem spells_addModule (h : (g.addModule p).Spells q) : q = p ∨ g.Spells q := by
  by_cases hmem : p.parts ∈ g.nodes
  · rw [addModule_of_mem hmem] at h
    exact .inr h
  · rw [addModule_of_not_mem hmem] at h
    rcases h with h | ⟨key, node, hnode, hq⟩
    · rcases Array.mem_push.1 h with h | h
      · exact .inr (.inl h)
      · exact .inl h
    · right
      by_cases hkey : p.parts = key
      · subst hkey
        simp only [Std.HashMap.getElem?_insert_self, Option.some.injEq] at hnode
        subst hnode
        cases hq
      · refine .inr ⟨key, node, ?_, hq⟩
        rw [Std.HashMap.getElem?_insert, if_neg (by simpa using hkey)] at hnode
        exact hnode

theorem Consistent.addModule (h : g.Consistent) (p : Path) : (g.addModule p).Consistent := by
  by_cases hmem : p.parts ∈ g.nodes
  · rw [addModule_of_mem hmem]
    exact h
  · have hclosed : ∀ key other, (g.addModule p).Imports key other →
        other ∈ (g.addModule p).nodes := by
      intro key other himports
      exact mem_addModule.2 (.inr (h.closed key other (imports_addModule.1 himports)))
    have horder : (g.addModule p).order.toList.map Path.parts =
        g.order.toList.map Path.parts ++ [p.parts] := by
      rw [addModule_of_not_mem hmem, Array.toList_push, List.map_append, List.map_singleton]
    refine ⟨?_, ?_, hclosed⟩
    · rw [horder]
      refine List.nodup_append.2 ⟨h.nodup, List.nodup_singleton _, ?_⟩
      intro key hkey other hother heq
      rw [heq, List.mem_singleton.1 hother, ← h.mem_iff] at hkey
      exact hmem hkey
    · intro key
      rw [horder, mem_addModule, List.mem_append, List.mem_singleton, h.mem_iff, or_comm]

/-! ## One more import -/

/-- The node of a document lists one import more, if it does not list it already. -/
theorem exists_mem_addImport (node : ImportNode) :
    (∃ q' ∈ (node.addImport q).imports, q'.parts = other) ↔
      (∃ q' ∈ node.imports, q'.parts = other) ∨ other = q.parts := by
  unfold ImportNode.addImport
  by_cases hany : node.imports.any q.same = true
  · rw [if_pos hany]
    constructor
    · exact .inl
    · rintro (h | rfl)
      · exact h
      · obtain ⟨q', hq', hsame⟩ := List.any_eq_true.1 hany
        exact ⟨q', hq', (of_decide_eq_true hsame).symm⟩
  · rw [if_neg hany]
    simp only [List.mem_append, List.mem_singleton]
    constructor
    · rintro ⟨q', hq' | rfl, hother⟩
      · exact .inl ⟨q', hq', hother⟩
      · exact .inr hother.symm
    · rintro (⟨q', hq', hother⟩ | rfl)
      · exact ⟨q', .inl hq', hother⟩
      · exact ⟨q, .inr rfl, rfl⟩

theorem mem_of_mem_addImport {node : ImportNode} {r : Path}
    (h : r ∈ (node.addImport q).imports) : r ∈ node.imports ∨ r = q := by
  unfold ImportNode.addImport at h
  by_cases hany : node.imports.any q.same = true
  · rw [if_pos hany] at h
    exact .inl h
  · rw [if_neg hany] at h
    simpa using h

/-- The graph where the node of `p` lists the import `q`. -/
def link (g : ImportGraph) (p q : Path) : ImportGraph :=
  { g with nodes := g.nodes.alter p.parts fun node => node.map (·.addImport q) }

theorem addImport_eq_link (g : ImportGraph) (p q : Path) :
    g.addImport p q = ((g.addModule p).addModule q).link p q := rfl

theorem getElem?_link : (g.link p q).nodes[key]? =
    if p.parts = key then g.nodes[p.parts]?.map (·.addImport q) else g.nodes[key]? := by
  unfold link
  rw [Std.HashMap.getElem?_alter]
  simp only [beq_iff_eq]

theorem mem_link : key ∈ (g.link p q).nodes ↔ key ∈ g.nodes := by
  rw [← Std.HashMap.isSome_getElem?_iff_mem, ← Std.HashMap.isSome_getElem?_iff_mem,
    getElem?_link]
  by_cases hkey : p.parts = key
  · rw [if_pos hkey, Option.isSome_map, hkey]
  · rw [if_neg hkey]

theorem imports_link (h : p.parts ∈ g.nodes) : (g.link p q).Imports key other ↔
    g.Imports key other ∨ key = p.parts ∧ other = q.parts := by
  unfold Imports
  rw [getElem?_link]
  by_cases hkey : p.parts = key
  · subst hkey
    obtain ⟨node, hnode⟩ := Option.isSome_iff_exists.1 (Std.HashMap.isSome_getElem?_iff_mem.2 h)
    simp only [if_true, hnode, Option.map_some, Option.some.injEq, exists_eq_left', true_and]
    exact exists_mem_addImport node
  · simp only [if_neg hkey, Ne.symm hkey, false_and, or_false]

theorem spells_link {r : Path} (h : (g.link p q).Spells r) : r = q ∨ g.Spells r := by
  rcases h with h | ⟨key, node, hnode, hr⟩
  · exact .inr (.inl h)
  · rw [getElem?_link] at hnode
    by_cases hkey : p.parts = key
    · rw [if_pos hkey] at hnode
      obtain ⟨old, hold, rfl⟩ := Option.map_eq_some_iff.1 hnode
      rcases mem_of_mem_addImport hr with hr | hr
      · exact .inr (.inr ⟨p.parts, old, hold, hr⟩)
      · exact .inl hr
    · rw [if_neg hkey] at hnode
      exact .inr (.inr ⟨key, node, hnode, hr⟩)

theorem mem_addImport :
    key ∈ (g.addImport p q).nodes ↔ key = p.parts ∨ key = q.parts ∨ key ∈ g.nodes := by
  rw [addImport_eq_link, mem_link, mem_addModule, mem_addModule]
  tauto

/-- Adding an import adds exactly that one. -/
theorem imports_addImport : (g.addImport p q).Imports key other ↔
    g.Imports key other ∨ key = p.parts ∧ other = q.parts := by
  have hmem : p.parts ∈ ((g.addModule p).addModule q).nodes :=
    mem_addModule.2 (.inr (mem_addModule.2 (.inl rfl)))
  rw [addImport_eq_link, imports_link hmem, imports_addModule, imports_addModule]

theorem spells_addImport {r : Path} (h : (g.addImport p q).Spells r) :
    r = p ∨ r = q ∨ g.Spells r := by
  rw [addImport_eq_link] at h
  rcases spells_link h with h | h
  · exact .inr (.inl h)
  · rcases spells_addModule h with h | h
    · exact .inr (.inl h)
    · rcases spells_addModule h with h | h
      · exact .inl h
      · exact .inr (.inr h)

theorem Consistent.addImport (h : g.Consistent) (p q : Path) : (g.addImport p q).Consistent := by
  have hgrown : ((g.addModule p).addModule q).Consistent := (h.addModule p).addModule q
  refine ⟨hgrown.nodup, ?_, ?_⟩
  · intro key
    rw [addImport_eq_link, mem_link]
    exact hgrown.mem_iff key
  · intro key other himports
    rw [mem_addImport]
    rcases imports_addImport.1 himports with himports | ⟨-, rfl⟩
    · exact .inr (.inr (h.closed key other himports))
    · exact .inr (.inl rfl)

end SolidityBuild.ImportGraph
