import SolidityBuild.Proofs.Collection.Accounting

/-! # Histories: collections that grew while the files changed

    Between two additions files may be edited and the project may be another one. The closure
    of `addAll` is then lost, but a collection still keeps its shape: every document stands
    under one normal path of its own, and what a document records as a dependency is
    collected.
-/

namespace SolidityBuild

/-- The keys of a reader are normal paths. -/
def SourceReader.Canonical (reader : SourceReader) : Prop :=
  ∀ p, (reader.key p).normalize = reader.key p

theorem TextStore.canonical_reader (s : TextStore) : s.reader.Canonical :=
  Path.normalize_normalize

/-- The real paths of a disk are normal when its entries have names of one segment. -/
theorem Disk.canonical_reader (d : Disk) (hnames : ∀ name ∈ d.tree.names, Path.IsName name) :
    d.reader.Canonical := by
  intro p
  show (d.key p).normalize = d.key p
  unfold Disk.key
  split
  · rename_i real hreal
    obtain ⟨⟨address, node⟩, hnode, rfl⟩ := List.mem_map.1 (Disk.mem_nodes_of_realPath hreal)
    apply Path.normalize_ofNames
    intro name hname
    exact hnames name (List.mem_flatMap.2 ⟨_, hnode, hname⟩)
  · exact Path.normalize_normalize _

namespace Collection

/-- One addition to a collection: the texts as they are then, the project, and the offer. -/
structure Call where
  store : TextStore
  project : Project
  offer : Offer

/-- The collection after one more call. -/
def call (c : Collection) (k : Call) : Collection :=
  (c.add k.store.reader k.project k.offer.path k.offer.code k.offer.origin).collection

/-- The collection after some calls, in their order. -/
def ofCalls (calls : List Call) : Collection :=
  calls.foldl call {}

/-- The document under `p` records `q` as a dependency. -/
def Records (c : Collection) (p q : Path) : Prop :=
  ∃ doc ∈ c.documents, doc.path = p ∧ q ∈ doc.dependencies

/-- The shape that a collection keeps whatever happens to the files. -/
structure WellFormed (c : Collection) : Prop where
  keyed : c.Keyed
  normal : ∀ doc ∈ c.documents, doc.path.normalize = doc.path
  closed : ∀ p q, c.Records p q → c.has q = true

theorem wellFormed_empty : WellFormed {} := by
  refine ⟨List.nodup_nil, ?_, ?_⟩
  · intro doc hdoc
    cases hdoc
  · rintro p q ⟨doc, hdoc, -⟩
    cases hdoc

variable {reader : SourceReader} {project : Project} {c c' : Collection} {root : Document}
  {fresh : List Document}

/-- What an addition reads stands under the key of the import that leads to it. -/
theorem Grows.exists_key {doc : Document} (h : Grows reader project c root [] c' fresh)
    (hdoc : doc ∈ fresh) : ∃ q, doc.path = reader.key q := by
  -- Only the last link of the chain matters.
  obtain ⟨p, -, d, -, -, specifier, -, r, -, hkey⟩ :=
    Relation.TransGen.tail'_iff.1 (h.linked doc hdoc)
  exact ⟨r.path, hkey.symm⟩

/-- An addition adds documents under keys of its reader. -/
theorem exists_key_of_mem_add (hkeyed : c.Keyed) {path : Path} {code : String}
    {origin : Origin} {doc : Document}
    (hdoc : doc ∈ (c.add reader project path code origin).collection.documents) :
    doc ∈ c.documents ∨ ∃ q, doc.path = reader.key q := by
  cases hhas : c.has (reader.key path) with
  | true =>
    rw [add_of_has hhas] at hdoc
    exact .inl hdoc
  | false =>
    obtain ⟨fresh, hgrows⟩ := exists_grows_add reader project hkeyed hhas code origin
    obtain ⟨added, hdocs, hbare⟩ := hgrows.documents
    rw [hdocs] at hdoc
    rcases List.mem_append.1 hdoc with hold | hnew
    · exact .inl hold
    · right
      have hmem : doc.bare ∈ Document.ofText (reader.key path) code origin :: fresh := by
        rw [← hbare]
        exact List.mem_map_of_mem hnew
      rcases List.mem_cons.1 hmem with hroot | hfresh
      · have hpath : doc.bare.path = reader.key path := by rw [hroot]; rfl
        exact ⟨path, hpath⟩
      · show ∃ q, doc.bare.path = reader.key q
        exact hgrows.exists_key hfresh

/-- A document that an addition accounts for has its dependencies collected. -/
theorem Grows.has_dependency {doc : Document} {key : Path}
    (h : Grows reader project c root [] c' fresh)
    (hmem : doc.bare ∈ root :: fresh)
    (haccounted : doc.Accounted reader project (c.push root).has)
    (hkey : key ∈ doc.dependencies) : c'.has key = true := by
  obtain ⟨specifier, hspecifier, hleads, htarget⟩ := haccounted.mem_dependencies_iff.1 hkey
  rcases htarget with hpresent | hread
  · rw [has_push, Bool.or_eq_true, decide_eq_true_iff] at hpresent
    rcases hpresent with hold | hroot
    · exact h.has_of_has hold
    · rw [← hroot]
      exact h.has_added (List.mem_cons_self ..)
  · rcases h.settled doc.bare hmem with hwaits | hsettled
    · cases hwaits
    · exact hsettled specifier hspecifier key hleads hread

/-- Every addition with normal keys keeps the shape. -/
theorem WellFormed.add (h : WellFormed c) (hkeys : reader.Canonical) (project : Project)
    (path : Path) (code : String) (origin : Origin) :
    WellFormed (c.add reader project path code origin).collection := by
  cases hhas : c.has (reader.key path) with
  | true =>
    rw [add_of_has hhas]
    exact h
  | false =>
    obtain ⟨fresh, hgrows⟩ := exists_grows_add reader project h.keyed hhas code origin
    obtain ⟨added, hdocs, hadded⟩ := accounts_add reader project h.keyed hhas code origin
    have hbare : ∀ doc ∈ added,
        doc.bare ∈ Document.ofText (reader.key path) code origin :: fresh := by
      intro doc hdoc
      obtain ⟨added', hdocs', hbare⟩ := hgrows.documents
      rw [← hbare, ← List.append_cancel_left (hdocs.symm.trans hdocs')]
      exact List.mem_map_of_mem hdoc
    refine ⟨hgrows.keyed, ?_, ?_⟩
    · intro doc hdoc
      rcases exists_key_of_mem_add h.keyed hdoc with hold | ⟨q, hq⟩
      · exact h.normal doc hold
      · rw [hq]
        exact hkeys q
    · rintro p q ⟨doc, hdoc, -, hq⟩
      rw [hdocs] at hdoc
      rcases List.mem_append.1 hdoc with hold | hnew
      · exact hgrows.has_of_has (h.closed doc.path q ⟨doc, hold, rfl, hq⟩)
      · rcases hadded doc hnew with hwaits | haccounted
        · cases hwaits
        · exact hgrows.has_dependency (hbare doc hnew) haccounted hq

/-- A collection that additions lead to. Between two of them anything may change: the files,
    the project and the way to read. -/
inductive Reachable : Collection → Prop where
  | empty : Reachable {}
  | add {c : Collection} (h : Reachable c) (reader : SourceReader) (hkeys : reader.Canonical)
      (project : Project) (path : Path) (code : String) (origin : Origin) :
      Reachable (c.add reader project path code origin).collection

theorem Reachable.wellFormed (h : Reachable c) : WellFormed c := by
  induction h with
  | empty => exact wellFormed_empty
  | add _ reader hkeys project path code origin ih =>
    exact ih.add hkeys project path code origin

theorem reachable_addAll (hkeys : reader.Canonical) (project : Project) (offers : List Offer) :
    Reachable (addAll reader project {} offers) := by
  induction offers using List.reverseRec with
  | nil => exact .empty
  | append_singleton before o ih =>
    rw [addAll_concat]
    exact ih.add reader hkeys project o.path o.code o.origin

/-- Every call keeps the shape. -/
theorem WellFormed.call (h : WellFormed c) (k : Call) : WellFormed (c.call k) :=
  h.add k.store.canonical_reader k.project k.offer.path k.offer.code k.offer.origin

/-- Every collection has the shape, whatever the calls were. -/
theorem wellFormed_ofCalls (calls : List Call) : WellFormed (ofCalls calls) := by
  unfold ofCalls
  induction calls using List.reverseRec with
  | nil => exact wellFormed_empty
  | append_singleton before k ih =>
    rw [List.foldl_append]
    exact ih.call k

end Collection

end SolidityBuild
