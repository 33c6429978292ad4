import SolidityBuild.Proofs.Collection.History
import SolidityBuild.Proofs.Disk.RealPath

/-! # Canonical keys: which documents are found again

    A collection over a disk keeps a document under the key of the path that it was added or
    imported by. Whoever looks it up by its own path asks for the key of that key. So a
    document is found again exactly if it does not stand under a redirected path.
-/

namespace SolidityBuild

namespace Collection

variable {reader : SourceReader} {c : Collection} {doc : Document}

/-- A collection that additions over one reader lead to. Each of them may have a project of its
    own. -/
inductive Over (reader : SourceReader) : Collection → Prop where
  | empty : Over reader {}
  | add {c : Collection} (h : Over reader c) (project : Project) (path : Path) (code : String)
      (origin : Origin) : Over reader (c.add reader project path code origin).collection

theorem Over.wellFormed (h : Over reader c) (hkeys : reader.Canonical) : WellFormed c := by
  induction h with
  | empty => exact wellFormed_empty
  | add _ project path code origin ih => exact ih.add hkeys project path code origin

/-- Its documents stand under keys. -/
theorem Over.exists_key (h : Over reader c) (hkeys : reader.Canonical)
    (hdoc : doc ∈ c.documents) : ∃ p, doc.path = reader.key p := by
  induction h with
  | empty => cases hdoc
  | add h project path code origin ih =>
    rcases exists_key_of_mem_add (h.wellFormed hkeys).keyed hdoc with hold | hkey
    · exact ih hold
    · exact hkey

end Collection

namespace Disk

open Collection (Over)

variable {d : Disk} {c : Collection} {doc : Document}

theorem Proper.canonical_reader (hd : d.Proper) : d.reader.Canonical :=
  d.canonical_reader hd.named

/-- A document of a collection over a disk stands under its own key, unless its path is
    redirected. -/
theorem Proper.key_path_iff (hd : d.Proper) (h : Over d.reader c) (hdoc : doc ∈ c.documents) :
    d.key doc.path = doc.path ↔ ¬ d.Redirected doc.path := by
  obtain ⟨p, hp⟩ := h.exists_key hd.canonical_reader hdoc
  obtain ⟨names, hkey, hnames⟩ := hd.exists_key_eq p
  rw [show doc.path = _ from hp.trans hkey]
  exact hd.key_ofNames_iff hnames

/-- **Canonical keys**: the key of a path is its own key, unless the path leads nowhere and its
    normal form leads through a link to something. A document of a collection over a disk is
    there for its own path, is what is found there, and keeps the path from being added again,
    exactly if that path does not lead through a link to something. What was added by a path
    is never added again by the same path. -/
theorem key_canonical_iff {d : Disk} (hd : d.Proper) :
    (∀ p, d.key (d.key p) = d.key p ↔ ¬ d.Resurfaces p) ∧
    ∀ c, Over d.reader c →
      (∀ doc ∈ c.documents,
        (c.has (d.reader.key doc.path) = true ∧ c.get? (d.reader.key doc.path) = some doc ∧
          ∀ project code origin, (c.add d.reader project doc.path code origin).added = false) ↔
        ¬ d.Redirected doc.path) ∧
      ∀ p project project' code code' origin origin',
        ((c.add d.reader project p code origin).collection.add d.reader project' p code'
          origin').added = false := by
  refine ⟨hd.key_key_iff, ?_⟩
  intro c hc
  have hkeyed : c.Keyed := (hc.wellFormed hd.canonical_reader).keyed
  refine ⟨?_, ?_⟩
  · intro doc hdoc
    rw [← hd.key_path_iff hc hdoc]
    constructor
    · intro h
      exact (hkeyed.get?_eq_some_iff.1 h.2.1).2.symm
    · intro hkey
      have hsame : d.reader.key doc.path = doc.path := hkey
      have hhas : c.has doc.path = true := (Collection.has_iff c doc.path).2 ⟨doc, hdoc, rfl⟩
      rw [hsame]
      refine ⟨hhas, hkeyed.get?_eq_some_iff.2 ⟨hdoc, rfl⟩, ?_⟩
      intro project code origin
      rw [Collection.added_add, hsame, hhas]
      rfl
  · intro p project project' code code' origin origin'
    rw [Collection.added_add, Collection.has_add d.reader project hkeyed]
    rfl

/-! ## A link beside its target -/

/-- A directory with a source and a link to it. -/
def linkedDisk : Disk where
  tree := .dir [("a.sol", .link "b.sol"), ("b.sol", .file "contract B \x7b\x7d".toUTF8 none)]
  cwd := []

theorem proper_linkedDisk : linkedDisk.Proper where
  named := by
    show ∀ name ∈ ["a.sol", "b.sol"], Path.IsName name
    unfold Path.IsName
    decide
  grounded := ⟨_, rfl⟩

/-- The collection with one source, added by some path of that disk. -/
def linkedCollection (p : Path) : Collection :=
  (({} : Collection).add linkedDisk.reader { root := ⟨"/"⟩ } p "contract B \x7b\x7d"
    .buffer).collection

theorem over_linkedCollection (p : Path) : Over linkedDisk.reader (linkedCollection p) :=
  .add .empty { root := ⟨"/"⟩ } p "contract B \x7b\x7d" .buffer

theorem exists_mem_linkedCollection (p : Path) :
    ∃ doc ∈ (linkedCollection p).documents, doc.path = linkedDisk.key p := by
  have hkeyed : ({} : Collection).Keyed := List.nodup_nil
  have hhas := Collection.has_add linkedDisk.reader { root := ⟨"/"⟩ } hkeyed p
    "contract B \x7b\x7d" .buffer
  exact (Collection.has_iff _ _).1 hhas

/-- The source that is added by the link's path stands under the path of the file, and is found
    there. -/
theorem linked_source_found :
    linkedDisk.key (linkedDisk.key ⟨"/a.sol"⟩) = linkedDisk.key ⟨"/a.sol"⟩ ∧
    ∃ doc ∈ (linkedCollection ⟨"/a.sol"⟩).documents, doc.path = ⟨"/b.sol"⟩ ∧
      (linkedCollection ⟨"/a.sol"⟩).get? (linkedDisk.reader.key doc.path) = some doc := by
  obtain ⟨hkeys, hcollections⟩ := key_canonical_iff proper_linkedDisk
  have hreal : linkedDisk.realPath ⟨"/a.sol"⟩ = .ok ⟨"/b.sol"⟩ := rfl
  have hkey := key_of_realPath hreal
  refine ⟨(hkeys _).2 ?_, ?_⟩
  · rintro ⟨⟨e, herror⟩, -⟩
    cases hreal.symm.trans herror
  · obtain ⟨doc, hdoc, hpath⟩ := exists_mem_linkedCollection ⟨"/a.sol"⟩
    rw [hkey] at hpath
    refine ⟨doc, hdoc, hpath, ?_⟩
    apply (((hcollections _ (over_linkedCollection _)).1 doc hdoc).2 ?_).2.1
    rw [hpath]
    exact proper_linkedDisk.not_redirected_realPath hreal

/-- Behind a missing directory and `..`, the link's path leads nowhere, so it is its own normal
    form that becomes the key. That key leads through the link, and the source that stands
    under it is not found by its path. -/
theorem linked_source_not_found :
    linkedDisk.key ⟨"/missing/../a.sol"⟩ = ⟨"/a.sol"⟩ ∧
    linkedDisk.key ⟨"/a.sol"⟩ = ⟨"/b.sol"⟩ ∧
    ∃ doc ∈ (linkedCollection ⟨"/missing/../a.sol"⟩).documents,
      doc.path = ⟨"/a.sol"⟩ ∧
      (linkedCollection ⟨"/missing/../a.sol"⟩).get? (linkedDisk.reader.key doc.path) ≠
        some doc := by
  have hkey : linkedDisk.key ⟨"/missing/../a.sol"⟩ = ⟨"/a.sol"⟩ := rfl
  have hkey' : linkedDisk.key ⟨"/a.sol"⟩ = ⟨"/b.sol"⟩ := rfl
  obtain ⟨doc, hdoc, hpath⟩ := exists_mem_linkedCollection ⟨"/missing/../a.sol"⟩
  rw [hkey] at hpath
  refine ⟨hkey, hkey', doc, hdoc, hpath, ?_⟩
  intro hget
  -- What is found under a key has that key as its path.
  have hfound : doc.path = linkedDisk.reader.key doc.path := by
    simpa using List.find?_some hget
  change doc.path = linkedDisk.key doc.path at hfound
  rw [hpath, hkey'] at hfound
  exact absurd hfound (by decide)

end Disk

end SolidityBuild
