import SolidityBuild.Collection
import Mathlib.Data.List.Induction
import Mathlib.Data.List.Nodup
import Mathlib.Logic.Relation

/-! # Growth of a collection: what following imports adds

    Adding a document runs a worklist. One step follows the imports of one document: it
    reads the targets that are not collected yet, puts them behind the documents that are
    there, and lists them for a step of their own. This module states what one import can
    do (`Progress.Followed`), what one step does (`Batch`), which invariant the steps keep
    (`Grows`), and what is left when the worklist is empty.

    Dependencies and failures are recorded on a document after it is collected, so the
    invariant compares documents by their `bare` form, which has neither.
-/

namespace SolidityBuild

/-! ## Links between documents -/

/-- An import of the file under `importer` resolves to a path with the key `key`. -/
def SourceReader.LeadsTo (reader : SourceReader) (project : Project) (importer : Path)
    (specifier : String) (key : Path) : Prop :=
  ∃ r, Resolution.resolve reader project importer specifier = .ok r ∧ reader.key r.path = key

/-- There is a text under a key. -/
def SourceReader.Readable (reader : SourceReader) (key : Path) : Prop :=
  ∃ text, reader.read key = .ok text

/-- One of the documents has the key `p` and an import that leads to `q`. -/
def SourceReader.Linked (reader : SourceReader) (project : Project) (docs : List Document)
    (p q : Path) : Prop :=
  ∃ doc ∈ docs, doc.path = p ∧ ∃ specifier ∈ doc.imports, reader.LeadsTo project p specifier q

theorem SourceReader.LeadsTo.unique {reader : SourceReader} {project : Project}
    {importer p q : Path} {specifier : String} (hp : reader.LeadsTo project importer specifier p)
    (hq : reader.LeadsTo project importer specifier q) : p = q := by
  obtain ⟨r, hr, rfl⟩ := hp
  obtain ⟨r', hr', rfl⟩ := hq
  rw [hr] at hr'
  rw [Except.ok.inj hr']

namespace Document

/-- A document without what following its imports came to. -/
def bare (doc : Document) : Document :=
  { doc with dependencies := [], errors := [] }

@[simp] theorem bare_path (doc : Document) : doc.bare.path = doc.path := rfl

@[simp] theorem bare_imports (doc : Document) : doc.bare.imports = doc.imports := rfl

@[simp] theorem bare_ofText (path : Path) (code : String) (origin : Origin) :
    (ofText path code origin).bare = ofText path code origin := rfl

/-- A document as it is when an import has just been read. -/
def Fetched (reader : SourceReader) (doc : Document) : Prop :=
  ∃ text, reader.read doc.path = .ok text ∧ doc = ofText doc.path text .disk

theorem Fetched.bare {reader : SourceReader} {doc : Document} (h : doc.Fetched reader) :
    doc.bare = doc := by
  obtain ⟨text, _, heq⟩ := h
  rw [heq, bare_ofText]

end Document

namespace Collection

/-- No two documents have one key. -/
def Keyed (c : Collection) : Prop :=
  (c.documents.map Document.path).Nodup

theorem has_iff (c : Collection) (key : Path) :
    c.has key = true ↔ ∃ doc ∈ c.documents, doc.path = key := by
  simp [has]

theorem has_iff_mem_paths (c : Collection) (key : Path) :
    c.has key = true ↔ key ∈ c.documents.map Document.path := by
  simp [has]

/-- With different keys, the document under a key is the one that has it. -/
theorem Keyed.get?_eq_some_iff {c : Collection} (h : c.Keyed) {key : Path} {doc : Document} :
    c.get? key = some doc ↔ doc ∈ c.documents ∧ doc.path = key := by
  constructor
  · intro hget
    have hpath := List.find?_some hget
    exact ⟨List.mem_of_find?_eq_some hget, by simpa using hpath⟩
  · rintro ⟨hmem, hpath⟩
    cases hget : c.get? key with
    | none =>
      have hnone := List.find?_eq_none.1 hget doc hmem
      simp [hpath] at hnone
    | some other =>
      have hpath' := List.find?_some hget
      have heq : other = doc := List.inj_on_of_nodup_map h (List.mem_of_find?_eq_some hget) hmem
        (by simpa [hpath] using hpath')
      rw [heq]

/-! ## One import -/

namespace Progress

/-- What following one import can come to. Notices are left open. -/
inductive Followed (reader : SourceReader) (project : Project) (importer : Path)
    (specifier : String) (s : Progress) : Progress → Prop where
  /-- The import leads nowhere. -/
  | unresolved (e : ResolutionError) (notices : List Notice)
      (hresolve : Resolution.resolve reader project importer specifier = .error e) :
      Followed reader project importer specifier s
        { s with errors := s.errors ++ [.unresolved e], notices }
  /-- The target is collected. -/
  | present (key : Path) (notices : List Notice)
      (hleads : reader.LeadsTo project importer specifier key)
      (hhas : s.collection.has key = true) :
      Followed reader project importer specifier s { s.depend key with notices }
  /-- The target is read and collected. -/
  | fetched (key : Path) (text : String) (notices : List Notice)
      (hleads : reader.LeadsTo project importer specifier key)
      (hnew : s.collection.has key = false) (hread : reader.read key = .ok text) :
      Followed reader project importer specifier s
        { s.depend key with
          collection := s.collection.push (.ofText key text .disk)
          found := key :: s.found
          notices }
  /-- The target cannot be read. -/
  | unreadable (key : Path) (e : ReadError) (notices : List Notice)
      (hleads : reader.LeadsTo project importer specifier key)
      (hnew : s.collection.has key = false) (hread : reader.read key = .error e) :
      Followed reader project importer specifier s
        { s with errors := s.errors ++ [.unreadable specifier key e], notices }

theorem follow_followed (reader : SourceReader) (project : Project) (importer : Path)
    (s : Progress) (specifier : String) :
    Followed reader project importer specifier s
      (s.follow reader project importer specifier) := by
  unfold follow
  cases hresolve : Resolution.resolve reader project importer specifier with
  | error e => exact .unresolved e _ hresolve
  | ok resolved =>
    have hleads : reader.LeadsTo project importer specifier (reader.key resolved.path) :=
      ⟨resolved, hresolve, rfl⟩
    cases hhas : s.collection.has (reader.key resolved.path) with
    | true =>
      simp only [tell, hhas, if_true]
      exact .present _ _ hleads hhas
    | false =>
      simp only [tell, hhas, Bool.false_eq_true, if_false]
      cases hread : reader.read (reader.key resolved.path) with
      | ok text =>
        simp only [readNew, hread]
        exact .fetched _ _ _ hleads hhas hread
      | error e =>
        simp only [readNew, hread]
        exact .unreadable _ e _ hleads hhas hread

end Progress

/-! ## The imports of one document -/

/-- The resolvable imports of a document have their targets collected, as far as these can
    be read. -/
def Settled (reader : SourceReader) (project : Project) (c : Collection) (doc : Document) :
    Prop :=
  ∀ specifier ∈ doc.imports, ∀ key, reader.LeadsTo project doc.path specifier key →
    reader.Readable key → c.has key = true

/-- What following the imports `done` of the document under `importer` comes to: the
    documents `batch` are read and put behind those of `c`. -/
structure Batch (reader : SourceReader) (project : Project) (importer : Path)
    (c : Collection) (done : List String) (s : Progress) (batch : List Document) : Prop where
  documents : s.collection.documents = c.documents ++ batch
  found : s.found = (batch.map Document.path).reverse
  keyed : s.collection.Keyed
  fetched : ∀ doc ∈ batch, doc.Fetched reader
  linked : ∀ doc ∈ batch, ∃ specifier ∈ done,
    reader.LeadsTo project importer specifier doc.path
  settled : ∀ specifier ∈ done, ∀ key, reader.LeadsTo project importer specifier key →
    reader.Readable key → s.collection.has key = true

variable {reader : SourceReader} {project : Project}

theorem Keyed.push {c : Collection} (h : c.Keyed) {doc : Document}
    (hnew : c.has doc.path = false) : (c.push doc).Keyed := by
  unfold Keyed Collection.push
  rw [List.map_append]
  refine List.nodup_append.2 ⟨h, List.nodup_singleton _, ?_⟩
  intro key hkey other hother
  rw [List.map_singleton, List.mem_singleton] at hother
  rintro rfl
  rw [hother, ← has_iff_mem_paths, hnew] at hkey
  exact Bool.false_ne_true hkey

/-- One more import extends the batch by the document that it reads, if it reads one. -/
theorem Batch.step {importer : Path} {c : Collection} {done : List String} {s s' : Progress}
    {batch : List Document} {specifier : String}
    (h : Batch reader project importer c done s batch)
    (hstep : Progress.Followed reader project importer specifier s s') :
    ∃ batch', Batch reader project importer c (done ++ [specifier]) s' batch' := by
  have hdone : ∀ doc ∈ batch, ∃ other ∈ done ++ [specifier],
      reader.LeadsTo project importer other doc.path := by
    intro doc hdoc
    obtain ⟨other, hother, hleads⟩ := h.linked doc hdoc
    exact ⟨other, List.mem_append_left _ hother, hleads⟩
  -- An import that adds nothing keeps the batch; only its own target is left to check.
  have hsame : s'.collection = s.collection → s'.found = s.found →
      (∀ key, reader.LeadsTo project importer specifier key → reader.Readable key →
        s.collection.has key = true) →
      ∃ batch', Batch reader project importer c (done ++ [specifier]) s' batch' := by
    intro hcollection hfound htarget
    refine ⟨batch, ?_, ?_, ?_, h.fetched, hdone, ?_⟩
    · rw [hcollection, h.documents]
    · rw [hfound, h.found]
    · rw [hcollection]
      exact h.keyed
    · rw [hcollection]
      intro other hother key hleads hread
      rcases List.mem_append.1 hother with hother | hother
      · exact h.settled other hother key hleads hread
      · rw [List.mem_singleton.1 hother] at hleads
        exact htarget key hleads hread
  cases hstep with
  | unresolved e notices hresolve =>
    apply hsame rfl rfl
    rintro key ⟨r, hr, -⟩
    rw [hresolve] at hr
    cases hr
  | present key notices hleads hhas =>
    apply hsame rfl rfl
    intro other hother _
    rw [hother.unique hleads]
    exact hhas
  | unreadable key e notices hleads hnew hread =>
    apply hsame rfl rfl
    rintro other hother ⟨text, htext⟩
    rw [hother.unique hleads, hread] at htext
    cases htext
  | fetched key text notices hleads hnew hread =>
    refine ⟨batch ++ [.ofText key text .disk], ?_, ?_, ?_, ?_, ?_, ?_⟩
    · show (s.collection.push _).documents = _
      rw [Collection.push, h.documents, List.append_assoc]
    · show key :: s.found = _
      rw [h.found, List.map_append, List.reverse_append]
      rfl
    · exact h.keyed.push hnew
    · intro doc hdoc
      rcases List.mem_append.1 hdoc with hdoc | hdoc
      · exact h.fetched doc hdoc
      · rw [List.mem_singleton.1 hdoc]
        exact ⟨text, hread, rfl⟩
    · intro doc hdoc
      rcases List.mem_append.1 hdoc with hdoc | hdoc
      · exact hdone doc hdoc
      · rw [List.mem_singleton.1 hdoc]
        exact ⟨specifier, by simp, hleads⟩
    · intro other hother q hq hreadable
      rw [has_push]
      rcases List.mem_append.1 hother with hother | hother
      · rw [h.settled other hother q hq hreadable, Bool.true_or]
      · rw [List.mem_singleton.1 hother] at hq
        rw [hq.unique hleads]
        simp [Document.ofText]

/-- Following all imports of a document adds a batch. -/
theorem exists_batch (reader : SourceReader) (project : Project) {c : Collection} (h : c.Keyed)
    (doc : Document) :
    ∃ batch, Batch reader project doc.path c doc.imports (c.followAll reader project doc)
      batch := by
  unfold followAll
  induction doc.imports using List.reverseRec with
  | nil =>
    refine ⟨[], ?_, rfl, h, ?_, ?_, ?_⟩
    · simp
    · simp
    · simp
    · simp
  | append_singleton done specifier ih =>
    obtain ⟨batch, hbatch⟩ := ih
    rw [List.foldl_append]
    exact hbatch.step (Progress.follow_followed reader project doc.path _ specifier)

/-! ## The worklist -/

/-- The collection after one step of the worklist: the imports of a document are followed,
    and what that came to is recorded on it. -/
def visit (c : Collection) (reader : SourceReader) (project : Project) (doc : Document) :
    Collection :=
  let s := c.followAll reader project doc
  s.collection.record doc.path s.dependencies s.errors

/-- What holds of the collection `c'` while `root` is added to `c`. The documents of `c` are
    as they were; behind them stand `root` and the documents read for it, each linked to
    `root` through documents of this addition; and all of these are settled, those on the
    worklist excepted. -/
structure Grows (reader : SourceReader) (project : Project) (c : Collection)
    (root : Document) (waiting : List Path) (c' : Collection) (fresh : List Document) :
    Prop where
  documents : ∃ added, c'.documents = c.documents ++ added ∧
    added.map Document.bare = root :: fresh
  keyed : c'.Keyed
  fetched : ∀ doc ∈ fresh, doc.Fetched reader
  linked : ∀ doc ∈ fresh,
    Relation.TransGen (reader.Linked project (root :: fresh)) root.path doc.path
  waits : ∀ key ∈ waiting, key ∈ (root :: fresh).map Document.path
  settled : ∀ doc ∈ root :: fresh, doc.path ∈ waiting ∨ Settled reader project c' doc

theorem Settled.mono {c c' : Collection} {doc : Document} (h : Settled reader project c doc)
    (hle : ∀ key, c.has key = true → c'.has key = true) : Settled reader project c' doc := by
  intro specifier hspecifier key hleads hread
  exact hle key (h specifier hspecifier key hleads hread)

theorem linked_mono {docs docs' : List Document} (h : docs ⊆ docs') {p q : Path}
    (hlink : reader.Linked project docs p q) : reader.Linked project docs' p q := by
  obtain ⟨doc, hdoc, hpath, himport⟩ := hlink
  exact ⟨doc, h hdoc, hpath, himport⟩

theorem chain_mono {docs docs' : List Document} (h : docs ⊆ docs') {p q : Path}
    (hchain : Relation.TransGen (reader.Linked project docs) p q) :
    Relation.TransGen (reader.Linked project docs') p q :=
  Relation.TransGen.mono (fun _ _ => linked_mono h) p q hchain

theorem bare_record (c : Collection) (key : Path) (dependencies : List Path)
    (errors : List ImportError) :
    (c.record key dependencies errors).documents.map Document.bare =
      c.documents.map Document.bare := by
  rw [record, List.map_map]
  apply List.map_congr_left
  intro doc _
  by_cases h : doc.path = key
  · simp [h, Document.bare]
  · simp [h]

theorem paths_eq_of_bare_eq {docs docs' : List Document}
    (h : docs.map Document.bare = docs'.map Document.bare) :
    docs.map Document.path = docs'.map Document.path := by
  have hpaths := congrArg (List.map Document.path) h
  rw [List.map_map, List.map_map] at hpaths
  exact hpaths

theorem Keyed.record {c : Collection} (h : c.Keyed) (key : Path) (dependencies : List Path)
    (errors : List ImportError) : (c.record key dependencies errors).Keyed := by
  unfold Keyed
  rw [paths_eq_of_bare_eq (bare_record c key dependencies errors)]
  exact h

/-- Recording on a document leaves those before it as they are. -/
theorem record_append_of_not_mem {docs : List Document} {key : Path}
    (h : key ∉ docs.map Document.path) (more : List Document) (dependencies : List Path)
    (errors : List ImportError) :
    (Collection.record ⟨docs ++ more⟩ key dependencies errors).documents =
      docs ++ (Collection.record ⟨more⟩ key dependencies errors).documents := by
  simp only [Collection.record, List.map_append]
  congr 1
  conv_rhs => rw [← List.map_id docs]
  apply List.map_congr_left
  intro doc hdoc
  have hne : doc.path ≠ key := by
    rintro rfl
    exact h (List.mem_map_of_mem hdoc)
  simp [hne]

/-- A step changes no document that comes before those of the addition. -/
theorem documents_visit {c c' : Collection} {doc : Document} {added batch : List Document}
    (hdocs : c'.documents = c.documents ++ added)
    (hbatch : Batch reader project doc.path c' doc.imports (c'.followAll reader project doc)
      batch)
    (hold : doc.path ∉ c.documents.map Document.path) :
    (c'.visit reader project doc).documents =
      c.documents ++ (Collection.record ⟨added ++ batch⟩ doc.path
        (c'.followAll reader project doc).dependencies
        (c'.followAll reader project doc).errors).documents := by
  have hall : (c'.followAll reader project doc).collection =
      ⟨c.documents ++ (added ++ batch)⟩ := by
    rw [← List.append_assoc, ← hdocs, ← hbatch.documents]
  rw [visit, hall]
  exact record_append_of_not_mem hold _ _ _

namespace Grows

variable {c c' : Collection} {root doc : Document} {waiting : List Path} {key : Path}
  {fresh : List Document}

/-- The documents of one addition have the keys of `root` and of the documents read. -/
theorem paths_added {added : List Document} (h : added.map Document.bare = root :: fresh) :
    added.map Document.path = (root :: fresh).map Document.path := by
  rw [← h, List.map_map]
  rfl

/-- The keys of one addition are not among those from before, and they differ. -/
theorem nodup_paths (h : Grows reader project c root waiting c' fresh) :
    (c.documents.map Document.path ++ (root :: fresh).map Document.path).Nodup := by
  obtain ⟨added, hdocs, hbare⟩ := h.documents
  have hkeyed := h.keyed
  unfold Keyed at hkeyed
  rwa [hdocs, List.map_append, paths_added hbare] at hkeyed

theorem not_mem_old (h : Grows reader project c root waiting c' fresh)
    (hkey : key ∈ (root :: fresh).map Document.path) : key ∉ c.documents.map Document.path :=
  fun hold => (List.nodup_append.1 h.nodup_paths).2.2 key hold key hkey rfl

/-- A document of one addition is found under its key in its bare form. -/
theorem bare_mem (h : Grows reader project c root waiting c' fresh)
    (hmem : doc ∈ c'.documents) (hkey : doc.path ∈ (root :: fresh).map Document.path) :
    doc.bare ∈ root :: fresh := by
  obtain ⟨added, hdocs, hbare⟩ := h.documents
  rw [hdocs] at hmem
  rcases List.mem_append.1 hmem with hold | hadded
  · exact absurd (List.mem_map_of_mem hold) (h.not_mem_old hkey)
  · rw [← hbare]
    exact List.mem_map_of_mem hadded

theorem eq_of_path_eq (h : Grows reader project c root waiting c' fresh) {doc' : Document}
    (hdoc : doc ∈ root :: fresh) (hdoc' : doc' ∈ root :: fresh) (hpath : doc.path = doc'.path) :
    doc = doc' :=
  List.inj_on_of_nodup_map (List.nodup_append.1 h.nodup_paths).2.1 hdoc hdoc' hpath

/-- The documents of one addition are collected. -/
theorem has_added (h : Grows reader project c root waiting c' fresh)
    (hkey : key ∈ (root :: fresh).map Document.path) : c'.has key = true := by
  obtain ⟨added, hdocs, hbare⟩ := h.documents
  rw [has_iff_mem_paths, hdocs, List.map_append, paths_added hbare]
  exact List.mem_append_right _ hkey

/-- Before the first step, only `root` is added and waits. -/
theorem start {path : Path} {code : String} {origin : Origin} (h : c.Keyed)
    (hnew : c.has path = false) :
    Grows reader project c (.ofText path code origin) [path]
      (c.push (.ofText path code origin)) [] := by
  refine ⟨⟨[.ofText path code origin], rfl, rfl⟩, h.push hnew, ?_, ?_, ?_, ?_⟩
  · intro doc hdoc
    cases hdoc
  · intro doc hdoc
    cases hdoc
  · intro key hkey
    simpa [Document.ofText] using hkey
  · intro doc hdoc
    left
    rw [List.mem_singleton.1 hdoc]
    exact List.mem_singleton.2 rfl

/-- A key on the worklist is that of a collected document. -/
theorem exists_get? (h : Grows reader project c root (key :: waiting) c' fresh) :
    ∃ doc, c'.get? key = some doc := by
  have hhas : c'.has key = true := h.has_added (h.waits key (List.mem_cons_self ..))
  obtain ⟨doc, hdoc, hpath⟩ := (has_iff c' key).1 hhas
  exact ⟨doc, h.keyed.get?_eq_some_iff.2 ⟨hdoc, hpath⟩⟩

/-- One step of the worklist keeps the invariant. -/
theorem step (h : Grows reader project c root (key :: waiting) c' fresh)
    (hget : c'.get? key = some doc) :
    ∃ fresh', Grows reader project c root
      ((c'.followAll reader project doc).found ++ waiting) (c'.visit reader project doc)
      fresh' := by
  obtain ⟨batch, hbatch⟩ := exists_batch reader project h.keyed doc
  obtain ⟨hmem, rfl⟩ := h.keyed.get?_eq_some_iff.1 hget
  obtain ⟨added, hdocs, hbare⟩ := h.documents
  have hkey : doc.path ∈ (root :: fresh).map Document.path := h.waits _ (List.mem_cons_self ..)
  have hself : doc.bare ∈ root :: fresh := h.bare_mem hmem hkey
  have hbatchbare : batch.map Document.bare = batch := by
    conv_rhs => rw [← List.map_id batch]
    exact List.map_congr_left fun d hd => (hbatch.fetched d hd).bare
  have hsub : root :: fresh ⊆ root :: (fresh ++ batch) := by
    rw [← List.cons_append]
    exact List.subset_append_left _ _
  have hhas : ∀ q, c'.has q = true → (c'.visit reader project doc).has q = true := by
    intro q hq
    rw [visit, has_record, has_iff, hbatch.documents]
    obtain ⟨d, hd, hdq⟩ := (has_iff c' q).1 hq
    exact ⟨d, List.mem_append_left _ hd, hdq⟩
  refine ⟨fresh ++ batch, ?_, hbatch.keyed.record _ _ _, ?_, ?_, ?_, ?_⟩
  · refine ⟨_, documents_visit hdocs hbatch (h.not_mem_old hkey), ?_⟩
    rw [bare_record, List.map_append, hbare, hbatchbare, List.cons_append]
  · intro d hd
    rcases List.mem_append.1 hd with hd | hd
    · exact h.fetched d hd
    · exact hbatch.fetched d hd
  · intro d hd
    rcases List.mem_append.1 hd with hd | hd
    · exact chain_mono hsub (h.linked d hd)
    · -- The batch is linked to the visited document, which is `root` or linked to it.
      obtain ⟨specifier, hspecifier, hleads⟩ := hbatch.linked d hd
      have hlast : reader.Linked project (root :: (fresh ++ batch)) doc.path d.path :=
        ⟨doc.bare, hsub hself, rfl, specifier, hspecifier, hleads⟩
      rcases List.mem_cons.1 hself with hroot | hfresh
      · have hpath : doc.bare.path = root.path := by rw [hroot]
        rw [← hpath]
        exact .single hlast
      · exact (chain_mono hsub (h.linked doc.bare hfresh)).tail hlast
  · intro q hq
    rcases List.mem_append.1 hq with hq | hq
    · rw [hbatch.found, List.mem_reverse] at hq
      rw [← List.cons_append, List.map_append]
      exact List.mem_append_right _ hq
    · exact List.map_subset _ hsub (h.waits q (List.mem_cons_of_mem _ hq))
  · intro d hd
    rw [← List.cons_append] at hd
    rcases List.mem_append.1 hd with hd | hd
    · rcases h.settled d hd with hwait | hsettled
      · rcases List.mem_cons.1 hwait with hvisited | hwait
        · -- The visited document itself: its batch holds what it needs.
          have hd : d = doc.bare := h.eq_of_path_eq hd hself hvisited
          right
          intro specifier hspecifier q hleads hread
          rw [visit, has_record]
          rw [hd] at hspecifier hleads
          exact hbatch.settled specifier hspecifier q hleads hread
        · exact .inl (List.mem_append_right _ hwait)
      · exact .inr (hsettled.mono hhas)
    · left
      rw [hbatch.found]
      exact List.mem_append_left _ (List.mem_reverse.2 (List.mem_map_of_mem hd))

/-- Working the list off keeps the invariant and leaves nothing waiting. -/
theorem close (notices : Array Notice)
    (h : Grows reader project c root waiting c' fresh) :
    ∃ fresh', Grows reader project c root []
      (Collection.close reader project c' notices waiting).1 fresh' := by
  induction c', notices, waiting using Collection.close.induct reader project
    generalizing fresh with
  | case1 c' notices =>
    rw [Collection.close]
    exact ⟨fresh, h⟩
  | case2 c' notices key waiting hget ih =>
    obtain ⟨doc, hdoc⟩ := h.exists_get?
    rw [hget] at hdoc
    cases hdoc
  | case3 c' notices key waiting doc hget s =>
    rename_i ih
    rw [Collection.close, hget]
    obtain ⟨fresh', hfresh⟩ := h.step hget
    obtain ⟨-, rfl⟩ := h.keyed.get?_eq_some_iff.1 hget
    exact ih hfresh

end Grows

/-! ## Adding a document -/

theorem add_of_has {c : Collection} {path : Path} (h : c.has (reader.key path) = true)
    (code : String) (origin : Origin) :
    (c.add reader project path code origin).collection = c := by
  simp only [add, h, if_true]

/-- Adding a document whose key is new adds it and the documents read for it. -/
theorem exists_grows_add (reader : SourceReader) (project : Project) {c : Collection}
    (h : c.Keyed) {path : Path} (hnew : c.has (reader.key path) = false) (code : String)
    (origin : Origin) :
    ∃ fresh, Grows reader project c (.ofText (reader.key path) code origin) []
      (c.add reader project path code origin).collection fresh := by
  simp only [add, hnew, Bool.false_eq_true, if_false]
  exact (Grows.start h hnew).close #[]

/-- An addition answers whether its key was missing. -/
theorem added_add (reader : SourceReader) (project : Project) (c : Collection) (path : Path)
    (code : String) (origin : Origin) :
    (c.add reader project path code origin).added = !c.has (reader.key path) := by
  unfold add
  cases hhas : c.has (reader.key path) with
  | true => simp only [hhas, if_true, Bool.not_true]
  | false => simp only [hhas, Bool.false_eq_true, if_false, Bool.not_false]

/-- After an addition its key is collected. -/
theorem has_add (reader : SourceReader) (project : Project) {c : Collection} (h : c.Keyed)
    (path : Path) (code : String) (origin : Origin) :
    (c.add reader project path code origin).collection.has (reader.key path) = true := by
  cases hhas : c.has (reader.key path) with
  | true => rwa [add_of_has hhas]
  | false =>
    obtain ⟨fresh, hgrows⟩ := exists_grows_add reader project h hhas code origin
    exact hgrows.has_added (List.mem_cons_self ..)

end Collection

end SolidityBuild
