import SolidityBuild.Proofs.Collection.Closure
import SolidityBuild.Proofs.Resolution.Places

/-! # Accounting: what becomes of each import of a document

    The imports of a document are followed once, while it is added or read. Each of them ends
    as a dependency or as a failure, and which of the two depends on little: a target that
    can be read is always a dependency, any other one is a dependency exactly if it is there
    already. What is read on the way can be read, so for all documents of one addition it is
    enough to look at the collection from before the addition, with the offered document.

    Main statement: after any sequence of offers, each import of each document is accounted
    for once, in order.
-/

namespace SolidityBuild

/-! ## One import -/

/-- What an import of the file under `importer` comes to while the keys that satisfy `present`
    are collected: the key that it leads to, if that one is present or can be read. -/
def SourceReader.outcome (reader : SourceReader) (project : Project) (present : Path → Bool)
    (importer : Path) (specifier : String) : Except ImportError Path :=
  match Resolution.resolve reader project importer specifier with
  | .error e => .error (.unresolved e)
  | .ok r =>
    if present (reader.key r.path) then .ok (reader.key r.path)
    else match reader.read (reader.key r.path) with
      | .ok _ => .ok (reader.key r.path)
      | .error e => .error (.unreadable specifier (reader.key r.path) e)

namespace SourceReader

variable {reader : SourceReader} {project : Project} {present present' : Path → Bool}
  {importer key : Path} {specifier : String}

theorem outcome_of_unresolved {e : ResolutionError}
    (hresolve : Resolution.resolve reader project importer specifier = .error e) :
    reader.outcome project present importer specifier = .error (.unresolved e) := by
  simp only [outcome, hresolve]

theorem outcome_of_present (hleads : reader.LeadsTo project importer specifier key)
    (hpresent : present key = true) :
    reader.outcome project present importer specifier = .ok key := by
  obtain ⟨r, hresolve, rfl⟩ := hleads
  simp only [outcome, hresolve, hpresent, if_true]

theorem outcome_of_readable (hleads : reader.LeadsTo project importer specifier key)
    (hread : reader.Readable key) :
    reader.outcome project present importer specifier = .ok key := by
  obtain ⟨r, hresolve, rfl⟩ := hleads
  obtain ⟨text, hread⟩ := hread
  simp only [outcome, hresolve, hread, ite_self]

theorem outcome_of_unreadable {e : ReadError}
    (hleads : reader.LeadsTo project importer specifier key) (hnew : present key = false)
    (hread : reader.read key = .error e) :
    reader.outcome project present importer specifier =
      .error (.unreadable specifier key e) := by
  obtain ⟨r, hresolve, rfl⟩ := hleads
  simp only [outcome, hresolve, hnew, hread, Bool.false_eq_true, if_false]

/-- The three ways in which an import can end, each with its reason. -/
theorem outcome_cases (reader : SourceReader) (project : Project) (present : Path → Bool)
    (importer : Path) (specifier : String) :
    (∃ e, Resolution.resolve reader project importer specifier = .error e ∧
      reader.outcome project present importer specifier = .error (.unresolved e)) ∨
    (∃ key, reader.LeadsTo project importer specifier key ∧
      (present key = true ∨ reader.Readable key) ∧
      reader.outcome project present importer specifier = .ok key) ∨
    (∃ key e, reader.LeadsTo project importer specifier key ∧ present key = false ∧
      reader.read key = .error e ∧
      reader.outcome project present importer specifier =
        .error (.unreadable specifier key e)) := by
  cases hresolve : Resolution.resolve reader project importer specifier with
  | error e => exact .inl ⟨e, rfl, outcome_of_unresolved hresolve⟩
  | ok r =>
    have hleads : reader.LeadsTo project importer specifier (reader.key r.path) :=
      ⟨r, hresolve, rfl⟩
    cases hpresent : present (reader.key r.path) with
    | true => exact .inr (.inl ⟨_, hleads, .inl hpresent, outcome_of_present hleads hpresent⟩)
    | false =>
      cases hread : reader.read (reader.key r.path) with
      | ok text => exact .inr (.inl ⟨_, hleads, .inr ⟨text, hread⟩,
          outcome_of_readable hleads ⟨text, hread⟩⟩)
      | error e => exact .inr (.inr ⟨_, e, hleads, hpresent, hread,
          outcome_of_unreadable hleads hpresent hread⟩)

/-- An import becomes a dependency exactly if its target is present or can be read. -/
theorem outcome_eq_ok_iff :
    reader.outcome project present importer specifier = .ok key ↔
      reader.LeadsTo project importer specifier key ∧
        (present key = true ∨ reader.Readable key) := by
  constructor
  · intro h
    rcases outcome_cases reader project present importer specifier with
      ⟨e, -, heq⟩ | ⟨other, hleads, htarget, heq⟩ | ⟨other, e, -, -, -, heq⟩
    · rw [heq] at h
      cases h
    · rw [heq] at h
      cases h
      exact ⟨hleads, htarget⟩
    · rw [heq] at h
      cases h
  · rintro ⟨hleads, hpresent | hread⟩
    · exact outcome_of_present hleads hpresent
    · exact outcome_of_readable hleads hread

/-- Only for a target that cannot be read it matters what is present. -/
theorem outcome_congr
    (h : ∀ key, reader.LeadsTo project importer specifier key → ¬ reader.Readable key →
      present key = present' key) :
    reader.outcome project present importer specifier =
      reader.outcome project present' importer specifier := by
  rcases outcome_cases reader project present importer specifier with
    ⟨e, hresolve, heq⟩ | ⟨key, hleads, htarget, heq⟩ | ⟨key, e, hleads, hnew, hread, heq⟩
  · rw [heq, outcome_of_unresolved hresolve]
  · rw [heq]
    by_cases hread : reader.Readable key
    · rw [outcome_of_readable hleads hread]
    · rw [outcome_of_present hleads]
      rw [← h key hleads hread]
      exact htarget.resolve_right hread
  · have hnot : ¬ reader.Readable key := by
      rintro ⟨text, htext⟩
      rw [hread] at htext
      cases htext
    rw [heq, outcome_of_unreadable hleads _ hread]
    rw [← h key hleads hnot]
    exact hnew

end SourceReader

namespace Document

/-- The keys that some imports lead to, one for each of them that does not fail. -/
def targets (outcomes : List (Except ImportError Path)) : List Path :=
  outcomes.filterMap fun
    | .ok key => some key
    | .error _ => none

/-- The failures of some imports, in order. -/
def failures (outcomes : List (Except ImportError Path)) : List ImportError :=
  outcomes.filterMap fun
    | .ok _ => none
    | .error e => some e

@[simp] theorem targets_concat_ok (outcomes : List (Except ImportError Path)) (key : Path) :
    targets (outcomes ++ [.ok key]) = targets outcomes ++ [key] :=
  List.filterMap_append

@[simp] theorem targets_concat_error (outcomes : List (Except ImportError Path))
    (e : ImportError) : targets (outcomes ++ [.error e]) = targets outcomes := by
  simp [targets]

@[simp] theorem failures_concat_ok (outcomes : List (Except ImportError Path)) (key : Path) :
    failures (outcomes ++ [.ok key]) = failures outcomes := by
  simp [failures]

@[simp] theorem failures_concat_error (outcomes : List (Except ImportError Path))
    (e : ImportError) : failures (outcomes ++ [.error e]) = failures outcomes ++ [e] :=
  List.filterMap_append

theorem mem_targets {outcomes : List (Except ImportError Path)} {key : Path} :
    key ∈ targets outcomes ↔ .ok key ∈ outcomes := by
  unfold targets
  rw [List.mem_filterMap]
  constructor
  · rintro ⟨outcome, hmem, heq⟩
    cases outcome with
    | ok other =>
      cases heq
      exact hmem
    | error e => cases heq
  · intro hmem
    exact ⟨.ok key, hmem, rfl⟩

theorem mem_failures {outcomes : List (Except ImportError Path)} {e : ImportError} :
    e ∈ failures outcomes ↔ .error e ∈ outcomes := by
  unfold failures
  rw [List.mem_filterMap]
  constructor
  · rintro ⟨outcome, hmem, heq⟩
    cases outcome with
    | ok key => cases heq
    | error other =>
      cases heq
      exact hmem
  · intro hmem
    exact ⟨.error e, hmem, rfl⟩

/-! ## The imports of one document -/

variable {reader : SourceReader} {project : Project} {present present' : Path → Bool}
  {doc doc' : Document}

/-- What the imports of a document come to, in order. -/
def outcomes (reader : SourceReader) (project : Project) (present : Path → Bool)
    (doc : Document) : List (Except ImportError Path) :=
  doc.imports.map (reader.outcome project present doc.path)

/-- The document records what its imports come to while the keys that satisfy `present` are
    collected. -/
structure Accounted (reader : SourceReader) (project : Project) (present : Path → Bool)
    (doc : Document) : Prop where
  dependencies : doc.dependencies = (targets (doc.outcomes reader project present)).eraseDups
  errors : doc.errors = failures (doc.outcomes reader project present)
  nodup : doc.dependencies.Nodup

theorem outcomes_congr
    (h : ∀ specifier ∈ doc.imports, ∀ key, reader.LeadsTo project doc.path specifier key →
      ¬ reader.Readable key → present key = present' key) :
    doc.outcomes reader project present = doc.outcomes reader project present' :=
  List.map_congr_left fun specifier hspecifier =>
    SourceReader.outcome_congr (h specifier hspecifier)

theorem Accounted.congr (hdoc : doc.Accounted reader project present)
    (h : ∀ specifier ∈ doc.imports, ∀ key, reader.LeadsTo project doc.path specifier key →
      ¬ reader.Readable key → present key = present' key) :
    doc.Accounted reader project present' := by
  refine ⟨?_, ?_, hdoc.nodup⟩
  · rw [hdoc.dependencies, outcomes_congr h]
  · rw [hdoc.errors, outcomes_congr h]

/-- The dependencies are the targets of the imports that lead to a present or readable file. -/
theorem Accounted.mem_dependencies_iff (h : doc.Accounted reader project present) {key : Path} :
    key ∈ doc.dependencies ↔ ∃ specifier ∈ doc.imports,
      reader.LeadsTo project doc.path specifier key ∧
        (present key = true ∨ reader.Readable key) := by
  rw [h.dependencies, List.mem_eraseDups, mem_targets, outcomes, List.mem_map]
  simp only [SourceReader.outcome_eq_ok_iff]

/-- The failed reads are those of the imports whose target is neither present nor readable. -/
theorem Accounted.mem_errors_iff (h : doc.Accounted reader project present) {specifier : String}
    {key : Path} {e : ReadError} :
    .unreadable specifier key e ∈ doc.errors ↔
      specifier ∈ doc.imports ∧ reader.LeadsTo project doc.path specifier key ∧
        present key = false ∧ reader.read key = .error e := by
  rw [h.errors, mem_failures, outcomes, List.mem_map]
  constructor
  · rintro ⟨other, himport, heq⟩
    rcases SourceReader.outcome_cases reader project present doc.path other with
      ⟨cause, -, hcause⟩ | ⟨target, -, -, hok⟩ | ⟨target, cause, hleads, hnew, hread, hcause⟩
    · rw [hcause] at heq
      cases heq
    · rw [hok] at heq
      cases heq
    · rw [hcause] at heq
      cases heq
      exact ⟨himport, hleads, hnew, hread⟩
  · rintro ⟨himport, hleads, hnew, hread⟩
    exact ⟨specifier, himport, SourceReader.outcome_of_unreadable hleads hnew hread⟩

/-- A document is determined by its bare form and by what is present when its imports are
    followed. -/
theorem Accounted.eq_of_bare_eq (h : doc.Accounted reader project present)
    (h' : doc'.Accounted reader project present) (hbare : doc.bare = doc'.bare) : doc = doc' := by
  have hpath : doc.bare.path = doc'.bare.path := by rw [hbare]
  have himports : doc.bare.imports = doc'.bare.imports := by rw [hbare]
  rw [bare_path, bare_path] at hpath
  rw [bare_imports, bare_imports] at himports
  have houtcomes : doc.outcomes reader project present = doc'.outcomes reader project present := by
    rw [outcomes, outcomes, hpath, himports]
  have hdependencies : doc.dependencies = doc'.dependencies := by
    rw [h.dependencies, h'.dependencies, houtcomes]
  have herrors : doc.errors = doc'.errors := by
    rw [h.errors, h'.errors, houtcomes]
  calc doc = { doc.bare with dependencies := doc.dependencies, errors := doc.errors } := rfl
    _ = { doc'.bare with dependencies := doc'.dependencies, errors := doc'.errors } := by
        rw [hbare, hdependencies, herrors]
    _ = doc' := rfl

end Document

namespace Collection

variable {reader : SourceReader} {project : Project}

/-- One more target after some others counts if it is not among them. -/
theorem eraseDups_concat (keys : List Path) (key : Path) :
    (keys ++ [key]).eraseDups =
      if key ∈ keys then keys.eraseDups else keys.eraseDups ++ [key] := by
  rw [List.eraseDups_append]
  by_cases h : key ∈ keys
  · simp [h, List.removeAll]
  · simp [h, List.removeAll, List.eraseDups_cons]

/-- What following the imports `done` of the document under `importer` records, where `c` is
    the collection that the first of them meets. -/
structure Tallied (reader : SourceReader) (project : Project) (importer : Path) (c : Collection)
    (done : List String) (s : Progress) : Prop where
  dependencies : s.dependencies =
    (Document.targets (done.map (reader.outcome project c.has importer))).eraseDups
  errors : s.errors = Document.failures (done.map (reader.outcome project c.has importer))
  nodup : s.dependencies.Nodup
  kept : ∀ key, c.has key = true → s.collection.has key = true
  readable : ∀ key, s.collection.has key = true → c.has key = true ∨ reader.Readable key

/-- A dependency that is recorded comes after the others and is there once. -/
theorem Tallied.depend {importer key : Path} {c : Collection} {done : List String} {s : Progress}
    {specifier : String} (h : Tallied reader project importer c done s)
    (hok : reader.outcome project c.has importer specifier = .ok key) :
    (s.depend key).dependencies = (Document.targets ((done ++ [specifier]).map
        (reader.outcome project c.has importer))).eraseDups ∧
      s.errors = Document.failures
        ((done ++ [specifier]).map (reader.outcome project c.has importer)) ∧
      (s.depend key).dependencies.Nodup := by
  have hmem : s.dependencies.contains key = true ↔
      key ∈ Document.targets (done.map (reader.outcome project c.has importer)) := by
    rw [List.contains_iff_mem, h.dependencies, List.mem_eraseDups]
  rw [List.map_append, List.map_singleton, hok, Document.targets_concat_ok,
    Document.failures_concat_ok, eraseDups_concat, ← h.errors, ← h.dependencies]
  unfold Progress.depend
  by_cases hcontains : s.dependencies.contains key = true
  · simp only [if_pos hcontains, if_pos (hmem.1 hcontains)]
    exact ⟨trivial, trivial, h.nodup⟩
  · simp only [if_neg hcontains, if_neg (fun h => hcontains (hmem.2 h))]
    refine ⟨trivial, trivial, List.nodup_append.2 ⟨h.nodup, List.nodup_singleton key, ?_⟩⟩
    intro other hother same hsame heq
    rw [heq, List.mem_singleton.1 hsame, ← List.contains_iff_mem] at hother
    exact hcontains hother

/-- One more import is tallied by its outcome against `c`. -/
theorem Tallied.step {importer : Path} {c : Collection} {done : List String} {s s' : Progress}
    {specifier : String} (h : Tallied reader project importer c done s)
    (hstep : Progress.Followed reader project importer specifier s s') :
    Tallied reader project importer c (done ++ [specifier]) s' := by
  -- A failure is recorded behind the others and leaves all else.
  have hfail : ∀ e notices, reader.outcome project c.has importer specifier = .error e →
      Tallied reader project importer c (done ++ [specifier])
        { s with errors := s.errors ++ [e], notices } := by
    intro e notices herror
    refine ⟨?_, ?_, h.nodup, h.kept, h.readable⟩
    · simp [herror, h.dependencies]
    · simp [herror, h.errors]
  cases hstep with
  | unresolved e notices hresolve =>
    exact hfail _ notices (SourceReader.outcome_of_unresolved hresolve)
  | present key notices hleads hhas =>
    obtain ⟨hdependencies, herrors, hnodup⟩ :=
      h.depend (SourceReader.outcome_eq_ok_iff.2 ⟨hleads, h.readable key hhas⟩)
    exact ⟨hdependencies, herrors, hnodup, h.kept, h.readable⟩
  | fetched key text notices hleads hnew hread =>
    obtain ⟨hdependencies, herrors, hnodup⟩ :=
      h.depend (SourceReader.outcome_of_readable hleads ⟨text, hread⟩)
    refine ⟨hdependencies, herrors, hnodup, ?_, ?_⟩
    · intro other hother
      rw [has_push, h.kept other hother, Bool.true_or]
    · intro other hother
      rw [has_push, Bool.or_eq_true] at hother
      rcases hother with hother | hother
      · exact h.readable other hother
      · have hkey : key = other := of_decide_eq_true hother
        rw [← hkey]
        exact .inr ⟨text, hread⟩
  | unreadable key e notices hleads hnew hread =>
    refine hfail _ notices (SourceReader.outcome_of_unreadable hleads ?_ hread)
    rw [Bool.eq_false_iff]
    intro hhas
    rw [h.kept key hhas] at hnew
    cases hnew

/-- Following all imports of a document records what they come to against the collection that
    the first of them meets. -/
theorem tallied_followAll (reader : SourceReader) (project : Project) (c : Collection)
    (doc : Document) :
    Tallied reader project doc.path c doc.imports (c.followAll reader project doc) := by
  unfold followAll
  induction doc.imports using List.reverseRec with
  | nil => exact ⟨rfl, rfl, List.nodup_nil, fun _ h => h, fun _ h => .inl h⟩
  | append_singleton done specifier ih =>
    rw [List.foldl_append]
    exact ih.step (Progress.follow_followed reader project doc.path _ specifier)

/-- A document is accounted for once its imports are followed. -/
theorem accounted_of_followAll (c : Collection) (doc : Document) :
    Document.Accounted reader project c.has
      { doc with
        dependencies := (c.followAll reader project doc).dependencies
        errors := (c.followAll reader project doc).errors } := by
  have h := tallied_followAll reader project c doc
  exact ⟨h.dependencies, h.errors, h.nodup⟩

/-! ## The worklist -/

/-- While `root` is added to `c`, each added document waits or is accounted for, against `c`
    with `root`. -/
def Accounts (reader : SourceReader) (project : Project) (c : Collection) (root : Document)
    (waiting : List Path) (c' : Collection) : Prop :=
  ∃ added, c'.documents = c.documents ++ added ∧
    ∀ doc ∈ added, doc.path ∈ waiting ∨ doc.Accounted reader project (c.push root).has

variable {c c' : Collection} {root doc : Document} {waiting : List Path} {fresh : List Document}
  {key : Path}

/-- An addition brings no keys without a text besides that of the offered document. -/
theorem Grows.has_eq_of_not_readable (h : Grows reader project c root waiting c' fresh)
    (hnot : ¬ reader.Readable key) : c'.has key = (c.push root).has key := by
  obtain ⟨added, hdocs, hbare⟩ := h.documents
  rw [Bool.eq_iff_iff, has_iff_mem_paths, has_iff_mem_paths, hdocs, push, List.map_append,
    List.map_append, Grows.paths_added hbare, List.mem_append, List.mem_append]
  refine or_congr_right ?_
  rw [List.map_cons, List.mem_cons, List.map_singleton, List.mem_singleton]
  constructor
  · rintro (hroot | hfresh)
    · exact hroot
    · obtain ⟨doc, hdoc, rfl⟩ := List.mem_map.1 hfresh
      obtain ⟨text, hread, -⟩ := h.fetched doc hdoc
      exact absurd ⟨text, hread⟩ hnot
  · exact .inl

/-- Before the first step, the offered document waits. -/
theorem Accounts.start (c : Collection) (path : Path) (code : String) (origin : Origin) :
    Accounts reader project c (.ofText path code origin) [path]
      (c.push (.ofText path code origin)) := by
  refine ⟨[.ofText path code origin], rfl, ?_⟩
  intro doc hdoc
  rw [List.mem_singleton.1 hdoc]
  exact .inl (List.mem_singleton.2 rfl)

/-- One step of the worklist accounts for the document that it visits. -/
theorem Accounts.step (h : Accounts reader project c root (key :: waiting) c')
    (hgrows : Grows reader project c root (key :: waiting) c' fresh)
    (hget : c'.get? key = some doc) :
    Accounts reader project c root ((c'.followAll reader project doc).found ++ waiting)
      (c'.visit reader project doc) := by
  obtain ⟨batch, hbatch⟩ := exists_batch reader project hgrows.keyed doc
  obtain ⟨hmem, rfl⟩ := hgrows.keyed.get?_eq_some_iff.1 hget
  obtain ⟨added, hdocs, hadded⟩ := h
  have hold : doc.path ∉ c.documents.map Document.path :=
    hgrows.not_mem_old (hgrows.waits _ (List.mem_cons_self ..))
  refine ⟨_, documents_visit hdocs hbatch hold, ?_⟩
  intro recorded hrecorded
  obtain ⟨d, hd, rfl⟩ := List.mem_map.1 hrecorded
  have hall : d ∈ (c'.followAll reader project doc).collection.documents := by
    rw [hbatch.documents, hdocs, List.append_assoc]
    exact List.mem_append_right _ hd
  by_cases hpath : d.path = doc.path
  · -- The visited document met the collection `c'`, which differs from `c` with `root` only
    -- in documents that can be read.
    have hself : doc ∈ (c'.followAll reader project doc).collection.documents := by
      rw [hbatch.documents]
      exact List.mem_append_left _ hmem
    have heq : d = doc := List.inj_on_of_nodup_map hbatch.keyed hall hself hpath
    rw [if_pos hpath, heq]
    right
    exact (accounted_of_followAll c' doc).congr
      fun _ _ _ _ hnot => hgrows.has_eq_of_not_readable hnot
  · rw [if_neg hpath]
    rcases List.mem_append.1 hd with hd | hd
    · rcases hadded d hd with hwaits | haccounted
      · left
        exact List.mem_append_right _ ((List.mem_cons.1 hwaits).resolve_left hpath)
      · exact .inr haccounted
    · left
      rw [hbatch.found]
      exact List.mem_append_left _ (List.mem_reverse.2 (List.mem_map_of_mem hd))

/-- Working the list off accounts for every document of the addition. -/
theorem Accounts.close (notices : Array Notice)
    (h : Accounts reader project c root waiting c')
    (hgrows : Grows reader project c root waiting c' fresh) :
    Accounts reader project c root []
      (Collection.close reader project c' notices waiting).1 := by
  induction c', notices, waiting using Collection.close.induct reader project
    generalizing fresh with
  | case1 c' notices =>
    rw [Collection.close]
    exact h
  | case2 c' notices key waiting hget ih =>
    obtain ⟨doc, hdoc⟩ := hgrows.exists_get?
    rw [hget] at hdoc
    cases hdoc
  | case3 c' notices key waiting doc hget s =>
    rename_i ih
    rw [Collection.close, hget]
    obtain ⟨fresh', hfresh⟩ := hgrows.step hget
    have hstep := h.step hgrows hget
    obtain ⟨-, rfl⟩ := hgrows.keyed.get?_eq_some_iff.1 hget
    exact ih hstep hfresh

/-- Adding a document whose key is new accounts for it and for the documents read for it. -/
theorem accounts_add (reader : SourceReader) (project : Project) (hkeyed : c.Keyed) {path : Path}
    (hnew : c.has (reader.key path) = false) (code : String) (origin : Origin) :
    Accounts reader project c (.ofText (reader.key path) code origin) []
      (c.add reader project path code origin).collection := by
  simp only [add, hnew, Bool.false_eq_true, if_false]
  exact (Accounts.start c _ code origin).close #[] (Grows.start hkeyed hnew)

/-! ## All offers -/

theorem has_push_document (c : Collection) (o : Offer) (reader : SourceReader) (key : Path) :
    (c.push (o.document reader)).has key = (c.has key || reader.key o.path = key) :=
  has_push c (o.document reader) key

/-- What is there when an offer is made, or by the offer itself, stays. -/
theorem has_of_has_push (before : List Offer) (o : Offer) (after : List Offer)
    (hhas : ((addAll reader project {} before).push (o.document reader)).has key = true) :
    (addAll reader project {} (before ++ o :: after)).has key = true := by
  rw [has_push_document, Bool.or_eq_true, decide_eq_true_iff] at hhas
  rcases hhas with hhas | rfl
  · exact has_addAll_append (o :: after) hhas
  · exact has_of_mem_offers reader project (List.mem_append_right _ (List.mem_cons_self ..))

/-- A document that an offer brought is accounted for, against the collection that the offer
    found and the offered document. -/
theorem BroughtBy.accounted {before after : List Offer} {o : Offer}
    (h : BroughtBy reader project before o fresh doc)
    (hdoc : doc ∈ (Collection.addAll reader project {} (before ++ o :: after)).documents) :
    doc.Accounted reader project
      ((Collection.addAll reader project {} before).push (o.document reader)).has := by
  have hkeyed : (Collection.addAll reader project {} before).Keyed :=
    (sound_empty.addAll before).keyed
  have hnew : (Collection.addAll reader project {} before).has (reader.key o.path) = false := by
    rw [Bool.eq_false_iff]
    intro hhas
    rw [has_iff_mem_paths] at hhas
    exact h.grows.not_mem_old (List.mem_cons_self ..) hhas
  obtain ⟨added, hdocs, hadded⟩ := accounts_add reader project hkeyed hnew o.code o.origin
  rw [← addAll_concat] at hdocs
  rw [List.append_cons] at hdoc
  have hd := mem_of_has hdoc h.has_eq_true
  rw [hdocs] at hd
  rcases List.mem_append.1 hd with hold | hd
  · have hhas := (has_iff _ _).2 ⟨doc, hold, rfl⟩
    rw [h.has_eq_false] at hhas
    cases hhas
  · rcases hadded doc hd with hwaits | haccounted
    · cases hwaits
    · exact haccounted

/-- Every document was brought by one of the offers and is accounted for then. -/
theorem exists_accounted (reader : SourceReader) (project : Project) (offers : List Offer)
    (hdoc : doc ∈ (addAll reader project {} offers).documents) :
    ∃ before o after fresh, offers = before ++ o :: after ∧
      BroughtBy reader project before o fresh doc ∧
      doc.Accounted reader project
        ((addAll reader project {} before).push (o.document reader)).has := by
  obtain ⟨before, o, after, fresh, rfl, hbrought⟩ := exists_broughtBy reader project offers hdoc
  exact ⟨before, o, after, fresh, rfl, hbrought, hbrought.accounted hdoc⟩

/-- What a first offer brings is accounted for while there is only the offered document. -/
theorem accounted_of_single {o : Offer}
    (hdoc : doc ∈ (addAll reader project {} [o]).documents) :
    doc.Accounted reader project fun key => reader.key o.path = key := by
  obtain ⟨before, o', after, fresh, hsplit, -, haccounted⟩ :=
    exists_accounted reader project _ hdoc
  cases before with
  | nil =>
    obtain ⟨rfl, -⟩ := List.cons.inj hsplit
    apply haccounted.congr
    intro _ _ key _ _
    rw [has_push_document]
    exact Bool.false_or _
  | cons o'' before =>
    obtain ⟨-, hnil⟩ := List.cons.inj hsplit
    simp at hnil

/-- No import misses what the first offer provides. -/
theorem exists_accounted_of_first {o : Offer} {after : List Offer}
    (hdoc : doc ∈ (addAll reader project {} (o :: after)).documents) :
    ∃ present, present (reader.key o.path) = true ∧ doc.Accounted reader project present := by
  obtain ⟨before, o', after', fresh, hsplit, -, haccounted⟩ :=
    exists_accounted reader project _ hdoc
  refine ⟨_, ?_, haccounted⟩
  rw [has_push_document, Bool.or_eq_true, decide_eq_true_iff]
  cases before with
  | nil =>
    obtain ⟨rfl, -⟩ := List.cons.inj hsplit
    exact .inr rfl
  | cons o'' before =>
    obtain ⟨rfl, -⟩ := List.cons.inj hsplit
    exact .inl (has_of_mem_offers reader project (List.mem_cons_self ..))

/-! ## Each import once -/

/-- What an import of the document `doc` of the collection `c` came to, with the reason. -/
inductive CameTo (reader : SourceReader) (project : Project) (c : Collection) (doc : Document)
    (specifier : String) : Except ImportError Path → Prop where
  /-- The target is collected and a dependency. -/
  | followed (key : Path) (hleads : reader.LeadsTo project doc.path specifier key)
      (hdependency : key ∈ doc.dependencies) (hhas : c.has key = true) :
      CameTo reader project c doc specifier (.ok key)
  /-- The import leads nowhere or to a file that cannot be read. It is named in the failure,
      and no dependency stands for it. -/
  | failed (e : ImportError) (hspecifier : e.specifier = specifier)
      (hnone : ∀ key, reader.LeadsTo project doc.path specifier key → key ∉ doc.dependencies)
      (hcause : (∃ reason, Resolution.resolve reader project doc.path specifier = .error reason ∧
          e = .unresolved reason) ∨
        ∃ key reason, reader.LeadsTo project doc.path specifier key ∧
          reader.read key = .error reason ∧ e = .unreadable specifier key reason) :
      CameTo reader project c doc specifier (.error e)

/-- The outcomes that a document records hold of the whole collection. -/
theorem cameTo_outcome {present : Path → Bool} {specifier : String}
    (haccounted : doc.Accounted reader project present)
    (hpresent : ∀ key, present key = true → c.has key = true)
    (hsettled : Settled reader project c doc) (hspecifier : specifier ∈ doc.imports) :
    CameTo reader project c doc specifier
      (reader.outcome project present doc.path specifier) := by
  rcases SourceReader.outcome_cases reader project present doc.path specifier with
    ⟨e, hresolve, heq⟩ | ⟨key, hleads, htarget, heq⟩ | ⟨key, e, hleads, hnew, hread, heq⟩
  · rw [heq]
    refine .failed _ (Resolution.specifier_of_resolve_eq_error hresolve) ?_
      (.inl ⟨e, hresolve, rfl⟩)
    rintro key ⟨r, hr, -⟩
    rw [hresolve] at hr
    cases hr
  · rw [heq]
    refine .followed key hleads ?_ ?_
    · exact haccounted.mem_dependencies_iff.2 ⟨specifier, hspecifier, hleads, htarget⟩
    · rcases htarget with htarget | hread
      · exact hpresent key htarget
      · exact hsettled specifier hspecifier key hleads hread
  · rw [heq]
    refine .failed _ rfl ?_ (.inr ⟨key, e, hleads, hread, rfl⟩)
    intro other hother hdependency
    rw [hother.unique hleads] at hdependency
    -- Another import with this target would have met the same collection and the same reader.
    obtain ⟨-, -, -, htarget | ⟨text, htext⟩⟩ := haccounted.mem_dependencies_iff.1 hdependency
    · rw [hnew] at htarget
      cases htarget
    · rw [hread] at htext
      cases htext

/-- **Accounting**: after any sequence of offers, the imports of every document correspond in
    order to outcomes. Those that are followed lead to collected dependencies, the others fail
    for a reason. The failures of the document are those of the outcomes, and its dependencies
    are the targets in the order in which they occur first, each once. -/
theorem addAll_accounts_once (reader : SourceReader) (project : Project) (offers : List Offer) :
    ∀ doc ∈ (addAll reader project {} offers).documents,
      ∃ outcomes : List (Except ImportError Path),
        List.Forall₂ (CameTo reader project (addAll reader project {} offers) doc) doc.imports
          outcomes ∧
        doc.errors = Document.failures outcomes ∧
        doc.dependencies = (Document.targets outcomes).eraseDups ∧ doc.dependencies.Nodup := by
  intro doc hdoc
  have hsound : Sound reader project (addAll reader project {} offers) := sound_empty.addAll _
  obtain ⟨before, o, after, fresh, rfl, hbrought, haccounted⟩ :=
    exists_accounted reader project offers hdoc
  refine ⟨doc.outcomes reader project _, ?_, haccounted.errors, haccounted.dependencies,
    haccounted.nodup⟩
  unfold Document.outcomes
  rw [List.forall₂_map_right_iff, List.forall₂_same]
  intro specifier hspecifier
  exact cameTo_outcome haccounted (fun _ => has_of_has_push before o after)
    (hsound.settled doc hdoc) hspecifier

/-- One file. -/
def oneFile : TextStore := .ofList [(⟨"/proj/B.sol"⟩, "contract B {}")]

/-- A text that imports the file, under two spellings, and another one that is not there. -/
def threeImports : Offer where
  path := ⟨"/proj/A.sol"⟩
  code := "import \"./B.sol\"; import \"./C.sol\"; import \"/proj/B.sol\";"
  origin := .buffer

/-- The text with three imports is collected, and each of them is accounted for. -/
theorem threeImports_accounted :
    ∃ doc ∈ (addAll oneFile.reader { root := ⟨"/proj"⟩ } {} [threeImports]).documents,
      doc.imports = ["./B.sol", "./C.sol", "/proj/B.sol"] ∧
      ∃ outcomes : List (Except ImportError Path),
        List.Forall₂ (CameTo oneFile.reader { root := ⟨"/proj"⟩ }
          (addAll oneFile.reader { root := ⟨"/proj"⟩ } {} [threeImports]) doc) doc.imports
            outcomes ∧
        doc.errors = Document.failures outcomes ∧
        doc.dependencies = (Document.targets outcomes).eraseDups ∧ doc.dependencies.Nodup := by
  have hnew : (addAll oneFile.reader { root := ⟨"/proj"⟩ } {} []).has
      (oneFile.reader.key threeImports.path) = false := rfl
  obtain ⟨doc, hget, hbare⟩ := get?_of_first [] [] threeImports hnew
  obtain ⟨hdoc, -⟩ := (sound_empty.addAll _).keyed.get?_eq_some_iff.1 hget
  have himports : doc.bare.imports = ["./B.sol", "./C.sol", "/proj/B.sol"] := by
    rw [hbare]
    decide +kernel
  exact ⟨doc, hdoc, himports, addAll_accounts_once _ _ _ doc hdoc⟩

end Collection

end SolidityBuild
