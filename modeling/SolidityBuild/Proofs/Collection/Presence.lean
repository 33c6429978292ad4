import SolidityBuild.Proofs.Collection.Permanence

/-! # Presence: imports of what is collected already

    Two tests ask whether the target of an import is there. Following an import asks the
    collection, so that open buffers count. The rule for packages asks the reader which of its
    candidates is a file, and a buffer that was never saved is none.

    Main statement: a remapped, relative or absolute import of a collected file is always
    followed. An import from a package is followed exactly if the reader has one of the
    candidates, whatever is collected under them.
-/

namespace SolidityBuild

/-! ## Where an import may lead -/

namespace Resolution

/-- The candidates that the packages have for an import of a file. -/
structure Candidates (project : Project) (importer : Path) (specifier : String)
    (paths : List Path) : Prop where
  left : LeftToPackages project importer specifier
  formed : ∃ packages, project.packagesPath? = some packages ∧
    candidates project packages specifier = .ok paths

/-- The paths that an import may lead to: what one of the first three rules computes, whether
    it is there or not, or any of the candidates in the packages. -/
inductive Aim (reader : SourceReader) (project : Project) (importer : Path)
    (specifier : String) : Path → Prop where
  | computed (resolution : Resolution)
      (hresolve : resolve reader project importer specifier = .ok resolution)
      (hkind : resolution.kind ≠ .package) :
      Aim reader project importer specifier resolution.path
  | candidate (paths : List Path) (path : Path)
      (hcandidates : Candidates project importer specifier paths) (hmem : path ∈ paths) :
      Aim reader project importer specifier path

/-- An import from a package, none of whose candidates the reader knows as a file. -/
def Overlooked (reader : SourceReader) (project : Project) (importer : Path)
    (specifier : String) : Prop :=
  ∃ paths, Candidates project importer specifier paths ∧
    ∀ path ∈ paths, reader.isFile path = false

variable {reader : SourceReader} {project : Project} {importer : Path} {specifier : String}
  {paths : List Path}

theorem Candidates.unique {paths' : List Path} (h : Candidates project importer specifier paths)
    (h' : Candidates project importer specifier paths') : paths = paths' := by
  obtain ⟨-, packages, hpackages, hpaths⟩ := h
  obtain ⟨-, packages', hpackages', hpaths'⟩ := h'
  obtain rfl := Option.some.inj (hpackages.symm.trans hpackages')
  exact Except.ok.inj (hpaths.symm.trans hpaths')

/-- The first candidate that is a file answers the import. -/
theorem Candidates.resolve_eq_ok_iff (h : Candidates project importer specifier paths)
    {resolution : Resolution} :
    resolve reader project importer specifier = .ok resolution ↔
      paths.find? reader.isFile = some resolution.path ∧ resolution.kind = .package := by
  obtain ⟨packages, hpackages, hpaths⟩ := h.formed
  rw [h.left.resolve_eq, inPackages_eq_ok_iff]
  constructor
  · rintro ⟨packages', paths', hpackages', hpaths', hfind, hkind⟩
    obtain rfl : paths = paths' := h.unique ⟨h.left, packages', hpackages', hpaths'⟩
    exact ⟨hfind, hkind⟩
  · rintro ⟨hfind, hkind⟩
    exact ⟨packages, paths, hpackages, hpaths, hfind, hkind⟩

/-- Without a file among the candidates the import is not found. -/
theorem Candidates.resolve_eq_error (h : Candidates project importer specifier paths)
    (hnone : ∀ path ∈ paths, reader.isFile path = false) :
    resolve reader project importer specifier = .error (.packageNotFound specifier paths) := by
  obtain ⟨packages, hpackages, hpaths⟩ := h.formed
  have hfind : paths.find? reader.isFile = none := by
    rw [List.find?_eq_none]
    intro path hpath
    rw [hnone path hpath]
    exact Bool.false_ne_true
  rw [h.left.resolve_eq, inPackages]
  simp only [hpackages, hpaths, hfind, bind, Except.bind]

end Resolution

/-- What a store has as a file can be read. -/
theorem TextStore.readable_of_isFile {store : TextStore} {path : Path}
    (h : store.reader.isFile path = true) : store.reader.Readable (store.reader.key path) := by
  obtain ⟨text, htext⟩ := Option.isSome_iff_exists.1 h
  refine ⟨text, ?_⟩
  have hget : store.get? path.normalize = some text := by
    rw [TextStore.get?, Path.normalize_normalize]
    exact htext
  show store.read path.normalize = .ok text
  simp only [TextStore.read, hget]

/-! ## One import -/

namespace SourceReader

open Resolution

variable {store : TextStore} {project : Project} {present : Path → Bool} {importer path : Path}
  {specifier : String}

/-- An import whose computed path is collected is followed there. -/
theorem outcome_of_computed {resolution : Resolution}
    (hresolve : resolve store.reader project importer specifier = .ok resolution)
    (hthere : present resolution.path.normalize = true ∨
      store.reader.Readable resolution.path.normalize) :
    store.reader.outcome project present importer specifier =
      .ok resolution.path.normalize :=
  outcome_eq_ok_iff.2 ⟨⟨resolution, hresolve, rfl⟩, hthere⟩

/-- An import from a package is followed exactly if the store has one of the candidates. -/
theorem outcome_of_candidates {paths : List Path}
    (h : Candidates project importer specifier paths) :
    (∃ key, store.reader.outcome project present importer specifier = .ok key) ↔
      ∃ candidate ∈ paths, store.reader.isFile candidate = true := by
  constructor
  · rintro ⟨key, hok⟩
    obtain ⟨⟨resolution, hresolve, -⟩, -⟩ := outcome_eq_ok_iff.1 hok
    obtain ⟨hfind, -⟩ := h.resolve_eq_ok_iff.1 hresolve
    exact ⟨resolution.path, List.mem_of_find?_eq_some hfind, List.find?_some hfind⟩
  · rintro ⟨candidate, hmem, hfile⟩
    obtain ⟨first, hfirst⟩ := Option.isSome_iff_exists.1
      (List.find?_isSome.2 ⟨candidate, hmem, hfile⟩)
    have hresolve : resolve store.reader project importer specifier =
        .ok { path := first, kind := .package } := h.resolve_eq_ok_iff.2 ⟨hfirst, rfl⟩
    -- The candidate found first need not be the collected one, but it can be read.
    exact ⟨_, outcome_of_readable ⟨_, hresolve, rfl⟩
      (TextStore.readable_of_isFile (List.find?_some hfirst))⟩

/-- An import that may lead to a collected path is followed unless it is overlooked. -/
theorem outcome_ok_iff_of_aim (haim : Aim store.reader project importer specifier path)
    (hthere : present path.normalize = true ∨ store.reader.Readable path.normalize) :
    (∃ key, store.reader.outcome project present importer specifier = .ok key) ↔
      ¬ Overlooked store.reader project importer specifier := by
  cases haim with
  | computed resolution hresolve hkind =>
    constructor
    · rintro - ⟨paths, hcandidates, -⟩
      exact hkind (hcandidates.resolve_eq_ok_iff.1 hresolve).2
    · intro _
      exact ⟨_, outcome_of_computed hresolve hthere⟩
  | candidate paths path hcandidates hmem =>
    rw [outcome_of_candidates hcandidates]
    constructor
    · rintro ⟨candidate, hcandidate, hfile⟩ ⟨paths', hcandidates', hnone⟩
      rw [hcandidates.unique hcandidates'] at hcandidate
      rw [hnone candidate hcandidate] at hfile
      cases hfile
    · intro hseen
      by_contra hnone
      apply hseen
      refine ⟨paths, hcandidates, ?_⟩
      intro candidate hcandidate
      rw [Bool.eq_false_iff]
      intro hfile
      exact hnone ⟨candidate, hcandidate, hfile⟩

end SourceReader

/-! ## All imports of a call -/

namespace Collection

open Resolution

variable {c : Collection} {k : Call} {doc : Document} {key : Path}

theorem Offer.path_document (o : Offer) (reader : SourceReader) :
    (o.document reader).path = reader.key o.path := rfl

/-- The call that brings a document finds its own file missing. -/
theorem WellFormed.has_eq_false_of_new (hdoc : doc ∈ (c.call k).documents)
    (hnew : c.has doc.path = false) : c.has k.offer.path.normalize = false := by
  rw [Bool.eq_false_iff]
  intro hhas
  rw [call_of_has hhas] at hdoc
  rw [(has_iff c doc.path).2 ⟨doc, hdoc, rfl⟩] at hnew
  cases hnew

/-- What a call adds besides the offered file can be read. -/
theorem WellFormed.has_call_cases (h : WellFormed c) (hnew : c.has k.offer.path.normalize = false)
    (hhas : (c.call k).has key = true) :
    (c.push (k.offer.document k.store.reader)).has key = true ∨
      k.store.reader.Readable key := by
  obtain ⟨fresh, hgrows⟩ := exists_grows_add k.store.reader k.project h.keyed hnew
    k.offer.code k.offer.origin
  by_cases hread : k.store.reader.Readable key
  · exact .inr hread
  · left
    have heq := hgrows.has_eq_of_not_readable hread
    rw [← hhas]
    exact heq.symm

/-- A document that a call brings is accounted for, against the collection that the call finds
    and the offered document. -/
theorem WellFormed.accounted_of_new (h : WellFormed c) (hdoc : doc ∈ (c.call k).documents)
    (hnew : c.has doc.path = false) :
    doc.Accounted k.store.reader k.project
      (c.push (k.offer.document k.store.reader)).has := by
  have hmissing := has_eq_false_of_new hdoc hnew
  obtain ⟨added, hdocs, hadded⟩ := accounts_add k.store.reader k.project h.keyed hmissing
    k.offer.code k.offer.origin
  rw [Collection.call, hdocs] at hdoc
  rcases List.mem_append.1 hdoc with hold | hd
  · rw [(has_iff c doc.path).2 ⟨doc, hold, rfl⟩] at hnew
    cases hnew
  · rcases hadded doc hd with hwaits | haccounted
    · cases hwaits
    · exact haccounted

/-- A dependency is collected. -/
theorem WellFormed.has_of_mem_dependencies (h : WellFormed c) (hdoc : doc ∈ c.documents)
    (hkey : key ∈ doc.dependencies) : c.has key = true :=
  h.closed doc.path key ⟨doc, hdoc, rfl, hkey⟩

/-- **Presence**: whatever was collected by earlier calls, a document that a call brings
    records the outcomes of its imports, and an import that may lead to a path under which a
    document is collected comes to a dependency that is collected, unless it is from a package
    and the store has none of its candidates. Then it fails as not found, with these
    candidates, one of which may be collected. -/
theorem call_follows_collected_iff (calls : List Call) (k : Call) {doc : Document}
    (hdoc : doc ∈ ((ofCalls calls).call k).documents)
    (hnew : (ofCalls calls).has doc.path = false) :
    doc.Accounted k.store.reader k.project
      ((ofCalls calls).push (k.offer.document k.store.reader)).has ∧
    ∀ specifier ∈ doc.imports, ∀ path,
      Aim k.store.reader k.project doc.path specifier path →
      ((ofCalls calls).call k).has path.normalize = true →
      ((∃ key ∈ doc.dependencies, ((ofCalls calls).call k).has key = true ∧
          k.store.reader.outcome k.project
            ((ofCalls calls).push (k.offer.document k.store.reader)).has doc.path specifier =
              .ok key) ↔
        ¬ Overlooked k.store.reader k.project doc.path specifier) ∧
      (Overlooked k.store.reader k.project doc.path specifier → ∃ paths,
        Candidates k.project doc.path specifier paths ∧
        .unresolved (.packageNotFound specifier paths) ∈ doc.errors) := by
  have hwell : WellFormed (ofCalls calls) := wellFormed_ofCalls calls
  have haccounted := hwell.accounted_of_new hdoc hnew
  refine ⟨haccounted, ?_⟩
  intro specifier hspecifier path haim hhas
  have hthere := hwell.has_call_cases (WellFormed.has_eq_false_of_new hdoc hnew) hhas
  constructor
  · rw [← SourceReader.outcome_ok_iff_of_aim haim hthere]
    constructor
    · rintro ⟨key, -, -, hok⟩
      exact ⟨key, hok⟩
    · rintro ⟨key, hok⟩
      obtain ⟨hleads, htarget⟩ := SourceReader.outcome_eq_ok_iff.1 hok
      have hkey : key ∈ doc.dependencies :=
        haccounted.mem_dependencies_iff.2 ⟨specifier, hspecifier, hleads, htarget⟩
      exact ⟨key, hkey, (hwell.call k).has_of_mem_dependencies hdoc hkey, hok⟩
  · rintro ⟨paths, hcandidates, hnone⟩
    refine ⟨paths, hcandidates, ?_⟩
    rw [haccounted.errors, Document.mem_failures, Document.outcomes, List.mem_map]
    exact ⟨specifier, hspecifier,
      SourceReader.outcome_of_unresolved (hcandidates.resolve_eq_error hnone)⟩

/-! ## A package file that is open but not saved -/

/-- A project with its packages in `lib`. -/
def libProject : Project where
  root := ⟨"/proj"⟩
  packagesDir := some "lib"

/-- An open file of a package. -/
def openPackageFile : Offer where
  path := ⟨"/proj/lib/oz/X.sol"⟩
  code := "contract Unsaved {}"
  origin := .buffer

/-- A text that imports the file by the name of the package. -/
def packageImport : Offer where
  path := ⟨"/proj/A.sol"⟩
  code := "import \"oz/X.sol\";"
  origin := .buffer

/-- A call for an offer in the project. -/
def libCall (store : TextStore) (o : Offer) : Call where
  store := store
  project := libProject
  offer := o

/-- A store in which the open file was saved before. -/
def savedPackage : TextStore :=
  .ofList [(⟨"/proj/lib/oz/X.sol"⟩, "contract Saved {}")]

theorem candidates_packageImport :
    Candidates libProject ⟨"/proj/A.sol"⟩ "oz/X.sol" [⟨"/proj/lib/oz/X.sol"⟩] :=
  ⟨⟨by decide +kernel, by decide +kernel, by decide +kernel, by decide +kernel⟩,
    ⟨"/proj/lib"⟩, by decide +kernel, by decide +kernel⟩

/-- With the package file open, the importing text is collected as a new document. -/
theorem exists_importing {store : TextStore} (hnot : ¬ store.reader.Readable ⟨"/proj/A.sol"⟩) :
    ∃ doc ∈ ((ofCalls [libCall store openPackageFile]).call
        (libCall store packageImport)).documents,
      doc.path = ⟨"/proj/A.sol"⟩ ∧ doc.imports = ["oz/X.sol"] ∧
      (ofCalls [libCall store openPackageFile]).has ⟨"/proj/A.sol"⟩ = false ∧
      (ofCalls [libCall store openPackageFile]).has ⟨"/proj/lib/oz/X.sol"⟩ = true := by
  have hopened : openPackageFile.path.normalize = ⟨"/proj/lib/oz/X.sol"⟩ := by decide +kernel
  have himporting : packageImport.path.normalize = ⟨"/proj/A.sol"⟩ := by decide +kernel
  have hwell : WellFormed (ofCalls [libCall store openPackageFile]) := wellFormed_ofCalls _
  have hnew : (ofCalls [libCall store openPackageFile]).has ⟨"/proj/A.sol"⟩ = false := by
    rw [Bool.eq_false_iff]
    intro hhas
    rcases wellFormed_empty.has_call_cases (k := libCall store openPackageFile) rfl hhas with
      hpushed | hread
    · rw [has_push_document, Bool.or_eq_true, decide_eq_true_iff] at hpushed
      rcases hpushed with hempty | heq
      · cases hempty
      · have hsame : store.reader.key openPackageFile.path = ⟨"/proj/A.sol"⟩ := heq
        rw [TextStore.reader_key, hopened] at hsame
        exact absurd hsame (by decide)
    · exact hnot hread
  obtain ⟨opened, hgetOpened, -, -⟩ :=
    wellFormed_empty.get?_call_of_new (k := libCall store openPackageFile) rfl
  have hget : (ofCalls [libCall store openPackageFile]).get? openPackageFile.path.normalize =
      some opened := hgetOpened
  obtain ⟨hmemOpened, hpathOpened⟩ := hwell.keyed.get?_eq_some_iff.1 hget
  obtain ⟨doc, fresh, hdocs, hbare, -⟩ := hwell.exists_added (k := libCall store packageImport)
    (by rw [← hnew, ← himporting]; rfl)
  have hpath : doc.bare.path = packageImport.path.normalize := by
    rw [hbare, Offer.path_document]
    exact TextStore.reader_key store packageImport.path
  have himports : doc.bare.imports = ["oz/X.sol"] := by
    rw [hbare]
    show Source.imports packageImport.code = ["oz/X.sol"]
    decide +kernel
  refine ⟨doc, ?_, hpath.trans himporting, himports, hnew, ?_⟩
  · rw [hdocs]
    exact List.mem_append_right _ (List.mem_cons_self ..)
  · exact (has_iff _ _).2 ⟨opened, hmemOpened, hpathOpened.trans hopened⟩

/-- Once the package file was saved, its import by name leads to the open text. -/
theorem savedPackage_followed :
    ∃ doc ∈ ((ofCalls [libCall savedPackage openPackageFile]).call
        (libCall savedPackage packageImport)).documents,
      (ofCalls [libCall savedPackage openPackageFile]).has doc.path = false ∧
      doc.imports = ["oz/X.sol"] ∧
      ∃ key ∈ doc.dependencies, ((ofCalls [libCall savedPackage openPackageFile]).call
        (libCall savedPackage packageImport)).has key = true := by
  have hnot : ¬ savedPackage.reader.Readable ⟨"/proj/A.sol"⟩ := by
    rintro ⟨text, hread⟩
    have hnone : savedPackage.reader.read ⟨"/proj/A.sol"⟩ = .error (.absent ⟨"/proj/A.sol"⟩) := by
      decide +kernel
    rw [hnone] at hread
    cases hread
  obtain ⟨doc, hdoc, hpath, himports, hnew, hhas⟩ := exists_importing hnot
  rw [← hpath] at hnew
  refine ⟨doc, hdoc, hnew, himports, ?_⟩
  have hcandidates : Candidates libProject doc.path "oz/X.sol" [⟨"/proj/lib/oz/X.sol"⟩] := by
    rw [hpath]
    exact candidates_packageImport
  have hcollected : ((ofCalls [libCall savedPackage openPackageFile]).call
      (libCall savedPackage packageImport)).has
        (Path.normalize ⟨"/proj/lib/oz/X.sol"⟩) = true := by
    have hnormal : Path.normalize ⟨"/proj/lib/oz/X.sol"⟩ = ⟨"/proj/lib/oz/X.sol"⟩ := by
      decide +kernel
    obtain ⟨opened, hopened, hpathOpened⟩ := (has_iff _ _).1 hhas
    rw [hnormal]
    exact (has_iff _ _).2
      ⟨opened, ((wellFormed_ofCalls _).prefix_call _).subset hopened, hpathOpened⟩
  have hfollows := ((call_follows_collected_iff _ _ hdoc hnew).2 "oz/X.sol"
    (by rw [himports]; exact List.mem_singleton.2 rfl) _
    (.candidate _ _ hcandidates (List.mem_singleton.2 rfl)) hcollected).1
  obtain ⟨key, hkey, hthere, -⟩ := hfollows.2 (by
    rintro ⟨paths, hpaths, hnone⟩
    rw [← hcandidates.unique hpaths] at hnone
    have hfile : savedPackage.reader.isFile ⟨"/proj/lib/oz/X.sol"⟩ = true := by decide +kernel
    have hnofile := hnone _ (List.mem_singleton.2 rfl)
    exact Bool.false_ne_true (hnofile.symm.trans hfile))
  exact ⟨key, hkey, hthere⟩

/-- Before it is saved, the open package file is collected and its import by name fails. -/
theorem unsavedPackage_overlooked :
    ∃ doc ∈ ((ofCalls [libCall {} openPackageFile]).call (libCall {} packageImport)).documents,
      doc.path = ⟨"/proj/A.sol"⟩ ∧ doc.imports = ["oz/X.sol"] ∧
      Aim (TextStore.reader {}) libProject doc.path "oz/X.sol" ⟨"/proj/lib/oz/X.sol"⟩ ∧
      (ofCalls [libCall {} openPackageFile]).has ⟨"/proj/lib/oz/X.sol"⟩ = true ∧
      doc.dependencies = [] ∧
      doc.errors = [.unresolved (.packageNotFound "oz/X.sol" [⟨"/proj/lib/oz/X.sol"⟩])] := by
  have hnot : ¬ (TextStore.reader {}).Readable ⟨"/proj/A.sol"⟩ := by
    rintro ⟨text, hread⟩
    cases hread
  obtain ⟨doc, hdoc, hpath, himports, hnew, hhas⟩ := exists_importing hnot
  have hcandidates : Candidates libProject doc.path "oz/X.sol" [⟨"/proj/lib/oz/X.sol"⟩] := by
    rw [hpath]
    exact candidates_packageImport
  refine ⟨doc, hdoc, hpath, himports, .candidate _ _ hcandidates (List.mem_singleton.2 rfl),
    hhas, ?_⟩
  rw [← hpath] at hnew
  have haccounted := (wellFormed_ofCalls [libCall {} openPackageFile]).accounted_of_new hdoc hnew
  have houtcome : ∀ present, (TextStore.reader {}).outcome libProject present doc.path
      "oz/X.sol" = .error (.unresolved (.packageNotFound "oz/X.sol"
        [⟨"/proj/lib/oz/X.sol"⟩])) :=
    fun _ => SourceReader.outcome_of_unresolved (hcandidates.resolve_eq_error fun _ _ => rfl)
  rw [haccounted.dependencies, haccounted.errors, Document.outcomes, himports]
  constructor
  · show (Document.targets [(TextStore.reader {}).outcome libProject _ doc.path
      "oz/X.sol"]).eraseDups = []
    rw [houtcome]
    rfl
  · show Document.failures [(TextStore.reader {}).outcome libProject _ doc.path "oz/X.sol"] = _
    rw [houtcome]
    rfl

end Collection

end SolidityBuild
