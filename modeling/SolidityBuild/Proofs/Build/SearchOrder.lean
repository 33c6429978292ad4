import SolidityBuild.Proofs.Build.Buffers
import SolidityBuild.Proofs.Collection.Agreement

/-! # Search order: what a search finds counts, not how it lists it

    The found files are offered after all buffers, each with the text that is read there. So a
    build collects the same for every order in which they are listed, and for every number of
    times. Builds are compared by what stands under each key, since the order of the documents
    is that of their additions.
-/

namespace SolidityBuild.Build

open Collection (Offer addAll)

/-! ## Comparing searches and builds -/

/-- Two searches fail alike, or they find the same files. -/
def SameFiles : Except SearchError (List Path) → Except SearchError (List Path) → Prop
  | .ok files, .ok files' => ∀ file, file ∈ files ↔ file ∈ files'
  | .error e, .error e' => e = e'
  | _, _ => False

/-- Two builds fail alike, or they load the same project and collect the same document under
    each key. -/
def SameDocuments :
    Except BuildError (Project × Collection) → Except BuildError (Project × Collection) → Prop
  | .ok (project, c), .ok (project', c') =>
    project = project' ∧ ∀ key, c.get? key = c'.get? key
  | .error e, .error e' => e = e'
  | _, _ => False

/-! ## Offers of found files -/

variable {reader : SourceReader} {project : Project} {env : BuildEnv} {workspace : Workspace}
  {settings : Settings}

/-- A found file is offered with the text that is read there. -/
theorem ofFile_of_mem_fileOffers (hkey : ∀ p, reader.key (reader.key p) = reader.key p)
    {files : List Path} {o : Offer} (ho : o ∈ fileOffers reader project files) :
    o.OfFile reader := by
  obtain ⟨file, -, -, hread, hpath, horigin⟩ := exists_file_of_mem_fileOffers ho
  refine ⟨horigin, ?_⟩
  rw [hpath, hkey]
  exact hread

theorem mem_fileOffers_congr {files files' : List Path}
    (hsame : ∀ file, file ∈ files ↔ file ∈ files') (o : Offer) :
    o ∈ fileOffers reader project files ↔ o ∈ fileOffers reader project files' := by
  unfold fileOffers
  rw [List.mem_filterMap, List.mem_filterMap]
  simp only [hsame]

/-! ## Builds -/

/-- **Search order**: with searches that always find the same files, in any order and each any
    number of times, a build collects the same documents. -/
theorem collect_search_order_irrelevant (disk : Disk) (store : TextStore)
    (workspace : Workspace) (settings : Settings) (search search' : FileSearch)
    (hsearch : ∀ request, SameFiles (search request).1 (search' request).1) :
    SameDocuments
      (collect { disk, reader := store.reader, search } workspace settings).result
      (collect { disk, reader := store.reader, search := search' } workspace settings).result := by
  cases hroot : workspace.root with
  | none =>
    have hfails : ∀ search, (collect { disk, reader := store.reader, search } workspace
        settings).result = .error .noRoot := fun _ => collect_of_noRoot hroot
    rw [hfails, hfails]
    rfl
  | some root =>
    cases hload : (Project.load disk root settings).1 with
    | error f =>
      have hfails : ∀ search, (collect { disk, reader := store.reader, search } workspace
          settings).result = .error (.project f) := fun _ => collect_of_load_error hroot hload
      rw [hfails, hfails]
      rfl
    | ok project =>
      have hsame := hsearch (sourceSearch project)
      have hfails : ∀ search e, (search (sourceSearch project)).1 = .error e →
          (collect { disk, reader := store.reader, search } workspace settings).result =
            .error (.search e) := fun _ _ hfound => collect_of_search_error hroot hload hfound
      have hcollects : ∀ search files, (search (sourceSearch project)).1 = .ok files →
          (collect { disk, reader := store.reader, search } workspace settings).result =
            .ok (project, addAll store.reader project {}
              (bufferOffers store.reader project workspace.buffers ++
                fileOffers store.reader project files)) :=
        fun _ _ hfound => collect_of_found hroot hload hfound
      cases hfound : (search (sourceSearch project)).1 with
      | error e =>
        cases hfound' : (search' (sourceSearch project)).1 with
        | ok files' =>
          rw [hfound, hfound'] at hsame
          cases hsame
        | error e' =>
          rw [hfound, hfound'] at hsame
          rw [hfails search e hfound, hfails search' e' hfound']
          exact congrArg BuildError.search hsame
      | ok files =>
        cases hfound' : (search' (sourceSearch project)).1 with
        | error e' =>
          rw [hfound, hfound'] at hsame
          cases hsame
        | ok files' =>
          rw [hfound, hfound'] at hsame
          rw [hcollects search files hfound, hcollects search' files' hfound']
          refine ⟨rfl, ?_⟩
          intro key
          apply Collection.get?_eq_of_same_files
          · intro o ho
            exact ofFile_of_mem_fileOffers store.key_key ho
          · exact mem_fileOffers_congr hsame

/-! ## An importing file, found first or last -/

/-- A file that imports another one. -/
def importingFile : Path := ⟨"/proj/A.sol"⟩

/-- The file that it imports. -/
def importedFile : Path := ⟨"/proj/B.sol"⟩

/-- Both files as they were saved. -/
def importStore : TextStore :=
  .ofList [(importingFile, "import \"./B.sol\";"), (importedFile, "contract B {}")]

/-- A run over a store that finds some files, whatever the request is. -/
def foundEnv (store : TextStore) (files : List Path) : BuildEnv where
  disk := .empty
  reader := store.reader
  search _ := (.ok files, [])

theorem foundEnv_eq (store : TextStore) (files : List Path) :
    foundEnv store files =
      { disk := .empty, reader := store.reader, search := (foundEnv store files).search } := rfl

theorem collect_found (store : TextStore) (files : List Path) (buffers : List OpenBuffer) :
    (collect (foundEnv store files) (savedWorkspace buffers) {}).result = .ok (savedProject,
      addAll store.reader savedProject {} (bufferOffers store.reader savedProject buffers ++
        fileOffers store.reader savedProject files)) := by
  have hfound : ((foundEnv store files).search (sourceSearch savedProject)).1 = .ok files := rfl
  exact collect_of_found rfl load_saved hfound

/-- Whether the imported file is found first, or last and between two times the other one,
    both files are collected and are the same documents. -/
theorem collect_same_found_twice :
    ∃ project c c',
      (collect (foundEnv importStore [importedFile, importingFile]) (savedWorkspace [])
        {}).result = .ok (project, c) ∧
      (collect (foundEnv importStore [importingFile, importedFile, importingFile])
        (savedWorkspace []) {}).result = .ok (project, c') ∧
      c.has importingFile = true ∧ c.has importedFile = true ∧
      ∀ key, c.get? key = c'.get? key := by
  have hfirst := collect_found importStore [importedFile, importingFile] []
  have hsecond := collect_found importStore [importingFile, importedFile, importingFile] []
  have hsearch : ∀ request : SearchRequest, SameFiles
      ((foundEnv importStore [importedFile, importingFile]).search request).1
      ((foundEnv importStore [importingFile, importedFile, importingFile]).search request).1 := by
    intro request file
    simp only [List.mem_cons, List.not_mem_nil, or_false]
    constructor
    · rintro (himported | himporting)
      · exact .inr (.inl himported)
      · exact .inl himporting
    · rintro (himporting | himported | himporting)
      · exact .inr himporting
      · exact .inl himported
      · exact .inr himporting
  have hsame := collect_search_order_irrelevant .empty importStore (savedWorkspace []) {}
    (foundEnv importStore [importedFile, importingFile]).search
    (foundEnv importStore [importingFile, importedFile, importingFile]).search hsearch
  -- The project has no build directory, so a found file is offered if it can be read.
  have hcollected : ∀ file ∈ [importedFile, importingFile], ∀ code,
      importStore.reader.read (importStore.reader.key file) = .ok code →
      (addAll importStore.reader savedProject {} (bufferOffers importStore.reader savedProject
        [] ++ fileOffers importStore.reader savedProject [importedFile, importingFile])).has
          (importStore.reader.key file) = true := by
    intro file hfile code hread
    have hbuild : savedProject.inBuildDir (importStore.reader.key file) = false := rfl
    have hhas := Collection.has_of_mem_offers importStore.reader savedProject
      (List.mem_append_right (bufferOffers importStore.reader savedProject [])
        (mem_fileOffers_of_read hfile hbuild hread))
    rwa [importStore.key_key] at hhas
  have hread : importStore.reader.read (importStore.reader.key importingFile) =
        .ok "import \"./B.sol\";" ∧
      importStore.reader.read (importStore.reader.key importedFile) = .ok "contract B {}" :=
    ⟨rfl, rfl⟩
  rw [← foundEnv_eq, ← foundEnv_eq, hfirst, hsecond] at hsame
  obtain ⟨-, hdocs⟩ := hsame
  refine ⟨savedProject, _, _, hfirst, hsecond, ?_, ?_, hdocs⟩
  · exact hcollected importingFile (by simp) _ hread.1
  · exact hcollected importedFile (by simp) _ hread.2

end SolidityBuild.Build
