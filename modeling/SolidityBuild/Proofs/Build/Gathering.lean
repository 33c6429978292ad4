import SolidityBuild.Build
import SolidityBuild.Proofs.Collection.Closure

/-! # Gathering as a sequence of offers

    A build collects its sources in two loops, over the open buffers and over the found
    files. Apart from what is told, both loops only make offers to one collection: first
    every source buffer below the root, then every readable file outside the build
    directory. The presence test in front of an addition changes nothing, since an offer
    under a key that is there is ignored.
-/

namespace SolidityBuild.Build

open Collection (Offer addAll)

variable (reader : SourceReader) (project : Project)

/-! ## Offers of buffers and files -/

/-- Whether a buffer takes part: it has the extension of a source and lies below the root. -/
def eligible (b : OpenBuffer) : Bool :=
  b.path.extension? = some sourceExtension && project.root.contains (reader.key b.path)

/-- The offer of a buffer. -/
def bufferOffer (b : OpenBuffer) : Offer :=
  { path := reader.key b.path, code := b.text, origin := .buffer }

/-- The offers of the buffers that take part. -/
def bufferOffers (buffers : List OpenBuffer) : List Offer :=
  (buffers.filter (eligible reader project)).map (bufferOffer reader)

/-- The offer of a found file; none in the build directory or when it cannot be read. -/
def fileOffer? (file : Path) : Option Offer :=
  if project.inBuildDir (reader.key file) then none
  else match reader.read (reader.key file) with
    | .ok code => some { path := reader.key file, code, origin := .disk }
    | .error _ => none

/-- The offers of the found files. -/
def fileOffers (files : List Path) : List Offer :=
  files.filterMap (fileOffer? reader project)

theorem eligible_iff (b : OpenBuffer) :
    eligible reader project b = true ↔
      b.path.extension? = some "sol" ∧ project.root.contains (reader.key b.path) = true := by
  unfold eligible sourceExtension
  rw [Bool.and_eq_true, decide_eq_true_iff]

variable {reader project}

theorem key_bufferOffer (hkey : ∀ p, reader.key (reader.key p) = reader.key p)
    (b : OpenBuffer) : reader.key (bufferOffer reader b).path = reader.key b.path :=
  hkey b.path

/-- What an offer of a buffer says of the buffer. -/
theorem exists_buffer_of_mem_bufferOffers {buffers : List OpenBuffer} {o : Offer}
    (ho : o ∈ bufferOffers reader project buffers) :
    ∃ b ∈ buffers, b.path.extension? = some "sol" ∧
      project.root.contains (reader.key b.path) = true ∧ o = bufferOffer reader b := by
  obtain ⟨b, hfilter, rfl⟩ := List.mem_map.1 ho
  obtain ⟨hb, heligible⟩ := List.mem_filter.1 hfilter
  obtain ⟨hext, hroot⟩ := (eligible_iff reader project b).1 heligible
  exact ⟨b, hb, hext, hroot, rfl⟩

/-- What an offer of a found file says of the file. -/
theorem exists_file_of_mem_fileOffers {files : List Path} {o : Offer}
    (ho : o ∈ fileOffers reader project files) :
    ∃ file ∈ files, project.inBuildDir (reader.key file) = false ∧
      reader.read (reader.key file) = .ok o.code ∧ o.path = reader.key file ∧
      o.origin = .disk := by
  obtain ⟨file, hfile, hoffer⟩ := List.mem_filterMap.1 ho
  unfold fileOffer? at hoffer
  cases hbuild : project.inBuildDir (reader.key file) with
  | true =>
    rw [hbuild, if_pos rfl] at hoffer
    cases hoffer
  | false =>
    rw [hbuild, if_neg Bool.false_ne_true] at hoffer
    cases hread : reader.read (reader.key file) with
    | error e =>
      rw [hread] at hoffer
      cases hoffer
    | ok code =>
      rw [hread] at hoffer
      cases hoffer
      exact ⟨file, hfile, hbuild, hread, rfl, rfl⟩

/-- A file outside the build directory that can be read is offered. -/
theorem fileOffer?_of_read {file : Path} {code : String}
    (hbuild : project.inBuildDir (reader.key file) = false)
    (hread : reader.read (reader.key file) = .ok code) :
    fileOffer? reader project file =
      some { path := reader.key file, code, origin := .disk } := by
  unfold fileOffer?
  rw [hbuild, if_neg Bool.false_ne_true, hread]

theorem mem_fileOffers_of_read {files : List Path} {file : Path} {code : String}
    (hfile : file ∈ files) (hbuild : project.inBuildDir (reader.key file) = false)
    (hread : reader.read (reader.key file) = .ok code) :
    { path := reader.key file, code, origin := .disk } ∈ fileOffers reader project files :=
  List.mem_filterMap.2 ⟨file, hfile, fileOffer?_of_read hbuild hread⟩

/-! ## The loops -/

theorem addBuffer_collection (g : Gathering) (b : OpenBuffer) :
    (addBuffer reader project g b).collection =
      addAll reader project g.collection (bufferOffers reader project [b]) := by
  unfold addBuffer bufferOffers
  by_cases hext : b.path.extension? = some sourceExtension
  · cases hroot : project.root.contains (reader.key b.path) with
    | true => simp [hext, hroot, eligible, addAll, bufferOffer, Gathering.add]
    | false => simp [hext, hroot, eligible, addAll, Gathering.tell]
  · simp [hext, eligible, addAll]

theorem addBuffers_collection (buffers : List OpenBuffer) :
    (addBuffers reader project buffers).collection =
      addAll reader project {} (bufferOffers reader project buffers) := by
  -- The number of added buffers plays no part in what is collected.
  suffices h : ∀ s : Gathering × Nat,
      (buffers.foldl (fun s b => (addBuffer reader project s.1 b,
        if addsBuffer reader project s.1 b then s.2 + 1 else s.2)) s).1.collection =
      addAll reader project s.1.collection (bufferOffers reader project buffers) from h ({}, 0)
  induction buffers with
  | nil =>
    intro s
    rfl
  | cons b buffers ih =>
    intro s
    rw [List.foldl_cons, ih, addBuffer_collection, ← Collection.addAll_append]
    congr 1
    simp only [bufferOffers, ← List.map_append, ← List.filter_append, List.singleton_append]

theorem addFile_collection (g : Gathering) (file : Path) :
    (addFile reader project g file).collection =
      addAll reader project g.collection (fileOffers reader project [file]) := by
  unfold addFile fileOffers
  cases hbuild : project.inBuildDir (reader.key file) with
  | true => simp [hbuild, fileOffer?, addAll]
  | false =>
    cases hread : reader.read (reader.key file) with
    | error e =>
      cases hhas : g.collection.has (reader.key (reader.key file)) <;>
        simp [hbuild, hread, hhas, fileOffer?, addAll, Gathering.tell]
    | ok code =>
      cases hhas : g.collection.has (reader.key (reader.key file)) with
      | true => simp [hbuild, hread, hhas, fileOffer?, addAll, Collection.add_of_has hhas]
      | false => simp [hbuild, hread, hhas, fileOffer?, addAll, Gathering.add]

theorem addFiles_collection (files : List Path) (g : Gathering) :
    (files.foldl (addFile reader project) g).collection =
      addAll reader project g.collection (fileOffers reader project files) := by
  induction files generalizing g with
  | nil => rfl
  | cons file files ih =>
    rw [List.foldl_cons, ih, addFile_collection, ← Collection.addAll_append]
    congr 1
    simp only [fileOffers, ← List.filterMap_append, List.singleton_append]

/-! ## What a build collects -/

variable {env : BuildEnv} {workspace : Workspace} {settings : Settings}

theorem gather_of_found (buffers : List OpenBuffer) {files : List Path}
    (hfound : (env.search (sourceSearch project)).1 = .ok files) :
    (gather env project buffers).result = .ok (project, addAll env.reader project {}
      (bufferOffers env.reader project buffers ++ fileOffers env.reader project files)) := by
  unfold gather
  simp only [hfound]
  rw [addFiles_collection, addBuffers_collection, Collection.addAll_append]

theorem collect_of_found {root : Path} {files : List Path} (hroot : workspace.root = some root)
    (hload : (Project.load env.disk root settings).1 = .ok project)
    (hfound : (env.search (sourceSearch project)).1 = .ok files) :
    (collect env workspace settings).result = .ok (project, addAll env.reader project {}
      (bufferOffers env.reader project workspace.buffers ++
        fileOffers env.reader project files)) := by
  unfold collect
  simp only [hroot]
  cases hloaded : Project.load env.disk root settings with
  | mk loaded told =>
    rw [hloaded] at hload
    cases hload
    exact gather_of_found workspace.buffers hfound

theorem collect_of_noRoot (hroot : workspace.root = none) :
    (collect env workspace settings).result = .error .noRoot := by
  unfold collect
  rw [hroot]

theorem collect_of_load_error {root : Path} {f : Project.Fault}
    (hroot : workspace.root = some root)
    (hload : (Project.load env.disk root settings).1 = .error f) :
    (collect env workspace settings).result = .error (.project f) := by
  unfold collect
  simp only [hroot]
  cases hloaded : Project.load env.disk root settings with
  | mk loaded told =>
    rw [hloaded] at hload
    cases hload
    rfl

theorem collect_of_search_error {root : Path} {e : SearchError}
    (hroot : workspace.root = some root)
    (hload : (Project.load env.disk root settings).1 = .ok project)
    (hfound : (env.search (sourceSearch project)).1 = .error e) :
    (collect env workspace settings).result = .error (.search e) := by
  unfold collect
  simp only [hroot]
  cases hloaded : Project.load env.disk root settings with
  | mk loaded told =>
    rw [hloaded] at hload
    cases hload
    simp only [gather, hfound]

/-- A build only succeeds for the project that it loads. -/
theorem loaded_of_collect_ok {c : Collection}
    (h : (collect env workspace settings).result = .ok (project, c)) :
    ∃ root files, workspace.root = some root ∧
      (Project.load env.disk root settings).1 = .ok project ∧
      (env.search (sourceSearch project)).1 = .ok files := by
  cases hroot : workspace.root with
  | none =>
    rw [collect_of_noRoot hroot] at h
    cases h
  | some root =>
    cases hload : (Project.load env.disk root settings).1 with
    | error f =>
      rw [collect_of_load_error hroot hload] at h
      cases h
    | ok loaded =>
      cases hfound : (env.search (sourceSearch loaded)).1 with
      | error e =>
        rw [collect_of_search_error hroot hload hfound] at h
        cases h
      | ok files =>
        rw [collect_of_found hroot hload hfound] at h
        obtain ⟨rfl, -⟩ := Prod.mk.inj (Except.ok.inj h)
        exact ⟨root, files, rfl, hload, hfound⟩

/-- The collection of a build that succeeds comes from the offers of its buffers and of the
    files that its search finds. -/
theorem collect_ok {c : Collection}
    (h : (collect env workspace settings).result = .ok (project, c)) :
    ∃ files, (env.search (sourceSearch project)).1 = .ok files ∧
      c = addAll env.reader project {}
        (bufferOffers env.reader project workspace.buffers ++
          fileOffers env.reader project files) := by
  obtain ⟨root, files, hroot, hload, hfound⟩ := loaded_of_collect_ok h
  rw [collect_of_found hroot hload hfound] at h
  exact ⟨files, hfound, (Prod.mk.inj (Except.ok.inj h)).2.symm⟩

end SolidityBuild.Build
