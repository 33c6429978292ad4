import SolidityBuild.Proofs.Build.Gathering

/-! # Seeding: what a build starts from

    A document comes in by one of three ways: as a source buffer below the root, as a found
    file outside the build directory, or because an import leads to it. Only the third way
    lets a file of the build directory in that is no buffer, whatever the search answers.
-/

namespace SolidityBuild.Build

open Collection (Offer addAll exists_broughtBy)

variable {reader : SourceReader} {project : Project} {buffers : List OpenBuffer}
  {files : List Path} {docs : List Document}

/-! ## Seeds -/

/-- The keys that a build adds by itself: those of the source buffers below the root, and
    those of the found files that lie outside the build directory and can be read. -/
inductive Seed (reader : SourceReader) (project : Project) (buffers : List OpenBuffer)
    (files : List Path) : Path → Prop where
  | buffer {b : OpenBuffer} (hb : b ∈ buffers) (hext : b.path.extension? = some "sol")
      (hroot : project.root.contains (reader.key b.path) = true) :
      Seed reader project buffers files (reader.key b.path)
  | file {file : Path} (hfile : file ∈ files)
      (hbuild : project.inBuildDir (reader.key file) = false)
      (hread : reader.Readable (reader.key file)) :
      Seed reader project buffers files (reader.key file)

/-- The ways into the collection `docs`. -/
inductive Admitted (reader : SourceReader) (project : Project) (buffers : List OpenBuffer)
    (files : List Path) (docs : List Document) (doc : Document) : Prop where
  | buffer (b : OpenBuffer) (hb : b ∈ buffers) (hext : b.path.extension? = some "sol")
      (hroot : project.root.contains (reader.key b.path) = true)
      (hpath : doc.path = reader.key b.path) (hcode : doc.code = b.text)
      (horigin : doc.origin = .buffer)
  | file (file : Path) (hfile : file ∈ files) (hpath : doc.path = reader.key file)
      (hbuild : project.inBuildDir doc.path = false) (horigin : doc.origin = .disk)
      (hread : reader.read doc.path = .ok doc.code)
  | imported (start : Path) (hseed : Seed reader project buffers files start)
      (hchain : Relation.TransGen (reader.Linked project docs) start doc.path)
      (horigin : doc.origin = .disk) (hread : reader.read doc.path = .ok doc.code)

section

variable (hkey : ∀ p, reader.key (reader.key p) = reader.key p)

include hkey

/-- Every seed is collected. -/
theorem Seed.has {p : Path} (h : Seed reader project buffers files p) :
    (addAll reader project {} (bufferOffers reader project buffers ++
      fileOffers reader project files)).has p = true := by
  cases h with
  | @buffer b hb hext hroot =>
    have heligible := (eligible_iff reader project b).2 ⟨hext, hroot⟩
    have ho : bufferOffer reader b ∈ bufferOffers reader project buffers :=
      List.mem_map_of_mem (List.mem_filter.2 ⟨hb, heligible⟩)
    have hhas := Collection.has_of_mem_offers reader project
      (List.mem_append_left (fileOffers reader project files) ho)
    rwa [key_bufferOffer hkey] at hhas
  | @file file hfile hbuild hread =>
    obtain ⟨code, hread⟩ := hread
    have hhas := Collection.has_of_mem_offers reader project
      (List.mem_append_right (bufferOffers reader project buffers)
        (mem_fileOffers_of_read hfile hbuild hread))
    rwa [hkey] at hhas

/-- Offers are made for seeds only. -/
theorem seed_of_mem_offers {o : Offer}
    (ho : o ∈ bufferOffers reader project buffers ++ fileOffers reader project files) :
    Seed reader project buffers files (reader.key o.path) := by
  rcases List.mem_append.1 ho with hbuffer | hfile
  · obtain ⟨b, hb, hext, hroot, rfl⟩ := exists_buffer_of_mem_bufferOffers hbuffer
    rw [key_bufferOffer hkey]
    exact .buffer hb hext hroot
  · obtain ⟨file, hfile, hbuild, hread, hpath, -⟩ := exists_file_of_mem_fileOffers hfile
    rw [hpath, hkey]
    exact .file hfile hbuild ⟨_, hread⟩

/-- A document that is as an offer has it is a buffer's or a found file's. -/
theorem admitted_of_offered {o : Offer} {doc : Document}
    (ho : o ∈ bufferOffers reader project buffers ++ fileOffers reader project files)
    (hdoc : doc.bare = o.document reader) :
    Admitted reader project buffers files docs doc := by
  have hpath : doc.bare.path = reader.key o.path := by rw [hdoc]; rfl
  have hcode : doc.bare.code = o.code := by rw [hdoc]; rfl
  have horigin : doc.bare.origin = o.origin := by rw [hdoc]; rfl
  rcases List.mem_append.1 ho with hbuffer | hfile
  · obtain ⟨b, hb, hext, hroot, rfl⟩ := exists_buffer_of_mem_bufferOffers hbuffer
    rw [key_bufferOffer hkey] at hpath
    exact .buffer b hb hext hroot hpath hcode horigin
  · obtain ⟨file, hfile, hbuild, hread, hopath, hoorigin⟩ := exists_file_of_mem_fileOffers hfile
    rw [hopath, hkey] at hpath
    rw [hoorigin] at horigin
    refine .file file hfile hpath ?_ horigin ?_
    · rw [← hpath] at hbuild
      exact hbuild
    · rw [← hpath, ← hcode] at hread
      exact hread

/-- Nothing comes in by another way. -/
theorem admitted_of_mem {doc : Document}
    (hdoc : doc ∈ (addAll reader project {} (bufferOffers reader project buffers ++
      fileOffers reader project files)).documents) :
    Admitted reader project buffers files (addAll reader project {}
      (bufferOffers reader project buffers ++ fileOffers reader project files)).documents
      doc := by
  -- The offer that brought a document is the document, or a chain leads on from it.
  obtain ⟨before, o, after, fresh, heq, hbrought⟩ := exists_broughtBy reader project _ hdoc
  have ho : o ∈ bufferOffers reader project buffers ++ fileOffers reader project files := by
    rw [heq]
    exact List.mem_append_right _ (List.mem_cons_self ..)
  rcases hbrought.offered_or_fetched with hoffered | ⟨hfresh, text, hread, hfetched⟩
  · exact admitted_of_offered hkey ho hoffered
  · have hcode : doc.bare.code = text := by rw [hfetched]; rfl
    have horigin : doc.bare.origin = .disk := by rw [hfetched]; rfl
    refine .imported _ (seed_of_mem_offers hkey ho) ?_ horigin ?_
    · rw [heq]
      exact Relation.TransGen.mono (fun _ _ => hbrought.linked_collected) _ _
        (hbrought.chain hfresh)
    · rw [← hcode] at hread
      exact hread

end

/-! ## Builds -/

/-- **Seeding**: a build that succeeds collects every found file outside the build directory
    that can be read, and every source buffer below the root. A document of the build
    directory is such a buffer with its text, or it was read because a chain of imports of
    collected documents leads to it from such a buffer or from a found file outside. -/
theorem collect_seeded (disk : Disk) (search : FileSearch) (store : TextStore)
    (workspace : Workspace) (settings : Settings) {project : Project} {c : Collection}
    (h : (collect { disk, reader := store.reader, search } workspace settings).result =
      .ok (project, c)) :
    ∃ files, (search (sourceSearch project)).1 = .ok files ∧
      (∀ file ∈ files, project.inBuildDir (store.reader.key file) = false →
        store.reader.Readable (store.reader.key file) →
        c.has (store.reader.key file) = true) ∧
      (∀ b ∈ workspace.buffers, b.path.extension? = some "sol" →
        project.root.contains (store.reader.key b.path) = true →
        c.has (store.reader.key b.path) = true) ∧
      ∀ doc ∈ c.documents, project.inBuildDir doc.path = true →
        (∃ b ∈ workspace.buffers, b.path.extension? = some "sol" ∧
          project.root.contains (store.reader.key b.path) = true ∧
          doc.path = store.reader.key b.path ∧ doc.code = b.text ∧ doc.origin = .buffer) ∨
        (∃ start, Seed store.reader project workspace.buffers files start ∧
          Relation.TransGen (store.reader.Linked project c.documents) start doc.path ∧
          doc.origin = .disk ∧ store.reader.read doc.path = .ok doc.code) := by
  obtain ⟨files, hfound, rfl⟩ := collect_ok h
  refine ⟨files, hfound, ?_, ?_, ?_⟩
  · intro file hfile hbuild hread
    exact (Seed.file hfile hbuild hread).has store.key_key
  · intro b hb hext hroot
    exact (Seed.buffer hb hext hroot).has store.key_key
  · intro doc hdoc hbuild
    cases admitted_of_mem store.key_key hdoc with
    | buffer b hb hext hroot hpath hcode horigin =>
      exact .inl ⟨b, hb, hext, hroot, hpath, hcode, horigin⟩
    | file _ _ _ houtside =>
      rw [hbuild] at houtside
      cases houtside
    | imported start hseed hchain horigin hread =>
      exact .inr ⟨start, hseed, hchain, horigin, hread⟩

/-! ## A search that answers files of the build directory -/

/-- A root whose manifest declares a build directory. -/
def buildDisk : Disk where
  tree := .dir [("proj", .dir [("dappFile.json",
    .file "\x7b \"build_dir\": \"build\" \x7d".toUTF8 none)])]
  cwd := []

/-- The project of that root. -/
def buildProject : Project where
  root := ⟨"/proj"⟩
  manifest := { buildDir := some "build" }
  packagesDir := some "lib"
  contractsDir := some "src"

theorem load_build : (Project.load buildDisk ⟨"/proj"⟩ {}).1 = .ok buildProject := by
  decide +kernel

/-- A source outside the build directory. -/
def outsideFile : Path := ⟨"/proj/A.sol"⟩

/-- A source that an earlier build left. -/
def staleFile : Path := ⟨"/proj/build/Old.sol"⟩

/-- Both sources as they were saved. -/
def staleStore : TextStore :=
  .ofList [(outsideFile, "contract A {}"), (staleFile, "contract Old {}")]

/-- A buffer in the build directory. -/
def draftBuffer : OpenBuffer :=
  { path := ⟨"/proj/build/Draft.sol"⟩, text := "contract Draft {}" }

/-- A run whose search answers both sources. -/
def staleEnv : BuildEnv where
  disk := buildDisk
  reader := staleStore.reader
  search _ := (.ok [outsideFile, staleFile], [])

/-- The workspace of the run. -/
def draftWorkspace : Workspace where
  root := some ⟨"/proj"⟩
  buffers := [draftBuffer]

theorem collect_stale : (collect staleEnv draftWorkspace {}).result = .ok (buildProject,
    addAll staleStore.reader buildProject {}
      (bufferOffers staleStore.reader buildProject [draftBuffer] ++
        fileOffers staleStore.reader buildProject [outsideFile, staleFile])) := by
  have hload : (Project.load staleEnv.disk ⟨"/proj"⟩ {}).1 = .ok buildProject := load_build
  have hfound : (staleEnv.search (sourceSearch buildProject)).1 =
      .ok [outsideFile, staleFile] := rfl
  exact collect_of_found rfl hload hfound

/-- No text of the run has an import. -/
theorem imports_stale {doc : Document}
    (hadmitted : Admitted staleStore.reader buildProject [draftBuffer]
      [outsideFile, staleFile] docs doc) : Source.imports doc.code = [] := by
  have hread : staleStore.reader.read doc.path = .ok doc.code → Source.imports doc.code = [] := by
    intro hread
    have htexts : (doc.path.normalize, doc.code) ∈
        [(staleFile, "contract Old {}"), (outsideFile, "contract A {}")] :=
      TextStore.mem_of_read hread
    rcases List.mem_pair.1 htexts with heq | heq
    · rw [(Prod.mk.inj heq).2]
      decide +kernel
    · rw [(Prod.mk.inj heq).2]
      decide +kernel
  cases hadmitted with
  | buffer b hb _ _ _ hcode =>
    rw [hcode, List.mem_singleton.1 hb]
    decide +kernel
  | file _ _ _ _ _ hfile => exact hread hfile
  | imported _ _ _ _ himported => exact hread himported

/-- The source outside and the buffer are collected, the stale source is not. -/
theorem collect_leaves_out_stale :
    ∃ c, (collect staleEnv draftWorkspace {}).result = .ok (buildProject, c) ∧
      c.has outsideFile = true ∧ c.has draftBuffer.path = true ∧
      buildProject.inBuildDir staleFile = true ∧ c.has staleFile = false := by
  refine ⟨_, collect_stale, ?_⟩
  obtain ⟨files, hfound, hfiles, hbuffers, hinside⟩ := collect_seeded buildDisk staleEnv.search
    staleStore draftWorkspace {} collect_stale
  obtain rfl : [outsideFile, staleFile] = files := Except.ok.inj hfound
  have hstale : buildProject.inBuildDir staleFile = true := by decide +kernel
  refine ⟨?_, ?_, hstale, ?_⟩
  · exact hfiles outsideFile (List.mem_cons_self ..) (by decide +kernel)
      ⟨"contract A {}", by decide +kernel⟩
  · exact hbuffers draftBuffer (List.mem_cons_self ..) (by decide +kernel) (by decide +kernel)
  · rw [Bool.eq_false_iff]
    intro hhas
    obtain ⟨doc, hdoc, hpath⟩ := (Collection.has_iff _ _).1 hhas
    rcases hinside doc hdoc (by rw [hpath]; exact hstale) with
      ⟨b, hb, -, -, hkey, -⟩ | ⟨start, -, hchain, -⟩
    · rw [List.mem_singleton.1 hb, hpath] at hkey
      exact absurd hkey (by decide +kernel)
    · -- The last link of the chain would be an import.
      obtain ⟨p, -, importer, himporter, -, specifier, hspecifier, -⟩ :=
        Relation.TransGen.tail'_iff.1 hchain
      rw [(Collection.sound_empty.addAll _).parsed importer himporter,
        imports_stale (admitted_of_mem staleStore.key_key himporter)] at hspecifier
      cases hspecifier

end SolidityBuild.Build
