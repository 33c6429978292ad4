import SolidityBuild.Proofs.Build.Gathering
import SolidityBuild.Proofs.Disk.Below

/-! # New buffers: buffers for files that were never saved

    A build offers a source buffer under the key of its path, if that lies below the root. The
    root is known by its real path. For a buffer whose file is there so is the buffer, but for
    one whose file is not, only the spelling of its path counts, and that may go through a
    link to the root.
-/

namespace SolidityBuild

open Collection (addAll exists_broughtBy)

/-- The root of a loaded project. -/
theorem Project.root_of_load {d : Disk} {path : Path} {settings : Settings} {project : Project}
    (h : (load d path settings).1 = .ok project) : project.root = rootAt d path := by
  unfold load at h
  dsimp only at h
  split at h
  · cases h
  · split at h
    · cases h
    · cases h
      rfl

namespace Build

variable {reader : SourceReader} {project : Project} {buffers : List OpenBuffer}
  {files : List Path} {b : OpenBuffer} {key : Path} {doc : Document}

/-- A build adds a buffer under a key, unless there is a document already. -/
def AddedUnder (reader : SourceReader) (project : Project) (b : OpenBuffer) (key : Path) : Prop :=
  eligible reader project b = true ∧ reader.key (reader.key b.path) = key

/-- There is a document under the key of a buffer. -/
theorem AddedUnder.has (h : AddedUnder reader project b key) (hb : b ∈ buffers)
    (files : List Path) :
    (addAll reader project {} (bufferOffers reader project buffers ++
      fileOffers reader project files)).has key = true := by
  have ho : bufferOffer reader b ∈ bufferOffers reader project buffers :=
    List.mem_map_of_mem (List.mem_filter.2 ⟨hb, h.1⟩)
  have hhas := Collection.has_of_mem_offers reader project
    (List.mem_append_left (fileOffers reader project files) ho)
  rw [← h.2]
  exact hhas

/-- Under a key where nothing can be read, there are only documents of buffers. -/
theorem exists_addedUnder (hkey : reader.key key = key)
    (hnone : ∀ q, reader.key q = key → ∀ text, reader.read q ≠ .ok text)
    (hdoc : doc ∈ (addAll reader project {} (bufferOffers reader project buffers ++
      fileOffers reader project files)).documents) (hpath : doc.path = key) :
    doc.origin = .buffer ∧
      ∃ b ∈ buffers, AddedUnder reader project b key ∧ doc.code = b.text := by
  obtain ⟨before, o, after, fresh, heq, hbrought⟩ := exists_broughtBy reader project _ hdoc
  have ho : o ∈ bufferOffers reader project buffers ++ fileOffers reader project files := by
    rw [heq]
    exact List.mem_append_right _ (List.mem_cons_self ..)
  -- The document was offered, or it was read at its path, where nothing can be read.
  rcases hbrought.offered_or_fetched with hoffered | ⟨-, text, hread, -⟩
  · have hopath : doc.bare.path = reader.key o.path := by rw [hoffered]; rfl
    have hcode : doc.bare.code = o.code := by rw [hoffered]; rfl
    have horigin : doc.bare.origin = o.origin := by rw [hoffered]; rfl
    have hokey : reader.key o.path = key := hopath.symm.trans hpath
    rcases List.mem_append.1 ho with hbuffer | hfile
    · obtain ⟨b, hb, hext, hroot, rfl⟩ := exists_buffer_of_mem_bufferOffers hbuffer
      exact ⟨horigin, b, hb, ⟨(eligible_iff reader project b).2 ⟨hext, hroot⟩, hokey⟩, hcode⟩
    · -- A found file is offered only if it can be read.
      obtain ⟨file, -, -, hread, hfile, -⟩ := exists_file_of_mem_fileOffers hfile
      rw [hfile] at hokey
      exact absurd hread (hnone _ hokey _)
  · have hread' : reader.read doc.path = .ok text := hread
    rw [hpath] at hread'
    exact absurd hread' (hnone key hkey text)

/-! ## Buffers below the root -/

variable {disk : Disk} {workspace : Workspace} {settings : Settings} {c : Collection}
  {root p : Path} {a : Address}

theorem root_of_collect (hd : disk.Grounded) {search : FileSearch}
    (hcollect : (collect { disk, reader := disk.reader, search } workspace settings).result =
      .ok (project, c))
    (hroot : workspace.root = some root) (hdirectory : disk.locate root = .ok (.directory a)) :
    project.root = .ofNames a := by
  obtain ⟨root', files, hroot', hload, -⟩ := loaded_of_collect_ok hcollect
  cases hroot.symm.trans hroot'
  obtain ⟨entries, hget⟩ := Disk.holds_of_locate hd hdirectory
  have hreal := Disk.realPath_of_locate hd hdirectory hget
  rw [Project.root_of_load hload]
  unfold Project.rootAt
  rw [hreal]
  rfl

/-- A buffer below the root is added under the key below the real path of the root, if its file
    is there or the root's path has that real path as its normal form. -/
theorem addedUnder_iff (hd : disk.Proper) (hbelow : disk.Below root p a)
    (hproject : project.root = .ofNames a) (hext : p.extension? = some "sol") (text : String)
    (hplace : disk.isFile (root.join p) = true ∨ disk.tree.get? (a ++ p.names) = none) :
    AddedUnder disk.reader project { path := root.join p, text } (.ofNames (a ++ p.names)) ↔
      disk.isFile (root.join p) = true ∨
        ((Path.ofNames disk.cwd).join root).normalize = project.root := by
  have hnames := hbelow.isName hd
  have hroot : ∀ name ∈ a, Path.IsName name :=
    fun name hname => hnames name (List.mem_append_left _ hname)
  have hextension := Path.extension?_join root hbelow.relative hext
  -- With that key the buffer lies below the root, so that only the key is in question.
  have heligible : disk.key (root.join p) = .ofNames (a ++ p.names) →
      eligible disk.reader project { path := root.join p, text } = true := by
    intro hkey
    refine (eligible_iff _ _ _).2 ⟨hextension, ?_⟩
    show project.root.contains (disk.key (root.join p)) = true
    rw [hkey, hproject, Path.contains_ofNames_iff hroot hnames]
    exact List.prefix_append a p.names
  rw [hproject]
  by_cases hfile : disk.isFile (root.join p) = true
  · have hreal := hbelow.realPath_of_isFile hd.grounded hfile
    have hkey := Disk.key_of_realPath hreal
    refine iff_of_true ⟨heligible hkey, ?_⟩ (.inl hfile)
    show disk.key (disk.key (root.join p)) = _
    rw [hkey]
    exact hd.key_realPath hreal
  · have hnone := hplace.resolve_left hfile
    rw [or_iff_right hfile, ← hbelow.key_key_iff hd hnone]
    constructor
    · intro hadded
      exact hadded.2
    · intro hkey
      have hnormal := (hbelow.key_key_iff hd hnone).1 hkey
      exact ⟨heligible (hbelow.key_of_missing hd hnone hnormal hroot), hkey⟩

/-- **New buffers**: let the root lead to a directory, and let a source buffer lie below it, at a
    file that no link leads to or where nothing is yet. The build adds the buffer under the key
    below the real path of the root exactly if the file is there or the root's path has that
    real path as its normal form. If it does, there is a document under that key. If the file
    is not there, only such buffers give one. -/
theorem collect_new_buffer_iff (hd : disk.Proper) (search : FileSearch)
    (hcollect : (collect { disk, reader := disk.reader, search } workspace settings).result =
      .ok (project, c))
    (hroot : workspace.root = some root) (hbelow : disk.Below root p a)
    (hext : p.extension? = some "sol") {text : String}
    (hb : { path := root.join p, text } ∈ workspace.buffers)
    (hplace : disk.isFile (root.join p) = true ∨ disk.tree.get? (a ++ p.names) = none) :
    let b : OpenBuffer := { path := root.join p, text }
    let key := (project.root.join p).normalize
    (AddedUnder disk.reader project b key ↔
      disk.isFile b.path = true ∨
        ((Path.ofNames disk.cwd).join root).normalize = project.root) ∧
    (AddedUnder disk.reader project b key → c.has key = true) ∧
    (disk.isFile b.path = false → ∀ doc ∈ c.documents, doc.path = key →
      doc.origin = .buffer ∧
        ∃ b' ∈ workspace.buffers, AddedUnder disk.reader project b' key ∧
          doc.code = b'.text) := by
  intro b key
  have hproject := root_of_collect hd.grounded hcollect hroot hbelow.directory
  have hnames := hbelow.isName hd
  have hkey : key = .ofNames (a ++ p.names) := by
    have ha : ∀ name ∈ a, Path.IsName name :=
      fun name hname => hnames name (List.mem_append_left _ hname)
    have hnormal : project.root.normalize = .ofNames a := by
      rw [hproject]
      exact Path.normalize_ofNames ha
    have habsolute : project.root.isAbsolute := by
      rw [hproject]
      exact Path.isAbsolute_ofNames a
    exact Path.normalize_join habsolute hbelow.relative hbelow.forward hnormal ha
  obtain ⟨files, -, rfl⟩ := collect_ok hcollect
  rw [hkey]
  refine ⟨addedUnder_iff hd hbelow hproject hext text hplace, ?_, ?_⟩
  · intro hadded
    exact hadded.has hb files
  · intro hfile doc hdoc hpath
    have hnone := hplace.resolve_left (Bool.eq_false_iff.1 hfile)
    exact exists_addedUnder (hbelow.key_ofNames hd hnone)
      (fun q hq => Disk.readText_ne_ok_of_key_eq hd hnames hnone hq) hdoc hpath

/-! ## A root that is spelled through a link -/

/-- A project with some entries, and a link to it. -/
def checkoutDisk (entries : List (String × FileTree)) : Disk where
  tree := .dir [("link", .link "proj"), ("proj", .dir entries)]
  cwd := []

/-- The project, as it is by default. -/
def checkoutProject : Project where
  root := ⟨"/proj"⟩
  packagesDir := some "lib"
  contractsDir := some "src"

/-- An open buffer in the project, which is opened through the link. -/
def checkoutWorkspace : Workspace where
  root := some ⟨"/link"⟩
  buffers := [{ path := ⟨"/link/A.sol"⟩, text := "contract Draft \x7b\x7d" }]

/-- The build of that workspace. -/
def checkoutEnv (entries : List (String × FileTree)) : BuildEnv where
  disk := checkoutDisk entries
  reader := (checkoutDisk entries).reader
  search := (checkoutDisk entries).search

/-- The file of the buffer. -/
def savedEntries : List (String × FileTree) :=
  [("A.sol", .file "contract A \x7b\x7d".toUTF8 none)]

/-- Collecting it, with the files that the search finds. -/
theorem collect_checkout {entries : List (String × FileTree)}
    (hload : (Project.load (checkoutDisk entries) ⟨"/link"⟩ {}).1 = .ok checkoutProject)
    (hfound : ((checkoutDisk entries).search (sourceSearch checkoutProject)).1 = .ok files) :
    (collect (checkoutEnv entries) checkoutWorkspace {}).result =
      .ok (checkoutProject, addAll (checkoutDisk entries).reader checkoutProject {}
        (bufferOffers (checkoutDisk entries).reader checkoutProject checkoutWorkspace.buffers ++
          fileOffers (checkoutDisk entries).reader checkoutProject files)) :=
  collect_of_found rfl hload hfound

theorem proper_savedCheckout : (checkoutDisk savedEntries).Proper where
  named := by
    show ∀ name ∈ ["link", "proj", "proj", "A.sol"], Path.IsName name
    unfold Path.IsName
    decide
  grounded := ⟨_, rfl⟩

theorem below_checkout {entries : List (String × FileTree)}
    (hlocate : (checkoutDisk entries).locate ⟨"/link"⟩ = .ok (.directory ["proj"]))
    (hlink : ∀ target, (checkoutDisk entries).tree.get? ["proj", "A.sol"] ≠ some (.link target)) :
    (checkoutDisk entries).Below ⟨"/link"⟩ ⟨"A.sol"⟩ ["proj"] where
  directory := hlocate
  relative := by decide
  forward := by decide
  unlinked := by
    intro hmeets
    have hnames : Path.names ⟨"A.sol"⟩ = ["A.sol"] := rfl
    rw [hnames] at hmeets
    cases hmeets with
    | here h => exact hlink _ h
    | later h => cases h

/-- The buffer of the saved file is collected under the key below the real root. -/
theorem linked_root_keeps_saved_buffer :
    ∃ c, (collect (checkoutEnv savedEntries) checkoutWorkspace {}).result =
        .ok (checkoutProject, c) ∧
      AddedUnder (checkoutDisk savedEntries).reader checkoutProject
        { path := ⟨"/link/A.sol"⟩, text := "contract Draft \x7b\x7d" } ⟨"/proj/A.sol"⟩ ∧
      c.has ⟨"/proj/A.sol"⟩ = true := by
  have hload : (Project.load (checkoutDisk savedEntries) ⟨"/link"⟩ {}).1 =
      .ok checkoutProject := by
    decide +kernel
  have hfound : ((checkoutDisk savedEntries).search (sourceSearch checkoutProject)).1 =
      .ok [⟨"/proj/A.sol"⟩] := by
    decide +kernel
  have hcollect := collect_checkout hload hfound
  have hpath : Path.join ⟨"/link"⟩ ⟨"A.sol"⟩ = ⟨"/link/A.sol"⟩ := rfl
  have hkey : (checkoutProject.root.join ⟨"A.sol"⟩).normalize = ⟨"/proj/A.sol"⟩ := by
    decide +kernel
  have hbelow : (checkoutDisk savedEntries).Below ⟨"/link"⟩ ⟨"A.sol"⟩ ["proj"] :=
    below_checkout (by decide +kernel) (fun target h => by cases h)
  have hfile : (checkoutDisk savedEntries).isFile (Path.join ⟨"/link"⟩ ⟨"A.sol"⟩) = true := by
    decide +kernel
  have hb : { path := Path.join ⟨"/link"⟩ ⟨"A.sol"⟩, text := "contract Draft \x7b\x7d" } ∈
      checkoutWorkspace.buffers := by
    decide +kernel
  obtain ⟨hadded, hhas, -⟩ := collect_new_buffer_iff proper_savedCheckout
    (checkoutDisk savedEntries).search hcollect rfl hbelow (by decide +kernel) hb (.inl hfile)
  have hunder := hadded.2 (.inl hfile)
  have hcollected := hhas hunder
  rw [hkey, hpath] at hunder
  rw [hkey] at hcollected
  exact ⟨_, hcollect, hunder, hcollected⟩

/-- The buffer of a file that was never saved is left out, and with it its document. -/
theorem linked_root_leaves_out_new_buffer :
    (checkoutDisk []).Below ⟨"/link"⟩ ⟨"A.sol"⟩ ["proj"] ∧
    (checkoutDisk []).tree.get? ["proj", "A.sol"] = none ∧
    (collect (checkoutEnv []) checkoutWorkspace {}).result = .ok (checkoutProject, {}) := by
  have hnone : (checkoutDisk []).tree.get? ["proj", "A.sol"] = none := rfl
  have hlocate : (checkoutDisk []).locate ⟨"/link"⟩ = .ok (.directory ["proj"]) := by
    decide +kernel
  refine ⟨below_checkout hlocate (by simp [hnone]), hnone, ?_⟩
  have hload : (Project.load (checkoutDisk []) ⟨"/link"⟩ {}).1 = .ok checkoutProject := by
    decide +kernel
  have hfound : ((checkoutDisk []).search (sourceSearch checkoutProject)).1 = .ok [] := by
    decide +kernel
  have hoffers : bufferOffers (checkoutDisk []).reader checkoutProject
      checkoutWorkspace.buffers = [] := by
    have hout : eligible (checkoutDisk []).reader checkoutProject
        { path := ⟨"/link/A.sol"⟩, text := "contract Draft \x7b\x7d" } = false := by
      decide +kernel
    unfold bufferOffers checkoutWorkspace
    rw [List.filter_cons_of_neg (by rw [hout]; exact Bool.false_ne_true)]
    rfl
  rw [collect_checkout hload hfound, hoffers]
  rfl

end Build

end SolidityBuild
