import SolidityBuild.Proofs.Disk.RealPath

/-! # Below a directory: keys of what is there and of what is not there yet

    A path without links, seen from a directory, leads to the address that its names make
    below the directory, however the directory is spelled. So a file that is there has a key
    below the real path of the directory. Of a file that is not there only the spelling is
    left, and its key lies below the normal form of the directory's path.
-/

namespace SolidityBuild.Disk

open FileTree (Step Place MeetsLink)

variable {d : Disk} {root p q : Path} {a x : Address} {place : Place}

/-- The path `root` leads to the directory `a`, and `p` goes on from there without climbing and
    without meeting a link. -/
structure Below (d : Disk) (root p : Path) (a : Address) : Prop where
  directory : d.locate root = .ok (.directory a)
  relative : p.isAbsolute = false
  forward : .up ∉ p.parts
  unlinked : ¬ d.tree.MeetsLink a p.names

theorem Below.exists_dir (h : d.Below root p a) (hd : d.Grounded) :
    ∃ entries, d.tree.get? a = some (.dir entries) :=
  holds_of_locate hd h.directory

theorem Below.isName (h : d.Below root p a) (hd : d.Proper) :
    ∀ name ∈ a ++ p.names, Path.IsName name := by
  obtain ⟨entries, hget⟩ := h.exists_dir hd.grounded
  exact Path.isName_append_names (hd.isName hget) p

/-- From the directory a walk goes on as from its address. -/
theorem Below.exists_walk (h : d.Below root p a) (hlocate : d.locate (root.join p) = .ok place) :
    ∃ links, d.tree.walk links a (FileTree.steps p) = .ok place := by
  obtain ⟨front, hjoin, hroot⟩ := Path.exists_segments_join root h.relative
  have horigin : d.origin (root.join p) = d.origin root := by
    unfold Disk.origin
    rw [Path.isAbsolute_join_of_relative root h.relative]
  have hwalk : d.tree.walk FileTree.linkLimit (d.origin root) (front.map Step.ofSegment) =
      .ok (.directory a) := by
    have hdirectory := h.directory
    rw [locate_of_check (check_of_locate hdirectory), FileTree.steps] at hdirectory
    rcases hroot with hsame | hslash
    · rw [hsame] at hdirectory
      exact hdirectory
    · -- An empty segment at the end only asks for a directory.
      rw [hslash, List.map_append] at hdirectory
      exact FileTree.walk_stay_iff.1 hdirectory
  -- The whole path starts where the root's path starts, and takes its steps first.
  obtain ⟨links, hgo⟩ := FileTree.walk_append hwalk
  refine ⟨links, ?_⟩
  rw [← hgo, ← horigin, FileTree.steps, ← List.map_append, ← hjoin]
  rw [locate_of_check (check_of_locate hlocate)] at hlocate
  exact hlocate

/-- What is seen from the directory leads to the address that its names make below it. -/
theorem Below.address (h : d.Below root p a) (hlocate : d.locate (root.join p) = .ok place) :
    place.address = a ++ p.names := by
  obtain ⟨links, hwalk⟩ := h.exists_walk hlocate
  have hup : Step.up ∉ FileTree.steps p :=
    fun hmem => h.forward (FileTree.up_mem_parts_of_mem_steps hmem)
  have hno : ¬ d.tree.MeetsLink a (FileTree.entered (FileTree.steps p)) := by
    rw [FileTree.entered_steps]
    exact h.unlinked
  rw [← FileTree.entered_steps p]
  exact FileTree.address_of_walk hup hno hwalk

/-! ## Files that are there -/

/-- The key of a file that is there. -/
theorem Below.realPath_of_isFile (h : d.Below root p a) (hd : d.Grounded)
    (hfile : d.isFile (root.join p) = true) :
    d.realPath (root.join p) = .ok (.ofNames (a ++ p.names)) := by
  unfold isFile at hfile
  split at hfile
  · rename_i y hlocate
    obtain ⟨contents, program, hget⟩ := holds_of_locate hd hlocate
    rw [← h.address hlocate]
    exact realPath_of_locate hd hlocate hget
  · cases hfile

/-! ## Files that are not there -/

/-- A path whose real path is known leads to a node at its address. -/
theorem get?_ne_none_of_realPath (hd : d.Proper) (hx : ∀ name ∈ x, Path.IsName name)
    (h : d.realPath q = .ok (.ofNames x)) : d.tree.get? x ≠ none := by
  obtain ⟨place, node, -, hget, -, heq⟩ := exists_of_realPath hd.grounded h
  rw [Path.ofNames_inj hx (hd.isName hget)] at heq
  rw [heq, hget]
  exact Option.some_ne_none node

/-- A key that names nothing is a normal form. -/
theorem normalize_of_key_eq (hd : d.Proper) (hx : ∀ name ∈ x, Path.IsName name)
    (hnone : d.tree.get? x = none) (hkey : d.key q = .ofNames x) :
    ((Path.ofNames d.cwd).join q).normalize = .ofNames x := by
  cases hreal : d.realPath q with
  | error e =>
    rw [← hkey]
    exact (key_of_realPath_error hreal).symm
  | ok real =>
    rw [key_of_realPath hreal] at hkey
    rw [hkey] at hreal
    exact absurd hnone (get?_ne_none_of_realPath hd hx hreal)

/-- Nothing can be read under it. -/
theorem readText_ne_ok_of_key_eq (hd : d.Proper) (hx : ∀ name ∈ x, Path.IsName name)
    (hnone : d.tree.get? x = none) (hkey : d.key q = .ofNames x) (text : String) :
    d.readText q ≠ .ok text := by
  intro hread
  obtain ⟨y, hlocate⟩ := locate_of_readText hread
  obtain ⟨contents, program, hget⟩ := holds_of_locate hd.grounded hlocate
  have hreal := realPath_of_locate hd.grounded hlocate hget
  rw [← key_of_realPath hreal, hkey] at hreal
  exact get?_ne_none_of_realPath hd hx hreal hnone

theorem Below.realPath_error (h : d.Below root p a) (hd : d.Proper)
    (hnone : d.tree.get? (a ++ p.names) = none) :
    ∃ e, d.realPath (root.join p) = .error e := by
  cases hreal : d.realPath (root.join p) with
  | error e => exact ⟨e, rfl⟩
  | ok real =>
    obtain ⟨place, node, hlocate, hget, -, -⟩ := exists_of_realPath hd.grounded hreal
    rw [h.address hlocate, hnone] at hget
    cases hget

/-- Below the real path of the directory, what is not there is its own key. -/
theorem Below.key_ofNames (h : d.Below root p a) (hd : d.Proper)
    (hnone : d.tree.get? (a ++ p.names) = none) :
    d.key (.ofNames (a ++ p.names)) = .ofNames (a ++ p.names) := by
  have hnames := h.isName hd
  have hno : ¬ d.tree.MeetsLink [] (a ++ p.names) := by
    intro hmeets
    obtain ⟨entries, hget⟩ := h.exists_dir hd.grounded
    have hdir : ∀ target, FileTree.dir entries ≠ .link target := nofun
    rcases hmeets.of_append with hfront | hrest
    · exact FileTree.not_meetsLink_of_get? hget hdir hfront
    · exact h.unlinked hrest
  rw [hd.key_ofNames_iff hnames]
  rintro ⟨⟨real, hreal⟩, -⟩
  obtain ⟨place, node, hlocate, hget, -, -⟩ := exists_of_realPath hd.grounded hreal
  rw [address_of_locate_ofNames hnames hno hlocate, hnone] at hget
  cases hget

/-- Below the directory as it is spelled, its key has the names behind those of the directory's
    normal form. -/
theorem Below.key_of_missing (h : d.Below root p a) (hd : d.Proper)
    (hnone : d.tree.get? (a ++ p.names) = none) {names : List String}
    (hnormal : ((Path.ofNames d.cwd).join root).normalize = .ofNames names)
    (hnames : ∀ name ∈ names, Path.IsName name) :
    d.key (root.join p) = .ofNames (names ++ p.names) := by
  have hcwd : (Path.ofNames d.cwd).isAbsolute := Path.isAbsolute_ofNames d.cwd
  obtain ⟨e, herror⟩ := h.realPath_error hd hnone
  rw [key_of_realPath_error herror, Path.normalize_congr (Path.parts_join_join hcwd h.relative)]
  exact Path.normalize_join (Path.isAbsolute_join hcwd root) h.relative h.forward hnormal hnames

/-- **New files**: the key of what is not there leads on to the key below the real path of the
    directory exactly if the normal form of the directory's path is that real path. -/
theorem Below.key_key_iff (h : d.Below root p a) (hd : d.Proper)
    (hnone : d.tree.get? (a ++ p.names) = none) :
    d.key (d.key (root.join p)) = .ofNames (a ++ p.names) ↔
      ((Path.ofNames d.cwd).join root).normalize = .ofNames a := by
  obtain ⟨names, hnormal, hnames⟩ := exists_normalize_join_eq d root
  obtain ⟨entries, hget⟩ := h.exists_dir hd.grounded
  rw [h.key_of_missing hd hnone hnormal hnames, hnormal,
    Path.ofNames_inj hnames (hd.isName hget)]
  constructor
  · intro hkey
    -- The second key names nothing either, so it is the normal form of the first one.
    have hnew := Path.isName_append_names hnames p
    have hsame := normalize_of_key_eq hd (h.isName hd) hnone hkey
    have habsolute : (Path.ofNames d.cwd).join (.ofNames (names ++ p.names)) =
        .ofNames (names ++ p.names) := if_pos (Path.isAbsolute_ofNames _)
    rw [habsolute, Path.normalize_ofNames hnew, Path.ofNames_inj hnew (h.isName hd)] at hsame
    exact List.append_cancel_right hsame
  · intro hsame
    rw [hsame]
    exact h.key_ofNames hd hnone

end SolidityBuild.Disk
