import SolidityBuild.Proofs.Disk.Writing
import SolidityBuild.Proofs.FileTree.Links
import SolidityBuild.Proofs.Path.Names

/-! # Real paths: which paths are their own keys

    The key of a path is the real path of what it leads to, or its normal form where it leads
    nowhere. A real path has no link on it, so it is its own key. A normal form may have one:
    what the path as it is spelled could not reach may be there after `..` took a missing name
    away, and then the normal form is not its own key.
-/

namespace SolidityBuild

open FileTree (Step Place MeetsLink)

/-! ## Steps of a path -/

namespace FileTree

/-- The step of a segment enters the name that is its part. -/
theorem name?_ofSegment (segment : List Char) :
    (Step.ofSegment segment).name? = (Path.Part.ofSegment? segment).bind Path.Part.name? := by
  unfold Step.ofSegment
  split
  · rfl
  · rfl
  · rfl
  · rename_i hempty hhere hup
    unfold Path.Part.ofSegment?
    split
    · exact absurd rfl hempty
    · exact absurd rfl hhere
    · exact absurd rfl hup
    · rfl

/-- The steps of a path enter its names. -/
theorem entered_steps (p : Path) : entered (steps p) = p.names := by
  rw [Path.names_eq, entered, steps, List.filterMap_map, List.filterMap_filterMap]
  congr 1
  funext segment
  exact name?_ofSegment segment

theorem up_mem_parts_of_mem_steps {p : Path} (h : .up ∈ steps p) : .up ∈ p.parts := by
  obtain ⟨segment, hsegment, hstep⟩ := List.mem_map.1 h
  apply List.mem_append_right
  refine List.mem_filterMap.2 ⟨segment, hsegment, ?_⟩
  unfold Step.ofSegment at hstep
  split at hstep
  · cases hstep
  · cases hstep
  · rfl
  · cases hstep

end FileTree

namespace Disk

variable {d : Disk} {p real : Path} {place : Place} {node : FileTree} {names : List String}

/-- A disk as it can be: an entry's name is one segment of a path, and the current directory
    is there. -/
structure Proper (d : Disk) : Prop where
  named : ∀ name ∈ d.tree.names, Path.IsName name
  grounded : d.Grounded

theorem Proper.isName (hd : d.Proper) {x : Address} (h : d.tree.get? x = some node) :
    ∀ name ∈ x, Path.IsName name :=
  fun name hname => hd.named name (FileTree.mem_names h hname)

/-! ## Where paths without links lead -/

/-- A path that does not climb and meets no link leads to the address that its names make. -/
theorem address_of_locate (hup : .up ∉ p.parts)
    (hno : ¬ d.tree.MeetsLink (d.origin p) p.names) (h : d.locate p = .ok place) :
    place.address = d.origin p ++ p.names := by
  rw [locate_of_check (check_of_locate h)] at h
  rw [← FileTree.entered_steps] at hno ⊢
  exact FileTree.address_of_walk (fun hmem => hup (FileTree.up_mem_parts_of_mem_steps hmem)) hno h

theorem address_of_locate_ofNames (hnames : ∀ name ∈ names, Path.IsName name)
    (hno : ¬ d.tree.MeetsLink [] names) (h : d.locate (.ofNames names) = .ok place) :
    place.address = names := by
  have horigin : d.origin (.ofNames names) = [] := if_pos (Path.isAbsolute_ofNames names)
  have hup : Path.Part.up ∉ (Path.ofNames names).parts := by
    rw [Path.parts_ofNames hnames]
    simp
  rw [← Path.names_ofNames hnames, ← horigin] at hno
  have haddress := address_of_locate hup hno h
  rw [horigin, Path.names_ofNames hnames] at haddress
  exact haddress

/-! ## Real paths -/

/-- A path has a real path if a directory or a file lies where it leads. -/
theorem exists_of_realPath (hd : d.Grounded) (h : d.realPath p = .ok real) :
    ∃ place node, d.locate p = .ok place ∧ d.tree.get? place.address = some node ∧
      (∀ target, node ≠ .link target) ∧ real = .ofNames place.address := by
  unfold realPath Disk.node at h
  cases hlocate : d.locate p with
  | error e =>
    rw [hlocate] at h
    cases h
  | ok place =>
    have hholds := holds_of_locate hd hlocate
    rw [hlocate] at h
    cases place with
    | vacant parent name => cases h
    | directory x =>
      obtain ⟨entries, hget⟩ := hholds
      simp only [hget] at h
      exact ⟨_, _, rfl, hget, nofun, (Except.ok.inj h).symm⟩
    | file x =>
      obtain ⟨contents, program, hget⟩ := hholds
      simp only [hget] at h
      exact ⟨_, _, rfl, hget, nofun, (Except.ok.inj h).symm⟩

theorem realPath_of_locate (hd : d.Grounded) (h : d.locate p = .ok place)
    (hnode : d.tree.get? place.address = some node) :
    d.realPath p = .ok (.ofNames place.address) := by
  unfold realPath Disk.node
  cases place with
  | vacant parent name =>
    obtain ⟨-, hnone, -⟩ := holds_of_locate hd h
    cases hnone.symm.trans hnode
  | directory x =>
    have hget : d.tree.get? x = some node := hnode
    simp only [h, hget]
    rfl
  | file x =>
    have hget : d.tree.get? x = some node := hnode
    simp only [h, hget]
    rfl

theorem key_of_realPath (h : d.realPath p = .ok real) : d.key p = real := by
  unfold key
  rw [h]

theorem key_of_realPath_error {e : SystemError} (h : d.realPath p = .error e) :
    d.key p = ((Path.ofNames d.cwd).join p).normalize := by
  unfold key
  rw [h]

/-- The normal form of a path as seen from the current directory leads from the root through
    names. -/
theorem exists_normalize_join_eq (d : Disk) (p : Path) :
    ∃ names, ((Path.ofNames d.cwd).join p).normalize = .ofNames names ∧
      ∀ name ∈ names, Path.IsName name :=
  Path.normalize_of_isAbsolute (Path.isAbsolute_join (Path.isAbsolute_ofNames d.cwd) p)

/-- So every key does. -/
theorem Proper.exists_key_eq (hd : d.Proper) (p : Path) :
    ∃ names, d.key p = .ofNames names ∧ ∀ name ∈ names, Path.IsName name := by
  cases hreal : d.realPath p with
  | ok real =>
    obtain ⟨place, node, -, hget, -, rfl⟩ := exists_of_realPath hd.grounded hreal
    exact ⟨_, key_of_realPath hreal, hd.isName hget⟩
  | error e =>
    rw [key_of_realPath_error hreal]
    exact exists_normalize_join_eq d p

/-! ## Keys of keys -/

/-- A path leads to something, but through a link. -/
def Redirected (d : Disk) (p : Path) : Prop :=
  (∃ real, d.realPath p = .ok real) ∧ d.tree.MeetsLink [] p.names

/-- A path leads nowhere, but its normal form leads through a link to something. -/
def Resurfaces (d : Disk) (p : Path) : Prop :=
  (∃ e, d.realPath p = .error e) ∧ d.Redirected ((Path.ofNames d.cwd).join p).normalize

/-- A path through names is its own key, unless it is redirected. -/
theorem Proper.key_ofNames_iff (hd : d.Proper) (hnames : ∀ name ∈ names, Path.IsName name) :
    d.key (.ofNames names) = .ofNames names ↔ ¬ d.Redirected (.ofNames names) := by
  unfold Redirected
  rw [Path.names_ofNames hnames]
  cases hreal : d.realPath (.ofNames names) with
  | error e =>
    -- What leads nowhere has its normal form as its key.
    have habsolute : (Path.ofNames d.cwd).join (.ofNames names) = .ofNames names :=
      if_pos (Path.isAbsolute_ofNames names)
    rw [key_of_realPath_error hreal, habsolute, Path.normalize_ofNames hnames]
    simp
  | ok real =>
    obtain ⟨place, node, hlocate, hget, hnode, rfl⟩ := exists_of_realPath hd.grounded hreal
    rw [key_of_realPath hreal, Path.ofNames_inj (hd.isName hget) hnames]
    constructor
    · rintro haddress ⟨-, hmeets⟩
      rw [haddress] at hget
      exact FileTree.not_meetsLink_of_get? hget hnode hmeets
    · intro hnot
      exact address_of_locate_ofNames hnames (fun hmeets => hnot ⟨⟨_, rfl⟩, hmeets⟩) hlocate

/-- There is no link on a real path. -/
theorem Proper.not_redirected_realPath (hd : d.Proper) (h : d.realPath p = .ok real) :
    ¬ d.Redirected real := by
  obtain ⟨place, node, -, hget, hnode, rfl⟩ := exists_of_realPath hd.grounded h
  rintro ⟨-, hmeets⟩
  rw [Path.names_ofNames (hd.isName hget)] at hmeets
  exact FileTree.not_meetsLink_of_get? hget hnode hmeets

/-- So it is its own key. -/
theorem Proper.key_realPath (hd : d.Proper) (h : d.realPath p = .ok real) :
    d.key real = real := by
  have hnot := hd.not_redirected_realPath h
  obtain ⟨place, node, -, hget, -, rfl⟩ := exists_of_realPath hd.grounded h
  exact (hd.key_ofNames_iff (hd.isName hget)).2 hnot

/-- The key of a path is its own key, unless the path resurfaces. -/
theorem Proper.key_key_iff (hd : d.Proper) (p : Path) :
    d.key (d.key p) = d.key p ↔ ¬ d.Resurfaces p := by
  unfold Resurfaces
  cases hreal : d.realPath p with
  | ok real =>
    rw [key_of_realPath hreal]
    simp [hd.key_realPath hreal]
  | error e =>
    obtain ⟨names, hnormal, hnames⟩ := exists_normalize_join_eq d p
    rw [key_of_realPath_error hreal, hnormal, hd.key_ofNames_iff hnames]
    simp

end Disk

end SolidityBuild
