import Mathlib.Data.String.Basic
import SolidityBuild.Proofs.Glob.Searching

/-! # Sources: which addresses a search for sources comes to

    What is found below a base leads on from it through names of the disk, ends like a source,
    and is short enough for a path. Each address of this kind is found on some disk, even if
    there is nothing else on it.
-/

namespace SolidityBuild

/-! ## Paths that can be walked -/

namespace Disk

variable {d : Disk} {p : Path} {names more : List String}

/-- A disk whose names are not longer than those that can be made. -/
structure Storable (d : Disk) : Prop extends Proper d where
  short : ∀ name ∈ d.tree.names, name.utf8ByteSize ≤ FileTree.nameLimit

theorem check_ofNames_iff (hne : names ≠ []) : check (.ofNames names) = .ok () ↔
    '\x00' ∉ Path.slashed names ∧ String.utf8Len (Path.slashed names) ≤ pathLimit := by
  have htext := Path.toList_ofNames hne
  have hsize : (Path.ofNames names).text.utf8ByteSize = String.utf8Len (Path.slashed names) := by
    rw [← String.utf8Len_toList, htext]
  have hnonempty : (Path.ofNames names).text.isEmpty = false := by
    rw [Bool.eq_false_iff, Ne, String.isEmpty_iff]
    intro hempty
    obtain ⟨first, rest, rfl⟩ := List.exists_cons_of_ne_nil hne
    rw [hempty] at htext
    cases htext
  unfold check
  rw [hnonempty, htext, hsize]
  by_cases hzero : '\x00' ∈ Path.slashed names
  · simp [hzero]
  · by_cases hlong : pathLimit < String.utf8Len (Path.slashed names)
    · simp [hzero, hlong]
    · simp [hzero, hlong, Nat.le_of_not_lt hlong]

/-- What can be spelled below a directory can be spelled below the root. -/
theorem check_ofNames_of_append (hne : more ≠ []) (h : check (.ofNames (names ++ more)) = .ok ()) :
    check (.ofNames more) = .ok () := by
  rw [check_ofNames_iff (List.append_ne_nil_of_right_ne_nil _ hne), Path.slashed_append] at h
  obtain ⟨hzero, hshort⟩ := h
  rw [String.utf8Len_append] at hshort
  rw [check_ofNames_iff hne]
  exact ⟨fun hmem => hzero (List.mem_append_right _ hmem), by omega⟩

/-- So can the directories on the way. -/
theorem check_ofNames_front (h : check (.ofNames (names ++ more)) = .ok ()) :
    check (.ofNames names) = .ok () := by
  by_cases hne : names = []
  · subst hne
    rfl
  · rw [check_ofNames_iff (List.append_ne_nil_of_left_ne_nil hne _), Path.slashed_append] at h
    obtain ⟨hzero, hshort⟩ := h
    rw [String.utf8Len_append] at hshort
    rw [check_ofNames_iff hne]
    exact ⟨fun hmem => hzero (List.mem_append_left _ hmem), by omega⟩

theorem check_of_isFile (h : d.isFile p = true) : check p = .ok () := by
  unfold isFile at h
  split at h
  · rename_i hlocate
    exact check_of_locate hlocate
  · cases h

end Disk

/-! ## Ways through directories -/

/-- The directories on the way to what lies below one lead on to it. -/
theorem Glob.Leads.of_get? {d : Disk} {front rest : List String} {node : FileTree}
    (hd : d.Proper) (hcheck : Disk.check (.ofNames (front ++ rest)) = .ok ())
    (hget : d.tree.get? (front ++ rest) = some node) (hrest : rest ≠ []) :
    Leads d (.ofNames front) rest (.ofNames (front ++ rest)) := by
  induction rest generalizing front with
  | nil => exact absurd rfl hrest
  | cons name rest ih =>
    have hnames := hd.isName hget
    have hfront : ∀ other ∈ front, Path.IsName other :=
      fun other hother => hnames other (List.mem_append_left _ hother)
    obtain ⟨hdir, hlist⟩ :=
      Disk.isDir_and_mem_list hd.grounded hfront (Disk.check_ofNames_front hcheck) hget
    have hentry := entryOf_ofNames hfront (hnames name (by simp))
    by_cases hlast : rest = []
    · subst hlast
      have hleads := Leads.last hdir hlist
      rw [hentry] at hleads
      exact hleads
    · rw [List.append_cons] at hcheck hget ⊢
      apply Leads.step hdir hlist
      rw [hentry]
      exact ih hcheck hget hlast

/-! ## A single file -/

namespace FileTree

variable {names front rest : List String} {name : String}

/-- The tree with nothing but a file at an address. -/
def lone : Address → FileTree
  | [] => .file ByteArray.empty none
  | name :: rest => .dir [(name, lone rest)]

theorem get?_lone_append (front rest : List String) :
    (lone (front ++ rest)).get? front = some (lone rest) := by
  induction front with
  | nil => rfl
  | cons name front ih =>
    rw [List.cons_append, get?, lone]
    simp [entries, ByName.get?, ih]

theorem get?_lone (names : List String) :
    (lone names).get? names = some (.file ByteArray.empty none) := by
  have hfront := get?_lone_append names []
  rwa [List.append_nil] at hfront

theorem mem_of_mem_names_lone (h : name ∈ (lone names).names) : name ∈ names := by
  induction names with
  | nil => simp [lone, FileTree.names, nodes] at h
  | cons first rest ih =>
    obtain ⟨⟨address, node⟩, hnode, hname⟩ := List.mem_flatMap.1 h
    rw [lone, nodes, entryNodes, entryNodes, List.append_nil] at hnode
    -- Apart from the root, which has no name, all nodes lie below the first name.
    rcases List.mem_cons.1 hnode with hroot | hbelow
    · cases hroot
      cases hname
    · obtain ⟨⟨below, node'⟩, hmem, heq⟩ := List.mem_map.1 hbelow
      cases heq
      rcases List.mem_cons.1 hname with rfl | hname
      · exact List.mem_cons_self ..
      · exact List.mem_cons_of_mem _ (ih (List.mem_flatMap.2 ⟨_, hmem, hname⟩))

end FileTree

namespace Glob

variable {d : Disk} {r : SearchRequest} {g : Glob} {names above : List String} {q : Path}
  {files : List Path} {fuel : Nat} {node : FileTree}

/-- Names that lead from some directory to what a search for sources may find there. -/
structure IsSourceAddress (names : List String) : Prop where
  named : ∀ name ∈ names, Path.IsName name
  short : ∀ name ∈ names, name.utf8ByteSize ≤ FileTree.nameLimit
  checked : Disk.check (.ofNames names) = .ok ()
  source : ∃ last ∈ names.getLast?, sourceFiles.accepts last = true

theorem IsSourceAddress.ne_nil (h : IsSourceAddress names) : names ≠ [] := by
  rintro rfl
  obtain ⟨last, hlast, -⟩ := h.source
  cases hlast

/-- The disk with nothing but a file at an address. -/
def loneDisk (names : List String) : Disk where
  tree := .lone names
  cwd := []

theorem IsSourceAddress.storable (h : IsSourceAddress names) : (loneDisk names).Storable where
  named := fun name hname => h.named name (FileTree.mem_of_mem_names_lone hname)
  grounded := by
    obtain ⟨first, rest, rfl⟩ := List.exists_cons_of_ne_nil h.ne_nil
    exact ⟨_, rfl⟩
  short := fun name hname => h.short name (FileTree.mem_of_mem_names_lone hname)

theorem IsSourceAddress.isFile (h : IsSourceAddress names) :
    (loneDisk names).isFile (.ofNames names) = true :=
  Disk.isFile_ofNames h.storable.grounded h.checked h.named (FileTree.get?_lone names)

/-- The directories on the way lead on to the file. -/
theorem IsSourceAddress.leads (h : IsSourceAddress names) :
    Leads (loneDisk names) (.ofNames []) names (.ofNames names) :=
  Leads.of_get? h.storable.toProper h.checked (FileTree.get?_lone names) h.ne_nil

/-! ## Searches -/

/-- What two stars and a pattern lead to below a directory. -/
theorem exists_names_of_mem_expand (hd : d.Proper) (hg : g.isRecursive = false)
    (habove : ∀ name ∈ above, Path.IsName name)
    (h : q ∈ expand d false fuel [anyDepth, g] (.ofNames above)) :
    ∃ names, q = .ofNames (above ++ names) ∧ (∀ name ∈ names, name ∈ d.tree.names) ∧
      ∃ last ∈ names.getLast?, g.accepts last = true := by
  obtain ⟨names, hleads, hlast⟩ := exists_leads_of_mem_expand hg h
  obtain ⟨hq, hnames⟩ := hleads.eq_ofNames hd habove rfl
  exact ⟨names, hq, hnames, hlast⟩

/-- What a search finds lies below its base, and the pattern picks it by its own name. -/
theorem exists_names_of_mem_searchBelow (hd : d.Proper) (hg : g.isRecursive = false)
    (habove : ∀ name ∈ above, Path.IsName name) (h : q ∈ searchBelow d above g) :
    ∃ names, q = .ofNames (above ++ names) ∧ (∀ name ∈ names, name ∈ d.tree.names) ∧
      ∃ last ∈ names.getLast?, g.accepts last = true := by
  have hall : ∀ name ∈ [] ++ above, Path.IsName name := habove
  obtain ⟨fuel, hbelow⟩ := mem_expand_names hall (List.cons_ne_nil _ _) h
  exact exists_names_of_mem_expand hd hg habove hbelow

/-- What a search for sources finds below its base. -/
theorem exists_names_of_found (hd : d.Storable) (hbase : r.base = .ofNames above)
    (habove : ∀ name ∈ above, Path.IsName name) (hwanted : r.wanted.toList = allSources)
    (hfind : find d (Disk.searchPattern r) = .ok files) (hq : q ∈ files)
    (hfile : d.isFile q = true) :
    ∃ names, q = .ofNames (above ++ names) ∧ IsSourceAddress names := by
  rw [find_sources hbase habove hwanted, Except.ok.injEq] at hfind
  rw [← hfind] at hq
  obtain ⟨names, rfl, hnames, last, hlast, haccepts⟩ :=
    exists_names_of_mem_searchBelow hd.toProper rfl habove hq
  have hne : names ≠ [] := by
    rintro rfl
    cases hlast
  refine ⟨names, rfl, ?_⟩
  exact {
    named := fun name hname => hd.named name (hnames name hname)
    short := fun name hname => hd.short name (hnames name hname)
    checked := Disk.check_ofNames_of_append hne (Disk.check_of_isFile hfile)
    source := ⟨last, hlast, haccepts⟩ }

/-- The fuel is a multiple of the height of the tree, and no address is longer than that. -/
theorem length_le_reach (h : d.tree.get? names = some node) (count : Nat) :
    names.length ≤ reach d count := by
  have hheight := FileTree.length_le_height h
  unfold reach
  calc
    names.length ≤ d.tree.height + 2 := by omega
    _ ≤ (count + FileTree.linkLimit + 2) * (d.tree.height + 2) :=
      Nat.le_mul_of_pos_left _ (by omega)

/-- From the root of a disk with a single source that source is found. -/
theorem IsSourceAddress.exists_find (h : IsSourceAddress names) (hbase : r.base = .ofNames [])
    (hwanted : r.wanted.toList = allSources) :
    ∃ files, find (loneDisk names) (Disk.searchPattern r) = .ok files ∧
      .ofNames names ∈ files := by
  refine ⟨_, find_sources hbase nofun hwanted, ?_⟩
  apply mem_expand_of_leads rfl h.leads ?_ (length_le_reach (FileTree.get?_lone names) 2)
  intro last hlast
  obtain ⟨last', hlast', haccepts⟩ := h.source
  rw [Option.mem_unique hlast hlast']
  exact haccepts

end Glob

end SolidityBuild
