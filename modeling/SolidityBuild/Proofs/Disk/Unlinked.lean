import SolidityBuild.Proofs.Disk.Listing

/-! # Disks without links: what the system says about a path is what lies at its address

    Where there are no links a path through names leads to the address that these names make
    and nowhere else. So it leads to a file exactly if the tree has a file there, and to each
    file in one way only. Each directory lists a name once.
-/

namespace SolidityBuild

namespace FileTree

variable {t : FileTree} {start address : Address} {names : List String}

/-- Whether a node is a file. -/
def isFile : FileTree → Bool
  | .file .. => true
  | _ => false

/-- Whether a node is a link. -/
def isLink : FileTree → Bool
  | .link _ => true
  | _ => false

/-- The addresses of the files in a tree. -/
def files (t : FileTree) : List Address :=
  (t.nodes.filter fun found => found.2.isFile).map Prod.fst

theorem mem_files {contents : ByteArray} {program : Option Program}
    (h : t.get? address = some (.file contents program)) : address ∈ t.files :=
  List.mem_map.2 ⟨_, List.mem_filter.2 ⟨mem_nodes_of_get? h, rfl⟩, rfl⟩

theorem not_meetsLink (h : ∀ found ∈ t.nodes, found.2.isLink = false) :
    ¬ t.MeetsLink start names := by
  intro hmeets
  induction hmeets with
  | here hlink => exact Bool.noConfusion (h _ (mem_nodes_of_get? hlink))
  | later _ ih => exact ih

end FileTree

namespace Disk

/-- A disk as it can be that has no links. -/
structure Unlinked (d : Disk) : Prop extends Proper d where
  distinct : ∀ found ∈ d.tree.nodes, (found.2.entries.map Prod.fst).Nodup
  unlinked : ∀ found ∈ d.tree.nodes, found.2.isLink = false

variable {d : Disk} {names : List String} {node : FileTree}

theorem Unlinked.nodup_list (hd : d.Unlinked) (p : Path) : (d.list p).Nodup := by
  unfold list
  split
  · rename_i hnode
    exact hd.distinct _ (FileTree.mem_nodes_of_get? (get?_of_node hnode))
  · exact List.nodup_nil

/-- A path through names leads to a file exactly if one lies at their address, provided that the
    system takes the path. -/
theorem Unlinked.isFile_ofNames_iff (hd : d.Unlinked) (hnames : ∀ name ∈ names, Path.IsName name) :
    d.isFile (.ofNames names) = true ↔ check (.ofNames names) = .ok () ∧
      ∃ contents program, d.tree.get? names = some (.file contents program) := by
  constructor
  · intro h
    unfold isFile at h
    split at h
    · rename_i x hlocate
      -- Without a link on the way the walk ends at the address that the names make.
      have haddress : x = names :=
        address_of_locate_ofNames hnames (FileTree.not_meetsLink hd.unlinked) hlocate
      obtain ⟨contents, program, hget⟩ := holds_of_locate hd.grounded hlocate
      rw [haddress] at hget
      exact ⟨check_of_locate hlocate, contents, program, hget⟩
    · cases h
  · intro ⟨hcheck, contents, program, hget⟩
    exact isFile_ofNames hd.grounded hcheck hnames hget

theorem Unlinked.hasEntry_ofNames (hd : d.Unlinked) (hcheck : check (.ofNames names) = .ok ())
    (hget : d.tree.get? names = some node) : d.hasEntry (.ofNames names) = true := by
  have hnames := hd.isName hget
  unfold hasEntry exists?
  cases node with
  | file contents program =>
    rw [isFile_ofNames hd.grounded hcheck hnames hget]
    rfl
  | dir entries =>
    rw [isDir_ofNames hd.grounded hcheck hnames hget, Bool.or_true]
    rfl
  | link target => exact Bool.noConfusion (hd.unlinked _ (FileTree.mem_nodes_of_get? hget))

end Disk

end SolidityBuild
