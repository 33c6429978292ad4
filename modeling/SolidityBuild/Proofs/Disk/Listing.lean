import SolidityBuild.Proofs.Disk.RealPath

/-! # Listing: what lies at an address, and which names a directory has

    A path through names that meets no link leads to what lies at their address. The names that
    a directory is listed with are names of the tree.
-/

namespace SolidityBuild

open FileTree (Step Place)

namespace FileTree

variable {t : FileTree} {follow : Address → List Step → Except SystemError Place}
  {start : Address} {names : List String} {node : FileTree}

/-- Where a walk ends that comes to a node. -/
def placeAt (address : Address) : FileTree → Option Place
  | .dir _ => some (.directory address)
  | .file .. => some (.file address)
  | .link _ => none

/-- A walk through names comes to the node at their address. -/
theorem walkFrom_enters {place : Place} (h : t.get? (start ++ names) = some node)
    (hstart : t.DirAt start) (hplace : placeAt (start ++ names) node = some place) :
    walkFrom t follow start (enters names) = .ok place := by
  induction names generalizing start with
  | nil =>
    obtain ⟨entries, hdir⟩ := hstart
    rw [List.append_nil] at h hplace
    rw [hdir] at h
    obtain rfl := Option.some.inj h
    rw [← Option.some.inj hplace]
    rfl
  | cons name names ih =>
    rw [List.append_cons] at h hplace
    obtain ⟨child, hchild, hnode⟩ := Option.bind_eq_some_iff.1 ((get?_append t _ _).symm.trans h)
    show walkFrom t follow start (.enter name :: enters names) = .ok place
    -- Only a directory has anything below it.
    cases child with
    | dir entries =>
      rw [walkFrom_enter_dir hchild]
      exact ih h ⟨entries, hchild⟩ hplace
    | file contents program =>
      cases names with
      | cons next names => cases (get?_of_no_entries rfl next names).symm.trans hnode
      | nil =>
        obtain rfl := Option.some.inj hnode
        rw [List.append_nil] at hplace
        rw [walkFrom_enter_file hchild, ← Option.some.inj hplace]
        rfl
    | link target =>
      cases names with
      | cons next names => cases (get?_of_no_entries rfl next names).symm.trans hnode
      | nil =>
        obtain rfl := Option.some.inj hnode
        cases hplace

end FileTree

namespace Disk

variable {d : Disk} {p : Path} {names front rest : List String} {name : String} {node : FileTree}

/-- A path through names leads to the node at their address, unless that is a link. -/
theorem locate_ofNames {place : Place} (hd : d.Grounded)
    (hcheck : check (.ofNames names) = .ok ()) (hnames : ∀ name ∈ names, Path.IsName name)
    (h : d.tree.get? names = some node) (hplace : FileTree.placeAt names node = some place) :
    d.locate (.ofNames names) = .ok place := by
  have horigin : d.origin (.ofNames names) = [] := if_pos (Path.isAbsolute_ofNames names)
  obtain ⟨follow, hwalk⟩ := FileTree.exists_follow d.tree FileTree.linkLimit
  have henters : FileTree.walkFrom d.tree follow [] (FileTree.enters names) = .ok place :=
    FileTree.walkFrom_enters h (FileTree.DirAt.root hd) hplace
  rw [locate_of_check hcheck, horigin, hwalk]
  by_cases hne : names = []
  · subst hne
    exact henters
  · rw [steps_ofNames hne hnames]
    exact henters

theorem isDir_ofNames {entries : List (String × FileTree)} (hd : d.Grounded)
    (hcheck : check (.ofNames names) = .ok ()) (hnames : ∀ name ∈ names, Path.IsName name)
    (h : d.tree.get? names = some (.dir entries)) : d.isDir (.ofNames names) = true :=
  isDir_iff.2 ⟨names, locate_ofNames hd hcheck hnames h rfl⟩

theorem isFile_ofNames {contents : ByteArray} {program : Option Program} (hd : d.Grounded)
    (hcheck : check (.ofNames names) = .ok ()) (hnames : ∀ name ∈ names, Path.IsName name)
    (h : d.tree.get? names = some (.file contents program)) :
    d.isFile (.ofNames names) = true := by
  unfold isFile
  rw [locate_ofNames hd hcheck hnames h rfl]

theorem list_ofNames {entries : List (String × FileTree)} (hd : d.Grounded)
    (hcheck : check (.ofNames names) = .ok ()) (hnames : ∀ name ∈ names, Path.IsName name)
    (h : d.tree.get? names = some (.dir entries)) :
    d.list (.ofNames names) = entries.map Prod.fst := by
  unfold list Disk.node
  rw [locate_ofNames hd hcheck hnames h rfl]
  simp only [h]
  rfl

/-- What lies behind a name is listed with this name in the directory before. -/
theorem isDir_and_mem_list (hd : d.Grounded) (hnames : ∀ name ∈ front, Path.IsName name)
    (hcheck : check (.ofNames front) = .ok ())
    (h : d.tree.get? (front ++ name :: rest) = some node) :
    d.isDir (.ofNames front) = true ∧ name ∈ d.list (.ofNames front) := by
  rw [FileTree.get?_append] at h
  obtain ⟨above, habove, h⟩ := Option.bind_eq_some_iff.1 h
  rw [FileTree.get?_cons] at h
  obtain ⟨child, hchild, -⟩ := Option.bind_eq_some_iff.1 h
  -- Only a directory has anything below it.
  cases above with
  | dir entries =>
    refine ⟨isDir_ofNames hd hcheck hnames habove, ?_⟩
    rw [list_ofNames hd hcheck hnames habove]
    exact List.mem_map_of_mem (ByName.mem_of_get? hchild)
  | file contents program => cases hchild
  | link target => cases hchild

theorem get?_of_node {address : Address} (h : d.node p = .ok (address, node)) :
    d.tree.get? address = some node := by
  unfold Disk.node at h
  split at h
  · cases h
  · cases h
  all_goals
    split at h
    · rename_i hget
      cases h
      exact hget
    · cases h

/-- The names that are listed are names of the tree. -/
theorem mem_names_of_mem_list (h : name ∈ d.list p) : name ∈ d.tree.names := by
  unfold list at h
  split at h
  · rename_i address node hnode
    obtain ⟨child, hchild⟩ := ByName.exists_get?_of_mem h
    have hbelow : d.tree.get? (address ++ [name]) = some child := by
      rw [FileTree.get?_append, get?_of_node hnode, Option.bind_some, FileTree.get?_cons, hchild]
      rfl
    exact FileTree.mem_names hbelow (by simp)
  · cases h

end Disk

end SolidityBuild
