import SolidityBuild.ByName

/-! # File trees: directories, files and symbolic links as a value

    An address is the list of names that leads from the root of a tree to one of its nodes,
    without links in between. An executable file carries what it answers when it is run, so
    that running a program needs nothing outside the tree.
-/

namespace SolidityBuild

/-- What a program answers, whatever it is given. -/
structure Program where
  stdout : ByteArray
  stderr : ByteArray
  exitCode : Nat

/-- A file, a symbolic link or a directory with its named entries. -/
inductive FileTree where
  | file (contents : ByteArray) (program : Option Program)
  | link (target : String)
  | dir (entries : List (String × FileTree))
deriving Inhabited

/-- The names from the root of a tree down to a node. -/
abbrev Address := List String

namespace FileTree

/-- The entries of a directory. -/
def entries : FileTree → List (String × FileTree)
  | .dir entries => entries
  | _ => []

/-- Whether a node is a directory. -/
def isDir : FileTree → Bool
  | .dir _ => true
  | _ => false

/-- The node at an address. -/
def get? (t : FileTree) : Address → Option FileTree
  | [] => some t
  | name :: rest =>
    match ByName.get? name t.entries with
    | some child => get? child rest
    | none => none

/-- The tree with the node at an address replaced or added; a tree in which the address has
    no directory to lie in stays as it is. -/
def put (t : FileTree) (node : FileTree) : Address → FileTree
  | [] => node
  | name :: rest =>
    match t with
    | .dir entries =>
      match rest, ByName.get? name entries with
      | [], _ => .dir (ByName.insert name node entries)
      | _, some child => .dir (ByName.insert name (put child node rest) entries)
      | _, none => t
    | _ => t

/-- The tree without the node at an address. -/
def erase (t : FileTree) : Address → FileTree
  | [] => .dir []
  | name :: rest =>
    match t with
    | .dir entries =>
      match rest, ByName.get? name entries with
      | [], _ => .dir (ByName.erase name entries)
      | _, some child => .dir (ByName.insert name (erase child rest) entries)
      | _, none => t
    | _ => t

mutual

/-- The addresses of all nodes with the nodes themselves, a directory before its entries. -/
def nodes : FileTree → List (Address × FileTree)
  | .file contents program => [([], .file contents program)]
  | .link target => [([], .link target)]
  | .dir entries => ([], .dir entries) :: entryNodes entries

/-- The nodes below a directory. -/
def entryNodes : List (String × FileTree) → List (Address × FileTree)
  | [] => []
  | (name, t) :: rest =>
    (nodes t).map (fun (address, node) => (name :: address, node)) ++ entryNodes rest

end

/-- The length of the longest address. -/
def height (t : FileTree) : Nat :=
  ((nodes t).map fun (address, _) => address.length).foldl max 0

/-- Every name that an entry has. -/
def names (t : FileTree) : List String :=
  (nodes t).flatMap fun (address, _) => address

theorem mem_entryNodes {name : String} {child : FileTree} {entries : List (String × FileTree)}
    {address : Address} {node : FileTree} (hm : (name, child) ∈ entries)
    (h : (address, node) ∈ nodes child) : (name :: address, node) ∈ entryNodes entries := by
  induction entries with
  | nil => simp at hm
  | cons entry rest ih =>
    obtain ⟨other, t⟩ := entry
    rw [entryNodes, List.mem_append]
    rcases List.mem_cons.1 hm with heq | hm
    · obtain ⟨rfl, rfl⟩ := Prod.mk.inj heq
      exact .inl (List.mem_map.2 ⟨(address, node), h, rfl⟩)
    · exact .inr (ih hm)

theorem mem_nodes_of_get? {t node : FileTree} {address : Address}
    (h : t.get? address = some node) : (address, node) ∈ t.nodes := by
  induction address generalizing t with
  | nil =>
    simp only [get?, Option.some.injEq] at h
    subst h
    cases t <;> simp [nodes]
  | cons name rest ih =>
    simp only [get?] at h
    split at h
    · rename_i child hc
      cases t with
      | dir es =>
        rw [nodes]
        exact List.mem_cons_of_mem _ (mem_entryNodes (ByName.mem_of_get? hc) (ih h))
      | _ => simp [entries, ByName.get?] at hc
    · simp at h

theorem le_foldl_max {xs : List Nat} {x start : Nat} (h : x ≤ start ∨ x ∈ xs) :
    x ≤ xs.foldl max start := by
  induction xs generalizing start with
  | nil => simpa using h
  | cons y ys ih =>
    apply ih
    rcases h with h | h
    · exact .inl (Nat.le_trans h (Nat.le_max_left ..))
    · rcases List.mem_cons.1 h with rfl | h
      · exact .inl (Nat.le_max_right ..)
      · exact .inr h

theorem length_le_height {t node : FileTree} {address : Address}
    (h : t.get? address = some node) : address.length ≤ t.height :=
  le_foldl_max (.inr (List.mem_map.2 ⟨_, mem_nodes_of_get? h, rfl⟩))

theorem mem_names {t node : FileTree} {address : Address} {name : String}
    (h : t.get? address = some node) (hn : name ∈ address) : name ∈ t.names :=
  List.mem_flatMap.2 ⟨_, mem_nodes_of_get? h, hn⟩

end FileTree

end SolidityBuild
