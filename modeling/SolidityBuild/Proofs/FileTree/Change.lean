import SolidityBuild.FileTree.Basic

/-! # Changes of a file tree: what putting a node leaves as it is

    Putting a node at an address changes the entries of all directories above it, but no walk
    sees more of a directory than that it is one. So nodes are compared by what is left of
    them without entries (`look`), and then a change at one address is a change there only.
-/

namespace SolidityBuild.FileTree

/-- A node without the entries of a directory: all that a walk sees of it. -/
def shallow : FileTree → FileTree
  | .dir _ => .dir []
  | t => t

/-- What lies at an address, without entries. -/
def look (t : FileTree) (address : Address) : Option FileTree :=
  (t.get? address).map shallow

variable {t node child : FileTree} {name : String} {parent a b rest : Address}

/-! ## Looking -/

theorem look_eq_dir_iff : t.look a = some (.dir []) ↔ ∃ entries, t.get? a = some (.dir entries) := by
  unfold look
  cases h : t.get? a with
  | none => simp
  | some node => cases node <;> simp [shallow]

theorem look_eq_file_iff {contents : ByteArray} {program : Option Program} :
    t.look a = some (.file contents program) ↔ t.get? a = some (.file contents program) := by
  unfold look
  cases h : t.get? a with
  | none => simp
  | some node => cases node <;> simp [shallow]

theorem look_eq_none_iff : t.look a = none ↔ t.get? a = none := by
  unfold look
  exact Option.map_eq_none_iff

/-! ## Addresses -/

theorem get?_cons (t : FileTree) (name : String) (rest : Address) :
    t.get? (name :: rest) = (ByName.get? name t.entries).bind fun child => child.get? rest := by
  rw [get?]
  cases ByName.get? name t.entries <;> rfl

theorem get?_append (t : FileTree) (a b : Address) :
    t.get? (a ++ b) = (t.get? a).bind fun node => node.get? b := by
  induction a generalizing t with
  | nil => rfl
  | cons name a ih =>
    rw [List.cons_append, get?_cons, get?_cons]
    cases ByName.get? name t.entries with
    | none => rfl
    | some child => exact ih child

/-- Below a node without entries there is nothing. -/
theorem get?_of_no_entries (h : t.entries = []) (name : String) (rest : Address) :
    t.get? (name :: rest) = none := by
  rw [get?_cons, h]
  rfl

theorem look_cons (t : FileTree) (name : String) (rest : Address) :
    t.look (name :: rest) =
      (ByName.get? name t.entries).bind fun child => child.look rest := by
  unfold look
  rw [get?_cons]
  cases ByName.get? name t.entries <;> rfl

theorem look_of_no_entries (h : t.entries = []) (name : String) (rest : Address) :
    t.look (name :: rest) = none :=
  look_eq_none_iff.2 (get?_of_no_entries h name rest)

/-- What has an entry is a directory. -/
theorem exists_dir_of_get?_append (h : t.get? (parent ++ [name]) = some node) :
    ∃ entries, t.get? parent = some (.dir entries) := by
  rw [get?_append] at h
  cases hparent : t.get? parent with
  | none =>
    rw [hparent] at h
    cases h
  | some above =>
    rw [hparent] at h
    cases above with
    | dir entries => exact ⟨entries, rfl⟩
    | file contents program => cases h
    | link target => cases h

/-! ## Putting -/

theorem put_singleton (node : FileTree) (entries : List (String × FileTree)) (name : String) :
    put (.dir entries) node [name] = .dir (ByName.insert name node entries) := rfl

theorem put_of_child {entries : List (String × FileTree)} (hrest : rest ≠ [])
    (hchild : ByName.get? name entries = some child) :
    put (.dir entries) node (name :: rest) =
      .dir (ByName.insert name (child.put node rest) entries) := by
  cases rest with
  | nil => exact absurd rfl hrest
  | cons next rest => simp only [put, hchild]

theorem put_of_no_child {entries : List (String × FileTree)} (hrest : rest ≠ [])
    (hchild : ByName.get? name entries = none) :
    put (.dir entries) node (name :: rest) = .dir entries := by
  cases rest with
  | nil => exact absurd rfl hrest
  | cons next rest => simp only [put, hchild]

/-- A node that is put into a directory is there. -/
theorem get?_put_self {entries : List (String × FileTree)}
    (h : t.get? parent = some (.dir entries)) :
    (t.put node (parent ++ [name])).get? (parent ++ [name]) = some node := by
  induction parent generalizing t with
  | nil =>
    obtain rfl : t = .dir entries := Option.some.inj h
    rw [List.nil_append, put_singleton, get?_cons]
    show (ByName.get? name (ByName.insert name node entries)).bind _ = _
    rw [ByName.get?_insert_self]
    rfl
  | cons first parent ih =>
    rw [get?_cons] at h
    cases t with
    | file contents program => cases h
    | link target => cases h
    | dir above =>
      cases hchild : ByName.get? first above with
      | none =>
        rw [FileTree.entries, hchild] at h
        cases h
      | some child =>
        rw [FileTree.entries, hchild] at h
        rw [List.cons_append, put_of_child (by simp) hchild, get?_cons]
        show (ByName.get? first (ByName.insert first _ above)).bind _ = _
        rw [ByName.get?_insert_self]
        exact ih h

/-- Only the entry that leads to the address is replaced. -/
theorem get?_entries_put_of_ne {above : List (String × FileTree)} {first : String}
    (hname : name ≠ first) :
    ByName.get? name (put (.dir above) node (first :: a)).entries = ByName.get? name above := by
  cases a with
  | nil => exact ByName.get?_insert_ne hname node above
  | cons next a =>
    cases hchild : ByName.get? first above with
    | none => rw [put_of_no_child (by simp) hchild, entries]
    | some child =>
      rw [put_of_child (by simp) hchild]
      exact ByName.get?_insert_ne hname _ above

/-- A directory in which something is put stays one. -/
theorem look_nil_put {above : List (String × FileTree)} {first : String} :
    (put (.dir above) node (first :: a)).look [] = (FileTree.dir above).look [] := by
  cases a with
  | nil => rfl
  | cons next a =>
    cases hchild : ByName.get? first above with
    | none => rw [put_of_no_child (by simp) hchild]
    | some child =>
      rw [put_of_child (by simp) hchild]
      rfl

/-- A node without entries that takes the place of nothing or of one like it changes what lies
    at its own address only. -/
theorem look_put_of_ne (hnode : node.entries = [])
    (hold : ∀ old, t.get? a = some old → old.entries = []) (hne : b ≠ a) :
    (t.put node a).look b = t.look b := by
  induction a generalizing t b with
  | nil =>
    obtain ⟨name, rest, rfl⟩ := List.exists_cons_of_ne_nil hne
    rw [put, look_of_no_entries hnode, look_of_no_entries (hold t rfl)]
  | cons first a ih =>
    cases t with
    | file contents program => rfl
    | link target => rfl
    | dir above =>
      cases b with
      | nil => exact look_nil_put
      | cons name rest =>
        rw [look_cons, look_cons]
        by_cases hname : name = first
        · subst hname
          have hrest : rest ≠ a := fun h => hne (by rw [h])
          cases hchild : ByName.get? name above with
          | none =>
            cases a with
            | nil =>
              obtain ⟨next, rest, rfl⟩ := List.exists_cons_of_ne_nil hrest
              rw [put_singleton, entries, ByName.get?_insert_self, entries, hchild]
              exact look_of_no_entries hnode next rest
            | cons next a => rw [put_of_no_child (by simp) hchild]
          | some child =>
            have hget : (FileTree.dir above).get? (name :: a) = child.get? a := by
              rw [get?_cons, entries, hchild]
              rfl
            cases a with
            | nil =>
              obtain ⟨next, rest, rfl⟩ := List.exists_cons_of_ne_nil hrest
              rw [put_singleton, entries, ByName.get?_insert_self, entries, hchild]
              show node.look (next :: rest) = child.look (next :: rest)
              rw [look_of_no_entries hnode, look_of_no_entries (hold child hget)]
            | cons next a =>
              rw [put_of_child (by simp) hchild, entries, ByName.get?_insert_self, entries, hchild]
              exact ih (fun old h => hold old (hget.trans h)) hrest
        · rw [get?_entries_put_of_ne hname]
          rfl

end SolidityBuild.FileTree
