import SolidityBuild.FileTree.Walk
import SolidityBuild.Proofs.FileTree.Change

/-! # Walking: walks in two parts, and walks after a change

    A walk that comes to a directory goes on from there as from the start, except that it may
    have fewer links left. What a walk meets is decided by what lies at the addresses that it
    looks at; so a walk ends where it ended before after a file is written, and a walk to a
    directory also after a directory is made.
-/

namespace SolidityBuild.FileTree

variable {t t' : FileTree} {links : Nat} {start x : Address} {name : String}
  {before more rest steps : List Step} {place : Place}
  {follow follow' : Address → List Step → Except SystemError Place}

/-! ## One name -/

theorem walkFrom_enter_none (h : t.get? (start ++ [name]) = none) :
    walkFrom t follow start (.enter name :: rest) =
      if nameLimit < name.utf8ByteSize then .error .nameTooLong
      else if rest.isEmpty then .ok (.vacant start name)
      else .error .notFound := by
  simp only [walkFrom, h]

theorem walkFrom_enter_dir {entries : List (String × FileTree)}
    (h : t.get? (start ++ [name]) = some (.dir entries)) :
    walkFrom t follow start (.enter name :: rest) =
      walkFrom t follow (start ++ [name]) rest := by
  simp only [walkFrom, h]

theorem walkFrom_enter_file {contents : ByteArray} {program : Option Program}
    (h : t.get? (start ++ [name]) = some (.file contents program)) :
    walkFrom t follow start (.enter name :: rest) =
      if rest.isEmpty then .ok (.file (start ++ [name])) else .error .notDirectory := by
  simp only [walkFrom, h]

theorem walkFrom_enter_link {target : String} (h : t.get? (start ++ [name]) = some (.link target)) :
    walkFrom t follow start (.enter name :: rest) =
      follow (if Path.isAbsolute ⟨target⟩ then [] else start) (FileTree.steps ⟨target⟩ ++ rest) := by
  simp only [walkFrom, h]

/-- A name that is missing ends a walk before any directory. -/
theorem walkFrom_enter_none_ne (h : t.get? (start ++ [name]) = none) :
    walkFrom t follow start (.enter name :: rest) ≠ .ok (.directory x) := by
  rw [walkFrom_enter_none h]
  split
  · simp
  · split
    · simp
    · simp

/-- A file ends a walk before any directory. -/
theorem walkFrom_enter_file_ne {contents : ByteArray} {program : Option Program}
    (h : t.get? (start ++ [name]) = some (.file contents program)) :
    walkFrom t follow start (.enter name :: rest) ≠ .ok (.directory x) := by
  rw [walkFrom_enter_file h]
  split
  · simp
  · simp

/-! ## Walks in two parts -/

theorem walkFrom_append
    (hfollow : ∀ start steps, follow start steps = .ok (.directory x) →
      ∃ links, ∀ more, follow start (steps ++ more) = walk t links x more)
    (h : walkFrom t follow start before = .ok (.directory x)) :
    (∀ more, walkFrom t follow start (before ++ more) = walkFrom t follow x more) ∨
      ∃ links, ∀ more, walkFrom t follow start (before ++ more) = walk t links x more := by
  induction before generalizing start with
  | nil =>
    rw [walkFrom] at h
    cases h
    exact .inl fun _ => rfl
  | cons step before ih =>
    cases step with
    | stay => exact ih h
    | up => exact ih h
    | enter name =>
      cases hget : t.get? (start ++ [name]) with
      | none => exact absurd h (walkFrom_enter_none_ne hget)
      | some node =>
        cases node with
        | file contents program => exact absurd h (walkFrom_enter_file_ne hget)
        | dir entries =>
          rw [walkFrom_enter_dir hget] at h
          simp only [List.cons_append, walkFrom_enter_dir hget]
          exact ih h
        | link target =>
          rw [walkFrom_enter_link hget] at h
          obtain ⟨links, hlinks⟩ := hfollow _ _ h
          right
          refine ⟨links, ?_⟩
          intro more
          rw [List.cons_append, walkFrom_enter_link hget, ← List.append_assoc]
          exact hlinks more

/-- A walk that comes to a directory goes on from there. -/
theorem walk_append (h : walk t links start before = .ok (.directory x)) :
    ∃ links', ∀ more, walk t links start (before ++ more) = walk t links' x more := by
  -- On the number of links: behind a link, the walk goes on with one link less.
  induction links generalizing start before with
  | zero =>
    rcases walkFrom_append (fun _ _ hf => by cases hf) h with hgo | ⟨links', hgo⟩
    · exact ⟨0, hgo⟩
    · exact ⟨links', hgo⟩
  | succ links ih =>
    rcases walkFrom_append (fun _ _ hf => ih hf) h with hgo | ⟨links', hgo⟩
    · exact ⟨links + 1, hgo⟩
    · exact ⟨links', hgo⟩

theorem exists_directory_of_walkFrom_append (hmore : more ≠ [])
    (hfollow : ∀ start steps, follow start (steps ++ more) = .ok place →
      ∃ x, follow start steps = .ok (.directory x))
    (h : walkFrom t follow start (before ++ more) = .ok place) :
    ∃ x, walkFrom t follow start before = .ok (.directory x) := by
  induction before generalizing start with
  | nil => exact ⟨start, rfl⟩
  | cons step before ih =>
    cases step with
    | stay => exact ih h
    | up => exact ih h
    | enter name =>
      have hrest : (before ++ more).isEmpty = false := by
        cases before with
        | nil => simpa using hmore
        | cons step before => rfl
      rw [List.cons_append] at h
      cases hget : t.get? (start ++ [name]) with
      | none =>
        rw [walkFrom_enter_none hget, hrest] at h
        split at h
        · cases h
        · cases h
      | some node =>
        cases node with
        | file contents program =>
          rw [walkFrom_enter_file hget, hrest] at h
          cases h
        | dir entries =>
          rw [walkFrom_enter_dir hget] at h ⊢
          exact ih h
        | link target =>
          rw [walkFrom_enter_link hget, ← List.append_assoc] at h
          rw [walkFrom_enter_link hget]
          exact hfollow _ _ h

/-- Before its last steps a walk comes to a directory. -/
theorem exists_directory_of_walk_append (hmore : more ≠ [])
    (h : walk t links start (before ++ more) = .ok place) :
    ∃ x, walk t links start before = .ok (.directory x) := by
  induction links generalizing start before with
  | zero => exact exists_directory_of_walkFrom_append hmore (fun _ _ hf => by cases hf) h
  | succ links ih => exact exists_directory_of_walkFrom_append hmore (fun _ _ hf => ih hf) h

/-- Whatever the number of links, a walk goes through its steps one by one. -/
theorem exists_follow (t : FileTree) (links : Nat) :
    ∃ follow, walk t links = walkFrom t follow := by
  cases links with
  | zero => exact ⟨_, rfl⟩
  | succ links => exact ⟨_, rfl⟩

/-- Steps that only ask for a directory change nothing at one. -/
theorem walk_stays (t : FileTree) (links : Nat) (x : Address) (count : Nat) :
    walk t links x (List.replicate count .stay) = .ok (.directory x) := by
  obtain ⟨follow, hwalk⟩ := exists_follow t links
  rw [hwalk]
  induction count with
  | zero => rfl
  | succ count ih => exact ih

/-- Before a directory a walk comes to directories. -/
theorem exists_directory_of_walk_append_directory
    (h : walk t links start (before ++ more) = .ok (.directory x)) :
    ∃ y, walk t links start before = .ok (.directory y) := by
  by_cases hmore : more = []
  · rw [hmore, List.append_nil] at h
    exact ⟨x, h⟩
  · exact exists_directory_of_walk_append hmore h

/-- It makes no difference to ask for a directory at one. -/
theorem walk_stay_iff :
    walk t links start (before ++ [.stay]) = .ok (.directory x) ↔
      walk t links start before = .ok (.directory x) := by
  have hstay : ∀ {y}, walk t links start before = .ok (.directory y) →
      walk t links start (before ++ [.stay]) = .ok (.directory y) := by
    intro y hy
    obtain ⟨links', hgo⟩ := walk_append hy
    exact (hgo _).trans (walk_stays t links' y 1)
  constructor
  · intro h
    obtain ⟨y, hy⟩ := exists_directory_of_walk_append (by simp) h
    rw [hstay hy] at h
    cases h
    exact hy
  · exact hstay

/-- From a directory, the name of a directory leads there. -/
theorem walk_enter_dir {entries : List (String × FileTree)}
    (h : t.get? (x ++ [name]) = some (.dir entries)) (links count : Nat) :
    walk t links x (.enter name :: List.replicate count .stay) =
      .ok (.directory (x ++ [name])) := by
  have hstays := walk_stays t links (x ++ [name]) count
  obtain ⟨follow, hwalk⟩ := exists_follow t links
  rw [hwalk] at hstays ⊢
  rw [walkFrom_enter_dir h]
  exact hstays

/-- Only a name that is there leads to a directory. -/
theorem get?_ne_none_of_walk {place : Address}
    (h : walk t links x (.enter name :: rest) = .ok (.directory place)) :
    t.get? (x ++ [name]) ≠ none := by
  intro hget
  obtain ⟨follow, hwalk⟩ := exists_follow t links
  rw [hwalk] at h
  exact walkFrom_enter_none_ne hget h

/-- From a directory, a name that is no link leads to what lies there. -/
theorem walk_enter_of_not_link (hlink : ∀ target, t.get? (x ++ [name]) ≠ some (.link target))
    (h : walk t links x [.enter name] = .ok place) :
    place = .vacant x name ∨ place = .file (x ++ [name]) ∨ place = .directory (x ++ [name]) := by
  obtain ⟨follow, hwalk⟩ := exists_follow t links
  rw [hwalk] at h
  cases hget : t.get? (x ++ [name]) with
  | none =>
    rw [walkFrom_enter_none hget] at h
    split at h
    · cases h
    · cases h
      exact .inl rfl
  | some node =>
    cases node with
    | link target => exact absurd hget (hlink target)
    | file contents program =>
      rw [walkFrom_enter_file hget] at h
      cases h
      exact .inr (.inl rfl)
    | dir entries =>
      rw [walkFrom_enter_dir hget] at h
      cases h
      exact .inr (.inr rfl)

/-! ## What lies where a walk ends -/

/-- There is a directory at an address. -/
def DirAt (t : FileTree) (address : Address) : Prop :=
  ∃ entries, t.get? address = some (.dir entries)

theorem DirAt.root (h : t.DirAt x) : t.DirAt [] := by
  obtain ⟨entries, h⟩ := h
  cases t with
  | dir above => exact ⟨above, rfl⟩
  | file contents program =>
    cases x with
    | nil => exact ⟨entries, h⟩
    | cons name x =>
      rw [get?_of_no_entries rfl] at h
      cases h
  | link target =>
    cases x with
    | nil => exact ⟨entries, h⟩
    | cons name x =>
      rw [get?_of_no_entries rfl] at h
      cases h

theorem DirAt.dropLast (h : t.DirAt x) : t.DirAt x.dropLast := by
  rcases List.eq_nil_or_concat x with rfl | ⟨above, name, rfl⟩
  · exact h
  · obtain ⟨entries, h⟩ := h
    rw [List.concat_eq_append] at h ⊢
    rw [List.dropLast_concat]
    exact exists_dir_of_get?_append h

/-- What a place says about the tree. -/
def Place.Holds (t : FileTree) : Place → Prop
  | .directory address => t.DirAt address
  | .file address => ∃ contents program, t.get? address = some (.file contents program)
  | .vacant parent name =>
    t.DirAt parent ∧ t.get? (parent ++ [name]) = none ∧ name.utf8ByteSize ≤ nameLimit

theorem holds_of_walkFrom (hstart : t.DirAt start)
    (hfollow : ∀ start steps, t.DirAt start → follow start steps = .ok place → place.Holds t)
    (h : walkFrom t follow start steps = .ok place) : place.Holds t := by
  induction steps generalizing start with
  | nil =>
    cases h
    exact hstart
  | cons step rest ih =>
    cases step with
    | stay => exact ih hstart h
    | up => exact ih hstart.dropLast h
    | enter name =>
      cases hget : t.get? (start ++ [name]) with
      | none =>
        rw [walkFrom_enter_none hget] at h
        split at h
        · cases h
        · rename_i hname
          split at h
          · cases h
            exact ⟨hstart, hget, Nat.le_of_not_lt hname⟩
          · cases h
      | some node =>
        cases node with
        | file contents program =>
          rw [walkFrom_enter_file hget] at h
          split at h
          · cases h
            exact ⟨contents, program, hget⟩
          · cases h
        | dir entries =>
          rw [walkFrom_enter_dir hget] at h
          exact ih ⟨entries, hget⟩ h
        | link target =>
          rw [walkFrom_enter_link hget] at h
          refine hfollow _ _ ?_ h
          split
          · exact hstart.root
          · exact hstart

/-- A walk from a directory tells what lies where it ends. -/
theorem holds_of_walk (hstart : t.DirAt start) (h : walk t links start steps = .ok place) :
    place.Holds t := by
  induction links generalizing start steps with
  | zero => exact holds_of_walkFrom hstart (fun _ _ _ hf => by cases hf) h
  | succ links ih => exact holds_of_walkFrom hstart (fun _ _ hstart hf => ih hstart hf) h

/-! ## After a file is written -/

/-- A place with a file put where a name was missing. -/
def Place.filled : Place → Place
  | .vacant parent name => .file (parent ++ [name])
  | place => place

/-- The tree `t'` differs from `t` by a file at the address `a`, where there was a file before
    or nothing. -/
structure FilledAt (t t' : FileTree) (a : Address) : Prop where
  elsewhere : ∀ b, b ≠ a → t'.look b = t.look b
  filled : ∃ contents program, t'.get? a = some (.file contents program)
  was : (∃ contents program, t.get? a = some (.file contents program)) ∨
    ∃ parent name, a = parent ++ [name] ∧ t.get? a = none ∧ name.utf8ByteSize ≤ nameLimit

/-- Where a walk ends, once the missing name in the last place is filled. -/
def ended (result : Except SystemError Place) : Option Place :=
  result.toOption.map Place.filled

theorem FilledAt.ended_walkFrom {a : Address} (h : FilledAt t t' a)
    (hfollow : ∀ start steps, ended (follow' start steps) = ended (follow start steps)) :
    ended (walkFrom t' follow' start steps) = ended (walkFrom t follow start steps) := by
  induction steps generalizing start with
  | nil => rfl
  | cons step rest ih =>
    cases step with
    | stay => exact ih
    | up => exact ih
    | enter name =>
      by_cases ha : start ++ [name] = a
      · -- At the address itself there is a file now, and there was one or nothing.
        obtain ⟨contents, program, hfilled⟩ := h.filled
        rw [← ha] at hfilled
        rw [walkFrom_enter_file hfilled]
        rcases h.was with ⟨contents', program', hwas⟩ | ⟨parent, last, hlast, hwas, hlimit⟩
        · rw [← ha] at hwas
          rw [walkFrom_enter_file hwas]
        · obtain ⟨rfl, hsame⟩ := List.append_inj' (ha.trans hlast) rfl
          obtain rfl := (List.cons.inj hsame).1
          rw [hlast] at hwas
          rw [walkFrom_enter_none hwas, if_neg (Nat.not_lt.2 hlimit)]
          split
          · rfl
          · rfl
      · have hlook := h.elsewhere _ ha
        unfold look at hlook
        cases hget : t.get? (start ++ [name]) with
        | none =>
          rw [hget, Option.map_none, Option.map_eq_none_iff] at hlook
          rw [walkFrom_enter_none hget, walkFrom_enter_none hlook]
        | some node =>
          rw [hget, Option.map_some, Option.map_eq_some_iff] at hlook
          obtain ⟨node', hget', hshallow⟩ := hlook
          cases node with
          | file contents program =>
            cases node' with
            | file contents' program' =>
              rw [walkFrom_enter_file hget, walkFrom_enter_file hget']
            | dir entries => cases hshallow
            | link target => cases hshallow
          | dir entries =>
            cases node' with
            | file contents' program' => cases hshallow
            | dir entries' =>
              rw [walkFrom_enter_dir hget, walkFrom_enter_dir hget']
              exact ih
            | link target => cases hshallow
          | link target =>
            cases node' with
            | file contents' program' => cases hshallow
            | dir entries => cases hshallow
            | link target' =>
              cases hshallow
              rw [walkFrom_enter_link hget, walkFrom_enter_link hget']
              exact hfollow _ _

/-- Every walk ends where it ended before a file was written. -/
theorem FilledAt.ended_walk {a : Address} (h : FilledAt t t' a) (links : Nat) (start : Address)
    (steps : List Step) : ended (walk t' links start steps) = ended (walk t links start steps) := by
  induction links generalizing start steps with
  | zero => exact h.ended_walkFrom fun _ _ => rfl
  | succ links ih => exact h.ended_walkFrom ih

/-! ## After something is added -/

theorem walkFrom_mono (hmono : ∀ b node, t.look b = some node → t'.look b = some node)
    (hfollow : ∀ start steps, follow start steps = .ok (.directory x) →
      follow' start steps = .ok (.directory x))
    (h : walkFrom t follow start steps = .ok (.directory x)) :
    walkFrom t' follow' start steps = .ok (.directory x) := by
  induction steps generalizing start with
  | nil => exact h
  | cons step rest ih =>
    cases step with
    | stay => exact ih h
    | up => exact ih h
    | enter name =>
      cases hget : t.get? (start ++ [name]) with
      | none => exact absurd h (walkFrom_enter_none_ne hget)
      | some node =>
        have hlook := hmono _ _ (show t.look (start ++ [name]) = some node.shallow by
          rw [look, hget]
          rfl)
        cases node with
        | file contents program => exact absurd h (walkFrom_enter_file_ne hget)
        | dir entries =>
          obtain ⟨entries', hget'⟩ := look_eq_dir_iff.1 hlook
          rw [walkFrom_enter_dir hget] at h
          rw [walkFrom_enter_dir hget']
          exact ih h
        | link target =>
          obtain ⟨node', hget', hshallow⟩ := Option.map_eq_some_iff.1 hlook
          cases node' with
          | file contents program => cases hshallow
          | dir entries => cases hshallow
          | link target' =>
            cases hshallow
            rw [walkFrom_enter_link hget] at h
            rw [walkFrom_enter_link hget']
            exact hfollow _ _ h

/-- A walk to a directory is the same in a tree in which nothing is gone or replaced. -/
theorem walk_mono (hmono : ∀ b node, t.look b = some node → t'.look b = some node)
    (h : walk t links start steps = .ok (.directory x)) :
    walk t' links start steps = .ok (.directory x) := by
  induction links generalizing start steps with
  | zero => exact walkFrom_mono hmono (fun _ _ hf => by cases hf) h
  | succ links ih => exact walkFrom_mono hmono (fun _ _ hf => ih hf) h

end SolidityBuild.FileTree
