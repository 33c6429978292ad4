import SolidityBuild.Disk.Reach
import SolidityBuild.Proofs.FileTree.Walking

/-! # Links on the way: when a walk ends at the address that its steps spell

    A walk that neither climbs nor meets a link enters one name after the other, so it ends at
    the address that these names make. An address of a directory or a file has no link on the
    way to it.
-/

namespace SolidityBuild.FileTree

variable {t node : FileTree} {links : Nat} {start : Address} {name : String}
  {names more : List String} {steps : List Step} {place : Place}
  {follow : Address → List Step → Except SystemError Place}

/-- A link lies on the way from the directory at an address through some names. -/
inductive MeetsLink (t : FileTree) : Address → List String → Prop where
  | here {start : Address} {name : String} {rest : List String} {target : String}
      (h : t.get? (start ++ [name]) = some (.link target)) : MeetsLink t start (name :: rest)
  | later {start : Address} {name : String} {rest : List String}
      (h : MeetsLink t (start ++ [name]) rest) : MeetsLink t start (name :: rest)

/-- The name that a step enters, if it enters one. -/
def Step.name? : Step → Option String
  | .enter name => some name
  | _ => none

/-- The names that some steps enter. -/
def entered (steps : List Step) : List String :=
  steps.filterMap Step.name?

/-- The address that a place is about. -/
def Place.address : Place → Address
  | .directory address => address
  | .file address => address
  | .vacant parent name => parent ++ [name]

/-- A link on the way through names and more names lies on the way through the first ones or
    behind them. -/
theorem MeetsLink.of_append (h : t.MeetsLink start (names ++ more)) :
    t.MeetsLink start names ∨ t.MeetsLink (start ++ names) more := by
  induction names generalizing start with
  | nil =>
    rw [List.append_nil]
    exact .inr h
  | cons name names ih =>
    cases h with
    | here hlink => exact .inl (.here hlink)
    | later hlater =>
      rcases ih hlater with hfront | hmore
      · exact .inl (.later hfront)
      · rw [List.append_assoc] at hmore
        exact .inr hmore

/-- There is no link on the way to a directory or a file. -/
theorem not_meetsLink_of_get? (h : t.get? (start ++ names) = some node)
    (hnode : ∀ target, node ≠ .link target) : ¬ t.MeetsLink start names := by
  intro hmeets
  induction hmeets with
  | @here start name rest target hlink =>
    rw [List.append_cons, get?_append, hlink] at h
    cases rest with
    | nil => exact hnode target (Option.some.inj h).symm
    | cons name rest =>
      -- Nothing lies below a link.
      have hbelow : (FileTree.link target).get? (name :: rest) = none :=
        get?_of_no_entries rfl name rest
      rw [Option.bind_some, hbelow] at h
      cases h
  | later _ ih =>
    apply ih
    rw [List.append_cons] at h
    exact h

theorem address_of_walkFrom (hup : .up ∉ steps) (hno : ¬ t.MeetsLink start (entered steps))
    (h : walkFrom t follow start steps = .ok place) :
    place.address = start ++ entered steps := by
  induction steps generalizing start with
  | nil =>
    cases h
    exact (List.append_nil start).symm
  | cons step rest ih =>
    have hrest : .up ∉ rest := fun hmem => hup (List.mem_cons_of_mem _ hmem)
    cases step with
    | stay => exact ih hrest hno h
    | up => exact absurd (List.mem_cons_self ..) hup
    | enter name =>
      have hentered : entered (.enter name :: rest) = name :: entered rest := rfl
      rw [hentered] at hno ⊢
      cases hget : t.get? (start ++ [name]) with
      | none =>
        -- Only the last name may be missing, and it is the one that is then vacant.
        rw [walkFrom_enter_none hget] at h
        split at h
        · cases h
        · split at h
          · rename_i hlast
            rw [List.isEmpty_iff.1 hlast]
            cases h
            rfl
          · cases h
      | some node =>
        cases node with
        | file contents program =>
          rw [walkFrom_enter_file hget] at h
          split at h
          · rename_i hlast
            rw [List.isEmpty_iff.1 hlast]
            cases h
            rfl
          · cases h
        | dir entries =>
          rw [walkFrom_enter_dir hget] at h
          rw [List.append_cons]
          exact ih hrest (fun hmeets => hno (.later hmeets)) h
        | link target => exact absurd (.here hget) hno

/-- A walk that does not climb and meets no link ends at the address that its names make. -/
theorem address_of_walk (hup : .up ∉ steps) (hno : ¬ t.MeetsLink start (entered steps))
    (h : walk t links start steps = .ok place) : place.address = start ++ entered steps := by
  obtain ⟨follow, hwalk⟩ := exists_follow t links
  rw [hwalk] at h
  exact address_of_walkFrom hup hno h

end SolidityBuild.FileTree
