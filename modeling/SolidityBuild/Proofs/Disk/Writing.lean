import SolidityBuild.Disk.Basic
import SolidityBuild.Proofs.FileTree.Walking

/-! # Writing: what a write leaves as it is

    A write that succeeds puts a file at one address. Afterwards every path leads where it led
    before, so that only the paths to this address have other contents.

    All of this is about disks whose current directory is there (`Grounded`): from any other
    one, relative paths lead nowhere and a write is lost.
-/

namespace SolidityBuild.Disk

open FileTree (DirAt Place Step FilledAt ended)

variable {d d' : Disk} {p q : Path} {a b : Address} {bytes : ByteArray}

/-- The current directory is there. -/
def Grounded (d : Disk) : Prop :=
  d.tree.DirAt d.cwd

theorem Grounded.origin (h : d.Grounded) (p : Path) : d.tree.DirAt (d.origin p) := by
  unfold Disk.origin
  split
  · exact h.root
  · exact h

/-! ## Where paths lead -/

theorem locate_of_check (h : check p = .ok ()) :
    d.locate p = d.tree.walk FileTree.linkLimit (d.origin p) (FileTree.steps p) := by
  unfold locate
  rw [h]
  rfl

theorem locate_of_check_error {e : SystemError} (h : check p = .error e) :
    d.locate p = .error e := by
  unfold locate
  rw [h]
  rfl

theorem check_of_locate {place : Place} (h : d.locate p = .ok place) : check p = .ok () := by
  cases hcheck : check p with
  | ok u => rfl
  | error e =>
    rw [locate_of_check_error hcheck] at h
    cases h

theorem holds_of_locate (hd : d.Grounded) {place : Place} (h : d.locate p = .ok place) :
    place.Holds d.tree := by
  rw [locate_of_check (check_of_locate h)] at h
  exact FileTree.holds_of_walk (hd.origin p) h

theorem isDir_iff : d.isDir p = true ↔ ∃ x, d.locate p = .ok (.directory x) := by
  unfold isDir
  split
  · rename_i x hlocate
    simp [hlocate]
  · rename_i hnot
    simp only [Bool.false_eq_true, false_iff]
    rintro ⟨x, hlocate⟩
    exact hnot x hlocate

/-- The address at which a write to a path puts the contents. -/
def target? (d : Disk) (p : Path) : Option Address :=
  match ended (d.locate p) with
  | some (.file a) => some a
  | _ => none

theorem target?_eq_some_iff :
    d.target? p = some a ↔ d.locate p = .ok (.file a) ∨
      ∃ parent name, d.locate p = .ok (.vacant parent name) ∧ a = parent ++ [name] := by
  unfold target? ended
  cases hlocate : d.locate p with
  | error e => simp [Except.toOption]
  | ok place =>
    cases place with
    | directory x => simp [Except.toOption, Place.filled]
    | file x => simp [Except.toOption, Place.filled]
    | vacant parent name =>
      simp only [Except.toOption, Place.filled, Option.map_some, Option.some.injEq,
        Except.ok.injEq, reduceCtorEq, Place.vacant.injEq, false_or]
      constructor
      · intro h
        exact ⟨parent, name, ⟨rfl, rfl⟩, h.symm⟩
      · rintro ⟨_, _, ⟨rfl, rfl⟩, h⟩
        exact h.symm

/-- A path leads to its target if there is a file. -/
theorem locate_of_target? (hd : d.Grounded) (h : d.target? p = some a)
    {program : Option Program} (hget : d.tree.get? a = some (.file bytes program)) :
    d.locate p = .ok (.file a) := by
  rcases target?_eq_some_iff.1 h with hlocate | ⟨parent, name, hlocate, rfl⟩
  · exact hlocate
  · obtain ⟨-, hnone, -⟩ := holds_of_locate hd hlocate
    rw [hnone] at hget
    cases hget

/-- A path has contents exactly if there is a file where a write would put it. -/
theorem contents_eq_ok_iff (hd : d.Grounded) :
    d.contents p = .ok bytes ↔ ∃ a program, d.target? p = some a ∧
      d.tree.get? a = some (.file bytes program) := by
  constructor
  · intro h
    unfold contents at h
    cases hlocate : d.locate p with
    | error e =>
      rw [hlocate] at h
      cases h
    | ok place =>
      rw [hlocate] at h
      cases place with
      | directory x => cases h
      | vacant parent name => cases h
      | file a =>
        obtain ⟨contents, program, hget⟩ := holds_of_locate hd hlocate
        simp only [hget, Except.ok.injEq] at h
        rw [h] at hget
        exact ⟨a, program, target?_eq_some_iff.2 (.inl hlocate), hget⟩
  · rintro ⟨a, program, htarget, hget⟩
    rcases target?_eq_some_iff.1 htarget with hlocate | ⟨parent, name, hlocate, rfl⟩
    · unfold contents
      simp only [hlocate, hget]
    · obtain ⟨-, hnone, -⟩ := holds_of_locate hd hlocate
      rw [hnone] at hget
      cases hget

/-- Two paths have one target exactly if they lead to one place. -/
theorem locate_eq_iff (hd : d.Grounded) (hp : d.target? p = some a) (hq : d.target? q = some b) :
    d.locate p = d.locate q ↔ a = b := by
  constructor
  · intro h
    have hsame : d.target? p = d.target? q := by rw [target?, target?, h]
    rw [hp, hq] at hsame
    exact Option.some.inj hsame
  · rintro rfl
    -- A file and a missing name cannot have one address.
    rcases target?_eq_some_iff.1 hp with hfile | ⟨parent, name, hvacant, ha⟩
    · rcases target?_eq_some_iff.1 hq with hfile' | ⟨parent', name', hvacant', ha'⟩
      · rw [hfile, hfile']
      · obtain ⟨contents, program, hget⟩ := holds_of_locate hd hfile
        obtain ⟨-, hnone, -⟩ := holds_of_locate hd hvacant'
        rw [← ha', hget] at hnone
        cases hnone
    · rcases target?_eq_some_iff.1 hq with hfile' | ⟨parent', name', hvacant', ha'⟩
      · obtain ⟨contents, program, hget⟩ := holds_of_locate hd hfile'
        obtain ⟨-, hnone, -⟩ := holds_of_locate hd hvacant
        rw [← ha, hget] at hnone
        cases hnone
      · obtain ⟨rfl, hname⟩ := List.append_inj' (ha.symm.trans ha') rfl
        rw [hvacant, hvacant', (List.cons.inj hname).1]

/-! ## Writing a file -/

/-- The disk `d'` differs from `d` by the contents of the file at the address `a`. -/
structure Written (d d' : Disk) (a : Address) (bytes : ByteArray) : Prop where
  filled : FilledAt d.tree d'.tree a
  contents : d'.tree.get? a = some (.file bytes none)
  cwd : d'.cwd = d.cwd

theorem written_put (hparent : d.tree.DirAt a.dropLast) (hne : a ≠ [])
    (hwas : (∃ contents program, d.tree.get? a = some (.file contents program)) ∨
      ∃ parent name, a = parent ++ [name] ∧ d.tree.get? a = none ∧
        name.utf8ByteSize ≤ FileTree.nameLimit) :
    Written d (d.put a (.file bytes none)) a bytes := by
  obtain ⟨entries, hentries⟩ := hparent
  have hself : (d.put a (.file bytes none)).tree.get? a = some (.file bytes none) := by
    rw [← List.dropLast_concat_getLast hne]
    exact FileTree.get?_put_self hentries
  have hold : ∀ old, d.tree.get? a = some old → old.entries = [] := by
    intro old hget
    rcases hwas with ⟨contents, program, hfile⟩ | ⟨_, _, -, hnone, -⟩
    · rw [hfile] at hget
      cases hget
      rfl
    · rw [hnone] at hget
      cases hget
  exact ⟨⟨fun b hb => FileTree.look_put_of_ne rfl hold hb, ⟨_, _, hself⟩, hwas⟩, hself, rfl⟩

/-- A write that succeeds puts the contents at the target of its path. -/
theorem exists_written (hd : d.Grounded) (h : d.write p bytes = (.ok (), d')) :
    ∃ a, d.target? p = some a ∧ Written d d' a bytes := by
  unfold write at h
  cases hlocate : d.locate p with
  | error e =>
    rw [hlocate] at h
    cases h
  | ok place =>
    rw [hlocate] at h
    cases place with
    | directory x => cases h
    | file a =>
      cases h
      obtain ⟨contents, program, hget⟩ := holds_of_locate hd hlocate
      have hne : a ≠ [] := by
        rintro rfl
        obtain ⟨entries, hroot⟩ := hd.root
        rw [hget] at hroot
        cases hroot
      have hparent : d.tree.DirAt a.dropLast := by
        rw [← List.dropLast_concat_getLast hne] at hget
        exact FileTree.exists_dir_of_get?_append hget
      exact ⟨a, target?_eq_some_iff.2 (.inl hlocate),
        written_put hparent hne (.inl ⟨contents, program, hget⟩)⟩
    | vacant parent name =>
      cases h
      obtain ⟨hparent, hnone, hname⟩ := holds_of_locate hd hlocate
      have hlast : (parent ++ [name]).dropLast = parent := List.dropLast_concat
      rw [← hlast] at hparent
      exact ⟨parent ++ [name], target?_eq_some_iff.2 (.inr ⟨parent, name, hlocate, rfl⟩),
        written_put hparent (by simp) (.inr ⟨parent, name, rfl, hnone, hname⟩)⟩

namespace Written

theorem origin (h : Written d d' a bytes) (q : Path) : d'.origin q = d.origin q := by
  unfold Disk.origin
  rw [h.cwd]

/-- Every path leads where it led before. -/
theorem ended_locate (h : Written d d' a bytes) (q : Path) :
    ended (d'.locate q) = ended (d.locate q) := by
  cases hcheck : check q with
  | error e => rw [locate_of_check_error hcheck, locate_of_check_error hcheck]
  | ok u =>
    rw [locate_of_check hcheck, locate_of_check hcheck, h.origin]
    exact h.filled.ended_walk _ _ _

theorem target?_eq (h : Written d d' a bytes) (q : Path) : d'.target? q = d.target? q := by
  unfold target?
  rw [h.ended_locate]

theorem isDir_eq (h : Written d d' a bytes) (q : Path) : d'.isDir q = d.isDir q := by
  -- Only a directory ends a walk as a directory.
  have hended : ∀ d : Disk, d.isDir q = true ↔ ∃ x, ended (d.locate q) = some (.directory x) := by
    intro d
    rw [isDir_iff]
    unfold ended
    cases d.locate q with
    | error e => simp [Except.toOption]
    | ok place => cases place <;> simp [Except.toOption, Place.filled]
  rw [Bool.eq_iff_iff, hended, hended, h.ended_locate]

theorem grounded (h : Written d d' a bytes) (hd : d.Grounded) : d'.Grounded := by
  have hne : d.cwd ≠ a := by
    rintro rfl
    obtain ⟨entries, hentries⟩ := hd
    rcases h.filled.was with ⟨contents, program, hfile⟩ | ⟨_, _, -, hnone, -⟩
    · rw [hentries] at hfile
      cases hfile
    · rw [hentries] at hnone
      cases hnone
  unfold Grounded
  rw [h.cwd]
  exact FileTree.look_eq_dir_iff.1
    ((h.filled.elsewhere _ hne).trans (FileTree.look_eq_dir_iff.2 hd))

/-- The paths to the address have the new contents. -/
theorem contents_self (h : Written d d' a bytes) (hd : d.Grounded) (hq : d.target? q = some a) :
    d'.contents q = .ok bytes := by
  rw [contents_eq_ok_iff (h.grounded hd), h.target?_eq]
  exact ⟨a, none, hq, h.contents⟩

/-- All other paths keep theirs. -/
theorem contents_of_ne (h : Written d d' a bytes) (hd : d.Grounded) {other : ByteArray}
    (hq : d.target? q = some b) (hne : b ≠ a) (hcontents : d.contents q = .ok other) :
    d'.contents q = .ok other := by
  obtain ⟨b', program, hb', hget⟩ := (contents_eq_ok_iff hd).1 hcontents
  obtain rfl := Option.some.inj (hq.symm.trans hb')
  rw [contents_eq_ok_iff (h.grounded hd), h.target?_eq]
  refine ⟨b, program, hq, ?_⟩
  rw [← FileTree.look_eq_file_iff] at hget ⊢
  rw [h.filled.elsewhere b hne, hget]

end Written

/-- What was written is read back. -/
theorem contents_write (hd : d.Grounded) (h : d.write p bytes = (.ok (), d')) :
    d'.contents p = .ok bytes := by
  obtain ⟨a, htarget, hwritten⟩ := exists_written hd h
  exact hwritten.contents_self hd htarget

/-- A write leaves alone what lies elsewhere. -/
theorem contents_write_of_ne (hd : d.Grounded) (h : d.write p bytes = (.ok (), d'))
    {other : ByteArray} (hq : d.contents q = .ok other) (hne : d.locate q ≠ d.locate p) :
    d'.contents q = .ok other := by
  obtain ⟨a, htarget, hwritten⟩ := exists_written hd h
  obtain ⟨b, program, htarget', -⟩ := (contents_eq_ok_iff hd).1 hq
  refine hwritten.contents_of_ne hd htarget' ?_ hq
  intro hsame
  exact hne ((locate_eq_iff hd htarget' htarget).2 hsame)

end SolidityBuild.Disk
