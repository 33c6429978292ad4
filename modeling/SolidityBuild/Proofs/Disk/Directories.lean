import SolidityBuild.Proofs.Disk.Writing
import SolidityBuild.Proofs.Text.Affixes

/-! # Directories: what making one leaves as it is

    A directory is made where the last name of a path is missing, and then the path leads to
    it. A directory that was made is there, and making it again changes nothing, also after
    files were written.
-/

namespace SolidityBuild.Disk

open FileTree (Step Place)

variable {d d' : Disk} {p : Path} {a : Address} {bytes : ByteArray}

/-! ## The last step of a path -/

/-- The segments of a path without the empty ones at the end. -/
def trimmed (p : Path) : List (List Char) :=
  Text.dropEndWhile List.isEmpty p.segments

theorem steps_eq (p : Path) :
    ∃ count, FileTree.steps p =
      (trimmed p).map Step.ofSegment ++ List.replicate count .stay := by
  obtain ⟨-, run, hrun, hsegments⟩ := Text.dropEndWhile_eq_iff.1 (rfl : trimmed p = trimmed p)
  refine ⟨run.length, ?_⟩
  rw [FileTree.steps, hsegments, List.map_append, List.append_right_inj, List.eq_replicate_iff]
  refine ⟨List.length_map _, ?_⟩
  intro step hstep
  obtain ⟨segment, hsegment, rfl⟩ := List.mem_map.1 hstep
  rw [List.isEmpty_iff.1 (hrun segment hsegment)]
  rfl

/-- The last step of a path, unless it asks for nothing but the start. -/
def lastStep? (p : Path) : Option Step :=
  (trimmed p).getLast?.map Step.ofSegment

/-- The steps before it. -/
def firstSteps (p : Path) : List Step :=
  (trimmed p).dropLast.map Step.ofSegment

/-- A path goes by its first steps and its last one, and then stays. -/
theorem exists_steps_eq (p : Path) :
    ∃ count, FileTree.steps p =
      firstSteps p ++ ((lastStep? p).toList ++ List.replicate count .stay) := by
  obtain ⟨count, hsteps⟩ := steps_eq p
  refine ⟨count, ?_⟩
  rw [hsteps, ← List.append_assoc, firstSteps, lastStep?]
  congr 1
  rcases List.eq_nil_or_concat (trimmed p) with hnil | ⟨init, last, hlast⟩
  · rw [hnil]
    rfl
  · rw [hlast, List.concat_eq_append]
    simp

theorem entry_eq_ok_iff {step : Step} :
    d.entry p = .ok (a, step) ↔ check p = .ok () ∧
      d.tree.walk FileTree.linkLimit (d.origin p) (firstSteps p) = .ok (.directory a) ∧
      step = (lastStep? p).getD .stay := by
  rw [← FileTree.walk_stay_iff]
  unfold entry
  cases hcheck : check p with
  | error e => simp [bind, Except.bind]
  | ok u =>
    simp only [bind, Except.bind, firstSteps, lastStep?, trimmed]
    cases hwalk : d.tree.walk FileTree.linkLimit (d.origin p)
        ((Text.dropEndWhile List.isEmpty p.segments).dropLast.map Step.ofSegment ++ [.stay]) with
    | error e => simp
    | ok place =>
      cases place with
      | directory x =>
        simp only [Except.ok.injEq, Prod.mk.injEq, true_and, Place.directory.injEq, eq_comm]
      | file x => simp
      | vacant parent name => simp

/-- Where the first steps lead to a directory, the last one goes on from there. -/
theorem exists_locate_eq (hcheck : check p = .ok ())
    (h : d.tree.walk FileTree.linkLimit (d.origin p) (firstSteps p) = .ok (.directory a)) :
    ∃ links count, d.locate p =
      d.tree.walk links a ((lastStep? p).toList ++ List.replicate count .stay) := by
  obtain ⟨count, hsteps⟩ := exists_steps_eq p
  obtain ⟨links, hgo⟩ := FileTree.walk_append h
  refine ⟨links, count, ?_⟩
  rw [locate_of_check hcheck, hsteps]
  exact hgo _

/-! ## One directory -/

/-- A directory is not made again. -/
theorem makeDir_of_isDir (h : d.isDir p = true) : d.makeDir p = (.error .alreadyExists, d) := by
  obtain ⟨x, hlocate⟩ := isDir_iff.1 h
  have hcheck := check_of_locate hlocate
  have hfirst : ∃ y, d.tree.walk FileTree.linkLimit (d.origin p) (firstSteps p) =
      .ok (.directory y) := by
    obtain ⟨count, hsteps⟩ := exists_steps_eq p
    rw [locate_of_check hcheck, hsteps] at hlocate
    exact FileTree.exists_directory_of_walk_append_directory hlocate
  obtain ⟨y, hfirst⟩ := hfirst
  obtain ⟨links, count, hgo⟩ := exists_locate_eq hcheck hfirst
  have hentry := entry_eq_ok_iff.2 ⟨hcheck, hfirst, rfl⟩
  unfold makeDir create
  rw [hentry]
  cases hlast : lastStep? p with
  | none => rfl
  | some step =>
    cases step with
    | stay => rfl
    | up => rfl
    | enter name =>
      rw [hgo, hlast] at hlocate
      have hthere := FileTree.get?_ne_none_of_walk hlocate
      exact if_pos (Option.isSome_iff_ne_none.2 hthere)

theorem makeDir_error {e : SystemError} (h : d.makeDir p = (.error e, d')) : d' = d := by
  unfold makeDir create at h
  split at h
  · exact (Prod.mk.inj h).2.symm
  · split at h
    · exact (Prod.mk.inj h).2.symm
    · split at h
      · exact (Prod.mk.inj h).2.symm
      · cases h
  · exact (Prod.mk.inj h).2.symm

/-- A directory is made where a directory misses the last name of a path. -/
theorem exists_of_makeDir (h : d.makeDir p = (.ok (), d')) :
    ∃ parent name, check p = .ok () ∧
      d.tree.walk FileTree.linkLimit (d.origin p) (firstSteps p) = .ok (.directory parent) ∧
      lastStep? p = some (.enter name) ∧ d.tree.get? (parent ++ [name]) = none ∧
      d' = d.put (parent ++ [name]) (.dir []) := by
  unfold makeDir create at h
  split at h
  · cases h
  · rename_i parent name hentry
    split at h
    · cases h
    · rename_i hmissing
      split at h
      · cases h
      · obtain ⟨hcheck, hfirst, hstep⟩ := entry_eq_ok_iff.1 hentry
        have hlast : lastStep? p = some (.enter name) := by
          cases hl : lastStep? p with
          | none =>
            rw [hl] at hstep
            cases hstep
          | some step =>
            rw [hl] at hstep
            exact congrArg some hstep.symm
        have hnone : d.tree.get? (parent ++ [name]) = none := by
          rw [← Option.not_isSome_iff_eq_none]
          exact hmissing
        exact ⟨parent, name, hcheck, hfirst, hlast, hnone, (Prod.mk.inj h).2.symm⟩
  · cases h

/-- A directory that was made is there. -/
theorem isDir_of_makeDir (hd : d.Grounded) (h : d.makeDir p = (.ok (), d')) :
    d'.Grounded ∧ d'.isDir p = true := by
  obtain ⟨parent, name, hcheck, hfirst, hlast, hnone, rfl⟩ := exists_of_makeDir h
  obtain ⟨entries, hparent⟩ := FileTree.holds_of_walk (hd.origin p) hfirst
  -- Nothing was at the address, so whatever there is stays.
  have hmono : ∀ b node, d.tree.look b = some node →
      (d.put (parent ++ [name]) (.dir [])).tree.look b = some node := by
    intro b node hlook
    have hne : b ≠ parent ++ [name] := by
      rintro rfl
      rw [FileTree.look_eq_none_iff.2 hnone] at hlook
      cases hlook
    have hold : ∀ old, d.tree.get? (parent ++ [name]) = some old → old.entries = [] := by
      intro old hold
      rw [hnone] at hold
      cases hold
    exact (FileTree.look_put_of_ne rfl hold hne).trans hlook
  constructor
  · exact FileTree.look_eq_dir_iff.1 (hmono _ _ (FileTree.look_eq_dir_iff.2 hd))
  · have hfirst' : (d.put (parent ++ [name]) (.dir [])).tree.walk FileTree.linkLimit
        ((d.put (parent ++ [name]) (.dir [])).origin p) (firstSteps p) = .ok (.directory parent) :=
      FileTree.walk_mono hmono hfirst
    obtain ⟨links, count, hgo⟩ := exists_locate_eq hcheck hfirst'
    rw [hlast] at hgo
    exact isDir_iff.2 ⟨parent ++ [name], hgo.trans
      (FileTree.walk_enter_dir (FileTree.get?_put_self hparent) links count)⟩

/-! ## Directories with all above them -/

/-- A path at which `makeDirAll` has nothing left to do: a directory, or the empty path. -/
def Ready (d : Disk) (p : Path) : Prop :=
  p.text.isEmpty = true ∨ d.isDir p = true

theorem isDir_of_orDirectory (hd : d.Grounded)
    (h : orDirectory p (d.makeDir p) = (.ok (), d')) : d'.Grounded ∧ d'.isDir p = true := by
  cases hmake : d.makeDir p with
  | mk result after =>
    rw [hmake] at h
    cases result with
    | ok u =>
      cases h
      exact isDir_of_makeDir hd hmake
    | error e =>
      obtain rfl := makeDir_error hmake
      simp only [orDirectory] at h
      split at h
      · rename_i hdir
        cases h
        exact ⟨hd, hdir⟩
      · cases h

theorem ready_of_makeChain {above : List Path} (hd : d.Grounded)
    (h : d.makeChain (p :: above) = (.ok (), d')) : d'.Grounded ∧ d'.Ready p := by
  induction above generalizing p d' with
  | nil =>
    rw [makeChain] at h
    split at h
    · rename_i hempty
      cases h
      exact ⟨hd, .inl hempty⟩
    · split at h
      · cases h
      · exact (isDir_of_orDirectory hd h).imp_right .inr
  | cons next above ih =>
    rw [makeChain] at h
    split at h
    · rename_i hempty
      cases h
      exact ⟨hd, .inl hempty⟩
    · split at h
      · -- The directory above is missing: it is made first.
        split at h
        · rename_i between hchain
          exact (isDir_of_orDirectory (ih hchain).1 h).imp_right .inr
        · rename_i hfailed
          exact absurd h (hfailed _)
      · exact (isDir_of_orDirectory hd h).imp_right .inr

theorem exists_ancestors_eq (p : Path) : ∃ above, p.ancestors = p :: above := by
  unfold Path.ancestors
  cases p.parts.length with
  | zero => exact ⟨[], rfl⟩
  | succ count => exact ⟨_, rfl⟩

/-- What `makeDirAll` made is ready. -/
theorem ready_of_makeDirAll (hd : d.Grounded) (h : d.makeDirAll p = (.ok (), d')) :
    d'.Grounded ∧ d'.Ready p := by
  obtain ⟨above, habove⟩ := exists_ancestors_eq p
  unfold makeDirAll at h
  rw [habove] at h
  exact ready_of_makeChain hd h

/-- Making a directory that is ready changes nothing. -/
theorem Ready.makeDirAll (h : d.Ready p) : d.makeDirAll p = (.ok (), d) := by
  obtain ⟨above, habove⟩ := exists_ancestors_eq p
  unfold Disk.makeDirAll
  rw [habove, makeChain]
  by_cases hempty : p.text.isEmpty = true
  · rw [if_pos hempty]
  · have hdir := h.resolve_left hempty
    rw [if_neg hempty, makeDir_of_isDir hdir]
    show (if d.isDir p = true then _ else _, d) = _
    rw [if_pos hdir]

theorem Written.ready (h : Written d d' a bytes) (hready : d.Ready p) : d'.Ready p := by
  unfold Ready
  rw [h.isDir_eq]
  exact hready

end SolidityBuild.Disk
