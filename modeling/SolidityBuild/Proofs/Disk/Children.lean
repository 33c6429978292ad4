import SolidityBuild.Proofs.Disk.Directories
import SolidityBuild.Proofs.Path.Joining

/-! # Children: where the names in a directory lead

    The last step of a path to a name in a directory enters that name. Unless the name is a
    link, the target of the path has the same name. So two names in a directory that are no
    links have two targets.
-/

namespace SolidityBuild

namespace Path

/-- A name in a directory is the last segment of its path. -/
theorem exists_segments_joinText {name : String} (hname : IsName name) (base : Path) :
    ∃ init, (base.joinText name).segments = init ++ [name.toList] := by
  have hrelative : (Path.mk name).isAbsolute = false := by
    unfold isAbsolute
    exact decide_eq_false fun hhead => hname.2.2.2 (List.mem_of_head? hhead)
  obtain ⟨init, hjoin, -⟩ := exists_segments_join base hrelative
  refine ⟨init, hjoin.trans ?_⟩
  congr 1
  exact Text.pieces_of_not_mem hname.2.2.2

end Path

namespace FileTree

theorem ofSegment_name {name : String} (h : Path.IsName name) :
    Step.ofSegment name.toList = .enter name := by
  obtain ⟨hempty, hhere, hup, _⟩ := h
  unfold Step.ofSegment
  split
  · rename_i heq
    exact absurd (String.toList_eq_nil_iff.1 heq) hempty
  · rename_i heq
    exact absurd (by rw [← String.toList_inj, heq]; rfl) hhere
  · rename_i heq
    exact absurd (by rw [← String.toList_inj, heq]; rfl) hup
  · simp

end FileTree

namespace Disk

open FileTree (Step Place)

variable {d : Disk} {base : Path} {name name' : String} {a : Address}

/-- The last name of a path is a link. -/
def EndsInLink (d : Disk) (p : Path) : Prop :=
  ∃ parent name target, d.entry p = .ok (parent, .enter name) ∧
    d.tree.get? (parent ++ [name]) = some (.link target)

/-- The last step to a name in a directory enters it. -/
theorem steps_joinText (hname : Path.IsName name) (base : Path) :
    FileTree.steps (base.joinText name) = firstSteps (base.joinText name) ++ [.enter name] ∧
      lastStep? (base.joinText name) = some (.enter name) := by
  obtain ⟨init, hsegments⟩ := Path.exists_segments_joinText hname base
  have hne : name.toList ≠ [] := fun h => hname.1 (String.toList_eq_nil_iff.1 h)
  have htrimmed : trimmed (base.joinText name) = init ++ [name.toList] := by
    rw [trimmed, hsegments, Text.dropEndWhile]
    simp [hne]
  constructor
  · rw [FileTree.steps, hsegments, firstSteps, htrimmed, List.dropLast_concat, List.map_append,
      List.map_singleton, FileTree.ofSegment_name hname]
  · rw [lastStep?, htrimmed, List.getLast?_concat, Option.map_some,
      FileTree.ofSegment_name hname]

/-- The target of a name that is no link has this name. -/
theorem exists_target?_eq (hname : Path.IsName name)
    (htarget : d.target? (base.joinText name) = some a)
    (hlink : ¬d.EndsInLink (base.joinText name)) : ∃ parent, a = parent ++ [name] := by
  obtain ⟨hsteps, hlast⟩ := steps_joinText hname base
  have hplace : ∃ place, d.locate (base.joinText name) = .ok place ∧ place.filled = .file a := by
    rcases target?_eq_some_iff.1 htarget with hfile | ⟨above, last, hvacant, rfl⟩
    · exact ⟨_, hfile, rfl⟩
    · exact ⟨_, hvacant, rfl⟩
  obtain ⟨place, hlocate, hfilled⟩ := hplace
  have hcheck := check_of_locate hlocate
  rw [locate_of_check hcheck, hsteps] at hlocate
  obtain ⟨parent, hparent⟩ := FileTree.exists_directory_of_walk_append (by simp) hlocate
  obtain ⟨links, hgo⟩ := FileTree.walk_append hparent
  rw [hgo] at hlocate
  have hentry : d.entry (base.joinText name) = .ok (parent, .enter name) := by
    refine entry_eq_ok_iff.2 ⟨hcheck, hparent, ?_⟩
    rw [hlast]
    rfl
  have hnot : ∀ target, d.tree.get? (parent ++ [name]) ≠ some (.link target) :=
    fun target h => hlink ⟨parent, name, target, hentry, h⟩
  refine ⟨parent, ?_⟩
  rcases FileTree.walk_enter_of_not_link hnot hlocate with rfl | rfl | rfl
  · cases hfilled
    rfl
  · cases hfilled
    rfl
  · cases hfilled

/-- Names in a directory that are no links have one target only if they are equal. -/
theorem target?_joinText_inj (hname : Path.IsName name) (hname' : Path.IsName name')
    (htarget : d.target? (base.joinText name) = some a)
    (htarget' : d.target? (base.joinText name') = some a)
    (hlink : ¬d.EndsInLink (base.joinText name)) (hlink' : ¬d.EndsInLink (base.joinText name')) :
    name = name' := by
  obtain ⟨parent, ha⟩ := exists_target?_eq hname htarget hlink
  obtain ⟨parent', ha'⟩ := exists_target?_eq hname' htarget' hlink'
  have hends := List.append_inj' (ha.symm.trans ha') rfl
  exact (List.cons.inj hends.2).1

end Disk

end SolidityBuild
