import Mathlib.Data.List.Perm.Subperm
import SolidityBuild.Compiler.Process
import SolidityBuild.Proofs.Compiler.Output
import SolidityBuild.Proofs.Disk.Children

/-! # Artifacts: when each contract of an output keeps its file

    A file is named for its contract and not for the source of the contract, and all files go
    to one directory. So of two contracts with one file the later one overwrites the file of
    the earlier one, and still both are counted. `artifacts_kept_iff` says that no artifact is
    lost exactly if no two contracts have one file, which without links in the directory is
    to say that no two contracts have one name.

    A run of writes is taken apart into the changes of its contracts (`Stored`): after the
    first contract, the directory is there and only files change.
-/

namespace SolidityBuild.Compiler

open Disk (Written)

variable {d d₁ d' : Disk} {directory : Path} {c : Contract} {cs rest : List Contract}
  {a : Address} {n : Nat}

/-! ## What is asked of a run -/

/-- The files of the contracts are apart. -/
def Apart (d : Disk) (directory : Path) (cs : List Contract) : Prop :=
  (cs.map fun c => d.locate (artifactPath directory c)).Nodup

/-- No artifact is lost: among the files of the contracts there is one for each contract,
    distinct from the others, that holds the JSON of this contract. -/
def Kept (d : Disk) (directory : Path) (cs : List Contract) : Prop :=
  ∃ files : List Address, files.Nodup ∧
    (∀ a ∈ files, ∃ c ∈ cs, d.locate (artifactPath directory c) = .ok (.file a)) ∧
    List.Forall₂ (fun c a => ∃ program,
      d.tree.get? a = some (.file c.json.pretty.toUTF8 program)) cs files

/-- Whether a character can start a Solidity identifier. -/
def startsIdentifier (c : Char) : Bool :=
  c.isAlpha || c = '_' || c = '$'

/-- Whether a name is a Solidity identifier. -/
def isIdentifier (name : String) : Bool :=
  match name.toList with
  | [] => false
  | first :: rest =>
    startsIdentifier first && rest.all fun c => startsIdentifier c || c.isDigit

/-! ## One contract -/

/-- Writing an artifact makes the directory ready and changes one file in it. -/
theorem exists_written_of_writeArtifact (hd : d.Grounded)
    (h : writeArtifact d directory c = (.ok (), d')) :
    ∃ between a, d.makeDirAll directory = (.ok (), between) ∧ between.Grounded ∧
      between.Ready directory ∧ between.target? (artifactPath directory c) = some a ∧
      Written between d' a c.json.pretty.toUTF8 := by
  unfold writeArtifact at h
  split at h
  · rename_i between hmake
    obtain ⟨hbetween, hready⟩ := Disk.ready_of_makeDirAll hd hmake
    obtain ⟨a, htarget, hwritten⟩ := Disk.exists_written hbetween h
    exact ⟨between, a, hmake, hbetween, hready, htarget, hwritten⟩
  · rename_i hfailed
    exact absurd h (hfailed _)

/-! ## All contracts -/

theorem writeArtifacts_cons_of_ok
    (h : (writeArtifacts directory d (c :: rest)).outcome = .ok n) :
    ∃ d₁ count, writeArtifact d directory c = (.ok (), d₁) ∧ n = count + 1 ∧
      (writeArtifacts directory d₁ rest).outcome = .ok count ∧
      (writeArtifacts directory d (c :: rest)).state = (writeArtifacts directory d₁ rest).state := by
  cases hwrite : writeArtifact d directory c with
  | mk result d₁ =>
    cases result with
    | error e =>
      simp only [writeArtifacts, hwrite] at h
      cases h
    | ok u =>
      simp only [writeArtifacts, hwrite] at h
      cases hrest : (writeArtifacts directory d₁ rest).outcome with
      | error e =>
        rw [hrest] at h
        cases h
      | ok count =>
        rw [hrest] at h
        cases h
        refine ⟨d₁, count, rfl, rfl, hrest, ?_⟩
        simp only [writeArtifacts, hwrite]

/-- From a disk on which the directory is ready, the files of some contracts were written one
    by one, which leaves another disk. -/
inductive Stored (directory : Path) : Disk → List Contract → Disk → Prop
  | nil {d : Disk} : Stored directory d [] d
  | cons {d d₁ d' : Disk} {c : Contract} {rest : List Contract} {a : Address}
      (htarget : d.target? (artifactPath directory c) = some a)
      (hwritten : Written d d₁ a c.json.pretty.toUTF8) (hrest : Stored directory d₁ rest d') :
      Stored directory d (c :: rest) d'

/-- Writing artifacts counts the contracts and stores all of them. -/
theorem stored_of_outcome (hd : d.Grounded) (hready : d.Ready directory)
    (h : (writeArtifacts directory d cs).outcome = .ok n) :
    n = cs.length ∧ Stored directory d cs (writeArtifacts directory d cs).state := by
  induction cs generalizing d n with
  | nil =>
    cases h
    exact ⟨rfl, .nil⟩
  | cons c rest ih =>
    obtain ⟨d₁, count, hwrite, rfl, hrest, hstate⟩ := writeArtifacts_cons_of_ok h
    obtain ⟨between, a, hmake, -, -, htarget, hwritten⟩ :=
      exists_written_of_writeArtifact hd hwrite
    -- The directory is ready, so making it changes nothing.
    rw [hready.makeDirAll] at hmake
    cases hmake
    obtain ⟨rfl, hstored⟩ := ih (hwritten.grounded hd) (hwritten.ready hready) hrest
    rw [hstate]
    exact ⟨rfl, .cons htarget hwritten hstored⟩

/-- The same from a disk on which the directory may be missing: the first artifact makes it. -/
theorem stored_of_outcome_of_ne_nil (hd : d.Grounded) (hne : cs ≠ [])
    (h : (writeArtifacts directory d cs).outcome = .ok n) :
    (d.makeDirAll directory).2.Grounded ∧ n = cs.length ∧
      Stored directory (d.makeDirAll directory).2 cs (writeArtifacts directory d cs).state := by
  obtain ⟨c, rest, rfl⟩ := List.exists_cons_of_ne_nil hne
  obtain ⟨d₁, count, hwrite, rfl, hrest, hstate⟩ := writeArtifacts_cons_of_ok h
  obtain ⟨between, a, hmake, hbetween, hready, htarget, hwritten⟩ :=
    exists_written_of_writeArtifact hd hwrite
  obtain ⟨rfl, hstored⟩ :=
    stored_of_outcome (hwritten.grounded hbetween) (hwritten.ready hready) hrest
  rw [hmake, hstate]
  exact ⟨hbetween, rfl, .cons htarget hwritten hstored⟩

namespace Stored

section

variable (h : Stored directory d cs d')
include h

theorem grounded (hd : d.Grounded) : d'.Grounded := by
  induction h with
  | nil => exact hd
  | cons htarget hwritten hrest ih => exact ih (hwritten.grounded hd)

/-- No path has another target afterwards. -/
theorem target?_eq (q : Path) : d'.target? q = d.target? q := by
  induction h with
  | nil => rfl
  | cons htarget hwritten hrest ih => rw [ih, hwritten.target?_eq]

theorem exists_target? (hc : c ∈ cs) : ∃ a, d.target? (artifactPath directory c) = some a := by
  induction h with
  | nil => cases hc
  | cons htarget hwritten hrest ih =>
    rcases List.mem_cons.1 hc with rfl | hc
    · exact ⟨_, htarget⟩
    · rw [← hwritten.target?_eq]
      exact ih hc

/-- What is no contract's file stays as it is. -/
theorem look_of_ne (ha : ∀ c ∈ cs, d.target? (artifactPath directory c) ≠ some a) :
    d'.tree.look a = d.tree.look a := by
  induction h with
  | nil => rfl
  | @cons d d₁ d' c rest a' htarget hwritten hrest ih =>
    have hne : a ≠ a' := by
      rintro rfl
      exact ha c (List.mem_cons_self ..) htarget
    have hrest : ∀ c ∈ rest, d₁.target? (artifactPath directory c) ≠ some a := by
      intro c' hc'
      rw [hwritten.target?_eq]
      exact ha c' (List.mem_cons_of_mem _ hc')
    rw [ih hrest, hwritten.filled.elsewhere a hne]

end

/-- A contract's file has its JSON once it is written, and keeps it unless a later contract
    has the same file. -/
theorem get?_of_last {before after : List Contract}
    (h : Stored directory d (before ++ c :: after) d')
    (ha : d.target? (artifactPath directory c) = some a)
    (hlast : ∀ c' ∈ after, d.target? (artifactPath directory c') ≠ some a) :
    d'.tree.get? a = some (.file c.json.pretty.toUTF8 none) := by
  induction before generalizing d with
  | nil =>
    cases h with
    | @cons _ d₁ _ _ _ a' htarget hwritten hrest =>
      obtain rfl := Option.some.inj (htarget.symm.trans ha)
      have hlater : ∀ c' ∈ after, d₁.target? (artifactPath directory c') ≠ some a' := by
        intro c' hc'
        rw [hwritten.target?_eq]
        exact hlast c' hc'
      rw [← FileTree.look_eq_file_iff, hrest.look_of_ne hlater, FileTree.look_eq_file_iff]
      exact hwritten.contents
  | cons first before ih =>
    cases h with
    | cons htarget hwritten hrest =>
      refine ih hrest ?_ ?_
      · rw [hwritten.target?_eq]
        exact ha
      · intro c' hc'
        rw [hwritten.target?_eq]
        exact hlast c' hc'

end Stored

/-! ## Kept and apart -/

theorem apart_iff_pairwise (hd : d.Grounded)
    (htargets : ∀ c ∈ cs, ∃ a, d.target? (artifactPath directory c) = some a) :
    Apart d directory cs ↔ cs.Pairwise fun c c' =>
      d.target? (artifactPath directory c) ≠ d.target? (artifactPath directory c') := by
  unfold Apart
  rw [List.Nodup, List.pairwise_map]
  refine List.Pairwise.iff_of_mem ?_
  intro c c' hc hc'
  obtain ⟨a, ha⟩ := htargets c hc
  obtain ⟨a', ha'⟩ := htargets c' hc'
  rw [Ne, Disk.locate_eq_iff hd ha ha', Ne, ha, ha', Option.some.injEq]

theorem Stored.kept_of_apart (h : Stored directory d cs d') (hd : d.Grounded)
    (hpairwise : cs.Pairwise fun c c' =>
      d.target? (artifactPath directory c) ≠ d.target? (artifactPath directory c')) :
    Kept d' directory cs := by
  -- The kept files are the targets of the contracts. No contract after another has its target,
  -- so each contract is the last one written to its own.
  let file : Contract → Address := fun c => (d.target? (artifactPath directory c)).getD []
  have hfile : ∀ c ∈ cs, d.target? (artifactPath directory c) = some (file c) := by
    intro c hc
    obtain ⟨a, ha⟩ := h.exists_target? hc
    show _ = some ((d.target? (artifactPath directory c)).getD [])
    rw [ha]
    rfl
  have hcontents : ∀ c ∈ cs,
      d'.tree.get? (file c) = some (.file c.json.pretty.toUTF8 none) := by
    intro c hc
    obtain ⟨before, after, rfl⟩ := List.append_of_mem hc
    refine h.get?_of_last (hfile c hc) ?_
    intro c' hc' hsame
    have hafter := (List.pairwise_append.1 hpairwise).2.1
    exact (List.pairwise_cons.1 hafter).1 c' hc' ((hfile c hc).trans hsame.symm)
  refine ⟨cs.map file, ?_, ?_, ?_⟩
  · rw [List.Nodup, List.pairwise_map]
    refine hpairwise.imp_of_mem ?_
    intro c c' hc hc' hne heq
    rw [hfile c hc, hfile c' hc', heq] at hne
    exact hne rfl
  · intro a ha
    obtain ⟨c, hc, rfl⟩ := List.mem_map.1 ha
    refine ⟨c, hc, ?_⟩
    have htarget := hfile c hc
    rw [← h.target?_eq] at htarget
    exact Disk.locate_of_target? (h.grounded hd) htarget (hcontents c hc)
  · rw [List.forall₂_map_right_iff, List.forall₂_same]
    intro c hc
    exact ⟨none, hcontents c hc⟩

/-- Fewer files than contracts do not keep all of them. -/
theorem Stored.pairwise_of_kept (h : Stored directory d cs d') (hkept : Kept d' directory cs) :
    cs.Pairwise fun c c' =>
      d.target? (artifactPath directory c) ≠ d.target? (artifactPath directory c') := by
  obtain ⟨files, hnodup, hfiles, hcontents⟩ := hkept
  -- The files are distinct, as many as the contracts, and all of them are targets of contracts;
  -- so they are a rearrangement of the targets, and the targets are distinct, too.
  have hsubset : files.map some ⊆ cs.map fun c => d.target? (artifactPath directory c) := by
    intro target htarget
    obtain ⟨a, ha, rfl⟩ := List.mem_map.1 htarget
    obtain ⟨c, hc, hlocate⟩ := hfiles a ha
    refine List.mem_map.2 ⟨c, hc, ?_⟩
    rw [← h.target?_eq]
    exact Disk.target?_eq_some_iff.2 (.inl hlocate)
  have hdistinct : (files.map some).Nodup := hnodup.map fun _ _ h => Option.some.inj h
  have hlength : (cs.map fun c => d.target? (artifactPath directory c)).length ≤
      (files.map some).length := by
    rw [List.length_map, List.length_map]
    exact Nat.le_of_eq hcontents.length_eq
  have hperm := (List.subperm_of_subset hdistinct hsubset).perm_of_length_le hlength
  have htargets := hperm.nodup_iff.1 hdistinct
  rw [List.Nodup, List.pairwise_map] at htargets
  exact htargets

/-- After writing artifacts, none is lost exactly if the files are apart. -/
theorem kept_iff_apart (hd : d.Grounded) (h : (writeArtifacts directory d cs).outcome = .ok n) :
    n = cs.length ∧ (Kept (writeArtifacts directory d cs).state directory cs ↔
      Apart (d.makeDirAll directory).2 directory cs) := by
  by_cases hne : cs = []
  · subst hne
    cases h
    refine ⟨rfl, ?_⟩
    constructor
    · intro _
      exact List.nodup_nil
    · intro _
      exact ⟨[], List.nodup_nil, by simp, .nil⟩
  · obtain ⟨hmade, hn, hstored⟩ := stored_of_outcome_of_ne_nil hd hne h
    rw [apart_iff_pairwise hmade fun c hc => hstored.exists_target? hc]
    exact ⟨hn, hstored.pairwise_of_kept, hstored.kept_of_apart hmade⟩

/-! ## Names -/

theorem isName_artifact {name : String} (h : isIdentifier name = true) :
    Path.IsName (name ++ ".json") := by
  have hslash : '/' ∉ name.toList := by
    intro hmem
    unfold isIdentifier at h
    cases hname : name.toList with
    | nil =>
      rw [hname] at hmem
      cases hmem
    | cons first rest =>
      rw [hname, Bool.and_eq_true, List.all_eq_true] at h
      rw [hname] at hmem
      rcases List.mem_cons.1 hmem with rfl | hmem
      · exact absurd h.1 (by decide)
      · exact absurd (h.2 _ hmem) (by decide)
  have hlength : 5 ≤ (name ++ ".json").toList.length := by
    rw [String.toList_append, List.length_append]
    exact Nat.le_add_left 5 _
  refine ⟨?_, ?_, ?_, ?_⟩
  · intro heq
    rw [heq] at hlength
    exact absurd hlength (by decide)
  · intro heq
    rw [heq] at hlength
    exact absurd hlength (by decide)
  · intro heq
    rw [heq] at hlength
    exact absurd hlength (by decide)
  · rw [String.toList_append, List.mem_append, not_or]
    exact ⟨hslash, by decide⟩

/-- Where no artifact is a link, the files are apart exactly if the names are. -/
theorem apart_iff_names (hd : d.Grounded) (h : (writeArtifacts directory d cs).outcome = .ok n)
    (hnames : ∀ c ∈ cs, isIdentifier c.name = true)
    (hlinks : ∀ c ∈ cs, ¬(d.makeDirAll directory).2.EndsInLink (artifactPath directory c)) :
    Apart (d.makeDirAll directory).2 directory cs ↔ (cs.map Contract.name).Nodup := by
  by_cases hne : cs = []
  · subst hne
    exact ⟨fun _ => List.nodup_nil, fun _ => List.nodup_nil⟩
  · obtain ⟨hmade, -, hstored⟩ := stored_of_outcome_of_ne_nil hd hne h
    rw [apart_iff_pairwise hmade fun c hc => hstored.exists_target? hc, List.Nodup,
      List.pairwise_map]
    refine List.Pairwise.iff_of_mem ?_
    intro c c' hc hc'
    refine not_congr ?_
    constructor
    · intro hsame
      obtain ⟨a, ha⟩ := hstored.exists_target? hc
      have hjson := Disk.target?_joinText_inj (isName_artifact (hnames c hc))
        (isName_artifact (hnames c' hc')) ha (hsame ▸ ha) (hlinks c hc) (hlinks c' hc')
      exact (String.append_left_inj _).1 hjson
    · intro hsame
      rw [artifactPath, artifactPath, hsame]

/-! ## Output -/

/-- Without a grave error the run of an output is that of its artifacts, but for notices. -/
theorem processOutput_of_not_grave {text : String} {output : CompilerOutput}
    (hparse : CompilerOutput.ofText? text = some output)
    (hgrave : ∀ e ∈ output.errors, e.severity ≠ "error") (target : CompileTarget) (d : Disk) :
    (processOutput text target d).outcome =
        (writeArtifacts (artifactDir target) d output.contracts).outcome ∧
      (processOutput text target d).state =
        (writeArtifacts (artifactDir target) d output.contracts).state := by
  have hnone : ¬((output.errors.map ReportedError.diagnostic).any
      fun d => d.severity = .error) = true := by
    rw [List.any_map, List.any_eq_true]
    rintro ⟨e, he, hsevere⟩
    have hword : ReportedError.severityOf e.severity = .error := of_decide_eq_true hsevere
    unfold ReportedError.severityOf at hword
    split at hword
    · rename_i heq
      exact hgrave e he heq
    · cases hword
    · cases hword
  unfold processOutput
  simp only [hparse, if_neg hnone, and_self]

/-- **Artifacts are kept exactly if their files are apart**: where all writes succeed, the
    number is that of the contracts, no two of them have one source and name, and each has a
    file of its own with its JSON exactly if no two of the paths lead to one place; where none
    of the paths is a link, exactly if no two contracts have one name. -/
theorem artifacts_kept_iff {text : String} {target : CompileTarget} {output : CompilerOutput}
    (hparse : CompilerOutput.ofText? text = some output)
    (hgrave : ∀ e ∈ output.errors, e.severity ≠ "error")
    (hnames : ∀ c ∈ output.contracts, isIdentifier c.name = true) (hd : d.Grounded)
    (hrun : (processOutput text target d).outcome = .ok n) :
    n = output.contracts.length ∧
      (output.contracts.map fun c => (c.source, c.name)).Nodup ∧
      (Kept (processOutput text target d).state (artifactDir target) output.contracts ↔
        Apart (d.makeDirAll (artifactDir target)).2 (artifactDir target) output.contracts) ∧
      ((∀ c ∈ output.contracts,
          ¬(d.makeDirAll (artifactDir target)).2.EndsInLink (artifactPath (artifactDir target) c)) →
        (Kept (processOutput text target d).state (artifactDir target) output.contracts ↔
          (output.contracts.map Contract.name).Nodup)) := by
  obtain ⟨houtcome, hstate⟩ := processOutput_of_not_grave hparse hgrave target d
  rw [houtcome] at hrun
  obtain ⟨hn, hkept⟩ := kept_iff_apart hd hrun
  rw [← hstate] at hkept
  refine ⟨hn, CompilerOutput.nodup_contracts hparse, hkept, ?_⟩
  intro hlinks
  exact hkept.trans (apart_iff_names hd hrun hnames hlinks)

theorem ok_of_toOption {result : Except CompilerError α} {value : α}
    (h : result.toOption = some value) : result = .ok value := by
  cases result with
  | error e => cases h
  | ok value' => rw [Option.some.inj h]

/-- A target for a project without a build directory. -/
def plainTarget : CompileTarget :=
  { buildDir := none, projectPath := "/p", sourcesPath := "/p/src", packagesPath := none }

/-- An output with the contracts `A` and `B` in two sources. -/
def twoNames : String :=
  "\x7b\"contracts\": \x7b\"a.sol\": \x7b\"A\": \x7b\"abi\": []\x7d\x7d, " ++
    "\"b.sol\": \x7b\"B\": \x7b\"abi\": [1]\x7d\x7d\x7d\x7d"

/-- Two contracts with two names keep their artifacts. -/
theorem twoNames_kept : ∃ output, CompilerOutput.ofText? twoNames = some output ∧
    output.contracts.length = 2 ∧
    Kept (processOutput twoNames plainTarget .empty).state (artifactDir plainTarget)
      output.contracts := by
  have hchecked : ((CompilerOutput.ofText? twoNames).any fun output =>
      output.errors.all (fun e => e.severity ≠ "error") &&
        output.contracts.all (fun c => isIdentifier c.name) &&
        decide (output.contracts.map Contract.name).Nodup) = true := by
    decide +kernel
  have hcount : (processOutput twoNames plainTarget .empty).outcome.toOption = some 2 := by
    decide +kernel
  have hnolink : ((Disk.empty.makeDirAll (artifactDir plainTarget)).2.tree.nodes.all
      fun entry => entry.2.isDir) = true := by
    decide +kernel
  obtain ⟨output, hparse, hchecked⟩ := (Option.any_eq_true _ _).1 hchecked
  simp only [Bool.and_eq_true, List.all_eq_true, decide_eq_true_iff] at hchecked
  obtain ⟨⟨hgrave, hnames⟩, hdistinct⟩ := hchecked
  have hrun : (processOutput twoNames plainTarget .empty).outcome = .ok 2 :=
    ok_of_toOption hcount
  obtain ⟨hn, -, -, hkept⟩ := artifacts_kept_iff hparse hgrave hnames ⟨[], rfl⟩ hrun
  refine ⟨output, hparse, hn.symm, (hkept ?_).2 hdistinct⟩
  rintro c - ⟨parent, name, target, -, hlink⟩
  have hnode := List.all_eq_true.1 hnolink _ (FileTree.mem_nodes_of_get? hlink)
  cases hnode

/-- An output with a contract `A` in each of two sources. -/
def sameName : String :=
  "\x7b\"contracts\": \x7b\"a.sol\": \x7b\"A\": \x7b\"abi\": []\x7d\x7d, " ++
    "\"b.sol\": \x7b\"A\": \x7b\"abi\": [1]\x7d\x7d\x7d\x7d"

/-- Two contracts with one name are counted as two, but one artifact is lost. -/
theorem sameName_lost : ∃ output, CompilerOutput.ofText? sameName = some output ∧
    (∀ e ∈ output.errors, e.severity ≠ "error") ∧
    (∀ c ∈ output.contracts, isIdentifier c.name = true) ∧ Disk.empty.Grounded ∧
    (processOutput sameName plainTarget .empty).outcome = .ok 2 ∧
    output.contracts.length = 2 ∧
    ¬Kept (processOutput sameName plainTarget .empty).state (artifactDir plainTarget)
      output.contracts := by
  have hchecked : ((CompilerOutput.ofText? sameName).any fun output =>
      output.errors.all (fun e => e.severity ≠ "error") &&
        output.contracts.all (fun c => isIdentifier c.name) &&
        decide (output.contracts.map Contract.name = ["A", "A"])) = true := by
    decide +kernel
  have hcount : (processOutput sameName plainTarget .empty).outcome.toOption = some 2 := by
    decide +kernel
  obtain ⟨output, hparse, hchecked⟩ := (Option.any_eq_true _ _).1 hchecked
  simp only [Bool.and_eq_true, List.all_eq_true, decide_eq_true_iff] at hchecked
  obtain ⟨⟨hgrave, hnames⟩, hsame⟩ := hchecked
  have hrun : (processOutput sameName plainTarget .empty).outcome = .ok 2 :=
    ok_of_toOption hcount
  have hd : Disk.empty.Grounded := ⟨[], rfl⟩
  obtain ⟨houtcome, hstate⟩ := processOutput_of_not_grave hparse hgrave plainTarget .empty
  obtain ⟨hn, hkept⟩ := kept_iff_apart hd (houtcome.symm.trans hrun)
  refine ⟨output, hparse, hgrave, hnames, hd, hrun, hn.symm, ?_⟩
  rw [hstate, hkept]
  intro hapart
  have hlocate : (output.contracts.map fun c =>
      (Disk.empty.makeDirAll (artifactDir plainTarget)).2.locate
        (artifactPath (artifactDir plainTarget) c)) =
      (output.contracts.map Contract.name).map fun name =>
        (Disk.empty.makeDirAll (artifactDir plainTarget)).2.locate
          ((artifactDir plainTarget).joinText (name ++ ".json")) := by
    rw [List.map_map]
    rfl
  unfold Apart at hapart
  rw [hlocate, hsame] at hapart
  exact absurd hapart (by simp)

end SolidityBuild.Compiler
