import SolidityBuild.Disk.Basic
import SolidityBuild.Path.Lemmas

/-! # Reach of a disk: finitely many keys lead to its files

    A path through names from the root leads to a file only if each of the names occurs in
    the tree. It passes a link only so often, and between two links it goes deeper with
    every name, so its length is bounded too. A path's key is the address of what it leads
    to, or its normal form where it leads nowhere; the keys that lead to files are therefore
    among finitely many.
-/

namespace SolidityBuild

namespace FileTree

/-- The steps that enter some names one after the other. -/
def enters (names : List String) : List Step :=
  names.map .enter

/-- That some names occur in a tree, and at most `bound` of them. -/
def Reachable (t : FileTree) (bound : Nat) (names : List String) : Prop :=
  names.length ≤ bound ∧ ∀ name ∈ names, name ∈ t.names

theorem Reachable.mono {t : FileTree} {low high : Nat} {names : List String}
    (h : t.Reachable low names) (hle : low ≤ high) : t.Reachable high names :=
  ⟨Nat.le_trans h.1 hle, h.2⟩

theorem Reachable.cons {t node : FileTree} {start : Address} {bound : Nat} {name : String}
    {names : List String} (hn : t.get? (start ++ [name]) = some node)
    (h : t.Reachable bound names) : t.Reachable (bound + 1) (name :: names) := by
  refine ⟨by simpa using h.1, fun other ho => ?_⟩
  rcases List.mem_cons.1 ho with rfl | ho
  · exact mem_names hn (by simp)
  · exact h.2 other ho

/-- A walk through names to a file meets names of the tree, and never goes deeper than the
    tree is high between the links that it passes. -/
theorem reachable_of_walkFrom {t : FileTree} {beyond : Nat}
    {follow : Address → List Step → Except SystemError Place} {start address : Address}
    {names : List String}
    (hf : ∀ start steps names address,
      follow start (steps ++ enters names) = .ok (.file address) →
      t.Reachable beyond names)
    (h : walkFrom t follow start (enters names) = .ok (.file address)) :
    t.Reachable (beyond + 1 + (t.height - start.length)) names := by
  induction names generalizing start with
  | nil => exact ⟨by simp, by simp⟩
  | cons name names ih =>
    simp only [enters, List.map_cons, walkFrom] at h
    split at h
    · split at h
      · simp at h
      · split at h <;> simp at h
    · rename_i hn
      have hlen := length_le_height hn
      simp only [List.length_append, List.length_cons, List.length_nil] at hlen
      refine (Reachable.cons hn (ih h)).mono ?_
      simp only [List.length_append, List.length_cons, List.length_nil]
      omega
    · rename_i hn
      split at h
      · rename_i hrest
        cases names with
        | nil => exact (Reachable.cons hn ⟨by simp, by simp⟩ : t.Reachable (0 + 1) _).mono (by omega)
        | cons _ _ => simp at hrest
      · simp at h
    · rename_i hn
      exact (Reachable.cons hn (hf _ _ names _ h)).mono (by omega)

theorem reachable_of_walkFrom_append {t : FileTree} (beyond : Nat)
    {follow : Address → List Step → Except SystemError Place} {start address : Address}
    {steps : List Step} {names : List String}
    (hf : ∀ start steps names address,
      follow start (steps ++ enters names) = .ok (.file address) →
      t.Reachable beyond names)
    (h : walkFrom t follow start (steps ++ enters names) = .ok (.file address)) :
    t.Reachable (beyond + 1 + t.height) names := by
  induction steps generalizing start with
  | nil => exact (reachable_of_walkFrom hf h).mono (by omega)
  | cons step steps ih =>
    cases step with
    | stay => exact ih h
    | up => exact ih h
    | enter name =>
      simp only [List.cons_append, walkFrom] at h
      split at h
      · split at h
        · simp at h
        · split at h <;> simp at h
      · exact ih h
      · split at h
        · rename_i hrest
          cases names with
          | nil => exact ⟨by simp, by simp⟩
          | cons _ _ => simp [enters] at hrest
        · simp at h
      · rw [← List.append_assoc] at h
        exact (hf _ _ names _ h).mono (by omega)

theorem reachable_of_walk {t : FileTree} {links : Nat} {start address : Address}
    (steps : List Step) {names : List String}
    (h : walk t links start (steps ++ enters names) = .ok (.file address)) :
    t.Reachable ((links + 1) * (t.height + 1)) names := by
  induction links generalizing start steps names address with
  | zero =>
    refine (reachable_of_walkFrom_append 0 (fun _ _ _ _ h => ?_) h).mono (by omega)
    simp at h
  | succ links ih =>
    refine (reachable_of_walkFrom_append _ (fun _ _ _ _ h => ih _ h) h).mono ?_
    simp only [Nat.add_mul, Nat.one_mul]
    omega

/-- The lists of some names up to a length are finitely many. -/
theorem exists_lists (names : List String) (bound : Nat) :
    ∃ lists : List (List String),
      ∀ list : List String, list.length ≤ bound → (∀ name ∈ list, name ∈ names) →
        list ∈ lists := by
  induction bound with
  | zero => exact ⟨[[]], fun list hlen _ => by simp_all⟩
  | succ bound ih =>
    obtain ⟨lists, hl⟩ := ih
    refine ⟨[] :: names.flatMap fun name => lists.map (name :: ·), fun list hlen hm => ?_⟩
    cases list with
    | nil => simp
    | cons name list =>
      refine List.mem_cons_of_mem _ (List.mem_flatMap.2 ⟨name, hm name (by simp), ?_⟩)
      exact List.mem_map.2 ⟨list, hl list (by simpa using hlen) fun n hn => hm n (by simp [hn]), rfl⟩

end FileTree

namespace Disk

/-- The key of a path: the real path of what it leads to, else its normal form as seen from
    the current directory. -/
def key (d : Disk) (p : Path) : Path :=
  match d.realPath p with
  | .ok real => real
  | .error _ => ((Path.ofNames d.cwd).join p).normalize

theorem steps_ofNames {names : List String} (hne : names ≠ [])
    (h : ∀ name ∈ names, Path.IsName name) :
    FileTree.steps (Path.ofNames names) = .stay :: FileTree.enters names := by
  rw [FileTree.steps, Path.segments_ofNames hne h, List.map_cons, FileTree.enters, List.map_map]
  refine congrArg _ (List.map_congr_left fun name hn => ?_)
  obtain ⟨hempty, hhere, hup, _⟩ := h name hn
  simp only [Function.comp_apply]
  unfold FileTree.Step.ofSegment
  split
  · rename_i heq
    exact absurd (String.toList_eq_nil_iff.1 heq) hempty
  · rename_i heq
    exact absurd (by rw [← String.toList_inj, heq]; rfl) hhere
  · rename_i heq
    exact absurd (by rw [← String.toList_inj, heq]; rfl) hup
  · simp

theorem locate_of_readText {d : Disk} {p : Path} {text : String}
    (h : d.readText p = .ok text) : ∃ address, d.locate p = .ok (.file address) := by
  unfold readText contents at h
  split at h
  · simp at h
  · rename_i hc
    split at hc
    · simp at hc
    · simp at hc
    · simp at hc
    · exact ⟨_, by assumption⟩

theorem reachable_of_readText {d : Disk} {names : List String} {text : String}
    (hname : ∀ name ∈ names, Path.IsName name)
    (h : d.readText (Path.ofNames names) = .ok text) :
    d.tree.Reachable ((FileTree.linkLimit + 1) * (d.tree.height + 1)) names := by
  by_cases hne : names = []
  · subst hne
    exact ⟨by simp, by simp⟩
  · obtain ⟨address, hl⟩ := locate_of_readText h
    unfold locate at hl
    cases hc : check (Path.ofNames names) with
    | error e => simp [hc, bind, Except.bind] at hl
    | ok u =>
      simp only [hc, bind, Except.bind, steps_ofNames hne hname] at hl
      exact FileTree.reachable_of_walk [.stay] hl

theorem mem_nodes_of_realPath {d : Disk} {p real : Path} (h : d.realPath p = .ok real) :
    real ∈ d.tree.nodes.map fun (address, _) => Path.ofNames address := by
  unfold realPath node at h
  split at h
  · simp [Except.map] at h
  · simp [Except.map] at h
  all_goals
    split at h
    · rename_i hg
      simp only [Except.map, Except.ok.injEq] at h
      exact List.mem_map.2 ⟨_, FileTree.mem_nodes_of_get? hg, h⟩
    · simp [Except.map] at h

/-- The keys under which a disk has a text are among finitely many. -/
theorem key_finite (d : Disk) :
    ∃ keys : List Path, ∀ p text, d.readText (d.key p) = .ok text → d.key p ∈ keys := by
  obtain ⟨lists, hl⟩ := FileTree.exists_lists d.tree.names
    ((FileTree.linkLimit + 1) * (d.tree.height + 1))
  refine ⟨(d.tree.nodes.map fun (address, _) => Path.ofNames address) ++
    lists.map Path.ofNames, fun p text h => List.mem_append.2 ?_⟩
  cases hr : d.realPath p with
  | ok real =>
    have hk : d.key p = real := by simp [key, hr]
    exact .inl (hk ▸ mem_nodes_of_realPath hr)
  | error e =>
    obtain ⟨names, heq, hname⟩ := Path.normalize_of_isAbsolute
      (Path.isAbsolute_join (Path.isAbsolute_ofNames d.cwd) p)
    have hk : d.key p = Path.ofNames names := by simp [key, hr, heq]
    rw [hk] at h ⊢
    have hreach := reachable_of_readText hname h
    exact .inr (List.mem_map.2 ⟨names, hl names hreach.1 hreach.2, rfl⟩)

end Disk

end SolidityBuild
