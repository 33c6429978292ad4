import SolidityBuild.Proofs.Path.Names
import SolidityBuild.Proofs.Remapping.Agreement

/-! # Specificity: when the innermost context wins

    A context stands for a directory, and a file inside of two such directories lies in the
    inner one more closely. The resolver tests the directories, but it ranks the contexts by
    their written length. So the inner one wins as far as it is written longer. This holds
    when both contexts are spelled plainly and seen from the same place, and it fails when
    the outer one is spelled out from the root of the file system.
-/

namespace SolidityBuild.Resolution

/-! ## Inner contexts and written lengths -/

/-- The import is rewritten with the remapping. -/
def Rewrites (project : Project) (importer : Path) (specifier : String) (r : Remapping) : Prop :=
  Text.isBlankText specifier = false ∧ remapping? project importer specifier = some r

/-- The context of `inner` is a directory strictly inside of that of `outer`, if `outer` has
    a context at all. -/
def Inside (project : Project) (inner outer : Remapping) : Prop :=
  ∃ directory, project.contextPath? inner = some directory ∧
    ∀ around, project.contextPath? outer = some around →
      around.contains directory = true ∧ directory ≠ around

/-- Some remapping that applies prevails over `r` as it is written: it has a longer context,
    or one as long and a longer stem, or both as long and an earlier place. -/
def Outranked (project : Project) (importer : Path) (specifier : String) (r : Remapping) : Prop :=
  (∃ o ∈ project.remappings, applies project importer specifier o = true ∧ r.rank < o.rank) ∨
    ∃ before o after, project.remappings = before ++ o :: after ∧
      applies project importer specifier o = true ∧ o.rank = r.rank ∧ o ≠ r ∧ r ∉ before

/-- A context that is spelled like its normal form and does not climb. -/
def PlainContext (context : String) : Prop :=
  Path.normalize ⟨context⟩ = ⟨context⟩ ∧ .up ∉ (Path.mk context).parts

/-- Both contexts are spelled plainly, and both from the root of the file system or both from
    the root of the project. -/
def SpelledAlike (r other : Remapping) : Prop :=
  ∃ context context', r.context = some context ∧ other.context = some context' ∧
    PlainContext context ∧ PlainContext context' ∧
    (Path.mk context).isAbsolute = (Path.mk context').isAbsolute

variable {reader : SourceReader} {project : Project} {importer : Path} {specifier : String}
  {r inner outer : Remapping}

/-! ## The resolver's choice -/

/-- What it is to be rewritten with a remapping: what replaces the stem is made absolute. -/
theorem Rewrites.resolve_eq (h : Rewrites project importer specifier r) :
    resolve reader project importer specifier =
      (within project.root (replaced r specifier) specifier).map
        fun path => { path, kind := .remapped } :=
  resolve_of_remapping? h.1 h.2

/-- A remapping that applies is used unless it is outranked. -/
theorem remapping?_eq_some_iff_not_outranked (hr : r ∈ project.remappings)
    (happlies : applies project importer specifier r = true) :
    remapping? project importer specifier = some r ↔
      ¬ Outranked project importer specifier r := by
  constructor
  · intro hused houtranked
    obtain ⟨before, after, hsplit, -, hbefore, hafter⟩ := remapping?_eq_some_iff.1 hused
    rcases houtranked with ⟨o, ho, happlies', hlt⟩ |
      ⟨before', o, after', hsplit', happlies', hrank, hne, hnot⟩
    · obtain ⟨-, -, hmax⟩ := rank_le_of_remapping? hused
      exact absurd hlt (not_lt.2 (hmax o ho happlies'))
    · rcases split_cases (hsplit.symm.trans hsplit') with heq | ⟨hmem, -⟩ | ⟨-, hmem⟩
      · exact hne heq.symm
      · exact hnot hmem
      · exact absurd hrank (hbefore o hmem happlies').ne
  · intro hnone
    -- The first place of the remapping is the one that counts.
    obtain ⟨before, after, hsplit, hnot⟩ := List.eq_append_cons_of_mem hr
    have hmax : ∀ o ∈ project.remappings, applies project importer specifier o = true →
        o.rank ≤ r.rank := by
      intro o ho happlies'
      by_contra hlt
      exact hnone (.inl ⟨o, ho, happlies', not_le.1 hlt⟩)
    refine remapping?_eq_some_iff.2 ⟨before, after, hsplit, happlies, ?_, ?_⟩
    · intro o ho happlies'
      have hmem : o ∈ project.remappings := by
        rw [hsplit]
        exact List.mem_append_left _ ho
      apply lt_of_le_of_ne (hmax o hmem happlies')
      intro hrank
      obtain ⟨front, back, hfront⟩ := List.append_of_mem ho
      have hne : o ≠ r := by
        intro heq
        rw [heq] at ho
        exact hnot ho
      have hplace : project.remappings = front ++ o :: (back ++ r :: after) := by
        rw [hsplit, hfront, List.append_assoc, List.cons_append]
      refine hnone (.inr ⟨front, o, _, hplace, happlies', hrank, hne, ?_⟩)
      intro hmem'
      apply hnot
      rw [hfront]
      exact List.mem_append_left _ hmem'
    · intro o ho happlies'
      apply hmax o _ happlies'
      rw [hsplit]
      exact List.mem_append_right _ (List.mem_cons_of_mem _ ho)

/-- A remapping with a shorter context is not used where one with a longer context applies. -/
theorem not_rewrites_of_shorter (hinner : inner ∈ project.remappings)
    (happlies : applies project importer specifier inner = true)
    (hshorter : outer.contextSize < inner.contextSize) :
    ¬ Rewrites project importer specifier outer := by
  intro hrewrites
  obtain ⟨-, -, hmax⟩ := rank_le_of_remapping? hrewrites.2
  have hlt : outer.rank < inner.rank := Prod.Lex.toLex_lt_toLex.2 (.inl hshorter)
  exact absurd (hmax inner hinner happlies) (not_le.2 hlt)

/-! ## Plain contexts -/

/-- A plain context that is seen from the project is spelled with its names. -/
theorem PlainContext.toList_eq {context : String} (h : PlainContext context)
    (hrelative : (Path.mk context).isAbsolute = false) :
    context.toList = Text.joinWith ['/'] ((Path.mk context).names.map String.toList) := by
  obtain ⟨hnormal, hup⟩ := h
  obtain ⟨base, names, heq, hbase, hroot, -⟩ := Path.normalParts_eq ⟨context⟩
  rw [← Path.parts_normalize, hnormal] at heq
  -- There is neither a root nor a climb below the names.
  have hempty : base = [] := by
    rcases hbase with rfl | ⟨count, rfl⟩
    · have habsolute := hroot.1 (List.mem_singleton_self _)
      rw [hrelative] at habsolute
      cases habsolute
    · cases count with
      | zero => rfl
      | succ count =>
        rw [heq] at hup
        exact absurd (List.mem_append_left _ (List.mem_cons_self ..)) hup
  rw [hempty, List.nil_append] at heq
  have hnames : (Path.mk context).names = names := by
    unfold Path.names
    rw [heq]
    exact Path.filterMap_name?_map names
  have hnoroot : names.map Path.Part.name ≠ [.root] := by
    intro hsame
    have hmem : Path.Part.root ∈ names.map Path.Part.name := by
      rw [hsame]
      exact List.mem_singleton_self _
    simp at hmem
  have htext := congrArg (fun p => p.text.toList) (Path.ofParts_parts hnormal)
  simp only [heq, Path.ofParts_eq hnoroot, String.toList_ofList] at htext
  rw [← htext, hnames, List.map_map]
  rfl

/-- The outer one of two contexts that are spelled alike is spelled like the start of the
    inner one. -/
theorem prefix_of_contains {context context' : String} (hroot : project.root.isAbsolute)
    (h : PlainContext context) (h' : PlainContext context')
    (hsame : (Path.mk context).isAbsolute = (Path.mk context').isAbsolute)
    (hcontains : (project.inRoot context').contains (project.inRoot context) = true) :
    context'.toList <+: context.toList := by
  cases habsolute : (Path.mk context).isAbsolute with
  | true =>
    rw [habsolute] at hsame
    have halone : ∀ text : String, PlainContext text → (Path.mk text).isAbsolute = true →
        project.inRoot text = ⟨text⟩ := by
      intro text hplain habsolute
      have hjoin : project.root.join ⟨text⟩ = ⟨text⟩ := if_pos habsolute
      show (project.root.join ⟨text⟩).normalize = ⟨text⟩
      rw [hjoin]
      exact hplain.1
    rw [halone context' h' hsame.symm, halone context h habsolute] at hcontains
    have htext := Path.normalize_isPrefix_of_contains hsame.symm hcontains
    rw [h.1, h'.1] at htext
    exact htext
  | false =>
    rw [habsolute] at hsame
    obtain ⟨names, hnormal, hnames⟩ := Path.normalize_of_isAbsolute hroot
    have hbelow : ∀ text : String, PlainContext text → (Path.mk text).isAbsolute = false →
        project.inRoot text = Path.ofNames (names ++ (Path.mk text).names) := by
      intro text hplain hrelative
      exact Path.normalize_join hroot hrelative hplain.2 hnormal hnames
    rw [hbelow context' h' hsame.symm, hbelow context h habsolute,
      Path.contains_ofNames_iff (Path.isName_append_names hnames _)
        (Path.isName_append_names hnames _), List.prefix_append_right_inj] at hcontains
    obtain ⟨more, hmore⟩ := hcontains
    rw [h.toList_eq habsolute, h'.toList_eq hsame.symm, ← hmore, List.map_append]
    exact Text.joinWith_isPrefix_append _ _ _

/-- Of contexts that are spelled alike the inner one is longer. -/
theorem contextSize_lt_of_spelledAlike (hroot : project.root.isAbsolute)
    (hinside : Inside project inner outer) (halike : SpelledAlike inner outer) :
    outer.contextSize < inner.contextSize := by
  obtain ⟨directory, hdirectory, haround⟩ := hinside
  obtain ⟨context, context', hcontext, hcontext', hplain, hplain', hsame⟩ := halike
  have hpath : project.contextPath? outer = some (project.inRoot context') := by
    rw [Project.contextPath?, hcontext', Option.map_some]
  obtain ⟨hcontains, hne⟩ := haround _ hpath
  rw [Project.contextPath?, hcontext, Option.map_some, Option.some.injEq] at hdirectory
  rw [← hdirectory] at hcontains hne
  obtain ⟨more, hmore⟩ := prefix_of_contains hroot hplain hplain' hsame hcontains
  have htext : context = context' ++ String.ofList more := by
    apply String.toList_injective
    rw [String.toList_append, String.toList_ofList]
    exact hmore.symm
  have hlonger : String.ofList more ≠ "" := by
    intro hempty
    rw [hempty, String.append_empty] at htext
    rw [htext] at hne
    exact hne rfl
  have hsize : (String.ofList more).utf8ByteSize ≠ 0 := by
    intro hzero
    exact hlonger (String.utf8ByteSize_eq_zero_iff.1 hzero)
  unfold Remapping.contextSize
  rw [hcontext, hcontext', Option.map_some, Option.map_some, Option.getD_some, Option.getD_some,
    htext, String.utf8ByteSize_append]
  omega

/-! ## The inner context -/

theorem contextSize_pos {context : String} (hcontext : r.context = some context)
    (hne : context ≠ "") : 0 < r.contextSize := by
  have hsize : context.utf8ByteSize ≠ 0 := by
    intro hzero
    exact hne (String.utf8ByteSize_eq_zero_iff.1 hzero)
  unfold Remapping.contextSize
  rw [hcontext, Option.map_some, Option.getD_some]
  omega

/-- **Specificity**: where two remappings apply and the context of one lies inside that of the
    other, the outer one is not used exactly if it is outranked as written, or the import is
    blank. So it is not used where its context is written shorter: if it has none, while the
    inner one is not written as nothing, or if both contexts are spelled plainly and from the
    same root. -/
theorem outer_unused_iff (hroot : project.root.isAbsolute)
    (hinner : inner ∈ project.remappings) (houter : outer ∈ project.remappings)
    (happlies : applies project importer specifier inner = true)
    (happlies' : applies project importer specifier outer = true)
    (hinside : Inside project inner outer) :
    (¬ Rewrites project importer specifier outer ↔
      Text.isBlankText specifier = true ∨ Outranked project importer specifier outer) ∧
    (outer.contextSize < inner.contextSize → ¬ Rewrites project importer specifier outer) ∧
    (outer.context = none → inner.context ≠ some "" →
      ¬ Rewrites project importer specifier outer) ∧
    (SpelledAlike inner outer → ¬ Rewrites project importer specifier outer) := by
  have hshorter : outer.contextSize < inner.contextSize →
      ¬ Rewrites project importer specifier outer := not_rewrites_of_shorter hinner happlies
  refine ⟨?_, hshorter, ?_, ?_⟩
  · unfold Rewrites
    rw [remapping?_eq_some_iff_not_outranked houter happlies', Bool.eq_false_iff, not_and_or,
      not_not, not_not]
  · intro hnone hwritten
    apply hshorter
    obtain ⟨directory, hdirectory, -⟩ := hinside
    obtain ⟨context, hcontext, -⟩ := Option.map_eq_some_iff.1 hdirectory
    have hzero : outer.contextSize = 0 := by
      unfold Remapping.contextSize
      rw [hnone]
      rfl
    rw [hzero]
    apply contextSize_pos hcontext
    intro hempty
    rw [hempty] at hcontext
    exact hwritten hcontext
  · intro halike
    exact hshorter (contextSize_lt_of_spelledAlike hroot hinside halike)

/-! ## Two spellings of the outer context -/

/-- A remapping for a directory inside of another one. -/
def deepTarget : Remapping :=
  { context := some "a/b", stem := "@x/", target := "deep/" }

/-- A remapping for the directory around it. -/
def wideTarget (context : String) : Remapping :=
  { context := some context, stem := "@x/", target := "wide/" }

/-- A project with both of them. -/
def nestedContexts (context : String) : Project :=
  { root := ⟨"/proj"⟩, remappings := [wideTarget context, deepTarget] }

theorem inside_nestedContexts {context : String}
    (h : (nestedContexts context).inRoot context = ⟨"/proj/a"⟩) :
    Inside (nestedContexts context) deepTarget (wideTarget context) := by
  have hdirectory : (nestedContexts context).contextPath? deepTarget = some ⟨"/proj/a/b"⟩ := by
    show some ((Path.mk "/proj").joinText "a/b").normalize = some ⟨"/proj/a/b"⟩
    decide +kernel
  refine ⟨⟨"/proj/a/b"⟩, hdirectory, ?_⟩
  intro around haround
  have hpath : some ((nestedContexts context).inRoot context) = some around := haround
  rw [h, Option.some.injEq] at hpath
  rw [← hpath]
  refine ⟨?_, ?_⟩
  · decide +kernel
  · decide +kernel

/-- Seen from the project, the outer context is written shorter, and the inner one is used. -/
theorem wide_unused_nestedContexts :
    applies (nestedContexts "a") ⟨"/proj/a/b/A.sol"⟩ "@x/X.sol" deepTarget = true ∧
    applies (nestedContexts "a") ⟨"/proj/a/b/A.sol"⟩ "@x/X.sol" (wideTarget "a") = true ∧
    Inside (nestedContexts "a") deepTarget (wideTarget "a") ∧
    SpelledAlike deepTarget (wideTarget "a") ∧
    ¬ Rewrites (nestedContexts "a") ⟨"/proj/a/b/A.sol"⟩ "@x/X.sol" (wideTarget "a") ∧
    resolve ({} : TextStore).reader (nestedContexts "a") ⟨"/proj/a/b/A.sol"⟩ "@x/X.sol" =
      .ok { path := ⟨"/proj/deep/X.sol"⟩, kind := .remapped } := by
  have happlies : applies (nestedContexts "a") ⟨"/proj/a/b/A.sol"⟩ "@x/X.sol" deepTarget =
      true := by decide +kernel
  have happlies' : applies (nestedContexts "a") ⟨"/proj/a/b/A.sol"⟩ "@x/X.sol" (wideTarget "a") =
      true := by decide +kernel
  have hinside : Inside (nestedContexts "a") deepTarget (wideTarget "a") :=
    inside_nestedContexts (by decide +kernel)
  have halike : SpelledAlike deepTarget (wideTarget "a") :=
    ⟨"a/b", "a", rfl, rfl, ⟨by decide +kernel, by decide +kernel⟩,
      ⟨by decide +kernel, by decide +kernel⟩, by decide +kernel⟩
  obtain ⟨-, -, -, hunused⟩ := outer_unused_iff (by decide +kernel)
    (List.mem_cons_of_mem _ (List.mem_singleton_self _)) (List.mem_cons_self ..) happlies
    happlies' hinside
  exact ⟨happlies, happlies', hinside, halike, hunused halike, by decide +kernel⟩

/-- Seen from the root of the file system, the outer context is written longer, and used. -/
theorem wide_used_nestedContexts :
    applies (nestedContexts "/proj/a") ⟨"/proj/a/b/A.sol"⟩ "@x/X.sol" deepTarget = true ∧
    applies (nestedContexts "/proj/a") ⟨"/proj/a/b/A.sol"⟩ "@x/X.sol" (wideTarget "/proj/a") =
      true ∧
    Inside (nestedContexts "/proj/a") deepTarget (wideTarget "/proj/a") ∧
    Rewrites (nestedContexts "/proj/a") ⟨"/proj/a/b/A.sol"⟩ "@x/X.sol" (wideTarget "/proj/a") ∧
    resolve ({} : TextStore).reader (nestedContexts "/proj/a") ⟨"/proj/a/b/A.sol"⟩ "@x/X.sol" =
      .ok { path := ⟨"/proj/wide/X.sol"⟩, kind := .remapped } := by
  refine ⟨?_, ?_, inside_nestedContexts (by decide +kernel), ⟨?_, ?_⟩, ?_⟩
  · decide +kernel
  · decide +kernel
  · decide +kernel
  · decide +kernel
  · decide +kernel

end SolidityBuild.Resolution
