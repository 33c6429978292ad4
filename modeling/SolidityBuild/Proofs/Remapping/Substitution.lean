import SolidityBuild.Proofs.Path.Attaching
import SolidityBuild.Proofs.Remapping.Entry
import SolidityBuild.Proofs.Resolution.Rules

/-! # Substitution: the target before and after it is made absolute

    For the stem of an import the resolver puts the target as it is written, and makes the
    whole absolute and normal. The compiler gets a target that is absolute and normal already,
    and puts that for the stem, as text. What follows the stem goes on with the target up to
    the first slash, unless the target is followed by a slash itself. So the two come to the
    same path if the written target ends with the same name as the normal one.
-/

namespace SolidityBuild.Resolution

open SolidityBuild.Path (inner climbs Apart)
open Project (endsWithSlash)

/-- The path that the compiler looks up for an import that goes on with `suffix`: it puts the
    emitted target for the stem. -/
def substituted (project : Project) (r : Remapping) (suffix : String) : Path :=
  Path.normalize ⟨(project.absolute r).target ++ suffix⟩

/-- Whether the target is followed by a slash, its own one or that of the stem. -/
def closed (r : Remapping) : Bool :=
  endsWithSlash r.target || endsWithSlash r.stem

/-- What goes on with the last segment of the target: nothing behind a slash, and all up to
    the next slash otherwise. -/
def attached (r : Remapping) (suffix : String) : String :=
  if closed r then "" else String.ofList (suffix.toList.takeWhile (· ≠ '/'))

/-- What follows that. -/
def beyond (r : Remapping) (suffix : String) : String :=
  if closed r then suffix else String.ofList (suffix.toList.dropWhile (· ≠ '/'))

/-- The written target with what goes on with it, made absolute and normal. -/
def writtenStart (project : Project) (r : Remapping) (suffix : String) : Path :=
  (project.root.joinText (r.target ++ attached r suffix)).normalize

/-- The emitted target with what goes on with it, made normal. -/
def emittedStart (project : Project) (r : Remapping) (suffix : String) : Path :=
  Path.normalize ⟨(project.targetPath r).forward ++ attached r suffix⟩

/-- Both targets end with what `suffix` goes on with: it goes on with none of them, the written
    one ends with a name, or it is empty and the emitted one is the root. -/
def Faithful (project : Project) (r : Remapping) (suffix : String) : Prop :=
  attached r suffix = "" ∨
    (∃ name, Path.Part.ofSegment? (Path.lastSegment r.target) = some (.name name)) ∨
    r.target = "" ∧ project.targetPath r = ⟨"/"⟩

variable {reader : SourceReader} {project : Project} {importer : Path} {r : Remapping}
  {suffix : String} {resolution : Resolution}

/-! ## What goes on with the target -/

theorem attached_append_beyond (r : Remapping) (suffix : String) :
    attached r suffix ++ beyond r suffix = suffix := by
  unfold attached beyond
  by_cases hclosed : closed r = true
  · rw [if_pos hclosed, if_pos hclosed, String.empty_append]
  · rw [if_neg hclosed, if_neg hclosed]
    apply String.toList_injective
    rw [String.toList_append, String.toList_ofList, String.toList_ofList,
      List.takeWhile_append_dropWhile]

theorem slash_not_mem_attached (r : Remapping) (suffix : String) :
    '/' ∉ (attached r suffix).toList := by
  unfold attached
  by_cases hclosed : closed r = true
  · rw [if_pos hclosed]
    exact List.not_mem_nil
  · rw [if_neg hclosed, String.toList_ofList]
    intro hslash
    simpa using List.mem_takeWhile_imp hslash

/-- What follows starts with a slash, unless the target ended with one. -/
theorem apart_beyond {text : String} (hclosed : closed r = true → text.toList.getLast? = some '/') :
    Apart (text ++ attached r suffix) (beyond r suffix) := by
  unfold attached beyond
  by_cases h : closed r = true
  · rw [if_pos h, if_pos h, String.append_empty]
    exact .inl (hclosed h)
  · rw [if_neg h, if_neg h]
    right
    cases hrest : suffix.toList.dropWhile (· ≠ '/') with
    | nil => exact .inl rfl
    | cons c cs =>
      right
      have hne : suffix.toList.dropWhile (· ≠ '/') ≠ [] := by
        rw [hrest]
        exact List.cons_ne_nil _ _
      have hc := List.head_dropWhile_not _ hne
      simp only [hrest, List.head_cons] at hc
      simpa using hc

theorem suffix?_append (r : Remapping) (suffix : String) :
    r.suffix? (r.stem ++ suffix) = some suffix := by
  unfold Remapping.suffix?
  rw [String.toList_append, if_pos (List.isPrefixOf_iff_prefix.2 (List.prefix_append _ _)),
    List.drop_left, String.ofList_toList]

/-! ## The resolver's side -/

/-- A stem that is replaced by a directory has nothing going on with the target. -/
theorem attached_eq_of_directory (h : endsWithSlash r.stem = true ∨ suffix = "" ∨
    suffix.toList.head? = some '/') : attached r suffix = "" ∧ beyond r suffix = suffix := by
  have hnone : attached r suffix = "" := by
    unfold attached
    rcases h with hstem | hempty | hhead
    · have hclosed : closed r = true := by
        unfold closed
        rw [hstem, Bool.or_true]
      rw [if_pos hclosed]
    · rw [hempty]
      split <;> rfl
    · obtain ⟨rest, hrest⟩ := List.head?_eq_some_iff.1 hhead
      rw [hrest, List.takeWhile_cons_of_neg (by simp)]
      split <;> rfl
  refine ⟨hnone, ?_⟩
  have happend := attached_append_beyond r suffix
  rw [hnone, String.empty_append] at happend
  exact happend

/-- Where the stem is replaced as text, something stands in front of what follows. -/
theorem append_attached_ne_empty
    (hclosed : closed r = true → r.target.toList.getLast? = some '/') (hempty : suffix ≠ "")
    (hhead : suffix.toList.head? ≠ some '/') : r.target ++ attached r suffix ≠ "" := by
  intro heq
  -- Nothing would go on with nothing, so the rest would be empty or start with a slash.
  have hapart : Apart (r.target ++ attached r suffix) (beyond r suffix) := apart_beyond hclosed
  have happend := attached_append_beyond r suffix
  rw [(String.append_eq_empty_iff.1 heq).2, String.empty_append] at happend
  rw [heq, happend] at hapart
  rcases hapart with hlast | hnone | hslash
  · cases hlast
  · exact hempty hnone
  · exact hhead hslash

/-- What the resolver makes absolute adds its parts to those of the target with what goes on
    with it. -/
theorem parts_replaced (hroot : project.root.isAbsolute) (r : Remapping) (suffix : String) :
    (project.root.join (replaced r (r.stem ++ suffix))).parts =
      (project.root.joinText (r.target ++ attached r suffix)).parts ++
        inner (beyond r suffix) := by
  unfold replaced
  rw [suffix?_append, Option.getD_some]
  by_cases hdirectory : endsWithSlash r.stem = true ∨ suffix = "" ∨
      suffix.toList.head? = some '/'
  · obtain ⟨hnone, hall⟩ := attached_eq_of_directory hdirectory
    have hcond : (endsWithSlash r.stem || suffix.toList.isEmpty ||
        suffix.toList.head? = some '/') = true := by
      simpa [or_assoc] using hdirectory
    have hrelative := Path.isAbsolute_dropWhile_slash suffix.toList
    rw [if_pos hcond, hnone, hall, String.append_empty]
    show (project.root.join ((Path.mk r.target).join
      ⟨String.ofList (suffix.toList.dropWhile (· = '/'))⟩)).parts = _
    rw [Path.parts_join_join hroot hrelative,
      Path.parts_join (Path.isAbsolute_join hroot _) hrelative]
    have hslashes := Path.inner_dropWhile_slash suffix.toList
    rw [String.ofList_toList] at hslashes
    rw [← hslashes]
    rfl
  · have hcond : ¬ (endsWithSlash r.stem || suffix.toList.isEmpty ||
        suffix.toList.head? = some '/') = true := by
      simpa [or_assoc] using hdirectory
    rw [not_or, not_or] at hdirectory
    obtain ⟨hstem, hempty, hhead⟩ := hdirectory
    have hclosed : closed r = true → r.target.toList.getLast? = some '/' := by
      intro hclosed
      unfold closed at hclosed
      rw [Bool.or_eq_true] at hclosed
      exact of_decide_eq_true (hclosed.resolve_right hstem)
    have hapart : Apart (r.target ++ attached r suffix) (beyond r suffix) := apart_beyond hclosed
    have hne := append_attached_ne_empty hclosed hempty hhead
    have hsplit : r.target ++ suffix = r.target ++ attached r suffix ++ beyond r suffix := by
      rw [String.append_assoc, attached_append_beyond]
    rw [if_neg hcond, String.ofList_toList, hsplit]
    exact Path.parts_joinText_append hroot hne hapart

/-! ## The compiler's side -/

theorem isAbsolute_targetPath (hroot : project.root.isAbsolute) (r : Remapping) :
    (project.targetPath r).isAbsolute :=
  Path.isAbsolute_normalize (Path.isAbsolute_join hroot _)

theorem isAbsolute_forward {p : Path} (h : p.isAbsolute) : (Path.mk p.forward).isAbsolute := by
  unfold Path.isAbsolute at h ⊢
  rw [Path.toList_forward, List.head?_map, of_decide_eq_true h]
  rfl

theorem isAbsolute_emitted (hroot : project.root.isAbsolute) (r : Remapping) :
    (Path.mk (project.absolute r).target).isAbsolute := by
  have habsolute := isAbsolute_forward (isAbsolute_targetPath hroot r)
  unfold Project.absolute
  dsimp only
  split
  · exact Path.isAbsolute_append habsolute "/"
  · exact habsolute

/-- What the compiler puts together adds the same parts to those of the emitted target with
    what goes on with it. -/
theorem parts_substituted (hroot : project.root.isAbsolute) (r : Remapping) (suffix : String) :
    (Path.mk ((project.absolute r).target ++ suffix)).parts =
      (Path.mk ((project.targetPath r).forward ++ attached r suffix)).parts ++
        inner (beyond r suffix) := by
  have habsolute := isAbsolute_forward (isAbsolute_targetPath hroot r)
  have htarget : (project.absolute r).target =
      if (closed r && !endsWithSlash (project.targetPath r).forward) = true
      then (project.targetPath r).forward ++ "/" else (project.targetPath r).forward := rfl
  rw [Path.parts_eq_inner (Path.isAbsolute_append (isAbsolute_emitted hroot r) suffix),
    Path.parts_eq_inner (Path.isAbsolute_append habsolute _), List.cons_append]
  congr 1
  show inner ((project.absolute r).target ++ suffix) =
    inner ((project.targetPath r).forward ++ attached r suffix) ++ inner (beyond r suffix)
  by_cases hclosed : closed r = true
  · have hattached : attached r suffix = "" := if_pos hclosed
    have hbeyond : beyond r suffix = suffix := if_pos hclosed
    rw [hattached, hbeyond, String.append_empty, htarget, hclosed, Bool.true_and]
    cases hslash : endsWithSlash (project.targetPath r).forward with
    | true =>
      have hlast : (project.targetPath r).forward.toList.getLast? = some '/' :=
        of_decide_eq_true hslash
      rw [Bool.not_true, if_neg Bool.false_ne_true]
      exact Path.inner_append (.inl hlast)
    | false =>
      -- The slash that is added stands for no part.
      have hlast : ((project.targetPath r).forward ++ "/").toList.getLast? = some '/' := by
        simp [String.toList_append]
      have hadded : inner "/" = [] := by
        decide
      rw [Bool.not_false, if_pos rfl, Path.inner_append (.inl hlast),
        Path.inner_append (.inr (.inr rfl)), hadded, List.append_nil]
  · have hsame : (project.absolute r).target = (project.targetPath r).forward := by
      rw [htarget, Bool.eq_false_iff.2 hclosed, Bool.false_and, if_neg Bool.false_ne_true]
    have hsplit : (project.targetPath r).forward ++ suffix =
        (project.targetPath r).forward ++ attached r suffix ++ beyond r suffix := by
      rw [String.append_assoc, attached_append_beyond]
    rw [hsame, hsplit]
    exact Path.inner_append (apart_beyond fun h => absurd h hclosed)

/-! ## Agreement -/

/-- Nothing of a target that is emitted as it is tells the two starts apart, exactly if the
    target is faithful. -/
theorem start_eq_iff_faithful (hroot : project.root.isAbsolute)
    (hplain : '\\' ∉ (project.targetPath r).text.toList)
    (hclimbs : Path.climbsAbove (project.root.joinText (r.target ++ attached r suffix)).parts =
      false) :
    writtenStart project r suffix = emittedStart project r suffix ↔
      Faithful project r suffix := by
  unfold writtenStart emittedStart Faithful
  rw [Path.forward_of_not_mem hplain]
  by_cases hnone : attached r suffix = ""
  · rw [hnone, String.append_empty, String.append_empty]
    exact iff_of_true (Path.normalize_normalize _).symm (.inl rfl)
  · have hopen : r.target.toList.getLast? ≠ some '/' := by
      intro hlast
      have hclosed : closed r = true := by
        unfold closed endsWithSlash
        rw [hlast, decide_eq_true rfl, Bool.true_or]
      exact hnone (if_pos hclosed)
    refine (Path.attach_eq_iff hroot (slash_not_mem_attached r suffix) hnone hopen hclimbs).trans ?_
    rw [or_iff_right hnone]
    rfl

/-- Where a remapping is applied, the import leads to what replaces its stem. -/
theorem within_of_resolve {specifier : String}
    (hr : remapping? project importer specifier = some r)
    (hresolve : resolve reader project importer specifier = .ok resolution) :
    within project.root (replaced r specifier) specifier = .ok resolution.path := by
  cases answered_of_resolve hresolve with
  | remapped r' _ hr' hpath =>
    obtain rfl := Option.some.inj (hr.symm.trans hr')
    exact hpath
  | relative _ _ hnone => cases hr.symm.trans hnone
  | absolute _ hnone => cases hr.symm.trans hnone
  | package _ hnone => cases hr.symm.trans hnone

/-- **Substitution**: for an import that the resolver remaps, the emitted target leads the
    compiler to the same path exactly if the two targets, each with what goes on with it up to
    the next slash, differ in no more names than the rest of the import climbs out of. Where
    the target is emitted as it is, without backslashes, it is enough that it is faithful;
    and this is needed as well, if the rest climbs out of nothing. -/
theorem substituted_eq_iff (hroot : project.root.isAbsolute)
    (hr : remapping? project importer (r.stem ++ suffix) = some r)
    (hresolve : resolve reader project importer (r.stem ++ suffix) = .ok resolution) :
    (project.absolute r).written ∈ project.compilerRemappings ∧
    (substituted project r suffix = resolution.path ↔
      (writtenStart project r suffix).names.rdrop (climbs (inner (beyond r suffix))) =
        (emittedStart project r suffix).names.rdrop (climbs (inner (beyond r suffix)))) ∧
    ('\\' ∉ (project.targetPath r).text.toList →
      (Faithful project r suffix → substituted project r suffix = resolution.path) ∧
      (climbs (inner (beyond r suffix)) = 0 → substituted project r suffix = resolution.path →
        Faithful project r suffix)) := by
  obtain ⟨hpath, hclimbs⟩ :=
    Path.joinWithin?_eq_some_iff.1 (within_eq_ok_iff.1 (within_of_resolve hr hresolve))
  rw [Path.isAbsolute_join hroot, Bool.true_and, parts_replaced hroot] at hclimbs
  have hforward := isAbsolute_forward (isAbsolute_targetPath hroot r)
  have hwritten : (project.root.joinText (r.target ++ attached r suffix)).isAbsolute :=
    Path.isAbsolute_join hroot _
  have hemitted := Path.isAbsolute_append hforward (attached r suffix)
  have hagree : substituted project r suffix = resolution.path ↔
      (writtenStart project r suffix).names.rdrop (climbs (inner (beyond r suffix))) =
        (emittedStart project r suffix).names.rdrop (climbs (inner (beyond r suffix))) := by
    rw [hpath, eq_comm]
    exact Path.normalize_eq_iff_rdrop hwritten hemitted (Path.isAbsolute_join hroot _)
      (Path.isAbsolute_append (isAbsolute_emitted hroot r) suffix)
      (parts_replaced hroot r suffix) (parts_substituted hroot r suffix)
  refine ⟨?_, hagree, ?_⟩
  · rw [project.compilerRemappings_eq]
    obtain ⟨hmem, -⟩ := rank_le_of_remapping? hr
    exact List.mem_map_of_mem (List.mem_append_left _ (List.mem_map_of_mem hmem))
  · intro hplain
    have hfaithful := start_eq_iff_faithful hroot hplain (Path.climbsAbove_go_of_append 0 hclimbs)
    rw [hagree, ← hfaithful]
    refine ⟨?_, ?_⟩
    · intro heq
      rw [heq]
    · intro hnone hnames
      rw [hnone, List.rdrop_zero, List.rdrop_zero] at hnames
      exact (Path.normalize_eq_iff_names hwritten hemitted).2 hnames

/-! ## A name and no name in front of the rest -/

/-- A remapping without slashes, to a target that ends with a name. -/
def namedTarget : Remapping :=
  { stem := "@oz", target := "lib/oz" }

/-- A remapping without slashes, to the project itself. -/
def emptyTarget : Remapping :=
  { stem := "@", target := "" }

/-- A project with one remapping. -/
def remappedBy (r : Remapping) : Project :=
  { root := ⟨"/proj"⟩, remappings := [r] }

/-- The rest of an import goes on with the name that the target ends with. -/
theorem substituted_namedTarget :
    remapping? (remappedBy namedTarget) ⟨"/proj/A.sol"⟩ (namedTarget.stem ++ "-v4/X.sol") =
      some namedTarget ∧
    resolve ({} : TextStore).reader (remappedBy namedTarget) ⟨"/proj/A.sol"⟩
        (namedTarget.stem ++ "-v4/X.sol") =
      .ok { path := ⟨"/proj/lib/oz-v4/X.sol"⟩, kind := .remapped } ∧
    (namedTarget.stem ++ "-v4/X.sol" = "@oz-v4/X.sol" ∧
      Faithful (remappedBy namedTarget) namedTarget "-v4/X.sol") ∧
    substituted (remappedBy namedTarget) namedTarget "-v4/X.sol" =
      ⟨"/proj/lib/oz-v4/X.sol"⟩ := by
  have hr : remapping? (remappedBy namedTarget) ⟨"/proj/A.sol"⟩
      (namedTarget.stem ++ "-v4/X.sol") = some namedTarget := by decide +kernel
  have hresolve : resolve ({} : TextStore).reader (remappedBy namedTarget) ⟨"/proj/A.sol"⟩
      (namedTarget.stem ++ "-v4/X.sol") =
        .ok { path := ⟨"/proj/lib/oz-v4/X.sol"⟩, kind := .remapped } := by decide +kernel
  have hfaithful : Faithful (remappedBy namedTarget) namedTarget "-v4/X.sol" :=
    .inr (.inl ⟨"oz", by decide +kernel⟩)
  obtain ⟨-, -, hplain⟩ := substituted_eq_iff (by decide +kernel) hr hresolve
  exact ⟨hr, hresolve, ⟨by decide +kernel, hfaithful⟩, (hplain (by decide +kernel)).1 hfaithful⟩

/-- An empty target puts a directory in front of the rest for the resolver, and goes on with
    the name of the project for the compiler. -/
theorem substituted_emptyTarget :
    remapping? (remappedBy emptyTarget) ⟨"/proj/A.sol"⟩ "@foo/X.sol" = some emptyTarget ∧
    resolve ({} : TextStore).reader (remappedBy emptyTarget) ⟨"/proj/A.sol"⟩ "@foo/X.sol" =
      .ok { path := ⟨"/proj/foo/X.sol"⟩, kind := .remapped } ∧
    (remappedBy emptyTarget).compilerRemappings = ["@=/proj"] ∧
    substituted (remappedBy emptyTarget) emptyTarget "foo/X.sol" = ⟨"/projfoo/X.sol"⟩ := by
  refine ⟨?_, ?_, ?_, ?_⟩
  · decide +kernel
  · decide +kernel
  · decide +kernel
  · decide +kernel

end SolidityBuild.Resolution
