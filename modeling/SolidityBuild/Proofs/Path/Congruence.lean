import Mathlib.Data.List.Induction
import SolidityBuild.Proofs.Path.Names

/-! # Congruence: joining and containment see normal forms only

    The parts of a path run over a stack, and what a climb does there depends on the top: it
    takes a name off, is lost at the root, and stays otherwise. What is left on the stack, run
    over any other stack, does the same as the parts themselves. So parts behind one another
    may be made normal in pieces, and a directory or what is seen from it may be replaced by
    its normal form.

    The parts that are left as they are turn out to be those without a `.`, without a climb
    out of a name, and without any climb from the root. Containment compares what is left, so
    it orders paths as far as their normal forms can tell them apart.
-/

namespace SolidityBuild.Path

variable {base base' child child' p q : Path} {parts : List Part}

/-! ## Running what is left of the parts -/

/-- A stack that is run over another one ends with its top. -/
theorem foldl_settle_cons (part : Part) (settled stack : List Part) :
    (part :: settled).reverse.foldl settle stack =
      settle (settled.reverse.foldl settle stack) part := by
  rw [List.reverse_cons, List.foldl_append]
  rfl

/-- It makes no difference whether a part is settled on a stack before or after that is run
    over another one. -/
theorem foldl_settle_settle (settled stack : List Part) (part : Part) :
    (settle settled part).reverse.foldl settle stack =
      settle (settled.reverse.foldl settle stack) part := by
  cases part with
  | here => rfl
  | root => exact foldl_settle_cons _ _ _
  | name segment => exact foldl_settle_cons _ _ _
  | up =>
    -- The climb is put on the stack, unless a name or the root is on top.
    cases settled with
    | nil => rfl
    | cons top below =>
      cases top with
      | name segment =>
        rw [foldl_settle_cons]
        rfl
      | root =>
        show (Part.root :: below).reverse.foldl settle stack = _
        rw [foldl_settle_cons]
        rfl
      | here => exact foldl_settle_cons _ _ _
      | up => exact foldl_settle_cons _ _ _

theorem foldl_settle_foldl (parts settled stack : List Part) :
    (parts.foldl settle settled).reverse.foldl settle stack =
      parts.foldl settle (settled.reverse.foldl settle stack) := by
  induction parts generalizing settled with
  | nil => rfl
  | cons part parts ih => rw [List.foldl_cons, ih, foldl_settle_settle, List.foldl_cons]

/-- **Running normal parts**: they do the same to every stack as the parts that they are the
    normal form of. -/
theorem foldl_settle_normalParts (parts stack : List Part) :
    (normalParts parts).foldl settle stack = parts.foldl settle stack :=
  foldl_settle_foldl parts [] stack

/-- Parts behind one another may be made normal in pieces. -/
theorem normalParts_append_normalParts (front behind : List Part) :
    normalParts (normalParts front ++ normalParts behind) = normalParts (front ++ behind) := by
  show ((normalParts front ++ normalParts behind).foldl settle []).reverse = _
  rw [List.foldl_append, foldl_settle_normalParts, foldl_settle_normalParts,
    ← List.foldl_append]
  rfl

/-! ## Joining -/

/-- Up to their normal form, the parts of what is seen from a directory are those of the
    directory and then its own. -/
theorem normalParts_join_eq (base : Path) (hchild : child.isAbsolute = false) :
    normalParts (base.join child).parts = normalParts (base.parts ++ child.parts) := by
  cases hbase : base.isAbsolute with
  | true =>
    rw [parts_join hbase hchild, ← normalParts_append_normalParts,
      ← normalParts_of_relative hchild, normalParts_append_normalParts]
  | false =>
    have hjoin := (isAbsolute_join_of_relative base hchild).trans hbase
    rw [normalParts_of_relative hjoin, filterMap_segments_join base hchild,
      ← normalParts_append_normalParts, ← normalParts_of_relative hbase,
      ← normalParts_of_relative hchild, normalParts_append_normalParts]

/-- Only the start of a spelling gives the root. -/
theorem isAbsolute_of_root_mem (h : .root ∈ p.parts) : p.isAbsolute = true := by
  rcases List.mem_append.1 h with hlead | hsegments
  · unfold lead at hlead
    unfold isAbsolute
    split at hlead
    · rename_i htext
      rw [htext]
      rfl
    all_goals simp at hlead
  · obtain ⟨cs, -, hcs⟩ := List.mem_filterMap.1 hsegments
    rcases eq_up_or_name hcs with hup | ⟨segment, hname⟩
    · cases hup
    · cases hname

theorem isAbsolute_iff_root_mem (p : Path) :
    p.isAbsolute = true ↔ .root ∈ normalParts p.parts := by
  obtain ⟨front, names, hparts, -, hroot, -⟩ := normalParts_eq p
  rw [hparts, ← hroot, List.mem_append]
  simp

/-- A path starts at the root exactly if its normal form does. -/
theorem isAbsolute_normalize_eq (p : Path) : p.normalize.isAbsolute = p.isAbsolute := by
  rw [Bool.eq_iff_iff, isAbsolute_iff_root_mem, isAbsolute_iff_root_mem, parts_normalize,
    (isNormal_normalParts p).normalParts_eq]

/-- **Joining normal forms**: both sides of a join may be replaced by their normal forms. -/
theorem normalize_join_normalize (base child : Path) :
    (base.normalize.join child.normalize).normalize = (base.join child).normalize := by
  cases hchild : child.isAbsolute with
  | true =>
    have hnormal := (isAbsolute_normalize_eq child).trans hchild
    have halone : base.join child = child := if_pos hchild
    have halone' : base.normalize.join child.normalize = child.normalize := if_pos hnormal
    rw [halone, halone', normalize_normalize]
  | false =>
    have hnormal := (isAbsolute_normalize_eq child).trans hchild
    rw [normalize_eq_iff, normalParts_join_eq _ hnormal, normalParts_join_eq _ hchild,
      parts_normalize, parts_normalize, normalParts_append_normalParts]

theorem normalize_join_congr (hbase : base.normalize = base'.normalize)
    (hchild : child.normalize = child'.normalize) :
    (base.join child).normalize = (base'.join child').normalize := by
  rw [← normalize_join_normalize base child, hbase, hchild, normalize_join_normalize]

/-! ## What is left as it is -/

/-- A path in which every `.` and every climb is resolved that can be. -/
structure Resolved (p : Path) : Prop where
  /-- there is no `.` -/
  here_not_mem : .here ∉ p.parts
  /-- nothing climbs out of a name -/
  name_not_mem : ∀ front behind, p.parts = front ++ .up :: behind →
    ∀ segment, .name segment ∉ front
  /-- nothing climbs at all from the root -/
  up_not_mem : p.isAbsolute = true → .up ∉ p.parts

/-- Parts without a `.` are left as they are when only climbs come before a climb. -/
theorem normalParts_eq_self (hhere : .here ∉ parts)
    (hup : ∀ front behind, parts = front ++ .up :: behind → ∀ part ∈ front, part = .up) :
    normalParts parts = parts := by
  induction parts using List.reverseRec with
  | nil => rfl
  | append_singleton front part ih =>
    have hfront : normalParts front = front := by
      apply ih
      · exact fun hmem => hhere (List.mem_append_left _ hmem)
      · intro before behind heq
        apply hup before (behind ++ [part])
        rw [heq, List.append_assoc, List.cons_append]
    have hstack : front.foldl settle [] = front.reverse := by
      rw [← hfront, foldl_settle_normalParts, normalParts, List.reverse_reverse]
    have hlast : settle front.reverse part = part :: front.reverse := by
      cases part with
      | root => rfl
      | name segment => rfl
      | here => exact absurd (List.mem_append_right _ (List.mem_singleton_self _)) hhere
      | up =>
        have hall : ∀ other ∈ front.reverse, other = .up :=
          fun other hother => hup front [] rfl other (List.mem_reverse.1 hother)
        cases htop : front.reverse with
        | nil => rfl
        | cons top below =>
          rw [hall top (by rw [htop]; exact List.mem_cons_self ..)]
          rfl
    rw [normalParts, List.foldl_append, hstack]
    show (settle front.reverse part).reverse = _
    rw [hlast, List.reverse_cons, List.reverse_reverse]

/-- In front of a climb that names follow there are only climbs. -/
theorem eq_up_of_replicate_append {front behind : List Part} {count : Nat} {names : List String}
    (h : List.replicate count .up ++ names.map .name = front ++ .up :: behind) :
    ∀ part ∈ front, part = .up := by
  rcases List.append_eq_append_iff.1 h with ⟨more, -, hnames⟩ | ⟨more, hclimbs, -⟩
  · -- The climb would be one of the names.
    have hmem : Part.up ∈ names.map Part.name := by
      rw [hnames]
      exact List.mem_append_right _ (List.mem_cons_self ..)
    simp at hmem
  · intro part hpart
    have hmem : part ∈ List.replicate count Part.up := by
      rw [hclimbs]
      exact List.mem_append_left _ hpart
    exact List.eq_of_mem_replicate hmem

theorem Resolved.normalParts_eq (h : Resolved p) : normalParts p.parts = p.parts := by
  apply normalParts_eq_self h.here_not_mem
  intro front behind heq part hpart
  have hmem : part ∈ p.parts := by
    rw [heq]
    exact List.mem_append_left _ hpart
  have hclimb : .up ∈ p.parts := by
    rw [heq]
    exact List.mem_append_right _ (List.mem_cons_self ..)
  cases part with
  | up => rfl
  | name segment => exact absurd hpart (h.name_not_mem front behind heq segment)
  | here => exact absurd hmem h.here_not_mem
  | root => exact absurd hclimb (h.up_not_mem (isAbsolute_of_root_mem hmem))

theorem resolved_of_normalParts_eq (h : normalParts p.parts = p.parts) : Resolved p := by
  obtain ⟨front, names, hparts, hbase, hroot, -⟩ := normalParts_eq p
  rw [h] at hparts
  rcases hbase with hfront | ⟨count, hfront⟩
  · -- From the root there are only names.
    have hup : .up ∉ p.parts := by
      rw [hparts, hfront]
      simp
    refine ⟨?_, ?_, fun _ => hup⟩
    · rw [hparts, hfront]
      simp
    · intro before behind heq
      apply absurd _ hup
      rw [heq]
      exact List.mem_append_right _ (List.mem_cons_self ..)
  · refine ⟨?_, ?_, ?_⟩
    · rw [hparts, hfront]
      simp [List.mem_replicate]
    · intro before behind heq segment hmem
      rw [hparts, hfront] at heq
      cases eq_up_of_replicate_append heq _ hmem
    · intro habsolute
      have hmem := hroot.2 habsolute
      rw [hfront] at hmem
      cases List.eq_of_mem_replicate hmem

theorem resolved_normalize (p : Path) : Resolved p.normalize := by
  apply resolved_of_normalParts_eq
  rw [parts_normalize, (isNormal_normalParts p).normalParts_eq]

/-- **What is left as it is**: to make a path normal keeps its parts exactly if everything in
    it is resolved. -/
theorem parts_normalize_eq_iff (p : Path) : p.normalize.parts = p.parts ↔ Resolved p := by
  rw [parts_normalize]
  exact ⟨resolved_of_normalParts_eq, Resolved.normalParts_eq⟩

/-! ## Spelling -/

theorem segments_ofParts (hne : parts ≠ []) (hroot : parts ≠ [.root])
    (h : ∀ part ∈ parts, '/' ∉ part.segment) :
    (ofParts parts).segments = parts.map Part.segment := by
  rw [ofParts_eq hroot, segments, String.toList_ofList]
  apply Text.pieces_joinWith
  · simpa using hne
  · intro cs hcs
    obtain ⟨part, hpart, rfl⟩ := List.mem_map.1 hcs
    exact h part hpart

theorem IsNormal.segment_of_mem {part : Part} (h : IsNormal parts) (hpart : part ∈ parts) :
    '/' ∉ part.segment ∧ part.segment ≠ ['.'] := by
  obtain ⟨front, names, rfl, hbase, hnames⟩ := h
  rcases List.mem_append.1 hpart with hfront | hname
  · rcases hbase with rfl | ⟨count, rfl⟩
    · rw [List.mem_singleton.1 hfront]
      decide
    · rw [List.eq_of_mem_replicate hfront]
      decide
  · obtain ⟨name, hmem, rfl⟩ := List.mem_map.1 hname
    obtain ⟨-, hhere, -, hslash⟩ := hnames name hmem
    exact ⟨hslash, fun heq => hhere (String.toList_injective heq)⟩

/-- Nothing between the slashes of a normal path is a `.`, so none is skipped when it is read. -/
theorem here_not_mem_segments (p : Path) : ['.'] ∉ p.normalize.segments := by
  have hnormal := isNormal_normalParts p
  unfold normalize
  by_cases hempty : normalParts p.parts = []
  · rw [hempty]
    decide
  by_cases hroot : normalParts p.parts = [.root]
  · rw [hroot]
    decide
  rw [segments_ofParts hempty hroot fun part hpart => (hnormal.segment_of_mem hpart).1,
    List.mem_map]
  rintro ⟨part, hpart, hsegment⟩
  exact (hnormal.segment_of_mem hpart).2 hsegment

/-! ## Containment -/

/-- Containment compares normal forms part by part. -/
theorem contains_iff (parent child : Path) :
    parent.contains child = true ↔ parent.normalize.parts <+: child.normalize.parts := by
  unfold contains
  rw [List.isPrefixOf_iff_prefix, parts_normalize, parts_normalize]

theorem contains_congr {parent parent' : Path} (hparent : parent.normalize = parent'.normalize)
    (hchild : child.normalize = child'.normalize) :
    parent.contains child = parent'.contains child' := by
  rw [Bool.eq_iff_iff, contains_iff, contains_iff, hparent, hchild]

theorem contains_self (p : Path) : p.contains p = true :=
  (contains_iff p p).2 (List.prefix_refl _)

/-- Paths that contain each other have the same normal form. -/
theorem contains_antisymm (h : p.contains q = true) (h' : q.contains p = true) :
    p.normalize = q.normalize := by
  rw [contains_iff] at h h'
  have hparts := h.eq_of_length (Nat.le_antisymm h.length_le h'.length_le)
  rw [parts_normalize, parts_normalize] at hparts
  exact normalize_eq_iff.2 hparts

/-! ## Congruence -/

/-- **Congruence**: a path may be made normal before or after something is seen from it, and a
    normal path stays as it is, starts at the root when the path did, and has everything
    resolved; nothing else is changed in a path. So containment depends on normal forms only,
    and orders them. -/
theorem normalize_congruence :
    (∀ base child : Path,
      (base.join child).normalize = (base.normalize.join child).normalize) ∧
    (∀ base base' child child' : Path, base.normalize = base'.normalize →
      child.normalize = child'.normalize →
        (base.join child).normalize = (base'.join child').normalize) ∧
    (∀ p : Path, p.normalize.normalize = p.normalize ∧
      p.normalize.isAbsolute = p.isAbsolute ∧ ['.'] ∉ p.normalize.segments ∧
      Resolved p.normalize ∧ (p.normalize.parts = p.parts ↔ Resolved p)) ∧
    (∀ parent child : Path,
      parent.contains child = true ↔ parent.normalize.parts <+: child.normalize.parts) ∧
    (∀ parent parent' child child' : Path, parent.normalize = parent'.normalize →
      child.normalize = child'.normalize →
        parent.contains child = parent'.contains child') ∧
    (∀ p : Path, p.contains p = true) ∧
    (∀ p q r : Path, p.contains q = true → q.contains r = true → p.contains r = true) ∧
    ∀ p q : Path, p.contains q = true → q.contains p = true → p.normalize = q.normalize := by
  refine ⟨?_, ?_, ?_, contains_iff, ?_, contains_self, ?_, ?_⟩
  · intro base child
    exact normalize_join_congr (normalize_normalize base).symm rfl
  · intro base base' child child' hbase hchild
    exact normalize_join_congr hbase hchild
  · intro p
    exact ⟨normalize_normalize p, isAbsolute_normalize_eq p, here_not_mem_segments p,
      resolved_normalize p, parts_normalize_eq_iff p⟩
  · intro parent parent' child child' hparent hchild
    exact contains_congr hparent hchild
  · intro p q r hpq hqr
    exact contains_trans hpq hqr
  · intro p q hpq hqp
    exact contains_antisymm hpq hqp

/-- A directory and what is seen from it, in two spellings each: they are joined alike, and
    each spelling of the directory contains the other one and what lies below it. -/
theorem respelled_joined_alike :
    (Path.normalize ⟨"/proj/./src/.."⟩ = Path.normalize ⟨"//proj/../proj/"⟩ ∧
      Path.normalize ⟨"../lib//A.sol"⟩ = Path.normalize ⟨"x/../.././lib/A.sol"⟩ ∧
      contains ⟨"/proj/./src/.."⟩ ⟨"//proj/../proj/"⟩ = true ∧
      contains ⟨"//proj/../proj/"⟩ ⟨"/proj/./src/.."⟩ = true ∧
      contains ⟨"//proj/../proj/"⟩ ⟨"/proj/src/../lib"⟩ = true) ∧
    (join ⟨"/proj/./src/.."⟩ ⟨"../lib//A.sol"⟩).normalize =
      (join ⟨"//proj/../proj/"⟩ ⟨"x/../.././lib/A.sol"⟩).normalize ∧
    contains ⟨"/proj/./src/.."⟩ ⟨"../lib//A.sol"⟩ =
      contains ⟨"//proj/../proj/"⟩ ⟨"x/../.././lib/A.sol"⟩ ∧
    contains ⟨"/proj/./src/.."⟩ ⟨"/proj/src/../lib"⟩ = true ∧
    Path.normalize ⟨"/proj/./src/.."⟩ = Path.normalize ⟨"//proj/../proj/"⟩ := by
  have hbase : Path.normalize ⟨"/proj/./src/.."⟩ = Path.normalize ⟨"//proj/../proj/"⟩ := by
    decide +kernel
  have hchild : Path.normalize ⟨"../lib//A.sol"⟩ = Path.normalize ⟨"x/../.././lib/A.sol"⟩ := by
    decide +kernel
  have hthere : contains ⟨"/proj/./src/.."⟩ ⟨"//proj/../proj/"⟩ = true := by
    decide +kernel
  have hback : contains ⟨"//proj/../proj/"⟩ ⟨"/proj/./src/.."⟩ = true := by
    decide +kernel
  have hbelow : contains ⟨"//proj/../proj/"⟩ ⟨"/proj/src/../lib"⟩ = true := by
    decide +kernel
  obtain ⟨-, hjoin, -, -, hcongr, -, htrans, hantisymm⟩ := normalize_congruence
  exact ⟨⟨hbase, hchild, hthere, hback, hbelow⟩, hjoin _ _ _ _ hbase hchild,
    hcongr _ _ _ _ hbase hchild, htrans _ _ _ hthere hbelow, hantisymm _ _ hthere hback⟩

end SolidityBuild.Path
