import SolidityBuild.Path.Lemmas

/-! # Joining: what a path is that was put together as text

    The parts of a text with a slash in the middle are those of both sides. So it makes no
    difference how many slashes stand between a directory and what is seen from it. What
    does not climb above its own start leaves the directory in front of it as it is.
-/

namespace SolidityBuild

namespace Path

/-- No further slash is needed after nothing and after a slash. -/
theorem getLast?_all_slash_iff {text : List Char} :
    text.getLast?.all (· = '/') = true ↔ text = [] ∨ ∃ front, text = front ++ ['/'] := by
  constructor
  · intro h
    cases hlast : text.getLast? with
    | none => exact .inl (List.getLast?_eq_none_iff.1 hlast)
    | some last =>
      rw [hlast, Option.all_some, decide_eq_true_iff] at h
      rw [h] at hlast
      exact .inr (List.getLast?_eq_some_iff.1 hlast)
  · rintro (rfl | ⟨front, rfl⟩)
    · rfl
    · simp

/-- What is seen from a directory has its segments behind those of the directory, where an
    empty one at the end is dropped. -/
theorem exists_segments_join (base : Path) {child : Path}
    (hchild : child.isAbsolute = false) :
    ∃ front, (base.join child).segments = front ++ child.segments ∧
      (base.segments = front ∨ base.segments = front ++ [[]]) := by
  unfold join
  rw [if_neg (by simp [hchild])]
  split
  · rename_i hlast
    rcases getLast?_all_slash_iff.1 hlast with hempty | ⟨front, hfront⟩
    · refine ⟨[], ?_, .inr ?_⟩
      · rw [segments, String.toList_append, hempty]
        rfl
      · rw [segments, hempty]
        rfl
    · refine ⟨Text.pieces '/' front, ?_, .inr ?_⟩
      · rw [segments, String.toList_append, hfront, List.append_assoc, List.singleton_append,
          Text.pieces_append]
        rfl
      · rw [segments, hfront, Text.pieces_append]
        rfl
  · refine ⟨base.segments, ?_, .inl rfl⟩
    rw [segments, String.toList_append, String.toList_append, List.append_assoc]
    exact Text.pieces_append '/' base.text.toList child.text.toList

/-- The parts of two spellings that start at the root, when their segments differ only in
    empty ones and `.`. -/
theorem parts_eq_of_segments {p q : Path} (hp : p.isAbsolute) (hq : q.isAbsolute)
    (h : p.segments.filterMap Part.ofSegment? = q.segments.filterMap Part.ofSegment?) :
    p.parts = q.parts := by
  rw [parts, parts, lead_of_isAbsolute hp, lead_of_isAbsolute hq, h]

theorem normalize_congr {p q : Path} (h : p.parts = q.parts) : p.normalize = q.normalize := by
  rw [normalize, normalize, h]

theorem isAbsolute_append {text : String} (h : (Path.mk text).isAbsolute) (more : String) :
    (Path.mk (text ++ more)).isAbsolute := by
  unfold isAbsolute at h ⊢
  cases ht : text.toList with
  | nil => simp [ht] at h
  | cons c cs =>
    rw [ht] at h
    rw [String.toList_append, ht]
    exact h

/-- One more slash after a text that ends with a slash changes no part. -/
theorem parts_append_slash {text : String} (habsolute : (Path.mk text).isAbsolute)
    (hslash : text.toList.getLast? = some '/') (more : String) :
    (Path.mk (text ++ "/" ++ more)).parts = (Path.mk (text ++ more)).parts := by
  obtain ⟨front, hfront⟩ := List.getLast?_eq_some_iff.1 hslash
  refine parts_eq_of_segments (isAbsolute_append (isAbsolute_append habsolute "/") more)
    (isAbsolute_append habsolute more) ?_
  have hdouble : (Path.mk (text ++ "/" ++ more)).segments =
      Text.pieces '/' front ++ [] :: Text.pieces '/' more.toList := by
    rw [segments, String.toList_append, String.toList_append, hfront]
    show Text.pieces '/' (front ++ ['/'] ++ ['/'] ++ more.toList) = _
    rw [List.append_assoc, List.append_assoc, List.singleton_append, Text.pieces_append]
    simp [Text.pieces]
  have hsingle : (Path.mk (text ++ more)).segments =
      Text.pieces '/' front ++ Text.pieces '/' more.toList := by
    rw [segments, String.toList_append, hfront, List.append_assoc, List.singleton_append,
      Text.pieces_append]
  rw [hdouble, hsingle, List.filterMap_append, List.filterMap_append]
  rfl

/-- **Joining**: what is seen from an absolute directory has the parts of the two texts with a
    slash between. -/
theorem parts_joinText {base : Path} {child : String} (hbase : base.isAbsolute)
    (hchild : (Path.mk child).isAbsolute = false) :
    (base.joinText child).parts = (Path.mk (base.text ++ "/" ++ child)).parts := by
  unfold joinText join
  rw [if_neg (by simp [hchild])]
  split
  · -- An absolute directory is not empty, so it ends with the slash itself.
    rename_i hlast
    cases ht : base.text.toList.getLast? with
    | none =>
      unfold isAbsolute at hbase
      rw [List.getLast?_eq_none_iff.1 ht] at hbase
      simp at hbase
    | some c =>
      rw [ht, Option.all_some, decide_eq_true_iff] at hlast
      rw [hlast] at ht
      exact (parts_append_slash hbase ht child).symm
  · rfl

theorem normalize_eq_iff {p q : Path} :
    p.normalize = q.normalize ↔ normalParts p.parts = normalParts q.parts := by
  constructor
  · intro h
    rw [← parts_normalize, ← parts_normalize, h]
  · intro h
    rw [normalize, normalize, h]

/-! ## Joining without climbing above the root -/

theorem joinWithin?_eq_some_iff {base child path : Path} :
    base.joinWithin? child = some path ↔
      path = (base.join child).normalize ∧
        ((base.join child).isAbsolute && climbsAbove (base.join child).parts) = false := by
  unfold joinWithin?
  cases hclimbs : (base.join child).isAbsolute && climbsAbove (base.join child).parts with
  | true => simp [hclimbs]
  | false => simp [hclimbs, eq_comm]

/-- Parts that never climb above their start only put names on a stack, whatever it holds. -/
theorem foldl_settle_of_not_climbs {parts : List Part}
    (hparts : ∀ part ∈ parts, part = .up ∨ ∃ segment, part = .name segment)
    (names : List String) (h : climbsAbove.go names.length parts = false) :
    ∃ settled : List String, ∀ base : List Part,
      parts.foldl settle (names.map .name ++ base) = settled.map .name ++ base := by
  -- The names are those put on the stack so far, so their number is the depth.
  induction parts generalizing names with
  | nil => exact ⟨names, fun base => rfl⟩
  | cons part parts ih =>
    have hrest : ∀ q ∈ parts, q = .up ∨ ∃ segment, q = .name segment :=
      fun q hq => hparts q (List.mem_cons_of_mem _ hq)
    rcases hparts part (List.mem_cons_self ..) with rfl | ⟨segment, rfl⟩
    · cases names with
      | nil => simp [climbsAbove.go] at h
      | cons top names =>
        simp only [climbsAbove.go, List.length_cons, Nat.add_sub_cancel, Bool.or_eq_false_iff] at h
        obtain ⟨settled, hsettled⟩ := ih hrest names h.2
        exact ⟨settled, hsettled⟩
    · obtain ⟨settled, hsettled⟩ := ih hrest (segment :: names) h
      exact ⟨settled, hsettled⟩

/-- What does not climb above the root adds its names to any directory in front of it. -/
theorem normalParts_append {text : String} {rest : Path} (htext : (Path.mk text).isAbsolute)
    (hrest : rest.isAbsolute) (hclimbs : climbsAbove rest.parts = false) :
    ∃ names : List String, normalParts rest.parts = .root :: names.map .name ∧
      normalParts (Path.mk (text ++ "/" ++ rest.text)).parts =
        normalParts (Path.mk text).parts ++ names.map .name := by
  have hparts : ∀ part ∈ rest.segments.filterMap Part.ofSegment?,
      part = .up ∨ ∃ segment, part = .name segment := by
    intro part hpart
    obtain ⟨cs, -, hcs⟩ := List.mem_filterMap.1 hpart
    exact eq_up_or_name hcs
  rw [parts, lead_of_isAbsolute hrest] at hclimbs
  obtain ⟨settled, hsettled⟩ := foldl_settle_of_not_climbs hparts [] hclimbs
  have hsegments : (Path.mk (text ++ "/" ++ rest.text)).segments =
      (Path.mk text).segments ++ rest.segments := by
    rw [segments, segments, segments, String.toList_append, String.toList_append,
      List.append_assoc]
    exact Text.pieces_append '/' text.toList rest.text.toList
  refine ⟨settled.reverse, ?_, ?_⟩
  · have hstack := hsettled [.root]
    rw [normalParts, parts, lead_of_isAbsolute hrest, List.foldl_append]
    change ((rest.segments.filterMap Part.ofSegment?).foldl settle [.root]).reverse = _
    rw [List.map_nil, List.nil_append] at hstack
    rw [hstack, List.reverse_append, List.map_reverse]
    rfl
  · have hstack := hsettled ((Path.mk text).parts.foldl settle [])
    rw [List.map_nil, List.nil_append] at hstack
    rw [normalParts, normalParts, parts,
      lead_of_isAbsolute (isAbsolute_append (isAbsolute_append htext "/") rest.text),
      ← lead_of_isAbsolute htext, hsegments, List.filterMap_append, ← List.append_assoc,
      List.foldl_append]
    change ((rest.segments.filterMap Part.ofSegment?).foldl settle
      ((Path.mk text).parts.foldl settle [])).reverse = _
    rw [hstack, List.reverse_append, List.map_reverse]

/-- Two directories with the same below them, which does not climb out, are one directory. -/
theorem normalize_append_eq_iff {text text' : String} {rest : Path}
    (htext : (Path.mk text).isAbsolute) (htext' : (Path.mk text').isAbsolute)
    (hrest : rest.isAbsolute) (hclimbs : climbsAbove rest.parts = false) :
    (Path.mk (text ++ "/" ++ rest.text)).normalize =
        (Path.mk (text' ++ "/" ++ rest.text)).normalize ↔
      (Path.mk text).normalize = (Path.mk text').normalize := by
  obtain ⟨names, hnames, happend⟩ := normalParts_append htext hrest hclimbs
  obtain ⟨names', hnames', happend'⟩ := normalParts_append htext' hrest hclimbs
  -- Both lists of names are those of the rest.
  rw [hnames, List.cons.injEq] at hnames'
  rw [normalize_eq_iff, normalize_eq_iff, happend, happend', ← hnames'.2]
  exact List.append_left_inj _

/-- Only below the root is a path what it would be without the directory in front of it. -/
theorem normalize_append_eq_self_iff {text : String} {rest : Path}
    (htext : (Path.mk text).isAbsolute) (hrest : rest.isAbsolute)
    (hclimbs : climbsAbove rest.parts = false) :
    (Path.mk (text ++ "/" ++ rest.text)).normalize = rest.normalize ↔
      (Path.mk text).normalize = ⟨"/"⟩ := by
  obtain ⟨names, hnames, happend⟩ := normalParts_append htext hrest hclimbs
  have hroot : Path.normalize ⟨"/"⟩ = ⟨"/"⟩ := by
    decide +kernel
  have hparts : normalParts (Path.mk "/").parts = [.root] := by
    decide +kernel
  rw [← hroot, normalize_eq_iff, normalize_eq_iff, happend, hnames, hparts,
    ← List.singleton_append]
  exact List.append_left_inj _

end Path

end SolidityBuild
