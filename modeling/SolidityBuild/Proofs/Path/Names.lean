import SolidityBuild.Proofs.Path.Containment
import SolidityBuild.Proofs.Path.Joining

/-! # Names of a path: what it enters on its way

    The names of a path are those among its parts. A path from the root through names is
    determined by them. What is seen from a directory, and does not climb, has its names
    behind those of the directory, also after both are made absolute and normal.
-/

namespace SolidityBuild.Path

variable {base child p : Path}

/-! ## Names -/

/-- The name that a part is, if it is one. -/
def Part.name? : Part → Option String
  | .name segment => some segment
  | _ => none

/-- The names among the parts of a path. -/
def names (p : Path) : List String :=
  p.parts.filterMap Part.name?

theorem filterMap_name?_map (names : List String) :
    (names.map Part.name).filterMap Part.name? = names := by
  rw [List.filterMap_map]
  exact List.filterMap_some

/-- How a path starts is no name. -/
theorem names_eq (p : Path) :
    p.names = (p.segments.filterMap Part.ofSegment?).filterMap Part.name? := by
  have hlead : p.lead.filterMap Part.name? = [] := by
    unfold lead
    split <;> rfl
  unfold Path.names parts
  rw [List.filterMap_append, hlead, List.nil_append]

theorem parts_ofNames {names : List String} (h : ∀ name ∈ names, IsName name) :
    (ofNames names).parts = .root :: names.map .name := by
  have hnormal : IsNormal (.root :: names.map .name) := ⟨[.root], names, rfl, .inl rfl, h⟩
  exact hnormal.parts_ofParts

theorem names_ofNames {names : List String} (h : ∀ name ∈ names, IsName name) :
    (ofNames names).names = names := by
  unfold Path.names
  rw [parts_ofNames h]
  exact filterMap_name?_map names

/-- A path from the root through names determines them. -/
theorem ofNames_inj {names names' : List String} (h : ∀ name ∈ names, IsName name)
    (h' : ∀ name ∈ names', IsName name) : ofNames names = ofNames names' ↔ names = names' := by
  constructor
  · intro heq
    rw [← names_ofNames h, ← names_ofNames h', heq]
  · intro heq
    rw [heq]

theorem isName_of_mem_names {name : String} (h : name ∈ p.names) : IsName name := by
  obtain ⟨part, hpart, hname⟩ := List.mem_filterMap.1 h
  cases part with
  | name segment =>
    cases hname
    exact isName_of_mem_parts hpart
  | root => cases hname
  | here => cases hname
  | up => cases hname

theorem isName_append_names {names : List String} (h : ∀ name ∈ names, IsName name) (p : Path) :
    ∀ name ∈ names ++ p.names, IsName name := by
  intro name hname
  rcases List.mem_append.1 hname with hfront | hbehind
  · exact h name hfront
  · exact isName_of_mem_names hbehind

/-- A path climbs exactly if one of its segments is written as `..`. -/
theorem up_mem_parts_iff (p : Path) : .up ∈ p.parts ↔ ['.', '.'] ∈ p.segments := by
  have hlead : .up ∉ p.lead := by
    unfold lead
    split <;> simp
  unfold parts
  rw [List.mem_append, or_iff_right hlead, List.mem_filterMap]
  constructor
  · intro ⟨segment, hsegment, hup⟩
    unfold Part.ofSegment? at hup
    split at hup
    · cases hup
    · cases hup
    · exact hsegment
    · cases hup
  · intro hsegment
    exact ⟨_, hsegment, rfl⟩

/-- What does not climb has its names as its parts, apart from how it starts. -/
theorem map_names (hup : .up ∉ p.parts) :
    p.names.map .name = p.segments.filterMap Part.ofSegment? := by
  have hparts : ∀ part ∈ p.segments.filterMap Part.ofSegment?,
      ∃ segment, part = .name segment := by
    intro part hpart
    obtain ⟨cs, -, hcs⟩ := List.mem_filterMap.1 hpart
    apply (eq_up_or_name hcs).resolve_left
    rintro rfl
    exact hup (List.mem_append_right _ hpart)
  rw [names_eq]
  generalize p.segments.filterMap Part.ofSegment? = ps at hparts
  induction ps with
  | nil => rfl
  | cons part ps ih =>
    obtain ⟨segment, rfl⟩ := hparts part (List.mem_cons_self ..)
    have hrest := ih fun q hq => hparts q (List.mem_cons_of_mem _ hq)
    show Part.name segment :: (ps.filterMap Part.name?).map .name = _
    rw [hrest]

/-- A directory contains what its names lead on to. -/
theorem contains_ofNames_iff {names names' : List String} (h : ∀ name ∈ names, IsName name)
    (h' : ∀ name ∈ names', IsName name) :
    (ofNames names).contains (ofNames names') = true ↔ names <+: names' := by
  have hnormal : ∀ {names : List String}, (∀ name ∈ names, IsName name) →
      normalParts (ofNames names).parts = .root :: names.map .name := by
    intro names h
    rw [← parts_normalize, normalize_ofNames h, parts_ofNames h]
  unfold contains
  rw [List.isPrefixOf_iff_prefix, hnormal h, hnormal h', List.cons_prefix_cons,
    List.prefix_map_iff_of_injective fun _ _ => Part.name.inj]
  exact and_iff_right rfl

/-! ## Joining -/

theorem filterMap_segments_join (base : Path) (hchild : child.isAbsolute = false) :
    (base.join child).segments.filterMap Part.ofSegment? =
      base.segments.filterMap Part.ofSegment? ++ child.segments.filterMap Part.ofSegment? := by
  obtain ⟨front, hjoin, hbase | hbase⟩ := exists_segments_join base hchild
  · rw [hjoin, hbase, List.filterMap_append]
  · rw [hjoin, hbase, List.filterMap_append, List.filterMap_append]
    simp [Part.ofSegment?]

/-- What is seen from a directory starts at the root if the directory does. -/
theorem isAbsolute_join_of_relative (base : Path) (hchild : child.isAbsolute = false) :
    (base.join child).isAbsolute = base.isAbsolute := by
  unfold join
  rw [if_neg (by simp [hchild])]
  unfold isAbsolute at hchild ⊢
  cases hbase : base.text.toList with
  | nil => simpa [hbase] using hchild
  | cons c cs => split <;> simp [hbase]

theorem parts_join (hbase : base.isAbsolute) (hchild : child.isAbsolute = false) :
    (base.join child).parts = base.parts ++ child.segments.filterMap Part.ofSegment? := by
  have hjoin : (base.join child).isAbsolute := by
    rw [isAbsolute_join_of_relative base hchild]
    exact hbase
  rw [parts, parts, lead_of_isAbsolute hjoin, lead_of_isAbsolute hbase,
    filterMap_segments_join base hchild, List.append_assoc]

/-- It makes no difference whether a directory is made absolute before or after something is
    seen from it. -/
theorem parts_join_join {root : Path} (hbase : base.isAbsolute)
    (hchild : child.isAbsolute = false) :
    (base.join (root.join child)).parts = ((base.join root).join child).parts := by
  have hjoin := isAbsolute_join_of_relative root hchild
  cases hroot : root.isAbsolute with
  | true =>
    rw [hroot] at hjoin
    have hleft : base.join (root.join child) = root.join child := if_pos hjoin
    have hright : base.join root = root := if_pos hroot
    rw [hleft, hright]
  | false =>
    rw [hroot] at hjoin
    rw [parts_join hbase hjoin, parts_join (isAbsolute_join hbase root) hchild,
      parts_join hbase hroot, filterMap_segments_join root hchild, List.append_assoc]

/-- What does not climb adds its names to the normal parts of the directory. -/
theorem normalParts_join (hbase : base.isAbsolute) (hchild : child.isAbsolute = false)
    (hup : .up ∉ child.parts) :
    normalParts (base.join child).parts = normalParts base.parts ++ child.names.map .name := by
  rw [parts_join hbase hchild, ← map_names hup]
  unfold normalParts
  rw [List.foldl_append, foldl_settle_names, List.reverse_append, List.reverse_reverse]

/-- A leading `.` is no normal part, so those of a relative path come from its segments. -/
theorem normalParts_of_relative (h : p.isAbsolute = false) :
    normalParts p.parts = normalParts (p.segments.filterMap Part.ofSegment?) := by
  have hlead : p.lead.foldl settle [] = [] := by
    unfold isAbsolute at h
    unfold lead
    split
    · rename_i htext
      simp [htext] at h
    · rfl
    · rfl
    · rfl
  unfold normalParts parts
  rw [List.foldl_append, hlead]

/-- The same for what is seen from a directory that may be relative itself. -/
theorem normalParts_join_names (base : Path) (hchild : child.isAbsolute = false)
    (hup : .up ∉ child.parts) :
    normalParts (base.join child).parts = normalParts base.parts ++ child.names.map .name := by
  cases hbase : base.isAbsolute with
  | true => exact normalParts_join hbase hchild hup
  | false =>
    have hjoin := (isAbsolute_join_of_relative base hchild).trans hbase
    rw [normalParts_of_relative hjoin, normalParts_of_relative hbase,
      filterMap_segments_join base hchild, ← map_names hup]
    unfold normalParts
    rw [List.foldl_append, foldl_settle_names, List.reverse_append, List.reverse_reverse]

/-- What does not climb keeps its names behind those of the directory it is seen from. -/
theorem normalize_join {names : List String} (hbase : base.isAbsolute)
    (hchild : child.isAbsolute = false) (hup : .up ∉ child.parts)
    (hnormal : base.normalize = ofNames names) (hnames : ∀ name ∈ names, IsName name) :
    (base.join child).normalize = ofNames (names ++ child.names) := by
  have hparts : normalParts base.parts = .root :: names.map .name := by
    rw [← parts_normalize, hnormal, parts_ofNames hnames]
  unfold normalize
  rw [normalParts_join hbase hchild hup, hparts, List.cons_append, ← List.map_append]
  rfl

/-! ## Containment -/

theorem contains_normalize (base child : Path) :
    base.contains child.normalize = base.contains child := by
  unfold contains
  rw [parts_normalize, (isNormal_normalParts child).normalParts_eq]

theorem contains_trans {directory : Path} (h : directory.contains base = true)
    (h' : base.contains child = true) : directory.contains child = true := by
  unfold contains at h h' ⊢
  rw [List.isPrefixOf_iff_prefix] at h h' ⊢
  exact h.trans h'

/-- A directory contains what is seen from it and does not climb. -/
theorem contains_join (hbase : base.isAbsolute) (hchild : child.isAbsolute = false)
    (hup : .up ∉ child.parts) : base.contains (base.join child) = true := by
  unfold contains
  rw [List.isPrefixOf_iff_prefix, normalParts_join hbase hchild hup]
  exact List.prefix_append _ _

/-- A file keeps its name whatever directory it is seen from. -/
theorem fileName?_join {name : String} (base : Path) (hchild : child.isAbsolute = false)
    (h : child.fileName? = some name) : (base.join child).fileName? = some name := by
  have hlast : child.parts.getLast? = some (.name name) := by
    unfold fileName? at h
    split at h
    · rename_i segment hsegment
      rw [hsegment, Option.some.inj h]
    · cases h
  have hsegments : (child.segments.filterMap Part.ofSegment?).getLast? = some (.name name) := by
    rw [parts, List.getLast?_append] at hlast
    cases hnone : (child.segments.filterMap Part.ofSegment?).getLast? with
    | some part =>
      rw [hnone] at hlast
      exact hlast
    | none =>
      -- How a path starts is not a name.
      rw [hnone, Option.none_or] at hlast
      unfold lead at hlast
      split at hlast <;> cases hlast
  unfold fileName?
  rw [parts, filterMap_segments_join base hchild, List.getLast?_append, List.getLast?_append,
    hsegments]
  rfl

theorem extension?_join {extension : String} (base : Path) (hchild : child.isAbsolute = false)
    (h : child.extension? = some extension) : (base.join child).extension? = some extension := by
  unfold extension? at h ⊢
  cases hname : child.fileName? with
  | none =>
    rw [hname] at h
    cases h
  | some name =>
    rw [hname] at h
    rw [fileName?_join base hchild hname]
    exact h

end SolidityBuild.Path
