import SolidityBuild.Path.Lemmas

/-! # Containment: a directory is a prefix of what lies below it

    Containment compares parts, the compiler compares texts. For normal absolute paths the
    first implies the second, since both spell the same names with the same slashes. The
    converse fails: `/proj/a` is a text prefix of `/proj/ab`.
-/

namespace SolidityBuild

namespace Text

theorem joinWith_isPrefix_append (sep : List Char) (xs ys : List (List Char)) :
    joinWith sep xs <+: joinWith sep (xs ++ ys) := by
  by_cases hxs : xs = []
  · rw [hxs]
    exact List.nil_prefix
  · by_cases hys : ys = []
    · simp [hys]
    · rw [joinWith_append hxs hys, List.append_assoc]
      exact List.prefix_append _ _

end Text

namespace Path

theorem isAbsolute_normalize {p : Path} (h : p.isAbsolute) : p.normalize.isAbsolute := by
  obtain ⟨names, hp, -⟩ := normalize_of_isAbsolute h
  rw [hp]
  exact isAbsolute_ofNames names

/-- The directory of an absolute path starts at the root as well. -/
theorem isAbsolute_parent {p directory : Path} (h : p.isAbsolute)
    (hparent : p.parent? = some directory) : directory.isAbsolute := by
  have hlead := lead_of_isAbsolute h
  unfold parent? at hparent
  split at hparent
  · simp [hlead] at hparent
  · obtain rfl := Option.some.inj hparent
    simp [respell, hlead, isAbsolute]

/-- The normal parts of an absolute path are the root and names, those of its normal form. -/
theorem exists_names {p : Path} (h : .root ∈ normalParts p.parts) :
    ∃ names : List String, normalParts p.parts = .root :: names.map .name ∧
      p.normalize = ofNames names := by
  obtain ⟨base, names, heq, hbase, -, -⟩ := normalParts_eq p
  rcases hbase with rfl | ⟨count, rfl⟩
  · refine ⟨names, heq, ?_⟩
    rw [normalize, heq]
    rfl
  · rw [heq] at h
    simp [List.mem_replicate] at h

theorem root_mem_normalParts {p : Path} (h : p.isAbsolute) : .root ∈ normalParts p.parts := by
  obtain ⟨base, names, heq, -, hroot, -⟩ := normalParts_eq p
  rw [heq]
  exact List.mem_append_left _ (hroot.2 h)

/-- Every path through names is spelled like one through the first of them, and goes on. -/
theorem ofNames_isPrefix (names more : List String) :
    (ofNames names).text.toList <+: (ofNames (names ++ more)).text.toList := by
  -- The root alone is spelled with a slash that otherwise comes before the first name.
  cases names with
  | nil =>
    have habsolute := isAbsolute_ofNames more
    unfold isAbsolute at habsolute
    obtain ⟨rest, hrest⟩ : ∃ rest, (ofNames more).text.toList = '/' :: rest :=
      List.head?_eq_some_iff.1 (of_decide_eq_true habsolute)
    exact ⟨rest, by simpa [ofNames, ofParts] using hrest.symm⟩
  | cons name names =>
    have hspelled : ∀ rest : List String, (ofNames (name :: rest)).text.toList =
        Text.joinWith ['/'] ((Part.root :: (name :: rest).map Part.name).map Part.segment) := by
      intro rest
      rw [ofNames, ofParts_eq (by simp), String.toList_ofList]
    rw [List.cons_append, hspelled, hspelled, ← List.cons_append, List.map_append,
      ← List.cons_append, List.map_append]
    exact Text.joinWith_isPrefix_append _ _ _

/-- **Containment of spellings**: the normal form of an absolute directory is a prefix of the
    normal form of what lies below it. -/
theorem normalize_isPrefix_of_contains {p q : Path} (hp : p.isAbsolute)
    (h : p.contains q = true) : p.normalize.text.toList <+: q.normalize.text.toList := by
  obtain ⟨names, hnames, hnormal⟩ := exists_names (root_mem_normalParts hp)
  have hparts : normalParts p.parts <+: normalParts q.parts := List.isPrefixOf_iff_prefix.1 h
  obtain ⟨names', hnames', hnormal'⟩ :=
    exists_names (hparts.subset (root_mem_normalParts hp))
  rw [hnames, hnames', List.cons_prefix_cons] at hparts
  obtain ⟨more, rfl⟩ : names <+: names' :=
    (List.prefix_map_iff_of_injective fun _ _ => Part.name.inj).1 hparts.2
  rw [hnormal, hnormal']
  exact ofNames_isPrefix names more

/-! ## Forward slashes -/

theorem toList_forward (p : Path) :
    p.forward.toList = p.text.toList.map fun c => if c = '\\' then '/' else c :=
  String.toList_map

theorem forward_of_not_mem {p : Path} (h : '\\' ∉ p.text.toList) : p.forward = p.text := by
  apply String.toList_injective
  rw [toList_forward]
  refine (List.map_congr_left ?_).trans (List.map_id _)
  intro c hc
  have hne : c ≠ '\\' := by
    rintro rfl
    exact h hc
  simp [hne]

theorem forward_isPrefix {p q : Path} (h : p.text.toList <+: q.text.toList) :
    p.forward.toList <+: q.forward.toList := by
  rw [toList_forward, toList_forward]
  exact h.map _

theorem forward_ne_empty {p : Path} (h : p.isAbsolute) : p.forward.toList ≠ [] := by
  rw [toList_forward, Ne, List.map_eq_nil_iff]
  intro hempty
  simp [isAbsolute, hempty] at h

end Path

end SolidityBuild
