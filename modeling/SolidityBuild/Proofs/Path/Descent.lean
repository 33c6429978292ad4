import SolidityBuild.Proofs.Path.Names

/-! # Descent: how a path through names goes on below a directory

    From the root every name is spelled with a slash before it. So a path from the root goes on
    below a directory with one more slash and name for each step, and what follows the directory
    is, apart from its first slash, the path as it is seen from there.
-/

namespace SolidityBuild

namespace Path

variable {names more : List String} {name : String}

/-! ## Spellings -/

/-- Names with a slash before each. -/
def slashed (names : List String) : List Char :=
  names.flatMap fun name => '/' :: name.toList

/-- The path that leads through some names from wherever it is seen. -/
def along (names : List String) : Path :=
  ⟨String.ofList (Text.joinWith ['/'] (names.map String.toList))⟩

theorem slashed_append (names more : List String) :
    slashed (names ++ more) = slashed names ++ slashed more :=
  List.flatMap_append

/-- The first slash is only there when the path starts from the root. -/
theorem slash_cons_along (hne : names ≠ []) :
    '/' :: (along names).text.toList = slashed names := by
  obtain ⟨first, rest, rfl⟩ := List.exists_cons_of_ne_nil hne
  clear hne
  unfold along slashed
  rw [String.toList_ofList]
  induction rest generalizing first with
  | nil => simp [Text.joinWith]
  | cons second rest ih =>
    rw [List.flatMap_cons, ← ih second]
    simp [Text.joinWith]

theorem toList_ofNames (hne : names ≠ []) : (ofNames names).text.toList = slashed names := by
  have hparts : Part.root :: names.map Part.name ≠ [.root] := by
    simpa using hne
  obtain ⟨first, rest, rfl⟩ := List.exists_cons_of_ne_nil hne
  rw [← slash_cons_along hne, ofNames, ofParts_eq hparts, String.toList_ofList]
  simp [along, Text.joinWith, Part.segment, Function.comp_def]

theorem segments_along (hne : names ≠ []) (h : ∀ name ∈ names, IsName name) :
    (along names).segments = names.map String.toList := by
  unfold along segments
  rw [String.toList_ofList]
  refine Text.pieces_joinWith (by simpa using hne) ?_
  intro cs hcs
  obtain ⟨name, hname, rfl⟩ := List.mem_map.1 hcs
  exact (h name hname).2.2.2

/-- No name ends with a slash. -/
theorem getLast?_slashed (h : ∀ name ∈ names, IsName name) :
    (slashed names).getLast? ≠ some '/' := by
  rcases List.eq_nil_or_concat names with rfl | ⟨front, last, rfl⟩
  · nofun
  · obtain ⟨hempty, -, -, hslash⟩ := h last (by simp)
    have hne : last.toList ≠ [] := fun hnil => hempty (String.toList_eq_nil_iff.1 hnil)
    have hlast : (slashed (front.concat last)).getLast? = last.toList.getLast? := by
      rw [List.concat_eq_append, slashed_append]
      simp [slashed, List.getLast?_append, List.getLast?_cons, List.getLast?_eq_some_getLast hne]
    rw [hlast]
    exact fun heq => hslash (List.mem_of_getLast? heq)

/-! ## One step -/

theorem joinText_ofNames (hnames : ∀ name ∈ names, IsName name) (hname : IsName name) :
    (ofNames names).joinText name = ofNames (names ++ [name]) := by
  have hrelative : (Path.mk name).isAbsolute = false := isAbsolute_of_not_mem hname.2.2.2
  have hgoal : (ofNames (names ++ [name])).text.toList = slashed names ++ '/' :: name.toList := by
    rw [toList_ofNames (by simp), slashed_append]
    simp [slashed]
  unfold joinText join
  rw [if_neg (by simp [hrelative])]
  by_cases hne : names = []
  · subst hne
    rw [if_pos (by decide), Path.mk.injEq]
    apply String.toList_injective
    rw [hgoal, String.toList_append]
    rfl
  · have hlast := getLast?_slashed hnames
    rw [← toList_ofNames hne] at hlast
    have hall : (ofNames names).text.toList.getLast?.all (· = '/') ≠ true := by
      rw [Ne, getLast?_all_slash_iff, not_or]
      constructor
      · intro hnil
        obtain ⟨first, rest, rfl⟩ := List.exists_cons_of_ne_nil hne
        rw [toList_ofNames hne] at hnil
        cases hnil
      · intro ⟨front, hfront⟩
        rw [hfront, List.getLast?_concat] at hlast
        exact hlast rfl
    rw [if_neg hall, Path.mk.injEq]
    apply String.toList_injective
    rw [hgoal, String.toList_append, String.toList_append, toList_ofNames hne, List.append_assoc]
    rfl

/-! ## Seen from above -/

theorem isTrivial_toList (h : IsName name) : isTrivial name.toList = false := by
  have hempty : name.toList ≠ [] := fun heq => h.1 (String.toList_eq_nil_iff.1 heq)
  have hhere : name.toList ≠ ['.'] := by
    intro heq
    exact h.2.1 (by rw [← String.toList_inj, heq]; rfl)
  simp [isTrivial, hempty, hhere]

theorem dropWhile_isTrivial (h : ∀ name ∈ names, IsName name) :
    (names.map String.toList).dropWhile isTrivial = names.map String.toList := by
  cases names with
  | nil => rfl
  | cons first rest =>
    have hfirst := isTrivial_toList (h first (List.mem_cons_self ..))
    exact List.dropWhile_cons_of_neg (by simp [hfirst])

theorem dropNamed_length (h : ∀ name ∈ names, IsName name) (rest : List (List Char)) :
    dropNamed names.length (names.map String.toList ++ rest) = rest := by
  induction names with
  | nil => cases rest <;> rfl
  | cons first names ih =>
    have hfirst := isTrivial_toList (h first (List.mem_cons_self ..))
    rw [List.length_cons, List.map_cons, List.cons_append, dropNamed, hfirst]
    exact ih fun name hname => h name (List.mem_cons_of_mem _ hname)

theorem body_ofNames (hne : names ≠ []) (h : ∀ name ∈ names, IsName name) :
    (ofNames names).body = names.map String.toList := by
  have hlead := lead_of_isAbsolute (isAbsolute_ofNames names)
  unfold body
  rw [hlead, segments_ofNames hne h]
  show (((names.map String.toList).reverse).dropWhile isTrivial).reverse = _
  rw [← List.map_reverse, dropWhile_isTrivial fun name hname => h name (List.mem_reverse.1 hname),
    List.map_reverse, List.reverse_reverse]

/-- **Descent**: what follows a directory is the path along the names that are left. -/
theorem strip?_ofNames (hne : more ≠ []) (h : ∀ name ∈ names ++ more, IsName name) :
    (ofNames names).strip? (ofNames (names ++ more)) = some (along more) := by
  have hnames : ∀ name ∈ names, IsName name :=
    fun name hname => h name (List.mem_append_left _ hname)
  have hmore : ∀ name ∈ more, IsName name :=
    fun name hname => h name (List.mem_append_right _ hname)
  have hprefix : (ofNames names).parts.isPrefixOf (ofNames (names ++ more)).parts = true := by
    rw [parts_ofNames hnames, parts_ofNames h, List.map_append, ← List.cons_append]
    exact List.isPrefixOf_iff_prefix.2 (List.prefix_append _ _)
  have hcount : (ofNames names).parts.length - (ofNames (names ++ more)).lead.length =
      names.length := by
    rw [parts_ofNames hnames, lead_of_isAbsolute (isAbsolute_ofNames _), List.length_cons,
      List.length_map]
    rfl
  unfold strip?
  rw [if_neg (by simp [parts_ofNames hnames]), if_pos hprefix, hcount,
    body_ofNames (List.append_ne_nil_of_right_ne_nil _ hne) h, List.map_append]
  dsimp only
  rw [dropNamed_length hnames, dropWhile_isTrivial hmore]
  rfl

end Path

end SolidityBuild
