import SolidityBuild.Proofs.Path.Appending

/-! # Attaching: more characters on the last segment of a path

    Characters without a slash that are written behind a spelling go on with its last segment.
    If that is a name, it makes no difference whether they are written behind the spelling or
    behind its normal form, which ends with the same name. If it is nothing, `.` or `..`, the
    normal form ends with another name, and the characters go on with that one.
-/

namespace SolidityBuild

namespace Text

theorem joinWith_concat_append (sep : List Char) (xs : List (List Char)) (x more : List Char) :
    joinWith sep (xs ++ [x]) ++ more = joinWith sep (xs ++ [x ++ more]) := by
  by_cases hxs : xs = []
  · rw [hxs]
    rfl
  · rw [joinWith_append hxs (List.cons_ne_nil _ _), joinWith_append hxs (List.cons_ne_nil _ _),
      List.append_assoc]
    rfl

end Text

namespace Path

/-! ## The last segment -/

/-- What follows the last slash of a text. -/
def lastSegment (text : String) : List Char :=
  text.toList.rtakeWhile (· ≠ '/')

variable {root p q : Path} {front more : String} {last : List Char} {names : List String}

theorem slash_not_mem_lastSegment (text : String) : '/' ∉ lastSegment text := by
  intro h
  simpa using List.mem_rtakeWhile_imp h

/-- In front of the last segment there is nothing, or something that ends with a slash. -/
theorem exists_front (text : String) : ∃ front : String,
    text = front ++ String.ofList (lastSegment text) ∧
      (front = "" ∨ front.toList.getLast? = some '/') := by
  refine ⟨String.ofList (text.toList.rdropWhile (· ≠ '/')), ?_, ?_⟩
  · apply String.toList_injective
    rw [String.toList_append, String.toList_ofList, String.toList_ofList]
    exact List.rdropWhile_append_rtakeWhile.symm
  · by_cases hempty : text.toList.rdropWhile (· ≠ '/') = []
    · left
      rw [hempty, String.ofList_nil]
    · right
      have hslash := List.rdropWhile_last_not _ _ hempty
      rw [String.toList_ofList, List.getLast?_eq_some_getLast hempty]
      simpa using hslash

theorem eq_empty_of_lastSegment {text : String} (h : lastSegment text = [])
    (hopen : text.toList.getLast? ≠ some '/') : text = "" := by
  obtain ⟨front, htext, hfront⟩ := exists_front text
  rw [h, String.ofList_nil, String.append_empty] at htext
  rw [← htext] at hfront
  exact hfront.resolve_right hopen

theorem parts_joinText_segment (hroot : root.isAbsolute)
    (hfront : front = "" ∨ front.toList.getLast? = some '/') (hlast : '/' ∉ last) :
    (root.joinText (front ++ String.ofList last)).parts =
      (root.joinText front).parts ++ (Part.ofSegment? last).toList := by
  have hhead : (String.ofList last).toList.head? ≠ some '/' := by
    rw [String.toList_ofList]
    intro hhead
    exact hlast (List.mem_of_mem_head? (Option.mem_def.2 hhead))
  rw [parts_joinText_eq hroot, parts_joinText_eq hroot, start_append (.inr hhead),
    inner_append_segment hfront hlast, List.append_assoc]

/-- More characters on the last segment of a spelling leave the directory in front of it as
    it is. -/
theorem exists_directory (hroot : root.isAbsolute) (text : String) (hmore : '/' ∉ more.toList) :
    ∃ directory : Path, directory.isAbsolute ∧
      (root.joinText text).parts =
        directory.parts ++ (Part.ofSegment? (lastSegment text)).toList ∧
      (root.joinText (text ++ more)).parts =
        directory.parts ++ (Part.ofSegment? (lastSegment text ++ more.toList)).toList := by
  obtain ⟨front, htext, hfront⟩ := exists_front text
  have hlast := slash_not_mem_lastSegment text
  have hlonger : text ++ more = front ++ String.ofList (lastSegment text ++ more.toList) := by
    apply String.toList_injective
    conv_lhs => rw [htext]
    simp [String.toList_append]
  refine ⟨root.joinText front, isAbsolute_join hroot _, ?_, ?_⟩
  · conv_lhs => rw [htext]
    exact parts_joinText_segment hroot hfront hlast
  · rw [hlonger]
    apply parts_joinText_segment hroot hfront
    rw [List.mem_append, not_or]
    exact ⟨hlast, hmore⟩

/-- The names that are left when one more segment is entered. -/
def enter (names : List String) : Option Part → List String
  | some (.name segment) => names ++ [segment]
  | some .up => names.dropLast
  | _ => names

theorem names_normalize_segment (hp : p.isAbsolute) (hq : q.isAbsolute)
    (h : q.parts = p.parts ++ (Part.ofSegment? last).toList) :
    q.normalize.names = enter p.normalize.names (Part.ofSegment? last) := by
  cases hpart : Part.ofSegment? last with
  | none =>
    rw [hpart, Option.toList_none, List.append_nil] at h
    rw [normalize_congr h]
    rfl
  | some part =>
    rw [hpart, Option.toList_some] at h
    have hparts : ∀ other ∈ [part], other = .up ∨ ∃ segment, other = .name segment := by
      intro other hother
      rw [List.mem_singleton.1 hother]
      exact eq_up_or_name hpart
    rw [names_normalize_append hp hq hparts h]
    rcases eq_up_or_name hpart with hup | ⟨segment, hname⟩
    · rw [hup]
      show p.normalize.names.rdrop 1 ++ [] = p.normalize.names.dropLast
      rw [List.append_nil, List.rdrop, List.dropLast_eq_take]
    · rw [hname]
      show p.normalize.names.rdrop 0 ++ [segment] = p.normalize.names ++ [segment]
      rw [List.rdrop_zero]

theorem normalize_eq_iff_names (hp : p.isAbsolute) (hq : q.isAbsolute) :
    p.normalize = q.normalize ↔ p.normalize.names = q.normalize.names := by
  rw [normalize_eq_iff, normalParts_eq_names hp, normalParts_eq_names hq, List.cons.injEq,
    List.map_inj_right fun _ _ => Part.name.inj]
  exact and_iff_right rfl

theorem eq_ofNames_names (hp : p.isAbsolute) : p.normalize = ofNames p.normalize.names := by
  obtain ⟨names, hnames, hname⟩ := normalize_of_isAbsolute hp
  rw [hnames, names_ofNames hname]

theorem toList_of_ofSegment? {cs : List Char} {name : String}
    (h : Part.ofSegment? cs = some (.name name)) : name.toList = cs := by
  unfold Part.ofSegment? at h
  split at h <;> cases h
  exact String.toList_ofList

theorem normalize_eq_root_iff (hp : p.isAbsolute) :
    p.normalize = ⟨"/"⟩ ↔ p.normalize.names = [] := by
  constructor
  · intro h
    rw [h]
    decide
  · intro h
    rw [eq_ofNames_names hp, h]
    rfl

/-! ## Behind a normal path -/

/-- A name with more characters is a name. -/
theorem IsName.append {name : String} (h : IsName name) (hmore : '/' ∉ more.toList)
    (hne : more ≠ "") : IsName (name ++ more) := by
  obtain ⟨hempty, hhere, -, hslash⟩ := h
  have hchars : name.toList ≠ [] := fun heq => hempty (String.toList_eq_nil_iff.1 heq)
  have hmorechars : more.toList ≠ [] := fun heq => hne (String.toList_eq_nil_iff.1 heq)
  have hlength : 2 ≤ (name ++ more).toList.length := by
    rw [String.toList_append, List.length_append]
    have := List.length_pos_iff.2 hchars
    have := List.length_pos_iff.2 hmorechars
    omega
  refine ⟨?_, ?_, ?_, ?_⟩
  · intro heq
    rw [heq] at hlength
    exact absurd hlength (by decide)
  · intro heq
    rw [heq] at hlength
    exact absurd hlength (by decide)
  · -- Only a dot in front of another one gives `..`.
    intro heq
    have htwo : name.toList ++ more.toList = ['.', '.'] := by
      rw [← String.toList_append, heq]
      rfl
    cases hname : name.toList with
    | nil => exact hchars hname
    | cons c rest =>
      rw [hname, List.cons_append, List.cons.injEq] at htwo
      cases rest with
      | nil =>
        apply hhere
        apply String.toList_injective
        rw [hname, htwo.1]
        rfl
      | cons d rest =>
        have hlast := (List.cons.inj htwo.2).2
        exact hmorechars (List.append_eq_nil_iff.1 hlast).2
  · rw [String.toList_append, List.mem_append, not_or]
    exact ⟨hslash, hmore⟩

theorem text_ofNames_concat (names : List String) (name more : String) :
    (ofNames (names ++ [name])).text ++ more = (ofNames (names ++ [name ++ more])).text := by
  have htext : ∀ name : String, (ofNames (names ++ [name])).text.toList =
      Text.joinWith ['/'] (([] :: names.map String.toList) ++ [name.toList]) := by
    intro name
    have hparts : (Part.root :: (names ++ [name]).map Part.name) ≠ [.root] := by
      simp
    rw [ofNames, ofParts_eq hparts, String.toList_ofList]
    simp [Part.segment, Function.comp_def]
  apply String.toList_injective
  rw [String.toList_append, htext, htext, Text.joinWith_concat_append, String.toList_append]

/-- Behind a normal path characters go on with its last name. -/
theorem names_attach_concat {name : String} (hnames : ∀ other ∈ names ++ [name], IsName other)
    (hmore : '/' ∉ more.toList) (hne : more ≠ "") :
    (Path.mk ((ofNames (names ++ [name])).text ++ more)).normalize.names =
      names ++ [name ++ more] := by
  have hlonger : ∀ other ∈ names ++ [name ++ more], IsName other := by
    intro other hother
    rcases List.mem_append.1 hother with hfront | hlast
    · exact hnames other (List.mem_append_left _ hfront)
    · rw [List.mem_singleton.1 hlast]
      apply IsName.append _ hmore hne
      exact hnames name (List.mem_append_right _ (List.mem_singleton_self name))
  rw [text_ofNames_concat]
  show (ofNames (names ++ [name ++ more])).normalize.names = _
  rw [normalize_ofNames hlonger, names_ofNames hlonger]

/-- Behind the root they are a segment of their own. -/
theorem names_attach_root (hmore : '/' ∉ more.toList) :
    (Path.mk ((ofNames []).text ++ more)).normalize.names =
      enter [] (Part.ofSegment? more.toList) := by
  have habsolute : (Path.mk ((ofNames []).text ++ more)).isAbsolute :=
    isAbsolute_append (isAbsolute_ofNames []) more
  have hparts : (Path.mk ((ofNames []).text ++ more)).parts =
      (ofNames []).parts ++ (Part.ofSegment? more.toList).toList := by
    rw [parts_eq_inner habsolute, parts_eq_inner (isAbsolute_ofNames [])]
    have hsegment : inner ((ofNames []).text ++ String.ofList more.toList) =
        inner (ofNames []).text ++ (Part.ofSegment? more.toList).toList :=
      inner_append_segment (.inr rfl) hmore
    rw [String.ofList_toList] at hsegment
    rw [hsegment]
    rfl
  rw [names_normalize_segment (isAbsolute_ofNames []) habsolute hparts]
  rfl

/-! ## Behind a spelling and behind its normal form -/

theorem climbsAbove_go_of_append {parts rest : List Part} (depth : Nat)
    (h : climbsAbove.go depth (parts ++ rest) = false) : climbsAbove.go depth parts = false := by
  induction parts generalizing depth with
  | nil => rfl
  | cons part parts ih =>
    cases part with
    | up =>
      simp only [List.cons_append, climbsAbove.go, Bool.or_eq_false_iff] at h ⊢
      exact ⟨h.1, ih _ h.2⟩
    | name segment => exact ih _ h
    | root => exact ih _ h
    | here => exact ih _ h

/-- What climbs from the root climbs above it. -/
theorem climbsAbove_of_root (hp : p.isAbsolute) (hnames : p.normalize.names = [])
    (rest : List Part) : climbsAbove (p.parts ++ .up :: rest) = true := by
  by_contra hclimbs
  have hparts : ∀ part ∈ inner p.text, part = .up ∨ ∃ segment, part = .name segment :=
    fun part hpart => eq_up_or_name_of_mem_inner hpart
  have hgo : climbsAbove.go 0 ((inner p.text ++ [.up]) ++ rest) = false := by
    rw [List.append_assoc, List.singleton_append]
    rw [parts_eq_inner hp] at hclimbs
    exact Bool.eq_false_iff.2 hclimbs
  have hup := climbsAbove_go_of_append 0 hgo
  obtain ⟨settled, hsettled⟩ :=
    foldl_settle_of_not_climbs hparts [] (climbsAbove_go_of_append 0 hup)
  -- Above the root the parts leave nothing, so they leave nothing on an empty stack.
  have hroot : settled.map Part.name ++ [.root] = [Part.root] := by
    have hstack := congrArg List.reverse (normalParts_eq_names hp)
    rw [normalParts, List.reverse_reverse, hnames, parts_eq_inner hp] at hstack
    have hrooted := hsettled [.root]
    exact hrooted.symm.trans hstack
  have hnone : settled = [] := by
    have hlength := congrArg List.length hroot
    simpa using hlength
  have hfree := hsettled []
  rw [hnone] at hfree
  have hpartsup : ∀ part ∈ inner p.text ++ [.up], part = .up ∨ ∃ segment, part = .name segment := by
    intro part hpart
    rcases List.mem_append.1 hpart with hpart | hpart
    · exact hparts part hpart
    · exact .inl (List.mem_singleton.1 hpart)
  obtain ⟨kept, hkept⟩ := foldl_settle_of_not_climbs hpartsup [] hup
  have hclash := hkept []
  rw [List.foldl_append, hfree] at hclash
  have hlast : Part.up ∈ kept.map Part.name ++ [] := by
    rw [← hclash]
    exact List.mem_singleton_self _
  simp at hlast

theorem ofSegment?_of_ne {cs : List Char} (hempty : cs ≠ []) (hhere : cs ≠ ['.'])
    (hup : cs ≠ ['.', '.']) : Part.ofSegment? cs = some (.name (String.ofList cs)) := by
  unfold Part.ofSegment?
  split
  · exact absurd rfl hempty
  · exact absurd rfl hhere
  · exact absurd rfl hup
  · rfl

/-- What the last name of a normal path is once more characters are attached. -/
theorem names_attach (hp : p.isAbsolute) (hmore : '/' ∉ more.toList) (hne : more ≠ "") :
    p.normalize.names = [] ∧ (Path.mk (p.normalize.text ++ more)).normalize.names =
        enter [] (Part.ofSegment? more.toList) ∨
      ∃ names name, p.normalize.names = names ++ [name] ∧
        (Path.mk (p.normalize.text ++ more)).normalize.names = names ++ [name ++ more] := by
  obtain ⟨names, hnames, hname⟩ := normalize_of_isAbsolute hp
  rw [hnames, names_ofNames hname]
  rcases List.eq_nil_or_concat names with hempty | ⟨front, last, hconcat⟩
  · left
    rw [hempty]
    exact ⟨rfl, names_attach_root hmore⟩
  · right
    rw [List.concat_eq_append] at hconcat
    rw [hconcat] at hname ⊢
    exact ⟨front, last, rfl, names_attach_concat hname hmore hne⟩

/-- Attached characters never are the end of a longer name below as many names. -/
theorem names_attach_ne {name : String} (hp : p.isAbsolute) (hmore : '/' ∉ more.toList)
    (hne : more ≠ "") (hlength : p.normalize.names.length ≤ names.length) (hname : name ≠ more) :
    (Path.mk (p.normalize.text ++ more)).normalize.names ≠ names ++ [name] := by
  intro heq
  rcases names_attach hp hmore hne with ⟨-, hroot⟩ | ⟨front, last, hnames, hattach⟩
  · rw [hroot] at heq
    cases hpart : Part.ofSegment? more.toList with
    | none =>
      rw [hpart] at heq
      simp [enter] at heq
    | some part =>
      rw [hpart] at heq
      rcases eq_up_or_name hpart with hup | ⟨segment, hsegment⟩
      · rw [hup] at heq
        simp [enter] at heq
      · rw [hsegment] at heq hpart
        have hlast := (List.append_inj' heq rfl).2
        apply hname
        apply String.toList_injective
        rw [← List.singleton_inj.1 hlast, toList_of_ofSegment? hpart]
  · rw [hattach] at heq
    have hlengths := congrArg List.length heq
    rw [hnames] at hlength
    simp only [List.length_append, List.length_singleton] at hlengths hlength
    omega

/-- Behind the normal form of a directory characters are a segment of their own only if the
    directory is the root. -/
theorem names_attach_eq_enter_iff (hp : p.isAbsolute) (hmore : '/' ∉ more.toList)
    (hne : more ≠ "") :
    (Path.mk (p.normalize.text ++ more)).normalize.names =
        enter p.normalize.names (Part.ofSegment? more.toList) ↔ p.normalize.names = [] := by
  rcases names_attach hp hmore hne with ⟨hempty, hroot⟩ | ⟨front, last, hnames, hattach⟩
  · rw [hroot, hempty]
    exact iff_of_true rfl rfl
  · rw [hattach, hnames]
    apply iff_of_false
    · intro heq
      have hlengths := congrArg List.length heq
      cases hpart : Part.ofSegment? more.toList with
      | none =>
        -- A dot leaves the directory as it is, and a longer last name does not.
        rw [hpart] at heq
        have hlast := List.singleton_inj.1 (List.append_cancel_left heq)
        have hchars := congrArg (fun s => s.toList.length) hlast
        simp only [String.toList_append, List.length_append] at hchars
        have hzero : more.toList.length = 0 := by omega
        exact hne (String.toList_eq_nil_iff.1 (List.length_eq_zero_iff.1 hzero))
      | some part =>
        rw [hpart] at hlengths
        rcases eq_up_or_name hpart with hup | ⟨segment, hsegment⟩
        · rw [hup] at hlengths
          simp [enter] at hlengths
        · rw [hsegment] at hlengths
          simp [enter] at hlengths
    · simp

/-- Characters go on with the name that a path ends with. -/
theorem names_attach_name {name : String} (hp : p.isAbsolute) (hlast : '/' ∉ last)
    (hmore : '/' ∉ more.toList) (hne : more ≠ "")
    (hname : Part.ofSegment? last = some (.name name))
    (hnames : p.normalize.names = enter names (Part.ofSegment? last)) :
    enter names (Part.ofSegment? (last ++ more.toList)) =
      (Path.mk (p.normalize.text ++ more)).normalize.names := by
  have hlonger : Part.ofSegment? (last ++ more.toList) = some (.name (name ++ more)) := by
    have hsegment := ofSegment?_name ((isName_of_ofSegment? hlast hname).append hmore hne)
    rw [String.toList_append, toList_of_ofSegment? hname] at hsegment
    exact hsegment
  rw [hname] at hnames
  rw [hlonger]
  rcases names_attach hp hmore hne with ⟨hempty, -⟩ | ⟨before, name', hconcat, hattach⟩
  · rw [hnames] at hempty
    simp [enter] at hempty
  · rw [hnames] at hconcat
    obtain ⟨hbefore, hlasts⟩ := List.append_inj' hconcat rfl
    rw [hattach, ← hbefore, ← List.singleton_inj.1 hlasts]
    rfl

/-- Dots with more characters are a name of their own, and the normal form of a path that ends
    with dots ends with another one. -/
theorem names_attach_dots (hp : p.isAbsolute) (hmore : '/' ∉ more.toList) (hne : more ≠ "")
    (hdots : last = ['.'] ∨ last = ['.', '.']) (hlong : last ++ more.toList ≠ ['.', '.'])
    (hnames : p.normalize.names = enter names (Part.ofSegment? last)) :
    enter names (Part.ofSegment? (last ++ more.toList)) ≠
      (Path.mk (p.normalize.text ++ more)).normalize.names := by
  have hchars : more.toList ≠ [] := fun heq => hne (String.toList_eq_nil_iff.1 heq)
  have hname : Part.ofSegment? (last ++ more.toList) =
      some (.name (String.ofList (last ++ more.toList))) := by
    apply ofSegment?_of_ne _ _ hlong
    · simp [hchars]
    · rcases hdots with heq | heq <;> simp [heq, hchars]
  have hlonger : String.ofList (last ++ more.toList) ≠ more := by
    intro heq
    have hlengths := congrArg (fun s => s.toList.length) heq
    simp only [String.toList_ofList, List.length_append] at hlengths
    rcases hdots with heq | heq <;> simp [heq] at hlengths
  have hlength : p.normalize.names.length ≤ names.length := by
    rw [hnames]
    rcases hdots with heq | heq
    · rw [heq]
      exact le_rfl
    · rw [heq]
      show names.dropLast.length ≤ names.length
      rw [List.length_dropLast]
      omega
  rw [hname]
  exact (names_attach_ne hp hmore hne hlength hlonger).symm

/-- What goes on with a name does not lead out of the directory. -/
theorem names_attach_up (hp : p.isAbsolute) (hmore : '/' ∉ more.toList) (hne : more ≠ "")
    (hnames : p.normalize.names ≠ []) :
    enter p.normalize.names (some .up) ≠
      (Path.mk (p.normalize.text ++ more)).normalize.names := by
  rcases names_attach hp hmore hne with ⟨hempty, -⟩ | ⟨before, name, hconcat, hattach⟩
  · exact absurd hempty hnames
  · rw [hattach, hconcat]
    simp [enter]

/-- Nothing but a name is attached to alike behind a spelling and behind its normal form,
    unless the spelling is empty and the directory is the root. -/
theorem attach_eq_iff {target : String} (hroot : root.isAbsolute)
    (hmore : '/' ∉ more.toList) (hne : more ≠ "") (hopen : target.toList.getLast? ≠ some '/')
    (hclimbs : climbsAbove (root.joinText (target ++ more)).parts = false) :
    (root.joinText (target ++ more)).normalize =
        (Path.mk ((root.joinText target).normalize.text ++ more)).normalize ↔
      (∃ name, Part.ofSegment? (lastSegment target) = some (.name name)) ∨
        target = "" ∧ (root.joinText target).normalize = ⟨"/"⟩ := by
  have habsolute : ∀ text, (root.joinText text).isAbsolute := fun text => isAbsolute_join hroot _
  obtain ⟨directory, hdirectory, hparts, hlonger⟩ := exists_directory hroot target hmore
  have hnames := names_normalize_segment hdirectory (habsolute target) hparts
  have hattached : (Path.mk ((root.joinText target).normalize.text ++ more)).isAbsolute :=
    isAbsolute_append (isAbsolute_normalize (habsolute target)) more
  rw [normalize_eq_iff_names (habsolute _) hattached,
    names_normalize_segment hdirectory (habsolute (target ++ more)) hlonger]
  -- The cases are those of the last segment: nothing, dots, or a name.
  by_cases hempty : lastSegment target = []
  · have htext : target = "" := eq_empty_of_lastSegment hempty hopen
    rw [hempty] at hnames
    change _ = directory.normalize.names at hnames
    rw [hempty, List.nil_append, ← hnames, eq_comm,
      names_attach_eq_enter_iff (habsolute target) hmore hne,
      normalize_eq_root_iff (habsolute target)]
    simp [Part.ofSegment?, htext]
  have htext : target ≠ "" := by
    intro heq
    rw [heq] at hempty
    exact hempty rfl
  by_cases hdots : lastSegment target = ['.'] ∨ lastSegment target = ['.', '.']
  · have hnoname : ¬ ∃ name, Part.ofSegment? (lastSegment target) = some (.name name) := by
      rcases hdots with heq | heq <;> simp [heq, Part.ofSegment?]
    apply iff_of_false _ (by simp [htext, hnoname])
    by_cases hup : lastSegment target ++ more.toList = ['.', '.']
    · have hhere : lastSegment target = ['.'] := by
        apply hdots.resolve_right
        intro heq
        rw [heq] at hup
        exact hne (String.toList_eq_nil_iff.1 (List.append_cancel_left hup))
      have hclimb : Part.ofSegment? ['.', '.'] = some .up := rfl
      rw [hup, hclimb] at hlonger
      rw [hhere] at hnames
      change _ = directory.normalize.names at hnames
      rw [hup, hclimb, ← hnames]
      apply names_attach_up (habsolute target) hmore hne
      -- Two dots climb out of the directory, so it is not the root.
      intro hnone
      rw [hnames] at hnone
      rw [hlonger] at hclimbs
      cases (climbsAbove_of_root hdirectory hnone []).symm.trans hclimbs
    · exact names_attach_dots (habsolute target) hmore hne hdots hup hnames
  · rw [not_or] at hdots
    have hname := ofSegment?_of_ne hempty hdots.1 hdots.2
    apply iff_of_true _ (.inl ⟨_, hname⟩)
    have hlast := slash_not_mem_lastSegment target
    exact names_attach_name (habsolute target) hlast hmore hne hname hnames

end Path

end SolidityBuild
