import SolidityBuild.Path.Normal

/-! # Laws of paths: what their parts are made of

    A part that is a name is never empty, never `.` or `..`, and holds no slash. The normal
    form of an absolute path is the root followed by such names, and its spelling has
    exactly these names as segments after the leading slash.
-/

namespace SolidityBuild

namespace Path

/-! ## Names -/

/-- Whether a text can be a name in a path. -/
def IsName (segment : String) : Prop :=
  segment ≠ "" ∧ segment ≠ "." ∧ segment ≠ ".." ∧ '/' ∉ segment.toList

theorem isName_of_ofSegment? {cs : List Char} {segment : String} (hs : '/' ∉ cs)
    (h : Part.ofSegment? cs = some (.name segment)) : IsName segment := by
  unfold Part.ofSegment? at h
  split at h <;> simp only [Option.some.injEq, reduceCtorEq, Part.name.injEq] at h
  subst h
  refine ⟨?_, ?_, ?_, by simpa using hs⟩ <;> intro heq <;>
    have hcs := congrArg String.toList heq <;> rw [String.toList_ofList] at hcs <;>
    contradiction

/-- The parts of segments: climbs and names. -/
theorem eq_up_or_name {cs : List Char} {part : Part} (h : Part.ofSegment? cs = some part) :
    part = .up ∨ ∃ segment, part = .name segment := by
  unfold Part.ofSegment? at h
  split at h
  · simp at h
  · simp at h
  · exact .inl (Option.some.inj h).symm
  · exact .inr ⟨_, (Option.some.inj h).symm⟩

theorem isName_of_mem_parts {p : Path} {segment : String} (h : .name segment ∈ p.parts) :
    IsName segment := by
  rcases List.mem_append.1 h with h | h
  · unfold lead at h
    split at h <;> simp_all
  · obtain ⟨cs, hcs, hpart⟩ := List.mem_filterMap.1 h
    exact isName_of_ofSegment? (Text.not_mem_of_mem_pieces hcs) hpart

/-! ## Absolute paths -/

theorem lead_of_isAbsolute {p : Path} (h : p.isAbsolute) : p.lead = [.root] := by
  unfold isAbsolute at h
  unfold lead
  cases hs : p.text.toList with
  | nil => simp [hs] at h
  | cons c cs =>
    simp only [hs, List.head?_cons, decide_eq_true_eq, Option.some.injEq] at h
    subst h
    rfl

theorem isAbsolute_of_not_mem {text : String} (h : '/' ∉ text.toList) :
    (Path.mk text).isAbsolute = false := by
  unfold isAbsolute
  refine decide_eq_false fun hslash => h ?_
  exact List.mem_of_mem_head? (Option.mem_def.2 hslash)

theorem isAbsolute_ofNames (names : List String) : (ofNames names).isAbsolute := by
  cases names with
  | nil => simp [ofNames, ofParts, isAbsolute]
  | cons name names =>
    simp [ofNames, ofParts, isAbsolute, Part.segment, Text.joinWith]

theorem isAbsolute_join {base : Path} (h : base.isAbsolute) (child : Path) :
    (base.join child).isAbsolute := by
  unfold join
  split
  · assumption
  · unfold isAbsolute at h ⊢
    have hne : ∃ c cs, base.text.toList = c :: cs := by
      cases hs : base.text.toList with
      | nil => simp [hs] at h
      | cons c cs => exact ⟨c, cs, rfl⟩
    obtain ⟨c, cs, hs⟩ := hne
    split <;> simp_all [String.toList_append]

/-- A path through names has them as its segments after the leading slash. -/
theorem segments_ofNames {names : List String} (hne : names ≠ [])
    (h : ∀ name ∈ names, IsName name) :
    (ofNames names).segments = [] :: names.map String.toList := by
  have hmap : (Part.root :: names.map Part.name).map Part.segment =
      [] :: names.map String.toList := by
    simp [Part.segment, Function.comp_def]
  have hparts : ofNames names =
      ⟨String.ofList (Text.joinWith ['/'] ([] :: names.map String.toList))⟩ := by
    cases names with
    | nil => exact absurd rfl hne
    | cons name names => rw [← hmap]; rfl
  rw [hparts, segments]
  simp only [String.toList_ofList]
  apply Text.pieces_joinWith (by simp)
  intro cs hcs
  rcases List.mem_cons.1 hcs with rfl | hcs
  · simp
  · obtain ⟨name, hn, rfl⟩ := List.mem_map.1 hcs
    exact (h name hn).2.2.2

/-! ## Normal forms -/

/-- What stays below the names on a stack: the root, or climbs. -/
def IsBase (base : List Part) : Prop :=
  base = [.root] ∨ ∃ count, base = List.replicate count .up

theorem isBase_nil : IsBase [] :=
  .inr ⟨0, rfl⟩

theorem IsBase.reverse {base : List Part} (h : IsBase base) : base.reverse = base := by
  rcases h with rfl | ⟨count, rfl⟩ <;> simp

/-- Settling a climb on a base gives a base again, with a root exactly if there was one. -/
theorem IsBase.settle_up {base : List Part} (h : IsBase base) :
    IsBase (settle base .up) ∧ (.root ∈ settle base .up ↔ .root ∈ base) := by
  rcases h with rfl | ⟨count, rfl⟩
  · exact ⟨.inl rfl, Iff.rfl⟩
  · cases count with
    | zero => exact ⟨.inr ⟨1, rfl⟩, by simp [settle]⟩
    | succ count =>
      refine ⟨.inr ⟨count + 2, rfl⟩, ?_⟩
      simp [List.replicate_succ, settle]

/-- The list of parts that a normal path has: a base and names above it. -/
def IsNormal (parts : List Part) : Prop :=
  ∃ (base : List Part) (names : List String),
    parts = base ++ names.map .name ∧ IsBase base ∧ ∀ name ∈ names, IsName name

/-- Settling climbs and names on a stack of names above a base gives such a stack. -/
theorem foldl_settle {parts base : List Part} (names : List String) (hb : IsBase base)
    (h : ∀ part ∈ parts, part = .up ∨ ∃ segment, part = .name segment) :
    ∃ (settled : List String) (below : List Part),
      parts.foldl settle (names.map .name ++ base) = settled.map .name ++ below ∧
      IsBase below ∧ (.root ∈ below ↔ .root ∈ base) ∧
      ∀ name ∈ settled, name ∈ names ∨ .name name ∈ parts := by
  induction parts generalizing names base with
  | nil => exact ⟨names, base, rfl, hb, Iff.rfl, fun _ h => .inl h⟩
  | cons part parts ih =>
    have hrest : ∀ part ∈ parts, part = .up ∨ ∃ segment, part = .name segment :=
      fun q hq => h q (by simp [hq])
    rcases h part (by simp) with rfl | ⟨segment, rfl⟩
    · cases names with
      | nil =>
        obtain ⟨hup, hroot⟩ := hb.settle_up
        obtain ⟨settled, below, heq, hbelow, hr, hmem⟩ := ih [] hup hrest
        refine ⟨settled, below, by simpa using heq, hbelow, hr.trans hroot, fun name hn => ?_⟩
        rcases hmem name hn with hn | hn
        · exact .inl hn
        · exact .inr (by simp [hn])
      | cons top rest =>
        obtain ⟨settled, below, heq, hbelow, hr, hmem⟩ := ih rest hb hrest
        refine ⟨settled, below, by simpa [settle] using heq, hbelow, hr, fun name hn => ?_⟩
        rcases hmem name hn with hn | hn
        · exact .inl (by simp [hn])
        · exact .inr (by simp [hn])
    · obtain ⟨settled, below, heq, hbelow, hr, hmem⟩ := ih (segment :: names) hb hrest
      refine ⟨settled, below, by simpa [settle] using heq, hbelow, hr, fun name hn => ?_⟩
      rcases hmem name hn with hn | hn
      · rcases List.mem_cons.1 hn with rfl | hn
        · exact .inr (by simp)
        · exact .inl hn
      · exact .inr (by simp [hn])

/-- The stack that a path's lead leaves. -/
theorem isBase_foldl_lead (p : Path) :
    IsBase (p.lead.foldl settle []) ∧ (.root ∈ p.lead.foldl settle [] ↔ p.isAbsolute) := by
  unfold lead isAbsolute
  split
  · rename_i h
    exact ⟨.inl rfl, by simp [h, settle]⟩
  · rename_i h
    exact ⟨isBase_nil, by simp [h, settle]⟩
  · rename_i h
    exact ⟨isBase_nil, by simp [h, settle]⟩
  · rename_i h _ _
    refine ⟨isBase_nil, ?_⟩
    cases hs : p.text.toList with
    | nil => simp
    | cons c cs => simpa [hs] using fun hc : c = '/' => h cs (by rw [hs, hc])

/-- The normal parts of a path are a base and names, and the base is the root exactly for an
    absolute path. -/
theorem normalParts_eq (p : Path) :
    ∃ (base : List Part) (names : List String),
      normalParts p.parts = base ++ names.map .name ∧ IsBase base ∧
      (.root ∈ base ↔ p.isAbsolute) ∧ ∀ name ∈ names, IsName name := by
  have hparts : ∀ part ∈ p.segments.filterMap Part.ofSegment?,
      part = .up ∨ ∃ segment, part = .name segment := by
    intro part hm
    obtain ⟨cs, _, hcs⟩ := List.mem_filterMap.1 hm
    exact eq_up_or_name hcs
  obtain ⟨hlead, hroot⟩ := isBase_foldl_lead p
  obtain ⟨settled, below, heq, hbelow, hr, hmem⟩ := foldl_settle [] hlead hparts
  refine ⟨below, settled.reverse, ?_, hbelow, hr.trans hroot, fun name hn => ?_⟩
  · simp only [List.map_nil, List.nil_append] at heq
    rw [normalParts, parts, List.foldl_append, heq, List.reverse_append, hbelow.reverse,
      List.map_reverse]
  · rcases hmem name (by simpa using hn) with hn | hn
    · simp at hn
    · exact isName_of_mem_parts (List.mem_append_right _ hn)

theorem isNormal_normalParts (p : Path) : IsNormal (normalParts p.parts) := by
  obtain ⟨base, names, heq, hb, _, hn⟩ := normalParts_eq p
  exact ⟨base, names, heq, hb, hn⟩

theorem foldl_settle_names (names : List String) (stack : List Part) :
    (names.map .name).foldl settle stack = (names.map Part.name).reverse ++ stack := by
  induction names generalizing stack with
  | nil => simp
  | cons name names ih => simp [settle, ih]

theorem IsBase.foldl_settle {base : List Part} (h : IsBase base) :
    base.foldl settle [] = base := by
  rcases h with rfl | ⟨count, rfl⟩
  · rfl
  · have hfold : ∀ low high : Nat, (List.replicate low Part.up).foldl settle
        (List.replicate high .up) = List.replicate (low + high) .up := by
      intro low
      induction low with
      | zero => simp
      | succ low ih =>
        intro high
        have hup : settle (List.replicate high .up) .up = List.replicate (high + 1) .up := by
          cases high <;> simp [List.replicate_succ, settle]
        rw [List.replicate_succ, List.foldl_cons, hup, ih]
        congr 1
        omega
    simpa using hfold count 0

/-- Normal parts are settled. -/
theorem IsNormal.normalParts_eq {parts : List Part} (h : IsNormal parts) :
    normalParts parts = parts := by
  obtain ⟨base, names, rfl, hb, _⟩ := h
  rw [normalParts, List.foldl_append, hb.foldl_settle, foldl_settle_names,
    List.reverse_append, List.reverse_reverse, hb.reverse]

/-! ## Spelling normal parts -/

theorem ofSegment?_name {name : String} (h : IsName name) :
    Part.ofSegment? name.toList = some (.name name) := by
  obtain ⟨hempty, hhere, hup, _⟩ := h
  unfold Part.ofSegment?
  split
  · rename_i heq
    exact absurd (String.toList_eq_nil_iff.1 heq) hempty
  · rename_i heq
    exact absurd (by rw [← String.toList_inj, heq]; rfl) hhere
  · rename_i heq
    exact absurd (by rw [← String.toList_inj, heq]; rfl) hup
  · simp

theorem filterMap_names {names : List String} (h : ∀ name ∈ names, IsName name) :
    (names.map String.toList).filterMap Part.ofSegment? = names.map .name := by
  induction names with
  | nil => rfl
  | cons name names ih =>
    simp [ofSegment?_name (h name (by simp)), ih fun n hn => h n (by simp [hn])]

theorem lead_joinWith {segment : List Char} {rest : List (List Char)} (hempty : segment ≠ [])
    (hhere : segment ≠ ['.']) (hslash : '/' ∉ segment) :
    lead ⟨String.ofList (Text.joinWith ['/'] (segment :: rest))⟩ = [] := by
  obtain ⟨tail, htail, hcases⟩ : ∃ tail, Text.joinWith ['/'] (segment :: rest) = segment ++ tail ∧
      (tail = [] ∨ ∃ more, tail = '/' :: more) := by
    cases rest with
    | nil => exact ⟨[], by simp [Text.joinWith], .inl rfl⟩
    | cons next rest =>
      exact ⟨'/' :: Text.joinWith ['/'] (next :: rest), by simp [Text.joinWith], .inr ⟨_, rfl⟩⟩
  rw [lead, String.toList_ofList, htail]
  cases segment with
  | nil => exact absurd rfl hempty
  | cons c cs =>
    have hc : c ≠ '/' := fun h => hslash (by simp [h])
    cases cs with
    | nil =>
      have hd : c ≠ '.' := by simpa using hhere
      split <;> simp_all
    | cons d more =>
      have hd : d ≠ '/' := fun h => hslash (by simp [h])
      split <;> simp_all

theorem ofParts_eq {parts : List Part} (h : parts ≠ [.root]) :
    ofParts parts = ⟨String.ofList (Text.joinWith ['/'] (parts.map Part.segment))⟩ := by
  unfold ofParts
  split
  · exact absurd rfl h
  · rfl

theorem parts_ofParts_free {names : List String} (count : Nat)
    (hn : ∀ name ∈ names, IsName name) :
    (ofParts (List.replicate count .up ++ names.map .name)).parts =
      List.replicate count .up ++ names.map .name := by
  have hroot : List.replicate count .up ++ names.map .name ≠ [Part.root] := by
    intro heq
    have : Part.root ∈ List.replicate count .up ++ names.map Part.name := heq ▸ by simp
    simp [List.mem_replicate] at this
  have hmap : (List.replicate count Part.up ++ names.map Part.name).map Part.segment =
      List.replicate count ['.', '.'] ++ names.map String.toList := by
    simp [Part.segment, Function.comp_def]
  have hparts : (List.replicate count ['.', '.'] ++ names.map String.toList).filterMap
      Part.ofSegment? = List.replicate count .up ++ names.map .name := by
    rw [List.filterMap_append, filterMap_names hn]
    congr 1
    induction count with
    | zero => rfl
    | succ count ih => simp_all [List.replicate_succ, Part.ofSegment?]
  have hslash : ∀ segment ∈ List.replicate count ['.', '.'] ++ names.map String.toList,
      segment ≠ [] ∧ segment ≠ ['.'] ∧ '/' ∉ segment := by
    intro segment hs
    rcases List.mem_append.1 hs with hs | hs
    · simp [List.eq_of_mem_replicate hs]
    · obtain ⟨name, hm, rfl⟩ := List.mem_map.1 hs
      obtain ⟨hempty, hhere, _, hslash⟩ := hn name hm
      refine ⟨fun h => hempty (String.toList_eq_nil_iff.1 h), fun h => hhere ?_, hslash⟩
      rw [← String.toList_inj, h]
      rfl
  rw [ofParts_eq hroot, hmap, ← hparts]
  generalize List.replicate count ['.', '.'] ++ names.map String.toList = segments at hslash ⊢
  cases segments with
  | nil => rfl
  | cons segment rest =>
    obtain ⟨hempty, hhere, hs⟩ := hslash segment (by simp)
    rw [Path.parts, lead_joinWith hempty hhere hs, Path.segments, String.toList_ofList,
      Text.pieces_joinWith (by simp) fun s hm => (hslash s hm).2.2]
    rfl

/-- The plain spelling of normal parts has these parts. -/
theorem IsNormal.parts_ofParts {parts : List Part} (h : IsNormal parts) :
    (ofParts parts).parts = parts := by
  obtain ⟨base, names, rfl, hb, hn⟩ := h
  rcases hb with rfl | ⟨count, rfl⟩
  · cases names with
    | nil => rfl
    | cons name names =>
      change (ofNames (name :: names)).parts = _
      rw [Path.parts, lead_of_isAbsolute (isAbsolute_ofNames _), segments_ofNames (by simp) hn,
        List.filterMap_cons, filterMap_names hn]
      rfl
  · exact parts_ofParts_free count hn

theorem parts_normalize (p : Path) : p.normalize.parts = normalParts p.parts :=
  (isNormal_normalParts p).parts_ofParts

/-- A normal path is its own normal form. -/
theorem normalize_normalize (p : Path) : p.normalize.normalize = p.normalize := by
  rw [normalize, parts_normalize, (isNormal_normalParts p).normalParts_eq, normalize]

/-- A normal path is spelled like its parts. -/
theorem ofParts_parts {p : Path} (h : p.normalize = p) : ofParts p.parts = p := by
  have hparts : normalParts p.parts = p.parts := by
    rw [← parts_normalize, h]
  rw [← hparts]
  exact h

/-- The normal form of an absolute path leads from the root through names. -/
theorem normalize_of_isAbsolute {p : Path} (h : p.isAbsolute) :
    ∃ names : List String, p.normalize = ofNames names ∧ ∀ name ∈ names, IsName name := by
  obtain ⟨base, names, heq, hb, hr, hn⟩ := normalParts_eq p
  refine ⟨names, ?_, hn⟩
  rcases hb with rfl | ⟨count, rfl⟩
  · rw [normalize, heq]
    rfl
  · have := hr.2 h
    simp [List.mem_replicate] at this

/-- A path from the root through names is normal. -/
theorem normalize_ofNames {names : List String} (h : ∀ name ∈ names, IsName name) :
    (ofNames names).normalize = ofNames names := by
  have hnormal : IsNormal (.root :: names.map .name) := ⟨[.root], names, rfl, .inl rfl, h⟩
  have hparts : (ofNames names).parts = .root :: names.map .name := hnormal.parts_ofParts
  rw [normalize, hparts, hnormal.normalParts_eq]
  rfl

end Path

end SolidityBuild
