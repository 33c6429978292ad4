import SolidityBuild.Proofs.Path.Names
import Mathlib.Data.List.DropRight

/-! # Appending: what a text behind a path makes of it

    A text that is written behind a path goes on with the last segment of the path, up to the
    first slash of the text. From there on it only adds parts: these climb out of some names
    of the path, and enter others. So the normal form is that of the path, without the names
    that are climbed out of and with those that are entered, whatever the path was.
-/

namespace SolidityBuild.Path

/-! ## Parts of texts -/

/-- The parts that the segments of a text stand for, apart from how it starts. -/
def inner (text : String) : List Part :=
  (Path.mk text).segments.filterMap Part.ofSegment?

/-- No segment is made of characters from both texts. -/
def Apart (text more : String) : Prop :=
  text.toList.getLast? = some '/' ∨ more = "" ∨ more.toList.head? = some '/'

variable {text more : String} {root p q : Path}

theorem inner_empty : inner "" = [] := by
  decide

theorem eq_up_or_name_of_mem_inner {part : Part} (h : part ∈ inner text) :
    part = .up ∨ ∃ segment, part = .name segment := by
  obtain ⟨cs, -, hcs⟩ := List.mem_filterMap.1 h
  exact eq_up_or_name hcs

theorem inner_append (h : Apart text more) : inner (text ++ more) = inner text ++ inner more := by
  unfold inner segments
  show (Text.pieces '/' (text ++ more).toList).filterMap Part.ofSegment? =
    (Text.pieces '/' text.toList).filterMap Part.ofSegment? ++
      (Text.pieces '/' more.toList).filterMap Part.ofSegment?
  rw [String.toList_append]
  rcases h with hlast | hempty | hhead
  · obtain ⟨front, hfront⟩ := List.getLast?_eq_some_iff.1 hlast
    rw [hfront, List.append_assoc, List.singleton_append, Text.pieces_append,
      Text.pieces_append, List.filterMap_append, List.filterMap_append]
    simp [Text.pieces, Part.ofSegment?]
  · rw [hempty]
    simp [Text.pieces, Part.ofSegment?]
  · obtain ⟨rest, hrest⟩ := List.head?_eq_some_iff.1 hhead
    rw [hrest, Text.pieces_append, List.filterMap_append, Text.pieces, if_pos rfl]
    rfl

/-- A text without a slash is one segment, which goes on with the last one of another text. -/
theorem inner_append_segment {front : String} {last : List Char}
    (hfront : front = "" ∨ front.toList.getLast? = some '/') (hlast : '/' ∉ last) :
    inner (front ++ String.ofList last) = inner front ++ (Part.ofSegment? last).toList := by
  have hsingle : inner (String.ofList last) = (Part.ofSegment? last).toList := by
    unfold inner segments
    rw [String.toList_ofList, Text.pieces_of_not_mem hlast]
    cases hpart : Part.ofSegment? last with
    | none => exact List.filterMap_cons_none hpart
    | some part => exact List.filterMap_cons_some hpart
  rcases hfront with hempty | hslash
  · rw [hempty, String.empty_append, inner_empty, List.nil_append]
    exact hsingle
  · rw [inner_append (.inl hslash), hsingle]

/-- Slashes in front of a text change none of its parts. -/
theorem inner_dropWhile_slash (cs : List Char) :
    inner (String.ofList (cs.dropWhile (· = '/'))) = inner (String.ofList cs) := by
  induction cs with
  | nil => rfl
  | cons c cs ih =>
    by_cases hc : c = '/'
    · rw [List.dropWhile_cons_of_pos (by simpa using hc), ih]
      unfold inner segments
      rw [String.toList_ofList, String.toList_ofList, hc, Text.pieces, if_pos rfl]
      rfl
    · rw [List.dropWhile_cons_of_neg (by simpa using hc)]

theorem isAbsolute_dropWhile_slash (cs : List Char) :
    (Path.mk (String.ofList (cs.dropWhile (· = '/')))).isAbsolute = false := by
  unfold isAbsolute
  rw [String.toList_ofList]
  have hhead := List.head?_dropWhile_not (· = '/') cs
  cases hrest : (cs.dropWhile (· = '/')).head? with
  | none => rfl
  | some c =>
    rw [hrest] at hhead
    simpa using hhead

theorem parts_eq_inner (h : p.isAbsolute) : p.parts = .root :: inner p.text := by
  rw [parts, lead_of_isAbsolute h]
  rfl

/-- What a text is seen behind: an absolute text only behind the root. -/
def start (root : Path) (text : String) : List Part :=
  if (Path.mk text).isAbsolute then [.root] else root.parts

theorem parts_joinText_eq (hroot : root.isAbsolute) (text : String) :
    (root.joinText text).parts = start root text ++ inner text := by
  unfold start joinText
  cases htext : (Path.mk text).isAbsolute with
  | true =>
    have halone : root.join ⟨text⟩ = ⟨text⟩ := if_pos htext
    rw [halone, if_pos rfl, parts_eq_inner htext]
    rfl
  | false =>
    rw [if_neg (by simp), parts_join hroot htext]
    rfl

/-- What starts a text starts all that go on with it. -/
theorem start_append (h : text ≠ "" ∨ more.toList.head? ≠ some '/') :
    start root (text ++ more) = start root text := by
  have hsame : (Path.mk (text ++ more)).isAbsolute = (Path.mk text).isAbsolute := by
    unfold isAbsolute
    rw [String.toList_append]
    cases htext : text.toList with
    | nil =>
      have hempty : text = "" := String.toList_eq_nil_iff.1 htext
      simpa using h.resolve_left (not_not_intro hempty)
    | cons c cs => rfl
  unfold start
  rw [hsame]

/-- Behind a text that ends with a segment of its own, another text adds its parts. -/
theorem parts_joinText_append (hroot : root.isAbsolute) (hne : text ≠ "")
    (h : Apart text more) :
    (root.joinText (text ++ more)).parts = (root.joinText text).parts ++ inner more := by
  rw [parts_joinText_eq hroot, parts_joinText_eq hroot, start_append (.inl hne), inner_append h,
    List.append_assoc]

/-! ## Climbing out and entering -/

/-- How many names in front of them some parts climb out of. -/
def climbs (parts : List Part) : Nat :=
  (normalParts parts).count .up

/-- The names that some parts enter and do not climb out of again. -/
def entered (parts : List Part) : List String :=
  (normalParts parts).filterMap Part.name?

/-- Parts do the same to every stack: they take names off it, as long as there are any, and
    put names on it. -/
theorem exists_settled {parts : List Part}
    (h : ∀ part ∈ parts, part = .up ∨ ∃ segment, part = .name segment) :
    ∃ (added : List String) (count : Nat),
      parts.foldl settle [] = added.map .name ++ List.replicate count .up ∧
      ∀ names : List String, parts.foldl settle (names.map .name ++ [.root]) =
        (added ++ names.drop count).map .name ++ [.root] := by
  induction parts using List.reverseRec with
  | nil => exact ⟨[], 0, rfl, fun names => rfl⟩
  | append_singleton parts part ih =>
    obtain ⟨added, count, hfree, hrooted⟩ :=
      ih fun q hq => h q (List.mem_append_left _ hq)
    rcases h part (List.mem_append_right _ (List.mem_singleton_self part)) with rfl | ⟨segment, rfl⟩
    · cases added with
      | cons top added =>
        refine ⟨added, count, ?_, ?_⟩
        · rw [List.foldl_append, hfree]
          rfl
        · intro names
          rw [List.foldl_append, hrooted]
          rfl
      | nil =>
        -- Nothing of the parts themselves is left, so they climb out of one name more.
        refine ⟨[], count + 1, ?_, ?_⟩
        · rw [List.foldl_append, hfree]
          cases count with
          | zero => rfl
          | succ count => rfl
        · intro names
          rw [List.foldl_append, hrooted, ← List.tail_drop]
          cases names.drop count with
          | nil => rfl
          | cons top below => rfl
    · refine ⟨segment :: added, count, ?_, ?_⟩
      · rw [List.foldl_append, hfree]
        rfl
      · intro names
        rw [List.foldl_append, hrooted]
        rfl

/-- The normal parts of an absolute path are the names of its normal form. -/
theorem normalParts_eq_names (h : p.isAbsolute) :
    normalParts p.parts = .root :: p.normalize.names.map .name := by
  obtain ⟨names, hnames, hname⟩ := normalize_of_isAbsolute h
  rw [← parts_normalize, hnames, names_ofNames hname, parts_ofNames hname]

/-- **Appending**: the names of a path with more parts are those of the path, without the ones
    that the parts climb out of, and then those that they enter. -/
theorem names_normalize_append (hp : p.isAbsolute) (hq : q.isAbsolute) {parts : List Part}
    (hparts : ∀ part ∈ parts, part = .up ∨ ∃ segment, part = .name segment)
    (h : q.parts = p.parts ++ parts) :
    q.normalize.names = p.normalize.names.rdrop (climbs parts) ++ entered parts := by
  obtain ⟨added, count, hfree, hrooted⟩ := exists_settled hparts
  have hnormal : normalParts parts = List.replicate count .up ++ (added.map .name).reverse := by
    unfold normalParts
    rw [hfree, List.reverse_append, List.reverse_replicate]
  have hclimbs : climbs parts = count := by
    unfold climbs
    rw [hnormal, List.count_append, List.count_replicate_self, List.count_eq_zero_of_not_mem,
      Nat.add_zero]
    simp
  have hentered : entered parts = added.reverse := by
    unfold entered
    rw [hnormal, List.filterMap_append, List.filterMap_replicate_of_none rfl, List.nil_append,
      ← List.map_reverse, filterMap_name?_map]
  have hstack : p.parts.foldl settle [] = p.normalize.names.reverse.map .name ++ [.root] := by
    have hreverse := congrArg List.reverse (normalParts_eq_names hp)
    rw [normalParts, List.reverse_reverse] at hreverse
    rw [hreverse, List.reverse_cons, List.map_reverse]
  have hsettled := hrooted p.normalize.names.reverse
  have hnames : normalParts q.parts =
      .root :: (added ++ p.normalize.names.reverse.drop count).reverse.map .name := by
    unfold normalParts
    rw [h, List.foldl_append, hstack, hsettled, List.reverse_append, List.map_reverse]
    rfl
  rw [normalParts_eq_names hq] at hnames
  have hsame := (List.map_injective_iff.2 fun _ _ => Part.name.inj) (List.cons.inj hnames).2
  rw [hsame, hclimbs, hentered, List.reverse_append, List.rdrop_eq_reverse_drop_reverse]

/-- The same parts behind two paths lead to one path exactly if the two paths differ in no
    more than the names that are climbed out of. -/
theorem normalize_eq_iff_rdrop {p' q' : Path} (hp : p.isAbsolute) (hp' : p'.isAbsolute)
    (hq : q.isAbsolute) (hq' : q'.isAbsolute) (h : q.parts = p.parts ++ inner more)
    (h' : q'.parts = p'.parts ++ inner more) :
    q.normalize = q'.normalize ↔ p.normalize.names.rdrop (climbs (inner more)) =
      p'.normalize.names.rdrop (climbs (inner more)) := by
  have hparts : ∀ part ∈ inner more, part = .up ∨ ∃ segment, part = .name segment :=
    fun part hpart => eq_up_or_name_of_mem_inner hpart
  rw [normalize_eq_iff, normalParts_eq_names hq, normalParts_eq_names hq', List.cons.injEq,
    List.map_inj_right fun _ _ => Part.name.inj, names_normalize_append hp hq hparts h,
    names_normalize_append hp' hq' hparts h', List.append_left_inj]
  exact and_iff_right rfl

end SolidityBuild.Path
