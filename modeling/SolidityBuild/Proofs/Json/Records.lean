import Mathlib.Data.List.Forall2
import SolidityBuild.Json.Record

/-! # Records: which values a record gives its fields

    A record is an object or an array. In an object the names decide which value belongs to
    which field, and no field may stand twice; in an array the places decide. Decoding a record
    finds exactly the values that the record gives in this sense.
-/

namespace SolidityBuild.Json

variable {name text : String} {names : List String} {short : Bool} {j : Json} {v : Option Json}
  {values : List (Option Json)} {members : List (Literal × Json)} {items : List Json}

/-! ## Lists that are decoded item by item -/

theorem mapM_eq_some_iff {f : α → Option β} {R : α → β → Prop}
    (h : ∀ x y, f x = some y ↔ R x y) {xs : List α} {ys : List β} :
    xs.mapM f = some ys ↔ List.Forall₂ R xs ys := by
  induction xs generalizing ys with
  | nil =>
    rw [List.mapM_nil, List.forall₂_nil_left_iff]
    exact ⟨fun h => (Option.some.inj h).symm, fun h => congrArg some h.symm⟩
  | cons x xs ih =>
    rw [List.mapM_cons, List.forall₂_cons_left_iff, Option.bind_eq_bind,
      Option.bind_eq_some_iff]
    constructor
    · intro ⟨y, hy, hrest⟩
      obtain ⟨ys', hys, heq⟩ := Option.bind_eq_some_iff.1 hrest
      exact ⟨y, ys', (h x y).1 hy, ih.1 hys, (Option.some.inj heq).symm⟩
    · intro ⟨y, ys', hy, hys, heq⟩
      rw [heq]
      exact ⟨y, (h x y).2 hy, Option.bind_eq_some_iff.2 ⟨ys', ih.2 hys, rfl⟩⟩

theorem isSome_mapM_iff {f : α → Option β} {xs : List α} :
    (xs.mapM f).isSome ↔ ∀ x ∈ xs, (f x).isSome := by
  induction xs with
  | nil => simp
  | cons x xs ih =>
    rw [List.forall_mem_cons, ← ih, List.mapM_cons]
    cases f x <;> cases xs.mapM f <;> simp

/-! ## Fields -/

/-- At most one member of an object has the name, and `v` is what it holds. -/
def IsField (members : List (Literal × Json)) (name : String) (v : Option Json) : Prop :=
  (members.filter fun member => member.1 = .text name).map Prod.snd = v.toList

theorem field?_eq_some_iff : field? name members = some v ↔ IsField members name v := by
  have hvalues : valuesOf name members =
      (members.filter fun member => member.1 = .text name).map Prod.snd := by
    unfold valuesOf
    induction members with
    | nil => rfl
    | cons member members ih =>
      obtain ⟨literal, value⟩ := member
      by_cases hname : literal = .text name
      · rw [List.filterMap_cons_some (b := value) (by simp [hname]),
          List.filter_cons_of_pos (by simpa), ih]
        rfl
      · rw [List.filterMap_cons_none (by simp [hname]), List.filter_cons_of_neg (by simpa), ih]
  unfold IsField field?
  rw [hvalues]
  generalize (members.filter fun member => member.1 = .text name).map Prod.snd = found
  match found with
  | [] => cases v <;> simp
  | [first] => cases v <;> simp
  | first :: second :: rest => cases v <;> simp

/-! ## Records -/

/-- The values that a record gives its fields, in the order of their names. An object may have
    any other members, but each of its names must be a text. An array gives all fields, or only
    the first ones if it may be `short`. -/
inductive IsRecord (names : List String) (short : Bool) : Json → List (Option Json) → Prop
  | object {members : List (Literal × Json)} {values : List (Option Json)}
      (hnames : ∀ member ∈ members, member.1 ≠ .unpaired)
      (hfields : List.Forall₂ (IsField members) names values) :
      IsRecord names short (.object members) values
  | array {items : List Json} {missing : Nat}
      (hlength : items.length + missing = names.length)
      (hmissing : missing = 0 ∨ short = true) :
      IsRecord names short (.array items) (items.map some ++ List.replicate missing none)

theorem fields?_object_eq_some_iff :
    (object members).fields? names short = some values ↔
      (∀ member ∈ members, member.1 ≠ .unpaired) ∧
        List.Forall₂ (IsField members) names values := by
  have hnames : (members.all fun member => member.1.text?.isSome) = true ↔
      ∀ member ∈ members, member.1 ≠ .unpaired := by
    rw [List.all_eq_true]
    refine forall₂_congr fun member _ => ?_
    obtain ⟨literal, value⟩ := member
    cases literal <;> simp [Literal.text?]
  show (if (members.all fun member => member.1.text?.isSome) = true then
    names.mapM fun name => field? name members else none) = some values ↔ _
  rw [Option.ite_none_right_eq_some, hnames, mapM_eq_some_iff fun _ _ => field?_eq_some_iff]

theorem fields?_array_eq_some_iff :
    (array items).fields? names short = some values ↔
      ∃ missing, items.length + missing = names.length ∧ (missing = 0 ∨ short = true) ∧
        values = items.map some ++ List.replicate missing none := by
  show (if (decide (items.length = names.length) ||
      short && decide (items.length < names.length)) = true then
    some (items.map some ++ List.replicate (names.length - items.length) none) else none) =
      some values ↔ _
  rw [Option.ite_none_right_eq_some, Bool.or_eq_true, Bool.and_eq_true, decide_eq_true_iff,
    decide_eq_true_iff, Option.some.injEq]
  -- The values that are missing are counted by a difference, which is none only with all items.
  constructor
  · intro ⟨hlength, hvalues⟩
    refine ⟨names.length - items.length, by omega, ?_, hvalues.symm⟩
    rcases hlength with heq | ⟨hshort, _⟩
    · left
      omega
    · exact .inr hshort
  · intro ⟨missing, hlength, hmissing, hvalues⟩
    have hcount : names.length - items.length = missing := by omega
    rw [hcount]
    refine ⟨?_, hvalues.symm⟩
    by_cases hfull : items.length = names.length
    · exact .inl hfull
    · right
      refine ⟨hmissing.resolve_left ?_, ?_⟩ <;> omega

/-- **Records**: decoding a record finds the values that it gives its fields. -/
theorem fields?_eq_some_iff :
    j.fields? names short = some values ↔ IsRecord names short j values := by
  constructor
  · intro h
    cases j with
    | object members =>
      obtain ⟨hnames, hfields⟩ := fields?_object_eq_some_iff.1 h
      exact .object hnames hfields
    | array items =>
      obtain ⟨missing, hlength, hmissing, rfl⟩ := fields?_array_eq_some_iff.1 h
      exact .array hlength hmissing
    | _ => cases h
  · intro h
    cases h with
    | object hnames hfields => exact fields?_object_eq_some_iff.2 ⟨hnames, hfields⟩
    | array hlength hmissing =>
      exact fields?_array_eq_some_iff.2 ⟨_, hlength, hmissing, rfl⟩

/-! ## Values of fields -/

theorem text?_eq_some_iff : text? v = some text ↔ v = some (ofString text) := by
  unfold text?
  split
  · rename_i literal
    cases literal <;> simp [Literal.text?, ofString]
  · rename_i hnot
    constructor
    · intro h
      cases h
    · intro h
      exact absurd h (hnot _)

/-- A text that may be missing or null. -/
inductive IsOptionalText : Option Json → Option String → Prop
  | missing : IsOptionalText none none
  | null : IsOptionalText (some .null) none
  | text (text : String) : IsOptionalText (some (ofString text)) (some text)

theorem optionalText?_eq_some_iff {text? : Option String} :
    optionalText? v = some text? ↔ IsOptionalText v text? := by
  constructor
  · intro h
    unfold optionalText? at h
    split at h
    · rw [← Option.some.inj h]
      exact .missing
    · rw [← Option.some.inj h]
      exact .null
    · rename_i literal
      cases literal with
      | text s =>
        rw [← Option.some.inj h]
        exact .text s
      | unpaired => cases h
    · cases h
  · intro h
    cases h <;> rfl

theorem int64?_eq_some_iff {n : Int} :
    int64? v = some n ↔ ∃ numeral, v = some (.number numeral) ∧ numeral.toInt64? = some n := by
  unfold int64?
  split
  · simp
  · rename_i hnot
    constructor
    · intro h
      cases h
    · intro ⟨numeral, hv, _⟩
      exact absurd hv (hnot numeral)

/-! ## Values that are kept -/

/-- A value that can be kept: containers lie in at most so many others, all strings stand for
    texts and all numbers can be settled. -/
inductive Keepable : Nat → Json → Prop
  | null {depth : Nat} : Keepable depth .null
  | bool {depth : Nat} (b : Bool) : Keepable depth (.bool b)
  | number {depth : Nat} {n : Numeral} (h : n.settle?.isSome) : Keepable depth (.number n)
  | text {depth : Nat} (s : String) : Keepable depth (.string (.text s))
  | array {depth : Nat} {items : List Json} (h : ∀ item ∈ items, Keepable depth item) :
      Keepable (depth + 1) (.array items)
  | object {depth : Nat} {members : List (Literal × Json)}
      (hnames : ∀ member ∈ members, member.1 ≠ .unpaired)
      (hvalues : ∀ member ∈ members, Keepable depth member.2) :
      Keepable (depth + 1) (.object members)

-- The induction has the three cases of the decoder: a value, items and members.
mutual

theorem isSome_kept?_iff : ∀ (j : Json) (depth : Nat),
    (kept? depth j).isSome ↔ Keepable depth j
  | .null, _ => iff_of_true rfl .null
  | .bool b, _ => iff_of_true rfl (.bool b)
  | .number n, depth => by
    rw [kept?, Option.isSome_map]
    constructor
    · exact .number
    · intro h
      cases h
      assumption
  | .string (.text s), _ => iff_of_true rfl (.text s)
  | .string .unpaired, _ => iff_of_false Bool.false_ne_true (by intro h; cases h)
  | .array _, 0 => iff_of_false Bool.false_ne_true (by intro h; cases h)
  | .array items, depth + 1 => by
    rw [kept?, Option.isSome_map, isSome_keptItems?_iff items depth]
    constructor
    · exact .array
    · intro h
      cases h
      assumption
  | .object _, 0 => iff_of_false Bool.false_ne_true (by intro h; cases h)
  | .object members, depth + 1 => by
    rw [kept?, Option.isSome_map, isSome_keptMembers?_iff members depth]
    constructor
    · intro h
      exact .object (fun member hmember => (h member hmember).1)
        fun member hmember => (h member hmember).2
    · intro h
      cases h with
      | object hnames hvalues => exact fun member hmember => ⟨hnames _ hmember, hvalues _ hmember⟩

theorem isSome_keptItems?_iff : ∀ (items : List Json) (depth : Nat),
    (keptItems? depth items).isSome ↔ ∀ item ∈ items, Keepable depth item
  | [], _ => by simp [keptItems?]
  | v :: rest, depth => by
    rw [List.forall_mem_cons, ← isSome_kept?_iff v depth, ← isSome_keptItems?_iff rest depth,
      keptItems?]
    cases kept? depth v <;> cases keptItems? depth rest <;> simp

theorem isSome_keptMembers?_iff : ∀ (members : List (Literal × Json)) (depth : Nat),
    (keptMembers? depth members).isSome ↔
      ∀ member ∈ members, member.1 ≠ .unpaired ∧ Keepable depth member.2
  | [], _ => by simp [keptMembers?]
  | (name, v) :: rest, depth => by
    rw [List.forall_mem_cons, ← isSome_kept?_iff v depth, ← isSome_keptMembers?_iff rest depth,
      keptMembers?]
    cases name <;> cases kept? depth v <;> cases keptMembers? depth rest <;>
      simp [Literal.text?]

end

end SolidityBuild.Json
