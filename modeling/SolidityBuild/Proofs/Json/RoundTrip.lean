import SolidityBuild.Json.Reader
import SolidityBuild.Proofs.Json.Lexing

/-! # Round trip: a value is read back from its indented and from its compact form

    Between the text and the value stand the value's tokens, with no blanks among them. Either
    text of a value spells its tokens, the indented one at any depth; and the reader, fed with
    the tokens of a value where it waits for one, ends up after that value, whatever containers
    are open. No value is excluded: numerals keep their spelling, and a string that stands for
    no text comes back as one.
-/

namespace SolidityBuild.Json

open Token (Spells)

/-! ## The tokens of a value -/

mutual

/-- The tokens of a value. -/
def tokens : Json → List Token
  | .null => [.null]
  | .bool b => [.bool b]
  | .number n => [.number n]
  | .string s => [.string s]
  | .array items => .openArray :: (itemTokens items ++ [.closeArray])
  | .object members => .openObject :: (memberTokens members ++ [.closeObject])

/-- The tokens of some items, with commas between them. -/
def itemTokens : List Json → List Token
  | [] => []
  | [v] => tokens v
  | v :: rest => tokens v ++ .comma :: itemTokens rest

/-- The tokens of some members, with commas between them. -/
def memberTokens : List (Literal × Json) → List Token
  | [] => []
  | [(name, v)] => .string name :: .colon :: tokens v
  | (name, v) :: rest => .string name :: .colon :: (tokens v ++ .comma :: memberTokens rest)

end

/-! ## From the text to the tokens -/

/-- A name and a value, with a colon between them. -/
theorem spells_named (name : Literal) {cs : List Char} {ts : List Token} (h : Spells cs ts) :
    Spells (name.spelling ++ ':' :: cs) (.string name :: .colon :: ts) := by
  have hcolon : Spells (':' :: cs) (.colon :: ts) := h.mark (by decide) fun _ => rfl
  exact (Token.spells_literal name).append hcolon fun _ => Token.ended_cons (by decide) _

/-- There may be a blank behind the colon. -/
theorem spells_member (name : Literal) {cs : List Char} {ts : List Token} (h : Spells cs ts) :
    Spells (name.spelling ++ ": ".toList ++ cs) (.string name :: .colon :: ts) := by
  rw [List.append_assoc]
  exact spells_named name (h.blank rfl)

/-- What stands between two marks, with the closing one on a line of its own. -/
theorem spells_container {left right : Char} {first last : Token} {cs : List Char}
    {ts : List Token} (depth : Nat) (h : Spells cs ts) (hleft : Token.isBlank left = false)
    (hfirst : ∀ rest, Token.read left rest = some (first, rest))
    (hright : Token.isBlank right = false)
    (hlast : ∀ rest, Token.read right rest = some (last, rest)) :
    Spells (left :: (cs ++ (indent depth ++ [right]))) (first :: (ts ++ [last])) := by
  have hclose : Spells (indent depth ++ [right]) [last] :=
    Spells.indent (Token.spells_nil.mark hright hlast) depth
  exact (h.append hclose fun rest => Token.ended_indent depth [right] rest).mark hleft hfirst

mutual

/-- The indented form of a value spells its tokens. -/
theorem spells_pretty (depth : Nat) : ∀ v : Json, Spells (prettyChars depth v) (tokens v)
  | .null => Token.spells_of_read (by decide) fun _ => rfl
  | .bool true => Token.spells_of_read (by decide) fun _ => rfl
  | .bool false => Token.spells_of_read (by decide) fun _ => rfl
  | .number n => Token.spells_numeral n
  | .string s => Token.spells_literal s
  | .array [] => (Token.spells_of_read (by decide) fun _ => rfl).mark (by decide) fun _ => rfl
  | .array (v :: items) => by
    rw [prettyChars, tokens, List.append_assoc]
    exact spells_container depth (spells_prettyItems (depth + 1) (v :: items)) (by decide)
      (fun _ => rfl) (by decide) fun _ => rfl
  | .object [] => (Token.spells_of_read (by decide) fun _ => rfl).mark (by decide) fun _ => rfl
  | .object (m :: members) => by
    rw [prettyChars, tokens, List.append_assoc]
    exact spells_container depth (spells_prettyMembers (depth + 1) (m :: members)) (by decide)
      (fun _ => rfl) (by decide) fun _ => rfl

theorem spells_prettyItems (depth : Nat) :
    ∀ items : List Json, Spells (prettyItems depth items) (itemTokens items)
  | [] => Token.spells_nil
  | [v] => (spells_pretty depth v).indent depth
  | v :: w :: rest => by
    have hcomma : Spells (',' :: prettyItems depth (w :: rest))
        (.comma :: itemTokens (w :: rest)) :=
      (spells_prettyItems depth (w :: rest)).mark (by decide) fun _ => rfl
    exact ((spells_pretty depth v).indent depth).append hcomma
      fun _ => Token.ended_cons (by decide) _

theorem spells_prettyMembers (depth : Nat) :
    ∀ members : List (Literal × Json),
      Spells (prettyMembers depth members) (memberTokens members)
  | [] => Token.spells_nil
  | [(name, v)] => by
    have hmember := (spells_member name (spells_pretty depth v)).indent depth
    rw [← List.append_assoc, ← List.append_assoc] at hmember
    exact hmember
  | (name, v) :: m :: rest => by
    have hmember := (spells_member name (spells_pretty depth v)).indent depth
    have hcomma : Spells (',' :: prettyMembers depth (m :: rest))
        (.comma :: memberTokens (m :: rest)) :=
      (spells_prettyMembers depth (m :: rest)).mark (by decide) fun _ => rfl
    rw [← List.append_assoc, ← List.append_assoc] at hmember
    exact hmember.append hcomma fun _ => Token.ended_cons (by decide) _

end

/-! ## From the compact text to the tokens -/

/-- What stands between two marks, without anything else. -/
theorem spells_between {left right : Char} {first last : Token} {cs : List Char}
    {ts : List Token} (h : Spells cs ts) (hleft : Token.isBlank left = false)
    (hfirst : ∀ rest, Token.read left rest = some (first, rest))
    (hright : Token.isBlank right = false)
    (hlast : ∀ rest, Token.read right rest = some (last, rest))
    (hends : ∀ rest, Token.Ended (right :: rest)) :
    Spells (left :: (cs ++ [right])) (first :: (ts ++ [last])) := by
  have hclose : Spells [right] [last] := Token.spells_nil.mark hright hlast
  exact (h.append hclose hends).mark hleft hfirst

mutual

/-- The compact form of a value spells its tokens. -/
theorem spells_compact : ∀ v : Json, Spells (compactChars v) (tokens v)
  | .null => Token.spells_of_read (by decide) fun _ => rfl
  | .bool true => Token.spells_of_read (by decide) fun _ => rfl
  | .bool false => Token.spells_of_read (by decide) fun _ => rfl
  | .number n => Token.spells_numeral n
  | .string s => Token.spells_literal s
  | .array items => by
    rw [compactChars, tokens]
    exact spells_between (spells_compactItems items) (by decide) (fun _ => rfl) (by decide)
      (fun _ => rfl) fun _ => Token.ended_cons (by decide) _
  | .object members => by
    rw [compactChars, tokens]
    exact spells_between (spells_compactMembers members) (by decide) (fun _ => rfl) (by decide)
      (fun _ => rfl) fun _ => Token.ended_cons (by decide) _

theorem spells_compactItems :
    ∀ items : List Json, Spells (compactItems items) (itemTokens items)
  | [] => Token.spells_nil
  | [v] => spells_compact v
  | v :: w :: rest => by
    have hcomma : Spells (',' :: compactItems (w :: rest)) (.comma :: itemTokens (w :: rest)) :=
      (spells_compactItems (w :: rest)).mark (by decide) fun _ => rfl
    exact (spells_compact v).append hcomma fun _ => Token.ended_cons (by decide) _

theorem spells_compactMembers :
    ∀ members : List (Literal × Json), Spells (compactMembers members) (memberTokens members)
  | [] => Token.spells_nil
  | [(name, v)] => spells_named name (spells_compact v)
  | (name, v) :: m :: rest => by
    have hcomma : Spells (',' :: compactMembers (m :: rest)) (.comma :: memberTokens (m :: rest)) :=
      (spells_compactMembers (m :: rest)).mark (by decide) fun _ => rfl
    exact spells_named name
      ((spells_compact v).append hcomma fun _ => Token.ended_cons (by decide) _)

end

/-! ## From the tokens to the value -/

/-- The token that a value starts with closes nothing. -/
theorem exists_tokens_eq_cons (v : Json) :
    ∃ t ts, tokens v = t :: ts ∧ t ≠ .closeArray := by
  cases v with
  | null => exact ⟨_, _, rfl, Token.noConfusion⟩
  | bool b => exact ⟨_, _, rfl, Token.noConfusion⟩
  | number n => exact ⟨_, _, rfl, Token.noConfusion⟩
  | string s => exact ⟨_, _, rfl, Token.noConfusion⟩
  | array items => exact ⟨_, _, rfl, Token.noConfusion⟩
  | object members => exact ⟨_, _, rfl, Token.noConfusion⟩

/-- At the start of an array, a value is awaited as it is after a comma. -/
theorem foldlM_firstItem (v : Json) (more : List Token) (stack : List Frame) :
    (tokens v ++ more).foldlM Reading.step (.firstItem stack) =
      (tokens v ++ more).foldlM Reading.step (.value (.array [] :: stack)) := by
  obtain ⟨t, ts, heq, hclose⟩ := exists_tokens_eq_cons v
  rw [heq, List.cons_append, List.foldlM_cons, List.foldlM_cons]
  cases t <;> first | rfl | exact absurd rfl hclose

theorem itemTokens_cons_cons (v w : Json) (rest : List Json) :
    itemTokens (v :: w :: rest) = tokens v ++ .comma :: itemTokens (w :: rest) := by
  rw [itemTokens]
  simp

theorem memberTokens_cons_cons (name : Literal) (v : Json) (m : Literal × Json)
    (rest : List (Literal × Json)) :
    memberTokens ((name, v) :: m :: rest) =
      .string name :: .colon :: (tokens v ++ .comma :: memberTokens (m :: rest)) := by
  rw [memberTokens]
  simp

mutual

/-- Fed with the tokens of a value, the reader ends up after that value. -/
theorem foldlM_tokens : ∀ (v : Json) (stack : List Frame),
    (tokens v).foldlM Reading.step (.value stack) = some (.after v stack)
  | .null, _ => rfl
  | .bool _, _ => rfl
  | .number _, _ => rfl
  | .string _, _ => rfl
  | .array [], _ => rfl
  | .array (v :: items), stack => by
    have hitems := foldlM_itemTokens (v :: items) (List.cons_ne_nil v items) [] stack
    have hfirst : (itemTokens (v :: items) ++ [Token.closeArray]).foldlM Reading.step
        (.firstItem stack) = (itemTokens (v :: items) ++ [Token.closeArray]).foldlM Reading.step
          (.value (.array [] :: stack)) := by
      cases items with
      | nil => exact foldlM_firstItem v [.closeArray] stack
      | cons w rest =>
        rw [itemTokens_cons_cons, List.append_assoc]
        exact foldlM_firstItem v _ stack
    rw [tokens, List.foldlM_cons]
    exact hfirst.trans hitems
  | .object [], _ => rfl
  | .object ((name, v) :: members), stack => by
    have hmembers := foldlM_memberTokens ((name, v) :: members)
      (List.cons_ne_nil (name, v) members) [] stack
    -- A first name is taken as it is after a comma.
    have hfirst : (memberTokens ((name, v) :: members) ++ [Token.closeObject]).foldlM
        Reading.step (.firstName stack) =
          (memberTokens ((name, v) :: members) ++ [Token.closeObject]).foldlM
            Reading.step (.memberName [] stack) := by
      cases members with
      | nil => rfl
      | cons m rest =>
        rw [memberTokens_cons_cons]
        rfl
    rw [tokens, List.foldlM_cons]
    exact hfirst.trans hmembers

/-- Fed with some items and the end of their array, the reader ends up after the array. -/
theorem foldlM_itemTokens : ∀ (items : List Json), items ≠ [] → ∀ (done : List Json)
    (stack : List Frame),
    (itemTokens items ++ [Token.closeArray]).foldlM Reading.step
        (.value (.array done :: stack)) =
      some (.after (.array (done.reverse ++ items)) stack)
  | [], hne, _, _ => absurd rfl hne
  | [v], _, done, stack => by
    have hv := foldlM_tokens v (.array done :: stack)
    rw [itemTokens, List.foldlM_append, hv]
    simp [Reading.step]
  | v :: w :: rest, _, done, stack => by
    have hv := foldlM_tokens v (.array done :: stack)
    have hrest := foldlM_itemTokens (w :: rest) (List.cons_ne_nil w rest) (v :: done) stack
    rw [List.reverse_cons, List.append_assoc, List.singleton_append] at hrest
    rw [itemTokens_cons_cons, List.append_assoc, List.foldlM_append, hv]
    exact hrest

/-- Fed with some members and the end of their object, the reader ends up after the object. -/
theorem foldlM_memberTokens : ∀ (members : List (Literal × Json)), members ≠ [] →
    ∀ (done : List (Literal × Json)) (stack : List Frame),
    (memberTokens members ++ [Token.closeObject]).foldlM Reading.step
        (.memberName done stack) =
      some (.after (.object (done.reverse ++ members)) stack)
  | [], hne, _, _ => absurd rfl hne
  | [(name, v)], _, done, stack => by
    have hv := foldlM_tokens v (.member done name :: stack)
    change (tokens v ++ [Token.closeObject]).foldlM Reading.step
      (.value (.member done name :: stack)) = _
    rw [List.foldlM_append, hv]
    simp [Reading.step]
  | (name, v) :: m :: rest, _, done, stack => by
    have hv := foldlM_tokens v (.member done name :: stack)
    have hrest := foldlM_memberTokens (m :: rest) (List.cons_ne_nil m rest) ((name, v) :: done)
      stack
    rw [List.reverse_cons, List.append_assoc, List.singleton_append] at hrest
    rw [memberTokens_cons_cons]
    change ((tokens v ++ .comma :: memberTokens (m :: rest)) ++ [Token.closeObject]).foldlM
      Reading.step (.value (.member done name :: stack)) = _
    rw [List.append_assoc, List.foldlM_append, hv]
    exact hrest

end

/-! ## The round trip -/

/-- A text that spells the tokens of a value is read as that value. -/
theorem ofText?_of_spells {text : String} {v : Json} (h : Spells text.toList (tokens v)) :
    ofText? text = some v := by
  unfold ofText? ofChars?
  rw [h.tokens?, Option.bind_some, ofTokens?, foldlM_tokens]

/-- **Round trip**: the indented form of a value is read as that value, with the members of
    objects in their order and repeated names kept. -/
theorem ofText?_pretty (v : Json) : ofText? v.pretty = some v := by
  apply ofText?_of_spells
  unfold pretty
  rw [String.toList_ofList]
  exact spells_pretty 0 v

/-- So is its compact form. -/
theorem ofText?_compact (v : Json) : ofText? v.compact = some v := by
  apply ofText?_of_spells
  unfold compact
  rw [String.toList_ofList]
  exact spells_compact v

/-- A line feed after the indented form changes nothing. -/
theorem ofText?_pretty_lineFeed (v : Json) : ofText? (v.pretty ++ "\n") = some v := by
  have hfeed : Spells ['\n'] [] := Token.spells_nil.blank rfl
  have hspells : Spells (prettyChars 0 v ++ ['\n']) (tokens v ++ []) :=
    (spells_pretty 0 v).append hfeed fun rest => Token.ended_cons (by decide) _
  apply ofText?_of_spells
  unfold pretty
  rw [String.toList_append, String.toList_ofList]
  rw [List.append_nil] at hspells
  exact hspells

end SolidityBuild.Json
