/-! # Splitting: pieces between separators, the first separator, and lines

    A text is cut at every separator, at the first one only, or where its lines end. The pieces
    between all separators and their join undo each other.
-/

namespace SolidityBuild.Text

/-- The pieces between the occurrences of `sep`, empty ones included; there is always one
    piece more than there are separators. -/
def pieces (sep : Char) : List Char → List (List Char)
  | [] => [[]]
  | c :: cs =>
    if c = sep then [] :: pieces sep cs
    else match pieces sep cs with
      | [] => [[c]]
      | piece :: rest => (c :: piece) :: rest

/-- The parts before and after the first `sep`, if there is one. -/
def splitFirst (sep : Char) : List Char → Option (List Char × List Char)
  | [] => none
  | c :: cs =>
    if c = sep then some ([], cs)
    else (splitFirst sep cs).map fun (before, after) => (c :: before, after)

/-- A line without the carriage return that ends it. -/
def chopReturn (line : List Char) : List Char :=
  if line.getLast? = some '\r' then line.dropLast else line

theorem splitFirst_length {sep : Char} {cs before after : List Char}
    (h : splitFirst sep cs = some (before, after)) : after.length < cs.length := by
  induction cs generalizing before with
  | nil => simp [splitFirst] at h
  | cons c cs ih =>
    simp only [splitFirst] at h
    split at h
    · simp only [Option.some.injEq, Prod.mk.injEq] at h
      simp [h.2]
    · obtain ⟨⟨piece, rest⟩, hs, heq⟩ := Option.map_eq_some_iff.1 h
      simp only [Prod.mk.injEq] at heq
      have := ih (heq.2 ▸ hs)
      simp only [List.length_cons]
      omega

/-- A list is split at its first separator. -/
theorem splitFirst_eq_some_iff {sep : Char} {cs before after : List Char} :
    splitFirst sep cs = some (before, after) ↔ sep ∉ before ∧ cs = before ++ sep :: after := by
  induction cs generalizing before with
  | nil => simp [splitFirst]
  | cons c cs ih =>
    by_cases hc : c = sep
    · cases before with
      | nil => simp [splitFirst, hc, eq_comm]
      | cons b before =>
        -- The list would start with `b`, and that is the separator.
        simp only [splitFirst, hc, if_true, Option.some.injEq, Prod.mk.injEq, List.cons_append,
          List.cons.injEq, List.mem_cons, not_or, reduceCtorEq, false_and, false_iff]
        intro h
        exact h.1.1 h.2.1
    · cases before with
      | nil => simp [splitFirst, hc]
      | cons b before =>
        simp only [splitFirst, hc, if_false, Option.map_eq_some_iff, Prod.exists,
          Prod.mk.injEq, List.cons.injEq, List.cons_append, List.mem_cons, not_or]
        constructor
        · intro ⟨front, back, hsplit, ⟨hb, hfront⟩, hback⟩
          rw [hfront, hback] at hsplit
          obtain ⟨hnot, hcs⟩ := ih.1 hsplit
          exact ⟨⟨fun hsep => hc (hb.trans hsep.symm), hnot⟩, hb, hcs⟩
        · intro ⟨⟨_, hnot⟩, hb, hcs⟩
          exact ⟨before, after, ih.2 ⟨hnot, hcs⟩, ⟨hb, rfl⟩, rfl⟩

/-- What follows `stem` in a list that starts with it. -/
def strip? [DecidableEq α] : List α → List α → Option (List α)
  | [], cs => some cs
  | _ :: _, [] => none
  | s :: stem, c :: cs => if s = c then strip? stem cs else none

theorem strip?_length [DecidableEq α] {stem cs rest : List α}
    (h : strip? stem cs = some rest) : rest.length ≤ cs.length := by
  induction stem generalizing cs with
  | nil =>
    obtain rfl := Option.some.inj h
    exact Nat.le_refl _
  | cons s stem ih =>
    cases cs with
    | nil => cases h
    | cons c cs =>
      obtain ⟨-, h⟩ := Option.ite_none_right_eq_some.1 h
      exact Nat.le_succ_of_le (ih h)

/-- The lines of a text. A line ends with a line feed, which a carriage return may precede;
    a last line without a line feed keeps its carriage return, and an empty one is none. -/
def lines (cs : List Char) : List (List Char) :=
  let parts := pieces '\n' cs
  let ended := parts.dropLast.map chopReturn
  match parts.getLast? with
  | none => ended
  | some [] => ended
  | some last => ended ++ [last]

/-- `xs` with `sep` between its members. -/
def joinWith (sep : List Char) : List (List Char) → List Char
  | [] => []
  | [x] => x
  | x :: y :: rest => x ++ sep ++ joinWith sep (y :: rest)

/-! ## Pieces and their join

    The library has both under other names, and most of their laws.
-/

variable {sep : Char} {cs ds piece : List Char} {ps : List (List Char)}

theorem pieces_eq_splitOn (sep : Char) (cs : List Char) : pieces sep cs = cs.splitOn sep := by
  induction cs with
  | nil => rfl
  | cons c cs ih =>
    rw [pieces, ih, List.splitOn_cons_eq_if_modifyHead]
    by_cases hc : c = sep
    · rw [if_pos hc, if_pos (beq_iff_eq.2 hc)]
    · rw [if_neg hc, if_neg (mt beq_iff_eq.1 hc)]
      cases hp : cs.splitOn sep with
      | nil => exact absurd hp (List.splitOn_ne_nil sep cs)
      | cons piece rest => rfl

theorem joinWith_eq_intercalate (sep : List Char) (xs : List (List Char)) :
    joinWith sep xs = sep.intercalate xs := by
  induction xs with
  | nil => rw [joinWith, List.intercalate_nil]
  | cons x xs ih =>
    cases xs with
    | nil => rw [joinWith, List.intercalate_singleton]
    | cons y xs => rw [joinWith, ih, List.intercalate_cons_cons]

theorem pieces_ne_nil (sep : Char) (cs : List Char) : pieces sep cs ≠ [] := by
  rw [pieces_eq_splitOn]
  exact List.splitOn_ne_nil sep cs

/-- A character that is no separator goes on with the first piece of what follows it. -/
theorem exists_pieces_cons {c : Char} (hc : c ≠ sep) (cs : List Char) : ∃ piece rest,
    pieces sep cs = piece :: rest ∧ pieces sep (c :: cs) = (c :: piece) :: rest := by
  obtain ⟨piece, rest, hp⟩ := List.exists_cons_of_ne_nil (pieces_ne_nil sep cs)
  refine ⟨piece, rest, hp, ?_⟩
  rw [pieces, if_neg hc, hp]

theorem not_mem_of_mem_pieces (h : piece ∈ pieces sep cs) : sep ∉ piece := by
  induction cs generalizing piece with
  | nil =>
    obtain rfl := List.mem_singleton.1 h
    exact List.not_mem_nil
  | cons c cs ih =>
    by_cases hc : c = sep
    · rw [pieces, if_pos hc] at h
      rcases List.mem_cons.1 h with rfl | h
      · exact List.not_mem_nil
      · exact ih h
    · obtain ⟨first, rest, hp, hcons⟩ := exists_pieces_cons hc cs
      rw [hp] at ih
      rw [hcons] at h
      rcases List.mem_cons.1 h with rfl | h
      · exact List.not_mem_cons_of_ne_of_not_mem (Ne.symm hc) (ih (List.mem_cons_self ..))
      · exact ih (List.mem_cons_of_mem _ h)

theorem pieces_of_not_mem (h : sep ∉ piece) : pieces sep piece = [piece] := by
  rw [pieces_eq_splitOn, List.splitOn_eq_singleton h]

theorem pieces_append (sep : Char) (cs ds : List Char) :
    pieces sep (cs ++ sep :: ds) = pieces sep cs ++ pieces sep ds := by
  rw [pieces_eq_splitOn, pieces_eq_splitOn, pieces_eq_splitOn, List.splitOn_append_cons_self]

theorem pieces_append_sep (h : sep ∉ piece) (cs : List Char) :
    pieces sep (piece ++ sep :: cs) = piece :: pieces sep cs := by
  rw [pieces_append, pieces_of_not_mem h, List.singleton_append]

/-- Pieces without separators are found again in their join. -/
theorem pieces_joinWith (hne : ps ≠ []) (h : ∀ p ∈ ps, sep ∉ p) :
    pieces sep (joinWith [sep] ps) = ps := by
  rw [pieces_eq_splitOn, joinWith_eq_intercalate, List.splitOn_intercalate sep h hne]

/-- A text is its pieces with the separators put back. -/
theorem joinWith_pieces (sep : Char) (cs : List Char) : joinWith [sep] (pieces sep cs) = cs := by
  rw [pieces_eq_splitOn, joinWith_eq_intercalate, List.intercalate_splitOn]

theorem pieces_injective (h : pieces sep cs = pieces sep ds) : cs = ds := by
  rw [← joinWith_pieces sep cs, h, joinWith_pieces]

theorem joinWith_append {sep : List Char} {xs ys : List (List Char)} (hxs : xs ≠ [])
    (hys : ys ≠ []) : joinWith sep (xs ++ ys) = joinWith sep xs ++ sep ++ joinWith sep ys := by
  simp only [joinWith_eq_intercalate]
  induction xs with
  | nil => exact absurd rfl hxs
  | cons x xs ih =>
    have hne : xs ++ ys ≠ [] := List.append_ne_nil_of_right_ne_nil _ hys
    rw [List.cons_append, List.intercalate_cons_of_ne_nil hne]
    cases xs with
    | nil => rw [List.nil_append, List.intercalate_singleton]
    | cons x' xs =>
      rw [ih (List.cons_ne_nil _ _), List.intercalate_cons_cons]
      simp only [List.append_assoc]

end SolidityBuild.Text
