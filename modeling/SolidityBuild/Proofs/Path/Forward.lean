import SolidityBuild.Proofs.Path.Containment

/-! # Forward slashes: which paths the compiler cannot tell apart

    A path is written for the compiler with every backslash as a slash. On a system where a
    backslash is an ordinary character of a name this forgets something: two paths look alike
    exactly if they are the same once their names are cut at backslashes.
-/

namespace SolidityBuild

namespace Text

/-- With every `other` made a separator, the pieces are those of the pieces. -/
theorem pieces_map (sep other : Char) (cs : List Char) :
    pieces sep (cs.map fun c => if c = other then sep else c) =
      (pieces sep cs).flatMap (pieces other) := by
  induction cs with
  | nil => rfl
  | cons c cs ih =>
    rw [List.map_cons, pieces, ih]
    by_cases hsep : c = sep
    · have hc : (if c = other then sep else c) = sep := by split <;> simp [hsep]
      rw [if_pos hc, pieces, if_pos hsep]
      rfl
    · obtain ⟨piece, rest, hp, hcons⟩ := exists_pieces_cons hsep cs
      rw [hcons, hp, List.flatMap_cons, List.flatMap_cons]
      by_cases hother : c = other
      · rw [if_pos hother, if_pos rfl, pieces, if_pos hother]
        rfl
      · obtain ⟨first, more, hq, hfirst⟩ := exists_pieces_cons hother piece
        rw [if_neg hother, if_neg hsep, hq, hfirst]
        rfl

end Text

namespace Path

/-- The segments of a spelling, cut at backslashes too. -/
def cuts (p : Path) : List (List Char) :=
  p.segments.flatMap (Text.pieces '\\')

theorem pieces_forward (p : Path) : Text.pieces '/' p.forward.toList = p.cuts := by
  rw [toList_forward]
  exact Text.pieces_map '/' '\\' p.text.toList

/-- Two paths look alike to the compiler exactly if they have the same cuts. -/
theorem forward_eq_iff {p q : Path} : p.forward = q.forward ↔ p.cuts = q.cuts := by
  rw [← pieces_forward, ← pieces_forward]
  constructor
  · intro h
    rw [h]
  · intro h
    exact String.toList_injective (Text.pieces_injective h)

/-- Paths without a backslash are told apart. -/
theorem eq_of_cuts_eq {p q : Path} (hp : '\\' ∉ p.text.toList) (hq : '\\' ∉ q.text.toList)
    (h : p.cuts = q.cuts) : p = q := by
  have hforward := forward_eq_iff.2 h
  rw [forward_of_not_mem hp, forward_of_not_mem hq] at hforward
  exact congrArg Path.mk hforward

end Path

end SolidityBuild
