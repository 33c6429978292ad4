import Mathlib.Data.List.DropRight
import SolidityBuild.Text.Blank
import SolidityBuild.Text.Split

/-! # Affixes: what is taken off a list in front and at its end

    A stem is taken off once, and a run of one kind is dropped as far as it goes. In both cases
    the list is what remains together with what was taken off.
-/

namespace SolidityBuild.Text

variable {α : Type*} {p : α → Bool} {stem rest xs ys : List α} {cs ds : List Char}

/-! ## A stem in front -/

theorem strip?_eq_dropPrefix? [DecidableEq α] (stem xs : List α) :
    strip? stem xs = xs.dropPrefix? stem := by
  induction stem generalizing xs with
  | nil => rw [strip?, List.dropPrefix?_nil]
  | cons s stem ih =>
    cases xs with
    | nil => rfl
    | cons x xs =>
      rw [strip?, List.dropPrefix?, ih]
      by_cases hx : s = x
      · rw [if_pos hx, if_pos (beq_iff_eq.2 hx.symm)]
      · rw [if_neg hx, if_neg fun hsame => hx (beq_iff_eq.1 hsame).symm]

theorem strip?_eq_some_iff [DecidableEq α] : strip? stem xs = some rest ↔ xs = stem ++ rest := by
  rw [strip?_eq_dropPrefix?, List.dropPrefix?_eq_some_iff]
  constructor
  · intro ⟨front, hxs, hfront⟩
    rw [hxs, eq_of_beq hfront]
  · intro hxs
    exact ⟨stem, hxs, BEq.rfl⟩

/-! ## A run at the end -/

theorem dropEndWhile_eq_rdropWhile (p : α → Bool) (xs : List α) :
    dropEndWhile p xs = xs.rdropWhile p :=
  rfl

/-- What is dropped is a run, and what remains does not end with one. -/
theorem dropEndWhile_eq_iff : dropEndWhile p xs = ys ↔
    (∀ y ∈ ys.getLast?, p y = false) ∧ ∃ run, (∀ x ∈ run, p x = true) ∧ xs = ys ++ run := by
  rw [dropEndWhile_eq_rdropWhile]
  constructor
  · intro hys
    subst hys
    constructor
    · intro y hy
      obtain ⟨hne, rfl⟩ := List.mem_getLast?_eq_getLast hy
      exact Bool.eq_false_iff.2 (List.rdropWhile_last_not p xs hne)
    · exact ⟨xs.rtakeWhile p, fun x hx => List.mem_rtakeWhile_imp hx,
        List.rdropWhile_append_rtakeWhile.symm⟩
  · intro ⟨hlast, run, hrun, hxs⟩
    subst hxs
    -- The run goes one by one from its end, and then nothing does.
    induction run using List.reverseRecOn with
    | nil =>
      rw [List.append_nil, List.rdropWhile_eq_self_iff]
      intro hne hp
      rw [hlast _ (List.getLast?_eq_some_getLast hne)] at hp
      cases hp
    | append_singleton run x ih =>
      rw [← List.append_assoc, List.rdropWhile_concat_pos _ _ _ (hrun x (by simp))]
      exact ih fun x hx => hrun x (List.mem_append_left _ hx)

/-- The slashes at the end of a text are dropped, and nothing else is. -/
theorem dropEndWhile_slash_eq_iff : dropEndWhile (· = '/') cs = ds ↔
    ds.getLast? ≠ some '/' ∧ ∃ count, cs = ds ++ List.replicate count '/' := by
  rw [dropEndWhile_eq_iff]
  refine and_congr ?_ ?_
  · constructor
    · intro hlast hslash
      simpa using hlast '/' hslash
    · intro hlast c hc
      rw [decide_eq_false_iff_not]
      intro hslash
      rw [hslash] at hc
      exact hlast hc
  · constructor
    · intro ⟨run, hrun, hcs⟩
      refine ⟨run.length, ?_⟩
      rw [← List.eq_replicate_of_mem fun c hc => of_decide_eq_true (hrun c hc)]
      exact hcs
    · intro ⟨count, hcs⟩
      refine ⟨_, ?_, hcs⟩
      intro c hc
      rw [List.eq_of_mem_replicate hc]
      rfl

end SolidityBuild.Text
