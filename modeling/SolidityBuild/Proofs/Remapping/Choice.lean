import SolidityBuild.Resolution
import Mathlib.Data.Prod.Lex

/-! # Choice: the best of a list, the first or the last one

    Two rules pick one remapping among those that match. Both compare a context first and a
    stem second; they differ in what they measure and in which of equals they keep. The
    resolver keeps the first one, the compiler keeps the last one.
-/

namespace SolidityBuild

/-! ## The first and the last of the best -/

section

variable {α ρ : Type*} [LinearOrder ρ] (rank : α → ρ)

/-- The first element of the highest rank. -/
def firstBest? : List α → Option α
  | [] => none
  | a :: rest =>
    match firstBest? rest with
    | some other => some (if rank a < rank other then other else a)
    | none => some a

/-- The last element of the highest rank. -/
def lastBest? (l : List α) : Option α :=
  firstBest? rank l.reverse

theorem firstBest?_eq_maxOn? (l : List α) : firstBest? rank l = l.maxOn? rank := by
  induction l with
  | nil => rfl
  | cons a rest ih =>
    rw [firstBest?, ih, List.maxOn?_cons]
    cases rest.maxOn? rank with
    | none => rfl
    | some other =>
      show some (if rank a < rank other then other else a) = some (maxOn rank a other)
      rw [maxOn_eq_if]
      by_cases h : rank a < rank other
      · rw [if_pos h, if_neg (not_le.2 h)]
      · rw [if_neg h, if_pos (not_lt.1 h)]

theorem firstBest?_eq_none_iff {l : List α} : firstBest? rank l = none ↔ l = [] := by
  rw [firstBest?_eq_maxOn?, ← Option.not_isSome_iff_eq_none, List.isSome_maxOn?_iff, not_not]

theorem firstBest?_append_cons {before after : List α} {a : α}
    (hbefore : ∀ b ∈ before, rank b < rank a) (hafter : ∀ b ∈ after, rank b ≤ rank a) :
    firstBest? rank (before ++ a :: after) = some a := by
  have hbehind : (after.maxOn? rank).elim a (maxOn rank a) = a := by
    cases hbest : after.maxOn? rank with
    | none => rfl
    | some other => exact maxOn_eq_left (hafter other (List.maxOn?_mem hbest))
  rw [firstBest?_eq_maxOn?, List.maxOn?_append, List.maxOn?_cons, hbehind]
  cases hbest : before.maxOn? rank with
  | none => rfl
  | some other =>
    show some (maxOn rank other a) = some a
    rw [maxOn_eq_right_of_lt (hbefore other (List.maxOn?_mem hbest))]

/-- What the first of the best is: it outranks all before it, and none after it outranks
    it. -/
theorem firstBest?_eq_some_iff {l : List α} {a : α} :
    firstBest? rank l = some a ↔ ∃ before after, l = before ++ a :: after ∧
      (∀ b ∈ before, rank b < rank a) ∧ ∀ b ∈ after, rank b ≤ rank a := by
  constructor
  · intro h
    have hbest : l.maxOn? rank = some a := (firstBest?_eq_maxOn? rank l).symm.trans h
    have hmax : ∀ b ∈ l, rank b ≤ rank a := by
      intro b hb
      have hle := List.le_apply_get_maxOn?_of_mem (f := rank) hb
      simpa only [hbest, Option.get_some] using hle
    -- The first element that is not below the best one is a best one too, so it is the same.
    have hsome : (l.find? fun b => rank a ≤ rank b).isSome = true :=
      List.find?_isSome.2 ⟨a, List.maxOn?_mem hbest, by simp⟩
    obtain ⟨c, hc⟩ := Option.isSome_iff_exists.1 hsome
    obtain ⟨hge, before, after, rfl, hbefore⟩ := List.find?_eq_some_iff_append.1 hc
    have hbelow : ∀ b ∈ before, rank b < rank c := by
      intro b hb
      exact (not_le.1 (by simpa using hbefore b hb)).trans_le (of_decide_eq_true hge)
    have hafter : ∀ b ∈ after, rank b ≤ rank c := by
      intro b hb
      exact (hmax b (by simp [hb])).trans (of_decide_eq_true hge)
    rw [firstBest?_append_cons rank hbelow hafter] at h
    obtain rfl := Option.some.inj h
    exact ⟨before, after, rfl, hbelow, hafter⟩
  · rintro ⟨before, after, rfl, hbefore, hafter⟩
    exact firstBest?_append_cons rank hbefore hafter

/-- The first of the best among the elements that pass a test. -/
theorem firstBest?_filter_eq_some_iff {p : α → Bool} {l : List α} {a : α} :
    firstBest? rank (l.filter p) = some a ↔ ∃ before after, l = before ++ a :: after ∧
      p a = true ∧ (∀ b ∈ before, p b = true → rank b < rank a) ∧
      ∀ b ∈ after, p b = true → rank b ≤ rank a := by
  rw [firstBest?_eq_some_iff]
  constructor
  · rintro ⟨before, after, heq, hbefore, hafter⟩
    obtain ⟨l₁, l₂, rfl, rfl, hrest⟩ := List.filter_eq_append_iff.1 heq
    obtain ⟨l₃, l₄, rfl, hfail, ha, rfl⟩ := List.filter_eq_cons_iff.1 hrest
    refine ⟨l₁ ++ l₃, l₄, by rw [List.append_assoc], ha, ?_, ?_⟩
    · intro b hb hp
      rcases List.mem_append.1 hb with hb | hb
      · exact hbefore b (List.mem_filter.2 ⟨hb, hp⟩)
      · exact absurd hp (hfail b hb)
    · intro b hb hp
      exact hafter b (List.mem_filter.2 ⟨hb, hp⟩)
  · rintro ⟨before, after, rfl, ha, hbefore, hafter⟩
    refine ⟨before.filter p, after.filter p, ?_, ?_, ?_⟩
    · rw [List.filter_append, List.filter_cons_of_pos ha]
    · intro b hb
      exact hbefore b (List.mem_filter.1 hb).1 (List.mem_filter.1 hb).2
    · intro b hb
      exact hafter b (List.mem_filter.1 hb).1 (List.mem_filter.1 hb).2

/-- The last of the best among the elements that pass a test. -/
theorem lastBest?_filter_eq_some_iff {p : α → Bool} {l : List α} {a : α} :
    lastBest? rank (l.filter p) = some a ↔ ∃ before after, l = before ++ a :: after ∧
      p a = true ∧ (∀ b ∈ before, p b = true → rank b ≤ rank a) ∧
      ∀ b ∈ after, p b = true → rank b < rank a := by
  rw [lastBest?, ← List.filter_reverse, firstBest?_filter_eq_some_iff]
  constructor
  · rintro ⟨before, after, heq, ha, hbefore, hafter⟩
    refine ⟨after.reverse, before.reverse, ?_, ha, ?_, ?_⟩
    · rw [← List.reverse_reverse l, heq, List.reverse_append, List.reverse_cons,
        List.append_assoc, List.singleton_append]
    · intro b hb
      exact hafter b (List.mem_reverse.1 hb)
    · intro b hb
      exact hbefore b (List.mem_reverse.1 hb)
  · rintro ⟨before, after, rfl, ha, hbefore, hafter⟩
    refine ⟨after.reverse, before.reverse, ?_, ha, ?_, ?_⟩
    · rw [List.reverse_append, List.reverse_cons, List.append_assoc, List.singleton_append]
    · intro b hb
      exact hafter b (List.mem_reverse.1 hb)
    · intro b hb
      exact hbefore b (List.mem_reverse.1 hb)

theorem lastBest?_isSome {l : List α} {a : α} (ha : a ∈ l) : ∃ b, lastBest? rank l = some b := by
  rw [← Option.ne_none_iff_exists', lastBest?, Ne, firstBest?_eq_none_iff, List.reverse_eq_nil_iff]
  exact List.ne_nil_of_mem ha

end

/-! ## The resolver's choice -/

/-- What the resolver compares: the context and then the stem, in bytes as written. -/
def Remapping.rank (r : Remapping) : Nat ×ₗ Nat :=
  toLex (r.contextSize, r.stem.utf8ByteSize)

namespace Resolution

theorem beats_iff (r other : Remapping) : beats r other = true ↔ other.rank < r.rank := by
  unfold beats Remapping.rank
  rw [Prod.Lex.toLex_lt_toLex, Bool.or_eq_true, Bool.and_eq_true, decide_eq_true_iff,
    decide_eq_true_iff, decide_eq_true_iff, eq_comm]

theorem mostSpecific?_eq (l : List Remapping) :
    mostSpecific? l = firstBest? Remapping.rank l := by
  induction l with
  | nil => rfl
  | cons r rest ih =>
    unfold mostSpecific? firstBest?
    rw [ih]
    cases firstBest? Remapping.rank rest with
    | none => rfl
    | some other => simp only [beats_iff]

/-- A remapping applies if the import starts with its stem and its context, if there is one,
    contains the importing file. -/
theorem applies_iff {project : Project} {importer : Path} {specifier : String} {r : Remapping} :
    applies project importer specifier r = true ↔ r.stem.toList <+: specifier.toList ∧
      ∀ context, project.contextPath? r = some context → context.contains importer = true := by
  have hsuffix : (r.suffix? specifier).isSome = true ↔ r.stem.toList <+: specifier.toList := by
    unfold Remapping.suffix?
    rw [← List.isPrefixOf_iff_prefix]
    split <;> simp_all
  unfold applies
  rw [Bool.and_eq_true, hsuffix]
  cases project.contextPath? r with
  | none => simp
  | some context => simp

/-- Which remapping the resolver uses: one that applies, outranks those before it that apply,
    and is not outranked by those after it. -/
theorem remapping?_eq_some_iff {project : Project} {importer : Path} {specifier : String}
    {r : Remapping} :
    remapping? project importer specifier = some r ↔
      ∃ before after, project.remappings = before ++ r :: after ∧
        applies project importer specifier r = true ∧
        (∀ o ∈ before, applies project importer specifier o = true → o.rank < r.rank) ∧
        ∀ o ∈ after, applies project importer specifier o = true → o.rank ≤ r.rank := by
  unfold remapping?
  rw [mostSpecific?_eq, firstBest?_filter_eq_some_iff]

/-- No remapping that applies outranks the one that is used. -/
theorem rank_le_of_remapping? {project : Project} {importer : Path} {specifier : String}
    {r : Remapping} (h : remapping? project importer specifier = some r) :
    r ∈ project.remappings ∧ applies project importer specifier r = true ∧
      ∀ o ∈ project.remappings, applies project importer specifier o = true →
        o.rank ≤ r.rank := by
  obtain ⟨before, after, heq, happlies, hbefore, hafter⟩ := remapping?_eq_some_iff.1 h
  refine ⟨by rw [heq]; simp, happlies, ?_⟩
  intro o ho happlies
  rw [heq] at ho
  rcases List.mem_append.1 ho with ho | ho
  · exact (hbefore o ho happlies).le
  · rcases List.mem_cons.1 ho with rfl | ho
    · exact le_rfl
    · exact hafter o ho happlies

end Resolution

end SolidityBuild
