import SolidityBuild.Proofs.Text.Affixes

/-! # Trimming: what is left of a text without the blanks around it

    A trimmed text neither starts nor ends with a blank. Trimming a text leaves the trimmed
    text that it consists of together with blanks at both ends, and there is only one.
-/

namespace SolidityBuild.Text

/-- A text that holds nothing but blanks. -/
def Blanks (cs : List Char) : Prop :=
  ∀ c ∈ cs, isBlank c = true

/-- A text that neither starts nor ends with a blank. -/
def Trimmed (cs : List Char) : Prop :=
  (∀ c ∈ cs.head?, isBlank c = false) ∧ ∀ c ∈ cs.getLast?, isBlank c = false

instance (cs : List Char) : Decidable (Blanks cs) :=
  decidable_of_iff (cs.all isBlank = true) List.all_eq_true

variable {before cs ds after : List Char}

theorem blanks_nil : Blanks [] := by
  intro c hc
  cases hc

theorem Blanks.append (hcs : Blanks cs) (hds : Blanks ds) : Blanks (cs ++ ds) := by
  intro c hc
  rcases List.mem_append.1 hc with hc | hc
  · exact hcs c hc
  · exact hds c hc

theorem trimmed_nil : Trimmed [] := by
  constructor
  · intro c hc
    cases hc
  · intro c hc
    cases hc

/-- Trimmed texts with a separator between them, if that is no blank. -/
theorem Trimmed.append_cons {sep : Char} (hcs : Trimmed cs) (hsep : isBlank sep = false)
    (hds : Trimmed ds) : Trimmed (cs ++ sep :: ds) := by
  constructor
  · cases cs with
    | nil =>
      intro c hc
      obtain rfl := Option.some.inj hc
      exact hsep
    | cons c cs => exact hcs.1
  · rw [List.getLast?_append, List.getLast?_cons, Option.some_or]
    cases hlast : ds.getLast? with
    | none =>
      intro c hc
      obtain rfl := Option.some.inj hc
      exact hsep
    | some d =>
      intro c hc
      obtain rfl := Option.some.inj hc
      exact hds.2 d hlast

/-- Blanks in front of a text that starts with something else are dropped, and no more. -/
theorem dropWhile_blanks (hbefore : Blanks before)
    (hhead : ∀ c ∈ cs.head?, isBlank c = false) :
    (before ++ cs).dropWhile isBlank = cs := by
  rw [List.dropWhile_append_of_pos hbefore]
  cases cs with
  | nil => rfl
  | cons c cs =>
    have hc := hhead c rfl
    rw [List.dropWhile_cons_of_neg (by simp [hc])]

/-- What is left of a text without the blanks at its end. -/
theorem trimEndChars_eq_iff : trimEndChars cs = ds ↔
    (∀ c ∈ ds.getLast?, isBlank c = false) ∧ ∃ after, Blanks after ∧ cs = ds ++ after :=
  dropEndWhile_eq_iff

/-- A trimmed text is what trimming leaves of it with blanks around it. -/
theorem trimChars_surrounded (hbefore : Blanks before) (hafter : Blanks after)
    (h : Trimmed cs) : trimChars (before ++ cs ++ after) = cs := by
  unfold trimChars
  cases cs with
  | nil =>
    -- Only blanks are there, and dropping those in front leaves nothing.
    have hnone : (before ++ [] ++ after).dropWhile isBlank = [] := by
      rw [List.append_nil, ← List.append_nil (before ++ after)]
      exact dropWhile_blanks (hbefore.append hafter) (by simp)
    rw [hnone]
    rfl
  | cons c cs =>
    rw [List.append_assoc, dropWhile_blanks hbefore]
    · exact trimEndChars_eq_iff.2 ⟨h.2, after, hafter, rfl⟩
    · exact h.1

/-- Trimming takes nothing but blanks away. -/
theorem exists_trimChars (cs : List Char) :
    ∃ before after, Blanks before ∧ Blanks after ∧ cs = before ++ trimChars cs ++ after := by
  obtain ⟨-, after, hafter, hcs⟩ := trimEndChars_eq_iff.1 (rfl : trimChars cs = trimChars cs)
  refine ⟨cs.takeWhile isBlank, after, ?_, hafter, ?_⟩
  · exact List.all_eq_true.1 List.all_takeWhile
  · rw [List.append_assoc, ← hcs, List.takeWhile_append_dropWhile]

theorem trimmed_trimChars (cs : List Char) : Trimmed (trimChars cs) := by
  obtain ⟨hlast, after, -, hcs⟩ := trimEndChars_eq_iff.1 (rfl : trimChars cs = trimChars cs)
  refine ⟨?_, hlast⟩
  -- What is left starts like the text without the blanks in front of it.
  intro c hc
  have hhead := List.head?_dropWhile_not isBlank cs
  rw [hcs, List.head?_append, show (trimChars cs).head? = some c from hc] at hhead
  exact hhead

/-- What trimming leaves. -/
theorem trimChars_eq_iff : trimChars cs = ds ↔
    Trimmed ds ∧ ∃ before after, Blanks before ∧ Blanks after ∧ cs = before ++ ds ++ after := by
  constructor
  · rintro rfl
    exact ⟨trimmed_trimChars cs, exists_trimChars cs⟩
  · rintro ⟨h, before, after, hbefore, hafter, rfl⟩
    exact trimChars_surrounded hbefore hafter h

theorem Trimmed.trimChars_eq (h : Trimmed cs) : trimChars cs = cs :=
  trimChars_eq_iff.2 ⟨h, [], [], blanks_nil, blanks_nil, by simp⟩

/-- Blanks around a text make no difference to what trimming leaves. -/
theorem trimChars_append (hbefore : Blanks before) (hafter : Blanks after) (cs : List Char) :
    trimChars (before ++ cs ++ after) = trimChars cs := by
  -- The blanks that trimming takes away join those around the text.
  obtain ⟨front, back, hfront, hback, hcs⟩ := exists_trimChars cs
  refine trimChars_eq_iff.2 ⟨trimmed_trimChars cs, before ++ front, back ++ after,
    hbefore.append hfront, hback.append hafter, ?_⟩
  calc before ++ cs ++ after
      = before ++ (front ++ trimChars cs ++ back) ++ after := by rw [← hcs]
    _ = before ++ front ++ trimChars cs ++ (back ++ after) := by simp only [List.append_assoc]

theorem length_trimChars_le (cs : List Char) : (trimChars cs).length ≤ cs.length := by
  obtain ⟨before, after, -, -, hcs⟩ := exists_trimChars cs
  have hlengths := congrArg List.length hcs
  simp only [List.length_append] at hlengths
  omega

theorem mem_of_mem_trimChars {c : Char} (h : c ∈ trimChars cs) : c ∈ cs := by
  obtain ⟨before, after, -, -, hcs⟩ := exists_trimChars cs
  rw [hcs]
  exact List.mem_append_left _ (List.mem_append_right _ h)

/-- A character that is no blank is left. -/
theorem mem_trimChars {c : Char} (hc : isBlank c = false) (h : c ∈ cs) : c ∈ trimChars cs := by
  obtain ⟨before, after, hbefore, hafter, hcs⟩ := exists_trimChars cs
  have hnot : ∀ ds, Blanks ds → c ∉ ds := by
    intro ds hds hmem
    rw [hds c hmem] at hc
    cases hc
  rw [hcs, List.mem_append, List.mem_append] at h
  rcases h with (h | h) | h
  · exact absurd h (hnot before hbefore)
  · exact h
  · exact absurd h (hnot after hafter)

/-- Nothing is left of blanks, and of nothing else. -/
theorem trimChars_eq_nil_iff : trimChars cs = [] ↔ Blanks cs := by
  constructor
  · intro h
    obtain ⟨before, after, hbefore, hafter, hcs⟩ := exists_trimChars cs
    rw [h, List.append_nil] at hcs
    rw [hcs]
    exact hbefore.append hafter
  · intro h
    exact trimChars_eq_iff.2 ⟨trimmed_nil, cs, [], h, blanks_nil, by simp⟩

/-- A character that is no blank is the first one left if only blanks stand in front of it. -/
theorem head?_trimChars_iff {c : Char} (hc : isBlank c = false) :
    (trimChars cs).head? = some c ↔ ∃ before rest, Blanks before ∧ cs = before ++ c :: rest := by
  constructor
  · intro h
    obtain ⟨before, after, hbefore, -, hcs⟩ := exists_trimChars cs
    obtain ⟨rest, hrest⟩ := List.head?_eq_some_iff.1 h
    refine ⟨before, rest ++ after, hbefore, ?_⟩
    rw [hcs, hrest, List.append_assoc, List.cons_append]
  · rintro ⟨before, rest, hbefore, rfl⟩
    have hsame := trimChars_append hbefore blanks_nil (c :: rest)
    rw [List.append_nil] at hsame
    rw [hsame]
    obtain ⟨front, back, hfront, hback, hrest⟩ := exists_trimChars (c :: rest)
    -- No blank is taken away in front of a character that is none.
    cases front with
    | nil =>
      rw [List.nil_append] at hrest
      cases hleft : trimChars (c :: rest) with
      | nil =>
        rw [trimChars_eq_nil_iff.1 hleft c (List.mem_cons_self ..)] at hc
        cases hc
      | cons d ds =>
        rw [hleft] at hrest
        rw [(List.cons.inj hrest).1]
        rfl
    | cons d front =>
      obtain rfl := (List.cons.inj hrest).1
      rw [hfront c (List.mem_cons_self ..)] at hc
      cases hc

end SolidityBuild.Text
