import Mathlib.Data.List.Forall2
import SolidityBuild.Proofs.Glob.Matching

/-! # Blurring: how much of its own spelling a glob can be made to match

    A glob with wildcards matches more than one text. Where it matches a text, it also matches
    a blurred one, in which the wildcards take no character that a glob is spelled with; then
    only the other tokens account for such characters, and they are fewer than the pattern has
    itself.
-/

namespace SolidityBuild.Glob

variable {c c' : Char} {cs cs' rest : List Char} {before : Option Char}
  {token : GlobToken} {tokens : List GlobToken}

/-! ## Characters that a match needs -/

/-- The characters that wildcards and classes are spelled with. -/
def isSyntax (c : Char) : Bool :=
  c = '?' || c = '*' || c = '[' || c = ']'

/-- Whether a token may need one of these characters in a text that it matches. -/
def needsSyntax : GlobToken → Bool
  | .char c => isSyntax c
  | .within _ | .except _ => true
  | .anyChar | .anySequence | .anySegments => false

theorem needsSyntax_of_isClass (h : IsClass token) : needsSyntax token = true := by
  cases token <;> first | rfl | cases h

/-! ## Two stars at the end -/

/-- Two stars at the end of a text stay there when what ends with no star is taken in front. -/
theorem stars_suffix (front : List Char) (h : ['*', '*'] <:+ front ++ c :: rest)
    (hc : c ≠ '*') : ['*', '*'] <:+ rest := by
  have hnot : c ∉ ['*', '*'] := by simpa using hc
  rcases List.suffix_or_suffix_of_suffix h (List.suffix_append front (c :: rest)) with hin | hout
  · rcases List.suffix_cons_iff.1 hin with heq | hrest
    · rw [heq] at hnot
      exact absurd (List.mem_cons_self ..) hnot
    · exact hrest
  · exact absurd (hout.subset (List.mem_cons_self ..)) hnot

/-- They also stay there behind a single star. -/
theorem stars_suffix_star (h : ['*', '*'] <:+ '*' :: rest) (hrest : rest.head? ≠ some '*') :
    ['*', '*'] <:+ rest := by
  rcases List.suffix_cons_iff.1 h with heq | hsuffix
  · cases heq
    exact absurd rfl hrest
  · exact hsuffix

/-- A pattern that ends with them is spelled with two more of these characters than its tokens
    need, and with three more if anything else in it is no plain character. -/
theorem Reads.countP_add_le (h : Reads before cs tokens) (hstars : ['*', '*'] <:+ cs) :
    tokens.countP needsSyntax + 3 ≤ cs.countP isSyntax ∨
      tokens.countP needsSyntax + 2 ≤ cs.countP isSyntax ∧
        ∃ front, cs = front ++ ['*', '*'] ∧ ∀ c ∈ front, isSpecial c = false := by
  have htwo : ∀ {n m : Nat} {P : Prop}, n + 3 ≤ m ∨ n + 2 ≤ m ∧ P → n + 2 ≤ m := by
    intro n m P hcases
    rcases hcases with hthree | ⟨htwo, -⟩ <;> omega
  induction h with
  | nil => cases List.suffix_nil.1 hstars
  | @char before c rest tokens hc h ih =>
    have hne : c ≠ '*' := by
      intro heq
      rw [heq] at hc
      cases hc
    have hsame : needsSyntax (.char c) = isSyntax c := rfl
    rw [List.countP_cons, List.countP_cons, hsame]
    rcases ih (stars_suffix [] hstars hne) with hthree | ⟨htwo, front, hfront, hplain⟩
    · left
      omega
    · right
      refine ⟨by omega, c :: front, by rw [hfront]; rfl, ?_⟩
      exact List.forall_mem_cons.2 ⟨hc, hplain⟩
  | lastSegments hbefore => exact .inr ⟨Nat.le_refl 2, [], rfl, nofun⟩
  -- Any other token is spelled with one more of these characters than it needs.
  | anyChar h ih =>
    have hrest := htwo (ih (stars_suffix [] hstars (by decide)))
    rw [List.countP_cons_of_neg (by decide), List.countP_cons_of_pos (by decide)]
    left
    omega
  | anySequence hrest h ih =>
    have hrest := htwo (ih (stars_suffix_star hstars hrest))
    rw [List.countP_cons_of_neg (by decide), List.countP_cons_of_pos (by decide)]
    left
    omega
  | anySegments hbefore h ih =>
    have hrest := htwo (ih (stars_suffix ['*', '*'] hstars (by decide)))
    rw [List.countP_cons_of_neg (by decide), List.countP_cons_of_pos (by decide),
      List.countP_cons_of_pos (by decide), List.countP_cons_of_neg (by decide)]
    left
    omega
  | ofClass hclass h ih =>
    obtain ⟨htoken, content, -, rfl⟩ := readClass?_spec hclass
    rw [← List.cons_append] at hstars
    have hrest := htwo (ih (stars_suffix _ hstars (by decide)))
    rw [List.countP_cons_of_pos (needsSyntax_of_isClass htoken),
      List.countP_cons_of_pos (by decide), List.countP_append,
      List.countP_cons_of_pos (by decide)]
    left
    omega

/-! ## Blurred texts -/

/-- A character that no glob is spelled with, in place of one that is. -/
def blur (c : Char) : Char :=
  if isSyntax c then 'x' else c

/-- A character is kept or blurred. -/
def Blurs (c c' : Char) : Prop :=
  c' = c ∨ c' = blur c

theorem isSyntax_blur (c : Char) : isSyntax (blur c) = false := by
  unfold blur
  split
  · rfl
  · rename_i hc
    exact Bool.eq_false_iff.2 hc

theorem countP_map_blur (cs : List Char) : (cs.map blur).countP isSyntax = 0 := by
  rw [List.countP_map, List.countP_eq_zero]
  intro c _
  simp [isSyntax_blur]

theorem blurs_map (cs : List Char) : List.Forall₂ Blurs cs (cs.map blur) := by
  rw [List.forall₂_map_right_iff, List.forall₂_same]
  intro c _
  exact .inr rfl

/-- A token for a single character lets one through that it may need. -/
theorem exists_blurs_of_matchesChar (hsingle : IsSingle token) (h : matchesChar c token = true) :
    ∃ c', matchesChar c' token = true ∧ Blurs c c' ∧
      (isSyntax c' = true → needsSyntax token = true) := by
  cases token with
  | char t =>
    have heq : c = t := by simpa [matchesChar] using h
    subst heq
    exact ⟨c, h, .inl rfl, id⟩
  | anyChar =>
    refine ⟨blur c, rfl, .inr rfl, ?_⟩
    intro hblur
    rw [isSyntax_blur] at hblur
    cases hblur
  | anySequence => exact absurd rfl hsingle.1
  | anySegments => exact absurd rfl hsingle.2
  | within items => exact ⟨c, h, .inl rfl, fun _ => rfl⟩
  | except items => exact ⟨c, h, .inl rfl, fun _ => rfl⟩

/-- **Blurring**: what tokens match can be blurred to a text that they match, and that has no
    more characters of patterns than they need. -/
theorem exists_blurred (h : matchesChars tokens cs = true) :
    ∃ cs', matchesChars tokens cs' = true ∧ List.Forall₂ Blurs cs cs' ∧
      cs'.countP isSyntax ≤ tokens.countP needsSyntax := by
  -- What a wildcard takes is blurred as a whole; other tokens keep the character they take.
  induction tokens generalizing cs with
  | nil =>
    rw [matchesChars, List.isEmpty_iff] at h
    subst h
    exact ⟨[], rfl, .nil, Nat.le_refl 0⟩
  | cons token tokens ih =>
    by_cases hsequence : token = .anySequence
    · subst hsequence
      obtain ⟨pre, post, rfl, hpost⟩ := matchesChars_anySequence_iff.1 h
      obtain ⟨post', hmatch, hblurs, hcount⟩ := ih hpost
      refine ⟨pre.map blur ++ post', matchesChars_anySequence_iff.2 ⟨_, _, rfl, hmatch⟩,
        List.rel_append (blurs_map pre) hblurs, ?_⟩
      rw [List.countP_append, countP_map_blur, Nat.zero_add, List.countP_cons_of_neg (by decide)]
      exact hcount
    by_cases hsegments : token = .anySegments
    · subst hsegments
      rcases matchesChars_anySegments_iff.1 h with hall | hnone | ⟨pre, post, rfl, hpost⟩
      · obtain ⟨cs', hmatch, hblurs, hcount⟩ := ih hall
        refine ⟨cs', matchesChars_anySegments_iff.2 (.inl hmatch), hblurs, ?_⟩
        rw [List.countP_cons_of_neg (by decide)]
        exact hcount
      · refine ⟨cs.map blur, matchesChars_anySegments_iff.2 (.inr (.inl hnone)), blurs_map cs, ?_⟩
        rw [countP_map_blur]
        exact Nat.zero_le _
      · obtain ⟨post', hmatch, hblurs, hcount⟩ := ih hpost
        refine ⟨pre.map blur ++ '/' :: post',
          matchesChars_anySegments_iff.2 (.inr (.inr ⟨_, _, rfl, hmatch⟩)),
          List.rel_append (blurs_map pre) (.cons (.inl rfl) hblurs), ?_⟩
        rw [List.countP_append, countP_map_blur, Nat.zero_add, List.countP_cons_of_neg (by decide),
          List.countP_cons_of_neg (by decide)]
        exact hcount
    have hsingle : IsSingle token := ⟨hsequence, hsegments⟩
    obtain ⟨c, rest, rfl, hc, hrest⟩ := (matchesChars_single_iff hsingle).1 h
    obtain ⟨c', hc', hblur, hneeds⟩ := exists_blurs_of_matchesChar hsingle hc
    obtain ⟨rest', hmatch, hblurs, hcount⟩ := ih hrest
    refine ⟨c' :: rest', (matchesChars_single_iff hsingle).2 ⟨_, _, rfl, hc', hmatch⟩,
      .cons hblur hblurs, ?_⟩
    rw [List.countP_cons, List.countP_cons]
    by_cases hsyntax : isSyntax c' = true
    · rw [if_pos hsyntax, if_pos (hneeds hsyntax)]
      exact Nat.add_le_add_right hcount 1
    · rw [if_neg hsyntax]
      exact Nat.le_trans hcount (Nat.le_add_right ..)

end SolidityBuild.Glob
