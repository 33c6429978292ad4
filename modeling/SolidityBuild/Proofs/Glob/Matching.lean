import Mathlib.Data.List.Infix
import SolidityBuild.Proofs.Glob.Reading

/-! # Matching a glob: how the matched text is divided

    A wildcard takes a part of the text in front, and the other tokens match what remains. A
    token for one character takes that character. So a pattern matches what its tokens take
    one after the other.
-/

namespace SolidityBuild.Glob

variable {c : Char} {cs post : List Char} {token : GlobToken} {tokens : List GlobToken}

/-! ## Wildcards -/

theorem afterAny_eq_tails (cs : List Char) : afterAny cs = cs.tails := by
  induction cs with
  | nil => rfl
  | cons c cs ih => rw [afterAny, ih, List.tails]

theorem mem_afterAny_iff : post ∈ afterAny cs ↔ post <:+ cs := by
  rw [afterAny_eq_tails, List.mem_tails]

theorem mem_afterSlash_iff :
    post ∈ afterSlash cs ↔ post = [] ∨ ∃ pre, cs = pre ++ '/' :: post := by
  induction cs with
  | nil => simp [afterSlash]
  | cons c cs ih =>
    have hcons : (∃ pre, c :: cs = pre ++ '/' :: post) ↔
        c = '/' ∧ cs = post ∨ ∃ pre, cs = pre ++ '/' :: post := by
      constructor
      · intro ⟨pre, hpre⟩
        cases pre with
        | nil => exact .inl (List.cons_eq_cons.1 hpre)
        | cons _ pre => exact .inr ⟨pre, (List.cons_eq_cons.1 hpre).2⟩
      · intro h
        rcases h with ⟨hc, hcs⟩ | ⟨pre, hcs⟩
        · exact ⟨[], by rw [hc, hcs]; rfl⟩
        · exact ⟨c :: pre, by rw [hcs]; rfl⟩
    rw [hcons, afterSlash]
    by_cases hc : c = '/'
    · rw [if_pos hc, List.mem_cons, ih, or_left_comm, and_iff_right hc]
      exact or_congr_right (or_congr_left eq_comm)
    · rw [if_neg hc, ih, or_iff_right (a := c = '/' ∧ cs = post) fun h => hc h.1]

/-- `*` takes any part in front. -/
theorem matchesChars_anySequence_iff : matchesChars (.anySequence :: tokens) cs = true ↔
    ∃ pre post, cs = pre ++ post ∧ matchesChars tokens post = true := by
  rw [matchesChars, List.any_eq_true]
  simp only [mem_afterAny_iff]
  constructor
  · intro ⟨post, ⟨pre, hcs⟩, hpost⟩
    exact ⟨pre, post, hcs.symm, hpost⟩
  · intro ⟨pre, post, hcs, hpost⟩
    exact ⟨post, ⟨pre, hcs.symm⟩, hpost⟩

/-- `**` takes nothing, or a part up to a slash, or all. -/
theorem matchesChars_anySegments_iff : matchesChars (.anySegments :: tokens) cs = true ↔
    matchesChars tokens cs = true ∨ matchesChars tokens [] = true ∨
      ∃ pre post, cs = pre ++ '/' :: post ∧ matchesChars tokens post = true := by
  -- Nothing is among what may follow a slash, even where there is none.
  rw [matchesChars, List.any_cons, Bool.or_eq_true, List.any_eq_true]
  simp only [mem_afterSlash_iff]
  refine or_congr_right ?_
  constructor
  · intro ⟨post, hpost, hmatch⟩
    rcases hpost with rfl | ⟨pre, hcs⟩
    · exact .inl hmatch
    · exact .inr ⟨pre, post, hcs, hmatch⟩
  · intro h
    rcases h with hmatch | ⟨pre, post, hcs, hmatch⟩
    · exact ⟨[], .inl rfl, hmatch⟩
    · exact ⟨post, .inr ⟨pre, hcs⟩, hmatch⟩

/-! ## Single characters -/

/-- Whether a token takes one character. -/
def IsSingle (token : GlobToken) : Prop :=
  token ≠ .anySequence ∧ token ≠ .anySegments

theorem matchesChars_single_iff (h : IsSingle token) : matchesChars (token :: tokens) cs = true ↔
    ∃ c rest, cs = c :: rest ∧ matchesChar c token = true ∧ matchesChars tokens rest = true := by
  obtain ⟨hsequence, hsegments⟩ := h
  cases cs with
  | nil => cases token <;> simp_all [matchesChars]
  | cons c rest =>
    have hcons : matchesChars (token :: tokens) (c :: rest) =
        (matchesChar c token && matchesChars tokens rest) := by
      cases token <;> simp_all [matchesChars]
    rw [hcons, Bool.and_eq_true]
    constructor
    · intro ⟨hc, hrest⟩
      exact ⟨c, rest, rfl, hc, hrest⟩
    · intro ⟨c', rest', hcs, hc, hrest⟩
      obtain ⟨rfl, rfl⟩ := List.cons_eq_cons.1 hcs
      exact ⟨hc, hrest⟩

/-- A token that stands for a single character. -/
structure Means (token : GlobToken) (c : Char) : Prop where
  single : IsSingle token
  matches_iff : ∀ d, matchesChar d token = true ↔ d = c

theorem means_char (c : Char) : Means (.char c) c :=
  ⟨⟨nofun, nofun⟩, fun d => by simp [matchesChar]⟩

theorem means_escapeToken (c : Char) : Means (escapeToken c) c := by
  unfold escapeToken
  split
  · exact ⟨⟨nofun, nofun⟩, fun d => by simp [matchesChar, ClassItem.covers]⟩
  · exact means_char c

/-- Tokens that stand for the characters of a text take exactly this text. -/
theorem matchesChars_map_append_iff {f : Char → GlobToken} (hf : ∀ c, Means (f c) c)
    (text : List Char) : matchesChars (text.map f ++ tokens) cs = true ↔
      ∃ post, cs = text ++ post ∧ matchesChars tokens post = true := by
  induction text generalizing cs with
  | nil => simp
  | cons t text ih =>
    rw [List.map_cons, List.cons_append, matchesChars_single_iff (hf t).single]
    constructor
    · intro ⟨c, rest, hcs, hc, hrest⟩
      obtain ⟨post, hpost, hmatch⟩ := ih.1 hrest
      rw [(hf t).matches_iff] at hc
      exact ⟨post, by rw [hcs, hc, hpost]; rfl, hmatch⟩
    · intro ⟨post, hcs, hmatch⟩
      exact ⟨t, text ++ post, hcs, ((hf t).matches_iff t).2 rfl, ih.2 ⟨post, rfl, hmatch⟩⟩

end SolidityBuild.Glob
