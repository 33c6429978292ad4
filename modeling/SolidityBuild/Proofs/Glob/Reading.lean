import SolidityBuild.Glob.Pattern

/-! # Reading a glob: which tokens a pattern stands for

    A pattern is read token by token; only the character before two stars matters for how the
    rest is read. The positions are kept for messages alone, so which tokens a pattern has can
    be said without them (`Reads`).
-/

namespace SolidityBuild.Glob

variable {c : Char} {cs rest after : List Char} {token : GlobToken} {tokens : List GlobToken}
  {before : Option Char} {position : Nat}

/-! ## Tokens -/

/-- Whether a token stands for one character of a class. -/
def IsClass : GlobToken → Prop
  | .within _ => True
  | .except _ => True
  | _ => False

/-- The characters that stand for themselves only as part of a class. -/
def isSpecial (c : Char) : Bool :=
  c = '?' || c = '*' || c = '['

/-- A pattern, and the character before it, is read as the tokens. -/
inductive Reads : Option Char → List Char → List GlobToken → Prop
  | nil {before : Option Char} : Reads before [] []
  | char {before : Option Char} {c : Char} {rest : List Char} {tokens : List GlobToken}
      (hc : isSpecial c = false) (h : Reads (some c) rest tokens) :
      Reads before (c :: rest) (.char c :: tokens)
  | anyChar {before : Option Char} {rest : List Char} {tokens : List GlobToken}
      (h : Reads (some '?') rest tokens) : Reads before ('?' :: rest) (.anyChar :: tokens)
  | anySequence {before : Option Char} {rest : List Char} {tokens : List GlobToken}
      (hrest : rest.head? ≠ some '*') (h : Reads (some '*') rest tokens) :
      Reads before ('*' :: rest) (.anySequence :: tokens)
  | lastSegments {before : Option Char} (hbefore : ∀ c ∈ before, c = '/') :
      Reads before ['*', '*'] [.anySegments]
  | anySegments {before : Option Char} {rest : List Char} {tokens : List GlobToken}
      (hbefore : ∀ c ∈ before, c = '/') (h : Reads (some '/') rest tokens) :
      Reads before ('*' :: '*' :: '/' :: rest) (.anySegments :: tokens)
  | ofClass {before : Option Char} {cs rest : List Char} {token : GlobToken}
      {tokens : List GlobToken} (hclass : readClass? cs = some (token, rest))
      (h : Reads (some ']') rest tokens) : Reads before ('[' :: cs) (token :: tokens)

/-! ## Reading one token -/

/-- A class ends with a closing bracket, after at least one character. -/
theorem readClass?_spec (h : readClass? cs = some (token, rest)) :
    IsClass token ∧ ∃ content, content ≠ [] ∧ cs = content ++ ']' :: rest := by
  unfold readClass? at h
  split at h
  · obtain ⟨⟨more, after⟩, hsplit, heq⟩ := Option.map_eq_some_iff.1 h
    cases heq
    obtain ⟨-, hrest⟩ := Text.splitFirst_eq_some_iff.1 hsplit
    exact ⟨trivial, '!' :: _ :: more, List.cons_ne_nil _ _, by rw [hrest]; rfl⟩
  · cases h
  · obtain ⟨⟨more, after⟩, hsplit, heq⟩ := Option.map_eq_some_iff.1 h
    cases heq
    obtain ⟨-, hrest⟩ := Text.splitFirst_eq_some_iff.1 hsplit
    exact ⟨trivial, _ :: more, List.cons_ne_nil _ _, by rw [hrest]; rfl⟩
  · cases h

theorem readSegments_eq_ok_iff : readSegments position before after = .ok rest ↔
    (∀ c ∈ before, c = '/') ∧ (after = [] ∧ rest = [] ∨ after = '/' :: rest) := by
  have hbefore : before.all (· = '/') = true ↔ ∀ c ∈ before, c = '/' := by
    cases before <;> simp
  unfold readSegments
  by_cases h : ∀ c ∈ before, c = '/'
  · rw [if_pos (hbefore.2 h), and_iff_right h]
    split <;> simp_all
  · rw [if_neg (fun hall => h (hbefore.1 hall))]
    constructor
    · intro herror
      cases herror
    · intro ⟨hall, _⟩
      exact absurd hall h

/-- The character before what follows a token is the last one of the token. -/
theorem getElem?_before (c last : Char) (front after : List Char) :
    (c :: (front ++ last :: after))[(front ++ last :: after).length - after.length]? =
      some last := by
  have hindex : (front ++ last :: after).length - after.length = front.length + 1 := by
    rw [List.length_append, List.length_cons]
    omega
  rw [hindex, List.getElem?_cons_succ, List.getElem?_append_right (Nat.le_refl _), Nat.sub_self]
  rfl

/-- One token is read, and then the others after its last character. -/
theorem reads_of_readToken (h : readToken position before c rest = .ok (token, after))
    (hreads : Reads ((c :: rest)[rest.length - after.length]?) after tokens) :
    Reads before (c :: rest) (token :: tokens) := by
  unfold readToken at h
  split at h
  · cases h
    rw [Nat.sub_self] at hreads
    exact .anyChar hreads
  · split at h
    · cases h
    · rename_i following _
      cases hsegments : readSegments position before following with
      | error e =>
        rw [hsegments] at h
        cases h
      | ok remaining =>
        rw [hsegments] at h
        cases h
        obtain ⟨hbefore, ⟨rfl, rfl⟩ | rfl⟩ := readSegments_eq_ok_iff.1 hsegments
        · cases tokens with
          | nil => exact .lastSegments hbefore
          | cons token tokens => cases hreads
        · have hlast := getElem?_before '*' '/' ['*'] after
          rw [List.singleton_append] at hlast
          rw [hlast] at hreads
          exact .anySegments hbefore hreads
    · rename_i hthree htwo
      cases h
      rw [Nat.sub_self] at hreads
      refine .anySequence ?_ hreads
      intro hhead
      obtain ⟨more, rfl⟩ := List.head?_eq_some_iff.1 hhead
      exact htwo more rfl
  · split at h
    · rename_i hclass
      cases h
      obtain ⟨-, content, -, rfl⟩ := readClass?_spec hclass
      rw [getElem?_before] at hreads
      exact .ofClass hclass hreads
    · cases h
  · rename_i hany hstar hbracket
    cases h
    rw [Nat.sub_self] at hreads
    refine .char ?_ hreads
    simp only [isSpecial, Bool.or_eq_false_iff, decide_eq_false_iff_not]
    exact ⟨⟨hany, hstar⟩, hbracket⟩

/-! ## Reading all tokens -/

theorem reads_of_readTokens (h : readTokens position before cs = .ok tokens) :
    Reads before cs tokens := by
  fun_induction readTokens position before cs generalizing tokens with
  | case1 =>
    cases h
    exact .nil
  | case2 => cases h
  | case3 => cases h
  | case4 position before c rest token after htoken taken more hmore =>
    rename_i ih
    cases h
    exact reads_of_readToken htoken (ih hmore)

/-- Where one token is read and then others, all are. -/
theorem readTokens_cons (h : readToken position before c rest = .ok (token, after))
    (hrest : readTokens (position + (rest.length - after.length) + 1)
      ((c :: rest)[rest.length - after.length]?) after = .ok tokens) :
    readTokens position before (c :: rest) = .ok (token :: tokens) := by
  rw [readTokens]
  split
  · rename_i e herror
    rw [h] at herror
    cases herror
  · rename_i token' after' htoken
    rw [h] at htoken
    cases htoken
    dsimp only
    rw [hrest]

theorem readTokens_of_reads (h : Reads before cs tokens) (position : Nat) :
    readTokens position before cs = .ok tokens := by
  induction h generalizing position with
  | nil => rw [readTokens]
  | @char before c rest tokens hc h ih =>
    have htoken : readToken position before c rest = .ok (.char c, rest) := by
      unfold readToken
      split <;> simp_all [isSpecial]
    refine readTokens_cons htoken ?_
    rw [Nat.sub_self]
    exact ih _
  | @anyChar before rest tokens h ih =>
    have htoken : readToken position before '?' rest = .ok (.anyChar, rest) := rfl
    refine readTokens_cons htoken ?_
    rw [Nat.sub_self]
    exact ih _
  | @anySequence before rest tokens hrest h ih =>
    have htoken : readToken position before '*' rest = .ok (.anySequence, rest) := by
      cases rest with
      | nil => rfl
      | cons next more =>
        have hnext : next ≠ '*' := fun heq => hrest (congrArg some heq)
        simp [readToken, hnext]
    refine readTokens_cons htoken ?_
    rw [Nat.sub_self]
    exact ih _
  | @lastSegments before hbefore =>
    have hsegments : readSegments position before [] = .ok [] :=
      readSegments_eq_ok_iff.2 ⟨hbefore, .inl ⟨rfl, rfl⟩⟩
    have htoken : readToken position before '*' ['*'] = .ok (.anySegments, []) := by
      simp [readToken, hsegments, Except.map]
    refine readTokens_cons htoken ?_
    rw [readTokens]
  | @anySegments before rest tokens hbefore h ih =>
    have hsegments : readSegments position before ('/' :: rest) = .ok rest :=
      readSegments_eq_ok_iff.2 ⟨hbefore, .inr rfl⟩
    have htoken : readToken position before '*' ('*' :: '/' :: rest) =
        .ok (.anySegments, rest) := by
      simp [readToken, hsegments, Except.map]
    have hlast := getElem?_before '*' '/' ['*'] rest
    rw [List.singleton_append] at hlast
    refine readTokens_cons htoken ?_
    rw [hlast]
    exact ih _
  | @ofClass before cs rest token tokens hclass h ih =>
    obtain ⟨-, content, -, rfl⟩ := readClass?_spec hclass
    have htoken : readToken position before '[' (content ++ ']' :: rest) = .ok (token, rest) := by
      simp [readToken, hclass]
    refine readTokens_cons htoken ?_
    rw [getElem?_before]
    exact ih _

/-- **Reading**: a pattern is accepted exactly if it is read as some tokens, and they are the
    glob. -/
theorem ofChars_eq_ok_iff {g : Glob} : ofChars cs = .ok g ↔ Reads none cs g.tokens := by
  unfold ofChars
  constructor
  · intro h
    cases htokens : readTokens 0 none cs with
    | error e =>
      rw [htokens] at h
      cases h
    | ok tokens =>
      rw [htokens] at h
      cases h
      exact reads_of_readTokens htokens
  · intro h
    rw [readTokens_of_reads h]
    rfl

/-! ## Texts in a pattern -/

/-- The token for a character that is escaped. -/
def escapeToken (c : Char) : GlobToken :=
  if c = '?' || c = '*' || c = '[' || c = ']' then .within [.single c] else .char c

/-- A text without special characters is read as itself. -/
theorem Reads.plain_append (hcs : ∀ c ∈ cs, isSpecial c = false)
    (h : ∀ before, Reads before rest tokens) :
    Reads before (cs ++ rest) (cs.map .char ++ tokens) := by
  induction cs generalizing before with
  | nil => exact h before
  | cons c cs ih =>
    exact .char (hcs c (List.mem_cons_self ..)) (ih fun d hd => hcs d (List.mem_cons_of_mem _ hd))

theorem Reads.escapeChar_append (c : Char) (h : ∀ before, Reads before rest tokens) :
    Reads before (escapeChar c ++ rest) (escapeToken c :: tokens) := by
  unfold escapeChar escapeToken
  by_cases hc : (c = '?' || c = '*' || c = '[' || c = ']') = true
  · rw [if_pos hc, if_pos hc]
    have hclass : readClass? (c :: ']' :: rest) = some (.within [.single c], rest) := by
      have hbang : c ≠ '!' := by
        intro heq
        rw [heq] at hc
        exact absurd hc (by decide)
      simp [readClass?, hbang, Text.splitFirst, classItems]
    exact .ofClass hclass (h _)
  · rw [if_neg hc, if_neg hc]
    refine .char ?_ (h _)
    simp only [Bool.not_eq_true, Bool.or_eq_false_iff] at hc
    simp [isSpecial, hc]

/-- An escaped text is read as one token for each of its characters. -/
theorem Reads.escape_append (h : ∀ before, Reads before rest tokens) :
    Reads before (escape cs ++ rest) (cs.map escapeToken ++ tokens) := by
  induction cs generalizing before with
  | nil => exact h before
  | cons c cs ih =>
    have hescape : escape (c :: cs) ++ rest = escapeChar c ++ (escape cs ++ rest) := by
      rw [escape, List.flatMap_cons, List.append_assoc]
      rfl
    rw [hescape]
    exact .escapeChar_append c fun _ => ih

end SolidityBuild.Glob
