import SolidityBuild.Proofs.Source.Lexeme

/-! # Blanking: what blanking the comments of a text changes

    A character in a comment becomes a space, unless it is a line feed, and every other
    character stays where it is. Where the comments are is told by the lexemes. Of the
    comments only their places and their line feeds are left, and no comment is found in the
    blanked text.
-/

namespace SolidityBuild.Source

/-! ## Where the comments are -/

/-- Whether a lexeme is a comment. -/
def Lexeme.isComment : Lexeme → Bool
  | comment _ => true
  | _ => false

/-- Where the comments among lexemes start and end, if the first lexeme starts at `start`. -/
def extents (start : Nat) : List Lexeme → List (Nat × Nat)
  | [] => []
  | t :: ts =>
    let stop := start + t.written.length
    if t.isComment then (start, stop) :: extents stop ts else extents stop ts

/-- Where the comments of a text start and end. -/
def comments (cs : List Char) : List (Nat × Nat) :=
  extents 0 (lexemes cs)

/-- Whether a place lies between the start and the end of one of some extents. -/
def Within (es : List (Nat × Nat)) (i : Nat) : Prop :=
  ∃ e ∈ es, e.1 ≤ i ∧ i < e.2

instance (es : List (Nat × Nat)) (i : Nat) : Decidable (Within es i) :=
  inferInstanceAs (Decidable (∃ e ∈ es, e.1 ≤ i ∧ i < e.2))

variable {t : Lexeme} {ts : List Lexeme} {start i : Nat} {cs : List Char}

theorem extents_of_comment (ht : t.isComment = true) : extents start (t :: ts) =
    (start, start + t.written.length) :: extents (start + t.written.length) ts := by
  rw [extents, if_pos ht]

theorem extents_of_other (ht : ¬t.isComment = true) : extents start (t :: ts) =
    extents (start + t.written.length) ts := by
  rw [extents, if_neg ht]

theorem start_le_of_mem_extents {e : Nat × Nat} (h : e ∈ extents start ts) : start ≤ e.1 := by
  induction ts generalizing start with
  | nil => cases h
  | cons t ts ih =>
    by_cases ht : t.isComment = true
    · rw [extents_of_comment ht] at h
      rcases List.mem_cons.1 h with rfl | h
      · exact Nat.le_refl _
      · have hle := ih h
        omega
    · rw [extents_of_other ht] at h
      have hle := ih h
      omega

/-- Inside the first lexeme, that one decides. -/
theorem within_first_iff (hi : i < t.written.length) :
    Within (extents start (t :: ts)) (start + i) ↔ t.isComment = true := by
  -- The comments behind it start only where it ends.
  have hlater : ¬Within (extents (start + t.written.length) ts) (start + i) := by
    rintro ⟨e, he, hle, -⟩
    have hstart := start_le_of_mem_extents he
    omega
  by_cases ht : t.isComment = true
  · rw [extents_of_comment ht]
    refine iff_of_true ⟨_, List.mem_cons_self .., ?_, ?_⟩ ht
    · show start ≤ start + i
      omega
    · show start + i < start + t.written.length
      omega
  · rw [extents_of_other ht]
    exact iff_of_false hlater ht

/-- Behind the first lexeme, the others decide. -/
theorem within_later_iff :
    Within (extents start (t :: ts)) (start + (t.written.length + i)) ↔
      Within (extents (start + t.written.length) ts) (start + t.written.length + i) := by
  rw [← Nat.add_assoc]
  by_cases ht : t.isComment = true
  · rw [extents_of_comment ht]
    constructor
    · rintro ⟨e, he, hle, hlt⟩
      rcases List.mem_cons.1 he with rfl | he
      · simp only at hlt
        omega
      · exact ⟨e, he, hle, hlt⟩
    · rintro ⟨e, he, hle, hlt⟩
      exact ⟨e, List.mem_cons_of_mem _ he, hle, hlt⟩
  · rw [extents_of_other ht]

/-! ## What stands at a place -/

theorem Lexeme.blanked_eq_map (t : Lexeme) : t.blanked = t.written.map (blank t.isComment) := by
  have hkept : ∀ text : List Char, text = text.map (blank false) := by
    intro text
    exact (List.map_id text).symm
  cases t with
  | comment text => rfl
  | word name => exact hkept _
  | symbol c => exact hkept _
  | literal quote body => exact hkept _
  | unclosed quote body => exact hkept _

theorem getElem?_flatMap_blanked (ts : List Lexeme) (start i : Nat) :
    (ts.flatMap Lexeme.blanked)[i]? = (ts.flatMap Lexeme.written)[i]?.map
      (blank (decide (Within (extents start ts) (start + i)))) := by
  induction ts generalizing start i with
  | nil => rfl
  | cons t ts ih =>
    rw [List.flatMap_cons, List.flatMap_cons]
    by_cases hi : i < t.written.length
    · have hfirst : decide (Within (extents start (t :: ts)) (start + i)) = t.isComment := by
        rw [Bool.eq_iff_iff, decide_eq_true_iff, within_first_iff hi]
      rw [List.getElem?_append_left (by rwa [t.length_blanked]), List.getElem?_append_left hi,
        t.blanked_eq_map, List.getElem?_map, hfirst]
    · -- The place is counted from the end of the first lexeme.
      obtain ⟨j, rfl⟩ := Nat.exists_eq_add_of_le (Nat.le_of_not_lt hi)
      rw [List.getElem?_append_right (by rw [t.length_blanked]; omega),
        List.getElem?_append_right (by omega), t.length_blanked, Nat.add_sub_cancel_left,
        decide_eq_decide.2 within_later_iff]
      exact ih _ j

/-- Each character is blanked if it stands in a comment. -/
theorem getElem?_blankComments (cs : List Char) (i : Nat) :
    (blankComments cs)[i]? = cs[i]?.map (blank (decide (Within (comments cs) i))) := by
  have h := getElem?_flatMap_blanked (lexemes cs) 0 i
  rw [← blankComments_eq_flatMap, flatMap_written_lexemes, Nat.zero_add] at h
  exact h

theorem length_blankComments (cs : List Char) : (blankComments cs).length = cs.length := by
  rw [blankComments_eq_flatMap, length_flatMap_blanked, flatMap_written_lexemes]

theorem blank_eq_lineFeed_iff {inComment : Bool} {c : Char} :
    blank inComment c = '\n' ↔ c = '\n' := by
  unfold blank
  by_cases hc : c = '\n'
  · simp [hc]
  · cases inComment <;> simp [hc]

theorem blank_true {c : Char} (hc : c ≠ '\n') : blank true c = ' ' := by
  simp [blank, hc]

/-! ## Blanking twice -/

/-- A text with the comments blanked, if it starts in some mode. -/
def blankFrom (mode : Mode) (cs : List Char) : List Char :=
  List.zipWith blank (commentMarks mode cs) cs

/-- The mode of a blanked text: no comment is left, but strings are. -/
def Mode.blanked : Mode → Mode
  | quoted quote => quoted quote
  | _ => code

theorem blankFrom_code {c : Char}
    (hline : ∀ rest, c = '/' → cs = '/' :: rest → False)
    (hblock : ∀ rest, c = '/' → cs = '*' :: rest → False) :
    blankFrom .code (c :: cs) =
      c :: blankFrom (if isQuote c then .quoted c else .code) cs :=
  blankComments_code hline hblock

theorem blankFrom_lineComment {c : Char} (hc : c ≠ '\n') :
    blankFrom .lineComment (c :: cs) = blank true c :: blankFrom .lineComment cs := by
  rw [blankFrom, commentMarks, List.zipWith_cons_cons]
  · rfl
  · exact hc

theorem blankFrom_blockComment {c : Char} (hend : ∀ rest, c = '*' → cs = '/' :: rest → False) :
    blankFrom .blockComment (c :: cs) = blank true c :: blankFrom .blockComment cs := by
  rw [blankFrom, commentMarks, List.zipWith_cons_cons]
  · rfl
  · exact hend

theorem blankFrom_quoted {quote c : Char}
    (hescape : ∀ d rest, c = '\\' → cs = d :: rest → False) :
    blankFrom (.quoted quote) (c :: cs) =
      c :: blankFrom (if c = quote || c = '\n' then .code else .quoted quote) cs := by
  rw [blankFrom, commentMarks, List.zipWith_cons_cons]
  · rfl
  · exact hescape

/-- What is left of a comment stays as it is. -/
theorem blankFrom_code_blank {c : Char} : blankFrom .code (blank true c :: cs) =
    blank true c :: blankFrom .code cs := by
  have hblank : blank true c ≠ '/' ∧ isQuote (blank true c) = false := by
    by_cases hc : c = '\n'
    · rw [hc]
      decide
    · rw [blank_true hc]
      decide
  rw [blankFrom_code (fun _ h _ => hblank.1 h) (fun _ h _ => hblank.1 h),
    if_neg (by simp [hblank.2])]

/-- What does not start with a space after blanking started so before. -/
theorem exists_cons_of_blankFrom {mode : Mode} {d : Char} {rest : List Char}
    (h : blankFrom mode cs = d :: rest) (hd : d ≠ ' ') : ∃ more, cs = d :: more := by
  cases cs with
  | nil =>
    rw [blankFrom, List.zipWith_nil_right] at h
    cases h
  | cons c cs =>
    refine ⟨cs, ?_⟩
    cases hmarks : commentMarks mode (c :: cs) with
    | nil =>
      rw [blankFrom, hmarks] at h
      cases h
    | cons mark marks =>
      rw [blankFrom, hmarks, List.zipWith_cons_cons] at h
      obtain ⟨hc, -⟩ := List.cons.inj h
      -- A blanked character is a space or the character itself.
      unfold blank at hc
      split at hc
      · exact absurd hc.symm hd
      · rw [hc]

/-- A blanked text is left as it is when it is blanked again. -/
theorem blankFrom_blankFrom (mode : Mode) (cs : List Char) :
    blankFrom mode.blanked (blankFrom mode cs) = blankFrom mode cs := by
  induction mode, cs using commentMarks.induct with
  | case1 mode => simp [blankFrom]
  | case2 cs ih =>
    -- The marks of a comment are blanks now, so the code goes on behind them.
    show blankFrom .code (blank true '/' :: blank true '/' :: blankFrom .lineComment cs) = _
    rw [blankFrom_code_blank, blankFrom_code_blank]
    exact congrArg (fun out => blank true '/' :: blank true '/' :: out) ih
  | case3 cs ih =>
    show blankFrom .code (blank true '/' :: blank true '*' :: blankFrom .blockComment cs) = _
    rw [blankFrom_code_blank, blankFrom_code_blank]
    exact congrArg (fun out => blank true '/' :: blank true '*' :: out) ih
  | case4 c cs hline hblock ih =>
    rw [blankFrom_code hline hblock]
    -- Blanking puts neither a slash nor a star behind a slash.
    have hline' : ∀ rest, c = '/' →
        blankFrom (if isQuote c then .quoted c else .code) cs = '/' :: rest → False := by
      intro rest hc hout
      obtain ⟨more, hcs⟩ := exists_cons_of_blankFrom hout (by decide)
      exact hline more hc hcs
    have hblock' : ∀ rest, c = '/' →
        blankFrom (if isQuote c then .quoted c else .code) cs = '*' :: rest → False := by
      intro rest hc hout
      obtain ⟨more, hcs⟩ := exists_cons_of_blankFrom hout (by decide)
      exact hblock more hc hcs
    show blankFrom .code _ = _
    rw [blankFrom_code hline' hblock']
    congr 1
    have hmode : (if isQuote c then Mode.quoted c else .code).blanked =
        if isQuote c then .quoted c else .code := by
      split <;> rfl
    rwa [hmode] at ih
  | case5 cs ih =>
    show blankFrom .code (blank true '\n' :: blankFrom .code cs) = _
    rw [blankFrom_code_blank]
    exact congrArg (blank true '\n' :: ·) ih
  | case6 c cs hc ih =>
    rw [blankFrom_lineComment hc]
    show blankFrom .code _ = _
    rw [blankFrom_code_blank]
    exact congrArg (blank true c :: ·) ih
  | case7 cs ih =>
    show blankFrom .code (blank true '*' :: blank true '/' :: blankFrom .code cs) = _
    rw [blankFrom_code_blank, blankFrom_code_blank]
    exact congrArg (fun out => blank true '*' :: blank true '/' :: out) ih
  | case8 c cs hend ih =>
    rw [blankFrom_blockComment hend]
    show blankFrom .code _ = _
    rw [blankFrom_code_blank]
    exact congrArg (blank true c :: ·) ih
  | case9 quote c cs ih =>
    -- Strings are left as they are, so they end where they did.
    show blankFrom (.quoted quote) ('\\' :: c :: blankFrom (.quoted quote) cs) = _
    exact congrArg (fun out => '\\' :: c :: out) ih
  | case10 quote c cs hescape ih =>
    rw [blankFrom_quoted hescape]
    show blankFrom (.quoted quote) _ = _
    rw [blankFrom_quoted]
    · congr 1
      have hmode : (if c = quote || c = '\n' then Mode.code else .quoted quote).blanked =
          if c = quote || c = '\n' then .code else .quoted quote := by
        split <;> rfl
      rwa [hmode] at ih
    · -- Behind a backslash there is only the end of the text.
      intro d rest hc hout
      cases cs with
      | nil => simp [blankFrom] at hout
      | cons e cs => exact hescape e cs hc rfl

theorem blankComments_blankComments (cs : List Char) :
    blankComments (blankComments cs) = blankComments cs :=
  blankFrom_blankFrom .code cs

/-! ## Texts with other words in their comments -/

/-- Two texts with comments at the same places, that differ in these only, and in no line
    feed. -/
structure SameButComments (cs ds : List Char) : Prop where
  comments_eq : comments cs = comments ds
  length_eq : cs.length = ds.length
  differ : ∀ i < cs.length, cs[i]? ≠ ds[i]? →
    Within (comments cs) i ∧ cs[i]? ≠ some '\n' ∧ ds[i]? ≠ some '\n'

theorem SameButComments.blankComments_eq {ds : List Char} (h : SameButComments cs ds) :
    blankComments cs = blankComments ds := by
  refine List.ext_getElem? fun i => ?_
  rw [getElem?_blankComments, getElem?_blankComments, ← h.comments_eq]
  -- Where the texts differ, both are blanked to a space.
  by_cases hsame : cs[i]? = ds[i]?
  · rw [hsame]
  · by_cases hi : i < cs.length
    · obtain ⟨hwithin, hc, hd⟩ := h.differ i hi hsame
      have hi' : i < ds.length := h.length_eq ▸ hi
      rw [List.getElem?_eq_getElem hi] at hc ⊢
      rw [List.getElem?_eq_getElem hi'] at hd ⊢
      rw [Option.map_some, Option.map_some, decide_eq_true hwithin,
        blank_true fun heq => hc (congrArg some heq), blank_true fun heq => hd (congrArg some heq)]
    · have hlength := h.length_eq
      rw [List.getElem?_eq_none (by omega), List.getElem?_eq_none (by omega)] at hsame
      exact absurd rfl hsame

/-- **Blanking changes nothing but comments**: the text keeps its length, its line feeds and all
    that stands outside its comments, and each other character of a comment becomes a space.
    Blanking it again changes nothing, and what its comments say has no effect, neither on the
    blanked text nor on the imports that are found. -/
theorem blankComments_changes_comments_only (cs : List Char) :
    (blankComments cs).length = cs.length ∧
      (∀ i : Nat, (blankComments cs)[i]? = some '\n' ↔ cs[i]? = some '\n') ∧
      (∀ i : Nat, ¬Within (comments cs) i → (blankComments cs)[i]? = cs[i]?) ∧
      (∀ (i : Nat) (c : Char), Within (comments cs) i → cs[i]? = some c → c ≠ '\n' →
        (blankComments cs)[i]? = some ' ') ∧
      blankComments (blankComments cs) = blankComments cs ∧
      ∀ ds, SameButComments cs ds → blankComments cs = blankComments ds ∧
        imports (String.ofList cs) = imports (String.ofList ds) := by
  refine ⟨length_blankComments cs, ?_, ?_, ?_, blankComments_blankComments cs, ?_⟩
  · intro i
    rw [getElem?_blankComments, Option.map_eq_some_iff]
    constructor
    · rintro ⟨c, hc, hblank⟩
      rw [hc, blank_eq_lineFeed_iff.1 hblank]
    · intro hc
      exact ⟨'\n', hc, blank_eq_lineFeed_iff.2 rfl⟩
  · intro i hi
    rw [getElem?_blankComments, decide_eq_false hi]
    exact Option.map_id'
  · intro i c hi hc hne
    rw [getElem?_blankComments, decide_eq_true hi, hc, Option.map_some, blank_true hne]
  · intro ds h
    refine ⟨h.blankComments_eq, ?_⟩
    unfold imports
    rw [String.toList_ofList, String.toList_ofList, h.blankComments_eq]

/-- A text with a directive in a comment and a quote in another one. -/
def remarked : List Char :=
  "import \"a.sol\"; // import \"b.sol\"\n/* ' */ x".toList

/-- The same text with other comments. -/
def reworded : List Char :=
  "import \"a.sol\"; // /* unrelated '\n/* \" */ x".toList

theorem reworded_alike : SameButComments remarked reworded ∧
    blankComments remarked = blankComments reworded ∧
    imports (String.ofList remarked) = imports (String.ofList reworded) := by
  have hsame : SameButComments remarked reworded := by
    refine ⟨?_, ?_, ?_⟩
    · decide +kernel
    · decide
    · decide +kernel
  have h := blankComments_changes_comments_only remarked
  exact ⟨hsame, h.2.2.2.2.2 reworded hsame⟩

end SolidityBuild.Source
