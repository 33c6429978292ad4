import SolidityBuild.Proofs.Remapping.Entry
import SolidityBuild.Proofs.Text.Trimming

/-! # Reading back: when the written form of a remapping is read as the same remapping

    A line is read at its first `=` and, in front of that, at its first `:`; the parts are
    trimmed, and an empty context is none. So what is read has parts that are trimmed and
    hold no separator at which the line would have been split before. With one exception:
    behind an empty context the stem may hold another `:`. The written form has no context
    then, and what stands in front of that `:` is read as one.
-/

namespace SolidityBuild.Remapping

variable {s : String} {r : Remapping}

/-! ## What is read from a line -/

/-- A remapping is read from a line whose stem is not blank. -/
theorem parse_eq_ok_iff : parse s = .ok r ↔
    ∃ left context stem target,
      Text.splitFirst '=' (Text.trimChars s.toList) = some (left, target) ∧
      (Text.splitFirst ':' left).getD ([], left) = (context, stem) ∧
      Text.trimChars stem ≠ [] ∧
      r = { context := contextOf (String.ofList (Text.trimChars context))
            stem := String.ofList (Text.trimChars stem)
            target := String.ofList (Text.trimChars target) } := by
  constructor
  · intro h
    simp only [parse, List.isEmpty_iff] at h
    split at h
    · cases h
    · rename_i left target hline
      split at h
      · cases h
      · rename_i hstem
        exact ⟨left, _, _, target, hline, rfl, hstem, (Except.ok.inj h).symm⟩
  · rintro ⟨left, context, stem, target, hline, hleft, hstem, rfl⟩
    simp only [parse, hline, hleft, List.isEmpty_iff, if_neg hstem]

/-- The parts of a remapping are as they are read from a line. -/
structure Proper (r : Remapping) : Prop where
  stem_ne_nil : r.stem.toList ≠ []
  stem_trimmed : Text.Trimmed r.stem.toList
  equals_not_mem_stem : '=' ∉ r.stem.toList
  target_trimmed : Text.Trimmed r.target.toList
  context_ne_nil : ∀ c ∈ r.context, c.toList ≠ []
  context_trimmed : ∀ c ∈ r.context, Text.Trimmed c.toList
  equals_not_mem_context : ∀ c ∈ r.context, '=' ∉ c.toList
  colon_not_mem_context : ∀ c ∈ r.context, ':' ∉ c.toList

/-- The written form has a colon, but none behind a context. -/
def Ambiguous (r : Remapping) : Prop :=
  r.context = none ∧ ':' ∈ r.stem.toList

instance (r : Remapping) : Decidable r.Ambiguous :=
  inferInstanceAs (Decidable (_ ∧ _))

/-- What stands in front of a `:`, or else nothing, and what stands behind it. -/
theorem split_colon {left context stem : List Char}
    (h : (Text.splitFirst ':' left).getD ([], left) = (context, stem)) :
    ':' ∉ context ∧ ((left = context ++ ':' :: stem) ∨
      (context = [] ∧ stem = left ∧ ':' ∉ left)) := by
  cases hsplit : Text.splitFirst ':' left with
  | none =>
    rw [hsplit] at h
    obtain ⟨rfl, rfl⟩ := Prod.mk.inj h
    have hnone : ':' ∉ left := by
      intro hmem
      obtain ⟨before, after, hsome⟩ := Text.exists_splitFirst hmem
      rw [hsplit] at hsome
      cases hsome
    exact ⟨List.not_mem_nil, .inr ⟨rfl, rfl, hnone⟩⟩
  | some parts =>
    rw [hsplit] at h
    obtain rfl : parts = (context, stem) := h
    obtain ⟨hcontext, hleft⟩ := Text.splitFirst_eq_some_iff.1 hsplit
    exact ⟨hcontext, .inl hleft⟩

theorem toList_of_mem_contextOf {cs : List Char} {c : String}
    (h : c ∈ contextOf (String.ofList cs)) : c.toList = cs ∧ cs ≠ [] := by
  unfold contextOf at h
  split at h
  · cases h
  · rename_i hne
    obtain rfl := Option.some.inj h
    rw [String.toList_ofList]
    refine ⟨rfl, ?_⟩
    rintro rfl
    exact hne rfl

theorem proper_of_parse (h : parse s = .ok r) : r.Proper := by
  obtain ⟨left, context, stem, target, hline, hleft, hstem, rfl⟩ := parse_eq_ok_iff.1 h
  obtain ⟨hequals, -⟩ := Text.splitFirst_eq_some_iff.1 hline
  obtain ⟨hcolon, hparts⟩ := split_colon hleft
  -- Both parts lie in front of the first `=`.
  have hcontext : '=' ∉ context := by
    rcases hparts with rfl | ⟨rfl, -, -⟩
    · exact fun hmem => hequals (List.mem_append_left _ hmem)
    · exact List.not_mem_nil
  have hstem' : '=' ∉ stem := by
    rcases hparts with rfl | ⟨-, rfl, -⟩
    · exact fun hmem => hequals (List.mem_append_right _ (List.mem_cons_of_mem _ hmem))
    · exact hequals
  refine ⟨?_, ?_, ?_, ?_, ?_, ?_, ?_, ?_⟩
  · rw [String.toList_ofList]
    exact hstem
  · rw [String.toList_ofList]
    exact Text.trimmed_trimChars stem
  · rw [String.toList_ofList]
    exact fun hmem => hstem' (Text.mem_of_mem_trimChars hmem)
  · rw [String.toList_ofList]
    exact Text.trimmed_trimChars target
  · intro c hc
    obtain ⟨hlist, hne⟩ := toList_of_mem_contextOf hc
    rw [hlist]
    exact hne
  · intro c hc
    rw [(toList_of_mem_contextOf hc).1]
    exact Text.trimmed_trimChars context
  · intro c hc
    rw [(toList_of_mem_contextOf hc).1]
    exact fun hmem => hcontext (Text.mem_of_mem_trimChars hmem)
  · intro c hc
    rw [(toList_of_mem_contextOf hc).1]
    exact fun hmem => hcolon (Text.mem_of_mem_trimChars hmem)

/-! ## Reading what was written -/

/-- What is written in front of the `=`. -/
def left (r : Remapping) : List Char :=
  match r.context with
  | some context => context.toList ++ ':' :: r.stem.toList
  | none => r.stem.toList

theorem toList_written_eq_left (r : Remapping) :
    r.written.toList = r.left ++ '=' :: r.target.toList :=
  toList_written r

theorem Proper.equals_not_mem_left (h : r.Proper) : '=' ∉ r.left := by
  unfold left
  cases hr : r.context with
  | none => exact h.equals_not_mem_stem
  | some c =>
    have hcontext := h.equals_not_mem_context c hr
    simp [hcontext, h.equals_not_mem_stem]

/-- No blank is at an end of the written form. -/
theorem Proper.trimmed_written (h : r.Proper) : Text.Trimmed r.written.toList := by
  have hleft : Text.Trimmed r.left := by
    unfold left
    cases hr : r.context with
    | none => exact h.stem_trimmed
    | some c => exact (h.context_trimmed c hr).append_cons (by decide) h.stem_trimmed
  rw [toList_written_eq_left]
  exact hleft.append_cons (by decide) h.target_trimmed

theorem Proper.contextOf_getD (h : r.Proper) : contextOf (r.context.getD "") = r.context := by
  cases hr : r.context with
  | none => rfl
  | some c =>
    have hne : c.isEmpty = false := by
      have hlist := h.context_ne_nil c hr
      simpa using hlist
    show contextOf c = some c
    unfold contextOf
    rw [if_neg (by simp [hne])]

/-- A proper remapping is read from its written form with blanks around it, unless that is
    ambiguous. -/
theorem Proper.parse_surrounded (h : r.Proper) (hplain : ¬r.Ambiguous) {before after : List Char}
    (hbefore : Text.Blanks before) (hafter : Text.Blanks after) :
    parse (String.ofList (before ++ r.written.toList ++ after)) = .ok r := by
  refine parse_eq_ok_iff.2 ⟨r.left, (r.context.getD "").toList, r.stem.toList, r.target.toList,
    ?_, ?_, ?_, ?_⟩
  · -- The first `=` is the one behind the stem.
    rw [String.toList_ofList, Text.trimChars_surrounded hbefore hafter h.trimmed_written,
      toList_written_eq_left]
    exact Text.splitFirst_append h.equals_not_mem_left _
  · -- The first `:` is the one behind the context; without a context there is none.
    unfold left
    cases hr : r.context with
    | none =>
      have hcolon : ':' ∉ r.stem.toList := fun hmem => hplain ⟨hr, hmem⟩
      rw [Text.splitFirst_of_not_mem hcolon]
      rfl
    | some c =>
      rw [Text.splitFirst_append (h.colon_not_mem_context c hr)]
      rfl
  · rw [h.stem_trimmed.trimChars_eq]
    exact h.stem_ne_nil
  · have hcontext : Text.Trimmed (r.context.getD "").toList := by
      cases hr : r.context with
      | none => exact Text.trimmed_nil
      | some c => exact h.context_trimmed c hr
    rw [hcontext.trimChars_eq, h.stem_trimmed.trimChars_eq, h.target_trimmed.trimChars_eq,
      String.ofList_toList, String.ofList_toList, String.ofList_toList, h.contextOf_getD]

theorem Proper.parse_written (h : r.Proper) (hplain : ¬r.Ambiguous) :
    parse r.written = .ok r := by
  have hread := h.parse_surrounded hplain Text.blanks_nil Text.blanks_nil
  rwa [List.nil_append, List.append_nil, String.ofList_toList] at hread

theorem Proper.plain (h : r.Proper) (hplain : ¬r.Ambiguous) : r.Plain := by
  refine ⟨h.equals_not_mem_stem, ?_⟩
  cases hr : r.context with
  | none => exact fun hmem => hplain ⟨hr, hmem⟩
  | some c => exact ⟨h.equals_not_mem_context c hr, h.colon_not_mem_context c hr⟩

/-- Of an ambiguous written form, only what stands behind the first `:` is read as the stem. -/
theorem Ambiguous.splitFirst_left (hr : r.Ambiguous) :
    ∃ front back, Text.splitFirst ':' r.left = some (front, back) ∧
      back.length < r.stem.toList.length := by
  obtain ⟨front, back, hsplit⟩ := Text.exists_splitFirst hr.2
  refine ⟨front, back, ?_, Text.splitFirst_length hsplit⟩
  unfold left
  rw [hr.1]
  exact hsplit

theorem Ambiguous.parse_written_ne (hr : r.Ambiguous) (h : r.Proper) :
    parse r.written ≠ .ok r := by
  intro hread
  obtain ⟨left, context, stem, target, hline, hleft, -, hsame⟩ := parse_eq_ok_iff.1 hread
  rw [h.trimmed_written.trimChars_eq, toList_written_eq_left,
    Text.splitFirst_append h.equals_not_mem_left] at hline
  obtain ⟨rfl, rfl⟩ := Prod.mk.inj (Option.some.inj hline)
  obtain ⟨front, back, hsplit, hlength⟩ := hr.splitFirst_left
  rw [hsplit] at hleft
  obtain ⟨rfl, rfl⟩ := Prod.mk.inj hleft
  -- The stem that is read is shorter than the one that was written.
  have hstem : r.stem.toList = Text.trimChars back := by
    rw [hsame, String.toList_ofList]
  have hle := Text.length_trimChars_le back
  rw [hstem] at hlength
  omega

theorem Ambiguous.ofLine?_written_ne (hr : r.Ambiguous) (h : r.Proper) :
    Compiler.Entry.ofLine? r.written ≠ some (.ofRemapping r) := by
  intro hread
  -- The compiler takes the part behind the first colon for the stem, too.
  obtain ⟨front, back, hsplit, hlength⟩ := hr.splitFirst_left
  unfold Compiler.Entry.ofLine? at hread
  rw [toList_written_eq_left, Text.splitFirst_append h.equals_not_mem_left] at hread
  simp only [Option.map_some, hsplit] at hread
  have hstem : back = r.stem.toList := congrArg Compiler.Entry.stem (Option.some.inj hread)
  rw [hstem] at hlength
  omega

/-! ## Lines that are not read back -/

/-- A line with nothing in front of its first `:`, and with another `:` in front of the `=`. -/
def HidesColon (s : String) : Prop :=
  ∃ stem target, Text.trimChars s.toList = ':' :: (stem ++ '=' :: target) ∧ '=' ∉ stem ∧
    ':' ∈ stem

theorem ambiguous_iff (h : parse s = .ok r) : r.Ambiguous ↔ HidesColon s := by
  obtain ⟨left, context, stem, target, hline, hleft, hstem, rfl⟩ := parse_eq_ok_iff.1 h
  obtain ⟨hequals, htext⟩ := Text.splitFirst_eq_some_iff.1 hline
  obtain ⟨hcolon, hparts⟩ := split_colon hleft
  unfold Ambiguous
  simp only [String.toList_ofList]
  constructor
  · rintro ⟨hnone, hmem⟩
    have hmem' := Text.mem_of_mem_trimChars hmem
    rcases hparts with rfl | ⟨-, rfl, hnot⟩
    · -- A context of blanks would stand at the start of a trimmed line.
      have hblank : Text.trimChars context = [] := by
        by_contra hne
        have hsome : contextOf (String.ofList (Text.trimChars context)) =
            some (String.ofList (Text.trimChars context)) := by
          unfold contextOf
          rw [if_neg (by simpa using hne)]
        rw [hsome] at hnone
        cases hnone
      have hcontext : context = [] := by
        cases context with
        | nil => rfl
        | cons c context =>
          have htrimmed := (Text.trimmed_trimChars s.toList).1
          rw [htext] at htrimmed
          have hc := Text.trimChars_eq_nil_iff.1 hblank c (List.mem_cons_self ..)
          rw [htrimmed c rfl] at hc
          cases hc
      subst hcontext
      refine ⟨stem, target, ?_, ?_, hmem'⟩
      · rw [htext]
        simp
      · exact fun hin => hequals (by simp [hin])
    · exact absurd hmem' hnot
  · rintro ⟨stem', target', htext', hequals', hcolon'⟩
    -- The line is split at the first `=` and the first `:` only.
    have hfront : '=' ∉ ':' :: stem' := by simp [hequals']
    have hsplit : Text.splitFirst '=' (Text.trimChars s.toList) = some (':' :: stem', target') := by
      rw [htext', ← List.cons_append]
      exact Text.splitFirst_append hfront target'
    rw [hline] at hsplit
    obtain ⟨rfl, rfl⟩ := Prod.mk.inj (Option.some.inj hsplit)
    obtain ⟨rfl, rfl⟩ : context = [] ∧ stem = stem' := by
      have hparts' : (([] : List Char), stem') = (context, stem) := hleft
      exact ⟨(Prod.mk.inj hparts').1.symm, (Prod.mk.inj hparts').2.symm⟩
    exact ⟨rfl, Text.mem_trimChars (by decide) hcolon'⟩

/-- **Reading back**: what was read from a line is read again from its written form, and the
    compiler reads it as it is meant, exactly if the line hides no colon behind an empty
    context. -/
theorem written_read_back_iff (h : parse s = .ok r) :
    (parse r.written = .ok r ↔ ¬HidesColon s) ∧
      (Compiler.Entry.ofLine? r.written = some (.ofRemapping r) ↔ ¬HidesColon s) := by
  have hproper := proper_of_parse h
  rw [← ambiguous_iff h]
  constructor
  · constructor
    · intro hread hr
      exact hr.parse_written_ne hproper hread
    · exact hproper.parse_written
  · constructor
    · intro hread hr
      exact hr.ofLine?_written_ne hproper hread
    · intro hplain
      rw [ofLine?_written, (hproper.plain hplain).entry_eq]

/-- A line with blanks around its parts, a second colon and a second equals sign. -/
def spacedLine : String := "  test : a:b/ = x=y "

/-- The parts of `spacedLine`. -/
def spacedRemapping : Remapping where
  context := some "test"
  stem := "a:b/"
  target := "x=y"

/-- Behind a context, a colon in the stem does no harm. -/
theorem spacedLine_read_back : parse spacedLine = .ok spacedRemapping ∧ ¬HidesColon spacedLine ∧
    parse spacedRemapping.written = .ok spacedRemapping := by
  have hread : parse spacedLine = .ok spacedRemapping := by
    decide +kernel
  have hhides : ¬HidesColon spacedLine := by
    rw [← ambiguous_iff hread]
    decide
  exact ⟨hread, hhides, (written_read_back_iff hread).1.2 hhides⟩

/-- The stem of `:a:b=c` is written as `a:b=c`, and that is read with the context `a`. -/
theorem hiddenColon_misread :
    parse ":a:b=c" = .ok { stem := "a:b", target := "c" } ∧
      written { stem := "a:b", target := "c" } = "a:b=c" ∧
      parse "a:b=c" = .ok { context := some "a", stem := "b", target := "c" } := by
  decide +kernel

end SolidityBuild.Remapping
