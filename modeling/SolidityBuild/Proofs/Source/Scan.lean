import SolidityBuild.Proofs.Text.Affixes
import SolidityBuild.Source.Import

/-! # Scans: what a search for directives from left to right finds

    A directive that was found is known by its path and by how much of the text is behind it
    (`Site`). The search goes on behind the closing quote of what it found; so a directive
    that starts inside the quotes of another one is passed over, and every other one is
    found. These are the properties of `Scans`, and only one list has them: to know that a
    list is what the search finds, one need not run the search.
-/

namespace SolidityBuild.Source

/-- Where a path is: the path, and the number of characters behind the quote after it. -/
structure Site where
  path : String
  behind : Nat
deriving DecidableEq

/-- What starts with `v` starts inside the quotes of the site. -/
def Site.Covers (s : Site) (v : List Char) : Prop :=
  s.behind < v.length ∧ v.length ≤ s.behind + s.path.length + 1

/-- The sites of the directives in a text without comments, given the character before it. -/
def found (before : Option Char) (cs : List Char) : List Site :=
  match _h : directive? before cs with
  | some (path, rest) => ⟨path, rest.length⟩ :: found (some '\x22') rest
  | none => match cs with
    | [] => []
    | c :: rest => found (some c) rest
termination_by cs.length
decreasing_by
  · exact directive?_length _h
  · simp

theorem found_of_some {before : Option Char} {cs rest : List Char} {path : String}
    (h : directive? before cs = some (path, rest)) :
    found before cs = ⟨path, rest.length⟩ :: found (some '\x22') rest := by
  rw [found]
  split
  · simp_all
  · simp_all

theorem found_nil {before : Option Char} (h : directive? before [] = none) :
    found before [] = [] := by
  rw [found]
  split
  · simp_all
  · rfl

theorem found_cons {before : Option Char} {c : Char} {rest : List Char}
    (h : directive? before (c :: rest) = none) :
    found before (c :: rest) = found (some c) rest := by
  rw [found]
  split
  · simp_all
  · rfl

/-- The paths of a text are those of its sites. -/
theorem paths_eq_map_found (before : Option Char) (cs : List Char) :
    paths before cs = (found before cs).map Site.path := by
  induction before, cs using paths.induct with
  | case1 before cs path rest h ih =>
    rw [found_of_some h, List.map_cons, ← ih, paths]
    split
    · simp_all
    · simp_all
  | case2 before h =>
    rw [found_nil h, paths]
    split
    · simp_all
    · rfl
  | case3 before c rest h ih =>
    rw [found_cons h, ← ih, paths]
    split
    · simp_all
    · rfl

variable {before before' : Option Char} {text cs v r : List Char} {p : String} {s : Site}
  {S T : List Site}

/-! ## The shape of a directive -/

/-- A text without quote characters. -/
def Unquoted (cs : List Char) : Prop :=
  ∀ c ∈ cs, isQuote c = false

theorem Unquoted.append {cs ds : List Char} (hcs : Unquoted cs) (hds : Unquoted ds) :
    Unquoted (cs ++ ds) := by
  intro c hc
  rcases List.mem_append.1 hc with hc | hc
  · exact hcs c hc
  · exact hds c hc

theorem unquoted_importWord : Unquoted importWord := by
  have hall : importWord.all (!isQuote ·) = true := by
    decide
  intro c hc
  simpa using List.all_eq_true.1 hall c hc

theorem takeWhile_of_unquoted {q : Char} (hcs : Unquoted cs) (hq : isQuote q = true)
    (more : List Char) : (cs ++ q :: more).takeWhile (!isQuote ·) = cs := by
  rw [List.takeWhile_append_of_pos, List.takeWhile_cons_of_neg, List.append_nil]
  · simp [hq]
  · intro c hc
    simp [hcs c hc]

/-- A text is split at its first quote character in one way only. -/
theorem quote_split_inj {cs ds more more' : List Char} {q q' : Char} (hcs : Unquoted cs)
    (hq : isQuote q = true) (hds : Unquoted ds) (hq' : isQuote q' = true)
    (h : cs ++ q :: more = ds ++ q' :: more') : cs = ds ∧ q = q' ∧ more = more' := by
  have hsame : cs = ds := by
    rw [← takeWhile_of_unquoted hcs hq more, h, takeWhile_of_unquoted hds hq' more']
  subst hsame
  exact ⟨rfl, List.cons.inj (List.append_cancel_left h)⟩

/-- A list is split before the first member without a property. -/
theorem exists_split_of_takeWhile {α : Type} {keep : α → Bool} {xs rest : List α} {first : α}
    (h : xs.drop (xs.takeWhile keep).length = first :: rest) :
    xs = xs.takeWhile keep ++ first :: rest ∧ (∀ x ∈ xs.takeWhile keep, keep x = true) ∧
      keep first = false := by
  have hsplit := List.takeWhile_append_dropWhile (p := keep) (l := xs)
  have hdrop : xs.dropWhile keep = first :: rest := by
    have hbehind := congrArg (List.drop (xs.takeWhile keep).length) hsplit
    rw [List.drop_left] at hbehind
    exact hbehind.trans h
  rw [hdrop] at hsplit
  refine ⟨hsplit.symm, List.all_eq_true.1 List.all_takeWhile, ?_⟩
  have hhead := List.head?_dropWhile_not keep xs
  rw [hdrop] at hhead
  exact hhead

/-- A rest that is longer than what follows the first quote character starts before it. -/
theorem exists_unquoted_of_append {front tail u v : List Char} {q : Char} (hfront : Unquoted front)
    (h : front ++ q :: tail = u ++ v) (hlength : tail.length < v.length) :
    ∃ x, Unquoted x ∧ v = x ++ q :: tail := by
  rcases List.append_eq_append_iff.1 h with ⟨w, -, hw⟩ | ⟨x, hx, hv⟩
  · have hempty : w = [] := by
      have hlengths := congrArg List.length hw
      simp only [List.length_append, List.length_cons] at hlengths
      exact List.length_eq_zero_iff.1 (by omega)
    rw [hempty, List.nil_append] at hw
    exact ⟨[], by simp [Unquoted], hw.symm⟩
  · refine ⟨x, ?_, hv⟩
    intro c hc
    rw [hx] at hfront
    exact hfront c (List.mem_append_right _ hc)

/-- A text that starts with a clause and the path it leads to, between the quote characters
    `q` and `q'`; `r` is behind them. -/
structure Quotes (cs clause path r : List Char) (q q' : Char) : Prop where
  text : cs = clause ++ q :: (path ++ q' :: r)
  unquoted_clause : Unquoted clause
  opening : isQuote q = true
  unquoted_path : Unquoted path
  closing : isQuote q' = true
  path_ne_nil : path ≠ []
  leads : leadsToPath clause = true

/-- After its word, a directive goes on with a clause and a path. -/
theorem pathAfter?_eq_some_iff : pathAfter? cs = some (p, r) ↔
    ∃ clause path q q', Quotes cs clause path r q q' ∧ p = String.ofList path := by
  constructor
  · intro h
    simp only [pathAfter?] at h
    split at h
    · rename_i hleads
      split at h
      · cases h
      · rename_i q' rest hbody
        split at h
        · cases h
        · rename_i hne
          obtain ⟨rfl, rfl⟩ := Prod.mk.inj (Option.some.inj h)
          cases hdrop : cs.drop (cs.takeWhile (!isQuote ·)).length with
          | nil =>
            rw [hdrop] at hbody
            cases hbody
          | cons q body =>
            rw [hdrop, List.drop_succ_cons, List.drop_zero] at hbody hne
            obtain ⟨hcs, hclause, hq⟩ := exists_split_of_takeWhile hdrop
            obtain ⟨hpath, hplain, hq'⟩ := exists_split_of_takeWhile hbody
            refine ⟨_, body.takeWhile (!isQuote ·), q, q', ⟨?_, ?_, ?_, ?_, ?_, ?_, hleads⟩, rfl⟩
            · rw [← hpath]
              exact hcs
            · exact fun c hc => by simpa using hclause c hc
            · simpa using hq
            · exact fun c hc => by simpa using hplain c hc
            · simpa using hq'
            · simpa using hne
    · cases h
  · rintro ⟨clause, path, q, q', hquotes, rfl⟩
    rw [hquotes.text]
    simp only [pathAfter?, takeWhile_of_unquoted hquotes.unquoted_clause hquotes.opening, List.drop_left,
      List.drop_succ_cons, List.drop_zero, takeWhile_of_unquoted hquotes.unquoted_path hquotes.closing,
      hquotes.leads, if_true]
    cases path with
    | nil => exact absurd rfl hquotes.path_ne_nil
    | cons c path => rfl

/-- A directive: its word, at the start of a word, and what comes after it. -/
theorem directive?_eq_some_iff : directive? before cs = some (p, r) ↔
    Text.isWordAt before = false ∧ ∃ after clause path q q', cs = importWord ++ after ∧
      Quotes after clause path r q q' ∧ p = String.ofList path := by
  unfold directive?
  by_cases hword : Text.isWordAt before = true
  · simp [hword]
  · rw [if_neg hword, Bool.not_eq_true] at *
    simp only [hword, true_and, Option.bind_eq_some_iff, Text.strip?_eq_some_iff,
      pathAfter?_eq_some_iff, exists_and_left]

/-- Of the character before a text only counts whether it belongs to a word. -/
theorem directive?_congr (h : Text.isWordAt before = Text.isWordAt before') (cs : List Char) :
    directive? before cs = directive? before' cs := by
  unfold directive?
  rw [h]

theorem isWordAt_quote {q : Char} (hq : isQuote q = true) : Text.isWordAt (some q) = false :=
  isWord_of_isQuote hq

/-! ## Where directives start -/

/-- A directive with the given site starts with the rest `v` of a text. -/
def StartsAt (before : Option Char) (text v : List Char) (s : Site) : Prop :=
  ∃ u r, text = u ++ v ∧ directive? (u.getLast?.or before) v = some (s.path, r) ∧
    s.behind = r.length

theorem StartsAt.of_directive? (h : directive? before text = some (p, r)) :
    StartsAt before text text ⟨p, r.length⟩ :=
  ⟨[], r, rfl, h, rfl⟩

/-- More text in front moves no directive. -/
theorem StartsAt.append {u : List Char} (h : StartsAt (u.getLast?.or before) text v s) :
    StartsAt before (u ++ text) v s := by
  obtain ⟨u', r, rfl, hdirective, hbehind⟩ := h
  refine ⟨u ++ u', r, (List.append_assoc ..).symm, ?_, hbehind⟩
  rw [List.getLast?_append, Option.or_assoc]
  exact hdirective

theorem StartsAt.congr (h : StartsAt before text v s)
    (hword : Text.isWordAt before = Text.isWordAt before') : StartsAt before' text v s := by
  obtain ⟨u, r, htext, hdirective, hbehind⟩ := h
  refine ⟨u, r, htext, ?_, hbehind⟩
  rw [← hdirective]
  cases u.getLast? with
  | none => exact directive?_congr hword.symm v
  | some c => rfl

/-- What starts behind a part of the text starts in the rest. -/
theorem StartsAt.of_append {u : List Char} (h : StartsAt before (u ++ text) v s)
    (hlength : v.length ≤ text.length) : StartsAt (u.getLast?.or before) text v s := by
  obtain ⟨u', r, htext, hdirective, hbehind⟩ := h
  obtain ⟨w, rfl⟩ : ∃ w, u' = u ++ w := by
    rcases List.append_eq_append_iff.1 htext with ⟨w, hu, -⟩ | ⟨w, hu, hv⟩
    · exact ⟨w, hu⟩
    · have hempty : w = [] := by
        rw [hv, List.length_append] at hlength
        exact List.length_eq_zero_iff.1 (by omega)
      rw [hempty, List.append_nil] at hu
      exact ⟨[], by rw [hu, List.append_nil]⟩
  rw [List.append_assoc] at htext
  refine ⟨w, r, List.append_cancel_left htext, ?_, hbehind⟩
  rw [List.getLast?_append, Option.or_assoc] at hdirective
  exact hdirective

/-- The site of a directive and its quotes lie behind its start. -/
theorem StartsAt.lt_length (h : StartsAt before text v s) :
    s.behind + s.path.length + 1 < v.length ∧ v.length ≤ text.length := by
  obtain ⟨u, r, rfl, hdirective, hbehind⟩ := h
  obtain ⟨-, after, clause, path, q, q', rfl, hquotes, hpath⟩ :=
    directive?_eq_some_iff.1 hdirective
  rw [hbehind, hpath, hquotes.text, String.length_ofList]
  simp only [List.length_append, List.length_cons]
  constructor
  · omega
  · omega

/-- What is behind a directive comes after its closing quote. -/
theorem exists_in_front (h : directive? before text = some (p, r)) :
    ∃ u, text = u ++ r ∧ Text.isWordAt (u.getLast?.or before) = false := by
  obtain ⟨-, after, clause, path, q, q', rfl, hquotes, -⟩ := directive?_eq_some_iff.1 h
  refine ⟨importWord ++ clause ++ q :: (path ++ [q']), by simp [hquotes.text], ?_⟩
  have hlast : (importWord ++ clause ++ q :: (path ++ [q'])).getLast? = some q' := by
    rw [← List.cons_append, ← List.append_assoc, List.getLast?_concat]
  rw [hlast]
  exact isWordAt_quote hquotes.closing

/-- A directive that starts before the first quote character has its path after it. -/
theorem directive?_of_unquoted {x tail : List Char} {q : Char} (hx : Unquoted x)
    (hq : isQuote q = true) (h : directive? before (x ++ q :: tail) = some (p, r)) :
    ∃ path q', Unquoted path ∧ isQuote q' = true ∧ tail = path ++ q' :: r ∧
      p = String.ofList path := by
  obtain ⟨-, after, clause, path, q₁, q', htext, hquotes, hp⟩ := directive?_eq_some_iff.1 h
  rw [hquotes.text, ← List.append_assoc] at htext
  obtain ⟨-, -, htail⟩ := quote_split_inj hx hq
    (unquoted_importWord.append hquotes.unquoted_clause) hquotes.opening htext
  exact ⟨path, q', hquotes.unquoted_path, hquotes.closing, htail, hp⟩

/-! ## Scans -/

/-- The sites of directives of which none starts inside the quotes of another. -/
def Sound (before : Option Char) (text : List Char) (S : List Site) : Prop :=
  ∀ s ∈ S, ∃ v, StartsAt before text v s ∧ ∀ s' ∈ S, ¬s'.Covers v

/-- Every directive is there that does not start inside the quotes of one that is. -/
def Covering (before : Option Char) (text : List Char) (S : List Site) : Prop :=
  ∀ v s, StartsAt before text v s → s ∈ S ∨ ∃ s' ∈ S, s'.Covers v

/-- What the search from left to right finds in a text. -/
structure Scans (before : Option Char) (text : List Char) (S : List Site) : Prop where
  sound : Sound before text S
  covering : Covering before text S
  ordered : S.Pairwise fun s s' => s'.behind < s.behind

theorem Sound.append {u : List Char} (h : Sound (u.getLast?.or before) text S) :
    Sound before (u ++ text) S := by
  intro s hs
  obtain ⟨v, hv, hfree⟩ := h s hs
  exact ⟨v, hv.append, hfree⟩

theorem Sound.congr (h : Sound before text S)
    (hword : Text.isWordAt before = Text.isWordAt before') : Sound before' text S := by
  intro s hs
  obtain ⟨v, hv, hfree⟩ := h s hs
  exact ⟨v, hv.congr hword, hfree⟩

/-- A directive at the start of a text goes with those behind it. -/
theorem Sound.cons (hdirective : directive? before text = some (p, r))
    (h : Sound (some '\x22') r S) : Sound before text (⟨p, r.length⟩ :: S) := by
  obtain ⟨u, htext, hword⟩ := exists_in_front hdirective
  have hstart := StartsAt.of_directive? hdirective
  have hhead := hstart.lt_length
  have hinside : ∀ s ∈ S, s.behind + s.path.length + 1 < r.length := by
    intro s hs
    obtain ⟨v, hv, -⟩ := h s hs
    have hlength := hv.lt_length
    omega
  intro s hs
  rcases List.mem_cons.1 hs with rfl | hs
  · -- All quotes are behind the start of the text.
    refine ⟨text, hstart, ?_⟩
    rintro s' hs' ⟨-, hcovers⟩
    rcases List.mem_cons.1 hs' with rfl | hs'
    · omega
    · have hlength := hinside s' hs'
      simp only at hhead
      omega
  · -- What starts behind the directive starts behind its quotes.
    obtain ⟨v, hv, hfree⟩ := h s hs
    have hlength := hv.lt_length
    refine ⟨v, ?_, ?_⟩
    · rw [htext]
      exact (hv.congr (isWordAt_quote rfl |>.trans hword.symm)).append
    · intro s' hs' hcovers
      rcases List.mem_cons.1 hs' with rfl | hs'
      · have hbehind : r.length < v.length := hcovers.1
        omega
      · exact hfree s' hs' hcovers

/-- Where no directive starts, the search goes on at the next character. -/
theorem Covering.skip {c : Char} (hnone : directive? before (c :: cs) = none)
    (h : Covering (some c) cs S) : Covering before (c :: cs) S := by
  rintro v s ⟨u, r, htext, hdirective, hbehind⟩
  cases u with
  | nil =>
    rw [List.nil_append] at htext
    rw [← htext, List.getLast?_nil, Option.none_or, hnone] at hdirective
    cases hdirective
  | cons c' u =>
    obtain ⟨rfl, rfl⟩ := List.cons.inj htext
    refine h v s ⟨u, r, rfl, ?_, hbehind⟩
    rw [List.getLast?_cons, Option.some_or] at hdirective
    rw [← hdirective]
    cases u.getLast? with
    | none => rfl
    | some c => rfl

/-- Where a directive starts, the search goes on behind it: what starts before its opening
    quote is the same directive. -/
theorem Covering.cons (hdirective : directive? before text = some (p, r))
    (h : Covering (some '\x22') r S) : Covering before text (⟨p, r.length⟩ :: S) := by
  intro v s hv
  by_cases hlength : v.length ≤ r.length
  · -- Behind the directive the search has gone on.
    obtain ⟨u, rfl, hword⟩ := exists_in_front hdirective
    have hrest := (hv.of_append hlength).congr (hword.trans (isWordAt_quote (q := '\x22') rfl).symm)
    rcases h v s hrest with hin | ⟨s', hs', hcovers⟩
    · exact .inl (List.mem_cons_of_mem _ hin)
    · exact .inr ⟨s', List.mem_cons_of_mem _ hs', hcovers⟩
  · obtain ⟨-, after, clause, path, q, q', rfl, hquotes, rfl⟩ :=
      directive?_eq_some_iff.1 hdirective
    by_cases hinside : v.length ≤ r.length + path.length + 1
    · refine .inr ⟨_, List.mem_cons_self .., Nat.lt_of_not_le hlength, ?_⟩
      simpa using hinside
    · -- In front of the quotes there is no quote character, so the path is the same one.
      left
      obtain ⟨u, r', htext, hdirective', hbehind⟩ := hv
      rw [hquotes.text, ← List.append_assoc] at htext
      have htail : (path ++ q' :: r).length < v.length := by
        rw [List.length_append, List.length_cons]
        omega
      obtain ⟨x, hx, rfl⟩ :=
        exists_unquoted_of_append (unquoted_importWord.append hquotes.unquoted_clause) htext htail
      obtain ⟨path', q'', hpath', hq'', hsame, hpath''⟩ :=
        directive?_of_unquoted hx hquotes.opening hdirective'
      obtain ⟨rfl, -, rfl⟩ := quote_split_inj hquotes.unquoted_path hquotes.closing hpath' hq'' hsame
      have hsite : s = ⟨String.ofList path, r.length⟩ := by
        cases s
        simp_all
      rw [hsite]
      exact List.mem_cons_self ..

theorem sound_found (before : Option Char) (text : List Char) :
    Sound before text (found before text) := by
  induction before, text using found.induct with
  | case1 before text path rest h ih =>
    rw [found_of_some h]
    exact ih.cons h
  | case2 before h =>
    rw [found_nil h]
    intro s hs
    cases hs
  | case3 before c rest h ih =>
    rw [found_cons h]
    exact ih.append (u := [c])

theorem covering_found (before : Option Char) (text : List Char) :
    Covering before text (found before text) := by
  induction before, text using found.induct with
  | case1 before text path rest h ih =>
    rw [found_of_some h]
    exact ih.cons h
  | case2 before h =>
    rw [found_nil h]
    rintro v s ⟨u, r, htext, hdirective, -⟩
    obtain ⟨rfl, rfl⟩ := List.append_eq_nil_iff.1 htext.symm
    rw [List.getLast?_nil, Option.none_or, h] at hdirective
    cases hdirective
  | case3 before c rest h ih =>
    rw [found_cons h]
    exact ih.skip h

theorem ordered_found (before : Option Char) (text : List Char) :
    (found before text).Pairwise fun s s' => s'.behind < s.behind := by
  induction before, text using found.induct with
  | case1 before text path rest h ih =>
    rw [found_of_some h]
    refine List.pairwise_cons.2 ⟨?_, ih⟩
    intro s hs
    obtain ⟨v, hv, -⟩ := sound_found _ _ s hs
    have hlength := hv.lt_length
    show s.behind < rest.length
    omega
  | case2 before h =>
    rw [found_nil h]
    exact .nil
  | case3 before c rest h ih =>
    rw [found_cons h]
    exact ih

theorem scans_found (before : Option Char) (text : List Char) :
    Scans before text (found before text) :=
  ⟨sound_found before text, covering_found before text, ordered_found before text⟩

/-- Of two scans, each has the sites of the other. -/
theorem Scans.subset (hS : Scans before text S) (hT : Scans before text T) (hs : s ∈ S) :
    s ∈ T := by
  -- From left to right, that is by the number of characters in front.
  induction hn : text.length - s.behind using Nat.strongRecOn generalizing s with
  | ind n ih =>
    obtain ⟨v, hv, hfree⟩ := hS.sound s hs
    rcases hT.covering v s hv with hin | ⟨t, ht, hcovers⟩
    · exact hin
    · exfalso
      obtain ⟨w, hw, hfree'⟩ := hT.sound t ht
      rcases hS.covering w t hw with hin | ⟨s', hs', hcovers'⟩
      · exact hfree t hin hcovers
      · -- What hides `t` in one scan is further left than `s`, so it is in the other, too.
        have hnot := hfree s' hs'
        obtain ⟨v', hv', -⟩ := hS.sound s' hs'
        have hlengths := And.intro hv.lt_length (And.intro hw.lt_length hv'.lt_length)
        unfold Site.Covers at hcovers hcovers' hnot
        have hin := ih (text.length - s'.behind) (by omega) hs' rfl
        exact hfree' s' hin hcovers'

/-- **A scan is unique**: only one list has the properties of what the search finds. -/
theorem Scans.unique (hS : Scans before text S) (hT : Scans before text T) : S = T := by
  have hmem : ∀ s, s ∈ S ↔ s ∈ T := fun s => ⟨hS.subset hT, hT.subset hS⟩
  have hnodup : ∀ {U}, Scans before text U → U.Nodup := by
    intro U hU
    refine hU.ordered.imp ?_
    rintro s s' hlt rfl
    exact Nat.lt_irrefl _ hlt
  refine ((List.perm_ext_iff_of_nodup (hnodup hS) (hnodup hT)).2 hmem).eq_of_pairwise ?_
    hS.ordered hT.ordered
  intro s s' _ _ hlt hgt
  exact absurd hlt (Nat.lt_asymm hgt)

end SolidityBuild.Source
