import SolidityBuild.Proofs.Remapping.Entry
import SolidityBuild.Proofs.Resolution.Rules

/-! # Agreement: when resolver and compiler apply the same remapping

    The resolver compares contexts as they are written, tests them part by part and keeps
    the first of equals. The compiler sees absolute contexts, tests them as texts, keeps the
    last of equals, and finds an entry for each package in the same list. So the two drift
    apart exactly if some entry that rewrites the import differently prevails over every
    entry that rewrites it alike, and there are only a few ways in which that happens.
-/

namespace SolidityBuild.Resolution

open Compiler (Entry)

variable (project : Project) (importer : Path) (specifier : String) (r : Remapping)

/-! ## What it means to agree -/

/-- The compiler applies the entry that was emitted for a remapping, or one that gives the
    same text for the import. -/
def Agrees : Prop :=
  ∃ chosen own,
    Compiler.chosen? importer.forward specifier project.compilerRemappings = some chosen ∧
    Entry.ofLine? (project.absolute r).written = some own ∧
    chosen.rewrite specifier = own.rewrite specifier

/-- An emitted remapping that matches the import and rewrites it like the one for `r`. -/
def Allied (m : Remapping) : Prop :=
  m.entry.matches? importer.forward specifier = true ∧
    m.entry.rewrite specifier = (project.absolute r).entry.rewrite specifier

/-- The remapping `m`, emitted between others, rewrites the import differently, and every
    allied one is outranked by it or comes before it with the same rank. -/
structure Prevails (before : List Remapping) (m : Remapping) (after : List Remapping) :
    Prop where
  emitted : project.emitted = before ++ m :: after
  matching : m.entry.matches? importer.forward specifier = true
  differs : m.entry.rewrite specifier ≠ (project.absolute r).entry.rewrite specifier
  earlier : ∀ a ∈ before, Allied project importer specifier r a → a.entry.rank ≤ m.entry.rank
  later : ∀ a ∈ after, Allied project importer specifier r a → a.entry.rank < m.entry.rank

/-- The ways in which the compiler comes to apply something else than `r`. -/
inductive Drift : Prop where
  /-- the entry for `r` does not match, and no other one stands in for it -/
  | missing (hspelling : ¬ (project.absolute r).Plain ∨ importer.normalize ≠ importer)
      (hnone : ∀ m ∈ project.emitted, ¬ Allied project importer specifier r m)
  /-- an entry prevails, and it or the one for `r` is not read as it was written -/
  | misread {before after : List Remapping} {m : Remapping}
      (hprevails : Prevails project importer specifier r before m after)
      (hspelling : ¬ (project.absolute r).Plain ∨ ¬ m.Plain ∨ importer.normalize ≠ importer)
  /-- the entry of a package prevails over a shorter stem or the same one -/
  | package {before after : List Remapping} {p : Package} (hp : p ∈ project.packages)
      (hprevails : Prevails project importer specifier r before (project.ofPackage p) after)
      (hcontext : r.context = none) (hstem : r.stem.length ≤ p.name.length + 1)
  /-- a context that does not contain the importing file is a prefix of its name as text -/
  | textual {before after : List Remapping} {o : Remapping} {context : Path}
      (ho : o ∈ project.remappings)
      (hprevails : Prevails project importer specifier r before (project.absolute o) after)
      (hcontext : project.contextPath? o = some context)
      (hoff : context.contains importer = false)
      (htext : context.forward.toList <+: importer.forward.toList)
  /-- a remapping that does not outrank `r` as written does so with absolute paths -/
  | respelled {before after : List Remapping} {o : Remapping} (ho : o ∈ project.remappings)
      (hprevails : Prevails project importer specifier r before (project.absolute o) after)
      (happlies : applies project importer specifier o = true) (hrank : o.rank ≤ r.rank)
      (habsolute : (project.absolute r).entry.rank < (project.absolute o).entry.rank)
  /-- the context and the stem of `r` are remapped again further down the list -/
  | repeated {before after : List Remapping} {o : Remapping} (ho : o ∈ project.remappings)
      (hprevails : Prevails project importer specifier r before (project.absolute o) after)
      (happlies : applies project importer specifier o = true)
      (hfirst : project.absolute r ∈ before) (hstem : o.stem = r.stem)
      (hcontext : (project.absolute o).context = (project.absolute r).context)

/-! ## Agreement without an entry that prevails -/

variable {project importer specifier r}

/-- Two places in one list are the same or one comes first. -/
theorem split_cases {α : Type*} {before before' after after' : List α} {m m' : α}
    (h : before ++ m :: after = before' ++ m' :: after') :
    m = m' ∨ (m ∈ before' ∧ m' ∈ after) ∨ (m ∈ after' ∧ m' ∈ before) := by
  rcases List.append_eq_append_iff.1 h with ⟨between, hbefore, hrest⟩ | ⟨between, hbefore, hrest⟩
  · cases between with
    | nil => exact .inl (List.cons.inj hrest).1
    | cons x between =>
      obtain ⟨rfl, hafter⟩ := List.cons.inj hrest
      refine .inr (.inl ⟨?_, ?_⟩)
      · rw [hbefore]
        simp
      · rw [hafter]
        simp
  · cases between with
    | nil => exact .inl (List.cons.inj hrest).1.symm
    | cons x between =>
      obtain ⟨rfl, hafter⟩ := List.cons.inj hrest
      refine .inr (.inr ⟨?_, ?_⟩)
      · rw [hafter]
        simp
      · rw [hbefore]
        simp

/-- Resolver and compiler agree exactly if an allied entry is there and no other prevails. -/
theorem agrees_iff_not_prevails :
    Agrees project importer specifier r ↔
      (∃ a ∈ project.emitted, Allied project importer specifier r a) ∧
      ∀ before m after, ¬ Prevails project importer specifier r before m after := by
  have hagrees : Agrees project importer specifier r ↔ ∃ chosen,
      Compiler.chosen? importer.forward specifier (project.emitted.map Remapping.written) =
        some chosen ∧
      chosen.rewrite specifier = (project.absolute r).entry.rewrite specifier := by
    unfold Agrees
    simp only [Remapping.ofLine?_written, Option.some.injEq, project.compilerRemappings_eq]
    constructor
    · rintro ⟨chosen, own, hchosen, rfl, hrewrite⟩
      exact ⟨chosen, hchosen, hrewrite⟩
    · rintro ⟨chosen, hchosen, hrewrite⟩
      exact ⟨chosen, _, hchosen, rfl, hrewrite⟩
  rw [hagrees]
  constructor
  · -- The chosen entry is allied, and whatever prevails would have been chosen instead.
    rintro ⟨chosen, hchosen, hrewrite⟩
    obtain ⟨before, a, after, hsplit, rfl, hmatches, hbefore, hafter⟩ :=
      Compiler.chosen?_eq_some_iff.1 hchosen
    have hallied : Allied project importer specifier r a := ⟨hmatches, hrewrite⟩
    refine ⟨⟨a, by rw [hsplit]; simp, hallied⟩, ?_⟩
    intro before' m after' hprevails
    rcases split_cases (hsplit.symm.trans hprevails.emitted) with rfl | ⟨ha, hm⟩ | ⟨ha, hm⟩
    · exact hprevails.differs hrewrite
    · exact absurd (hafter m hm hprevails.matching) (not_lt.2 (hprevails.earlier a ha hallied))
    · exact absurd (hbefore m hm hprevails.matching) (not_le.2 (hprevails.later a ha hallied))
  · -- Something matches, so something is chosen; if it were not allied, it would prevail.
    rintro ⟨⟨a, ha, hallied⟩, hnone⟩
    obtain ⟨chosen, hchosen⟩ := Compiler.exists_chosen? ha hallied.1
    refine ⟨chosen, hchosen, ?_⟩
    obtain ⟨before, m, after, hsplit, rfl, hmatches, hbefore, hafter⟩ :=
      Compiler.chosen?_eq_some_iff.1 hchosen
    by_contra hdiffers
    exact hnone before m after ⟨hsplit, hmatches, hdiffers,
      fun o ho hallied => hbefore o ho hallied.1, fun o ho hallied => hafter o ho hallied.1⟩

/-! ## The ways to drift -/

/-- A context of a project is an absolute path in its normal form. -/
theorem contextPath?_spec (hroot : project.root.isAbsolute) {o : Remapping} {context : Path}
    (h : project.contextPath? o = some context) :
    context.isAbsolute ∧ context.normalize = context := by
  obtain ⟨directory, -, rfl⟩ := Option.map_eq_some_iff.1 h
  exact ⟨Path.isAbsolute_normalize (Path.isAbsolute_join hroot _), Path.normalize_normalize _⟩

/-- A remapping that applies to the imports of a file is emitted as one that matches. -/
theorem matches_of_applies (hroot : project.root.isAbsolute)
    (hplain : (project.absolute r).Plain) (hnormal : importer.normalize = importer)
    (happlies : applies project importer specifier r = true) :
    (project.absolute r).entry.matches? importer.forward specifier = true := by
  obtain ⟨hstem, hcontext⟩ := applies_iff.1 happlies
  rw [hplain.entry_eq, Entry.matches?_iff]
  refine ⟨?_, hstem⟩
  show (((project.contextPath? r).map Path.forward).getD "").toList <+: importer.forward.toList
  cases hc : project.contextPath? r with
  | none => exact List.nil_prefix
  | some context =>
    obtain ⟨habsolute, hcanonical⟩ := contextPath?_spec hroot hc
    have htext := Path.normalize_isPrefix_of_contains habsolute (hcontext context hc)
    rw [hcanonical, hnormal] at htext
    exact Path.forward_isPrefix htext

/-- Of the emitted contexts only a missing one is empty as text. -/
theorem absolute_context_eq (hroot : project.root.isAbsolute) {o : Remapping}
    (h : ((project.absolute o).context.getD "").toList =
      ((project.absolute r).context.getD "").toList) :
    (project.absolute o).context = (project.absolute r).context := by
  change (((project.contextPath? o).map Path.forward).getD "").toList =
    (((project.contextPath? r).map Path.forward).getD "").toList at h
  show (project.contextPath? o).map Path.forward = (project.contextPath? r).map Path.forward
  cases ho : project.contextPath? o with
  | none =>
    cases hr : project.contextPath? r with
    | none => rfl
    | some context =>
      rw [ho, hr] at h
      exact absurd h.symm (Path.forward_ne_empty (contextPath?_spec hroot hr).1)
  | some context =>
    cases hr : project.contextPath? r with
    | none =>
      rw [ho, hr] at h
      exact absurd h (Path.forward_ne_empty (contextPath?_spec hroot ho).1)
    | some context' =>
      rw [ho, hr] at h
      exact congrArg some (String.toList_injective h)

/-- What the entry for `r` says of an entry that prevails, if it is allied itself. -/
theorem Prevails.rank_le {before after : List Remapping} {m : Remapping}
    (h : Prevails project importer specifier r before m after)
    (hr : r ∈ project.remappings)
    (hallied : Allied project importer specifier r (project.absolute r)) :
    (project.absolute r).entry.rank < m.entry.rank ∨
      (project.absolute r).entry.rank = m.entry.rank ∧ project.absolute r ∈ before := by
  have hmem : project.absolute r ∈ before ++ m :: after := by
    rw [← h.emitted]
    exact List.mem_append_left _ (List.mem_map_of_mem hr)
  rcases List.mem_append.1 hmem with hbefore | hrest
  · rcases (h.earlier _ hbefore hallied).lt_or_eq with hlt | heq
    · exact .inl hlt
    · exact .inr ⟨heq, hbefore⟩
  · rcases List.mem_cons.1 hrest with rfl | hafter
    · exact absurd rfl h.differs
    · exact .inl (h.later _ hafter hallied)

/-- Every entry that prevails over the remapping of the resolver does so in a known way. -/
theorem Prevails.drift {before after : List Remapping} {m : Remapping}
    (hroot : project.root.isAbsolute)
    (hr : remapping? project importer specifier = some r)
    (h : Prevails project importer specifier r before m after) :
    Drift project importer specifier r := by
  obtain ⟨hmem, happlies, hmax⟩ := rank_le_of_remapping? hr
  -- From here on texts can be compared only where all lines are read as written.
  by_cases hnormal : importer.normalize = importer
  swap
  · exact .misread h (.inr (.inr hnormal))
  by_cases hplain : (project.absolute r).Plain
  swap
  · exact .misread h (.inl hplain)
  by_cases hplain' : m.Plain
  swap
  · exact .misread h (.inr (.inl hplain'))
  have hallied : Allied project importer specifier r (project.absolute r) :=
    ⟨matches_of_applies hroot hplain hnormal happlies, rfl⟩
  have hrank := h.rank_le hmem hallied
  have hm : m ∈ project.emitted := by rw [h.emitted]; simp
  rcases List.mem_append.1 hm with hm | hm
  · obtain ⟨o, ho, rfl⟩ := List.mem_map.1 hm
    obtain ⟨hcontext, hstem⟩ := (Entry.matches?_iff _ _ _).1 h.matching
    rw [hplain'.entry_eq] at hcontext hstem
    cases happlies' : applies project importer specifier o with
    | false =>
      -- The stem matches, so it is the context that keeps the remapping from applying.
      obtain ⟨context, hc, hoff⟩ : ∃ context, project.contextPath? o = some context ∧
          context.contains importer = false := by
        by_contra hnone
        rw [Bool.eq_false_iff] at happlies'
        refine happlies' (applies_iff.2 ⟨hstem, ?_⟩)
        intro context hc
        by_contra hoff
        exact hnone ⟨context, hc, by simpa using hoff⟩
      refine .textual ho h hc hoff ?_
      change (((project.contextPath? o).map Path.forward).getD "").toList <+: _ at hcontext
      rw [hc] at hcontext
      exact hcontext
    | true =>
      -- Both rules see this one, so they differ in the ranks or in which of equals they keep.
      rcases hrank with hlt | ⟨heq, hbefore⟩
      · exact .respelled ho h happlies' (hmax o ho happlies') hlt
      · obtain ⟨hcontexts, hstems⟩ := Entry.eq_of_rank_eq h.matching hallied.1 heq.symm
        rw [hplain.entry_eq, hplain'.entry_eq] at hcontexts hstems
        exact .repeated ho h happlies' hbefore (String.toList_injective hstems)
          (absolute_context_eq hroot hcontexts)
  · obtain ⟨p, hp, rfl⟩ := List.mem_map.1 hm
    have hle : (project.absolute r).entry.rank ≤ (project.ofPackage p).entry.rank := by
      rcases hrank with hlt | ⟨heq, -⟩
      · exact hlt.le
      · exact heq.le
    rw [hplain.entry_eq, hplain'.entry_eq] at hle
    -- The entry of a package has the empty context, so the one for `r` has it too.
    have hempty : (Entry.ofRemapping (project.ofPackage p)).context.length = 0 := rfl
    have hlengths : (Entry.ofRemapping (project.absolute r)).context.length = 0 ∧
        r.stem.toList.length ≤ (p.name ++ "/").toList.length := by
      rcases Prod.Lex.toLex_le_toLex.1 hle with hlt | ⟨heq, hstem⟩
      · exact absurd hlt (Nat.not_lt_zero _)
      · exact ⟨heq.trans hempty, hstem⟩
    refine .package hp h ?_ ?_
    · cases hc : r.context with
      | none => rfl
      | some directory =>
        have hpath : project.contextPath? r = some (project.inRoot directory) := by
          rw [Project.contextPath?, hc, Option.map_some]
        have hcontext := List.length_eq_zero_iff.1 hlengths.1
        change (((project.contextPath? r).map Path.forward).getD "").toList = [] at hcontext
        rw [hpath] at hcontext
        exact absurd hcontext (Path.forward_ne_empty (contextPath?_spec hroot hpath).1)
    · rw [← String.length_toList, ← String.length_toList]
      simpa using hlengths.2

/-! ## The agreement theorem -/

theorem Drift.not_agrees (h : Drift project importer specifier r) :
    ¬ Agrees project importer specifier r := by
  rw [agrees_iff_not_prevails]
  rintro ⟨⟨a, ha, hallied⟩, hnone⟩
  cases h with
  | missing hspelling habsent => exact habsent a ha hallied
  | misread hprevails _ => exact hnone _ _ _ hprevails
  | package hp hprevails _ _ => exact hnone _ _ _ hprevails
  | textual ho hprevails _ _ _ => exact hnone _ _ _ hprevails
  | respelled ho hprevails _ _ _ => exact hnone _ _ _ hprevails
  | repeated ho hprevails _ _ _ _ => exact hnone _ _ _ hprevails

/-- **Remapping agreement**: for an import that the resolver remaps, the compiler applies the
    entry of the same remapping, or one that rewrites the import alike, exactly if the two
    rules do not drift apart in one of the known ways. -/
theorem compiler_agrees_iff {reader : SourceReader} {resolution : Resolution}
    (hroot : project.root.isAbsolute)
    (hresolve : resolve reader project importer specifier = .ok resolution)
    (hkind : resolution.kind = .remapped) :
    ∃ r, remapping? project importer specifier = some r ∧
      within project.root (replaced r specifier) specifier = .ok resolution.path ∧
      (Agrees project importer specifier r ↔ ¬ Drift project importer specifier r) := by
  obtain ⟨r, hr, hpath⟩ := remapping?_of_remapped hresolve hkind
  refine ⟨r, hr, hpath, fun hagrees hdrift => hdrift.not_agrees hagrees, ?_⟩
  intro hdrift
  rw [agrees_iff_not_prevails]
  constructor
  · -- Without an allied entry the one for `r` cannot match, so it is not read as written.
    by_contra hnone
    obtain ⟨hmem, happlies, -⟩ := rank_le_of_remapping? hr
    refine hdrift (.missing ?_ fun m hm hallied => hnone ⟨m, hm, hallied⟩)
    by_contra hspelling
    rw [not_or, not_not, Ne, not_not] at hspelling
    exact hnone ⟨project.absolute r, List.mem_append_left _ (List.mem_map_of_mem hmem),
      matches_of_applies hroot hspelling.1 hspelling.2 happlies, rfl⟩
  · intro before m after hprevails
    exact hdrift (hprevails.drift hroot hr)

/-! ## The same stem twice -/

/-- A remapping of a stem. -/
def firstTarget : Remapping :=
  { stem := "@oz/", target := "first/" }

/-- A project that remaps the stem again, with another target. -/
def repeatedStem : Project where
  root := ⟨"/proj"⟩
  remappings := [firstTarget, { stem := "@oz/", target := "second/" }]

theorem resolve_repeatedStem :
    resolve ({} : TextStore).reader repeatedStem ⟨"/proj/A.sol"⟩ "@oz/X.sol" =
      .ok { path := ⟨"/proj/first/X.sol"⟩, kind := .remapped } := by
  decide +kernel

theorem remapping?_repeatedStem :
    remapping? repeatedStem ⟨"/proj/A.sol"⟩ "@oz/X.sol" = some firstTarget := by
  decide +kernel

theorem not_agrees_repeatedStem :
    ¬ Agrees repeatedStem ⟨"/proj/A.sol"⟩ "@oz/X.sol" firstTarget := by
  have hchosen : Compiler.chosen? (Path.mk "/proj/A.sol").forward "@oz/X.sol"
      repeatedStem.compilerRemappings =
        some { stem := "@oz/".toList, target := "/proj/second/".toList } := by decide +kernel
  have hown : Entry.ofLine? (repeatedStem.absolute firstTarget).written =
      some { stem := "@oz/".toList, target := "/proj/first/".toList } := by decide +kernel
  rintro ⟨chosen, own, hchosen', hown', hrewrite⟩
  obtain rfl := Option.some.inj (hchosen.symm.trans hchosen')
  obtain rfl := Option.some.inj (hown.symm.trans hown')
  exact absurd hrewrite (by decide +kernel)

/-- The two rules drift apart on an import with that stem. -/
theorem drift_repeatedStem :
    Drift repeatedStem ⟨"/proj/A.sol"⟩ "@oz/X.sol" firstTarget := by
  have hroot : repeatedStem.root.isAbsolute := by decide +kernel
  obtain ⟨r, hr, -, hiff⟩ := compiler_agrees_iff hroot resolve_repeatedStem rfl
  obtain rfl := Option.some.inj (remapping?_repeatedStem.symm.trans hr)
  by_contra hdrift
  exact not_agrees_repeatedStem (hiff.2 hdrift)

/-- The resolver goes by the first target, and the compiler looks below the second one. -/
theorem disagreement_repeatedStem :
    resolve ({} : TextStore).reader repeatedStem ⟨"/proj/A.sol"⟩ "@oz/X.sol" =
        .ok { path := ⟨"/proj/first/X.sol"⟩, kind := .remapped } ∧
      remapping? repeatedStem ⟨"/proj/A.sol"⟩ "@oz/X.sol" = some firstTarget ∧
      (Compiler.chosen? "/proj/A.sol" "@oz/X.sol" repeatedStem.compilerRemappings).map
        (·.rewrite "@oz/X.sol") = some "/proj/second/X.sol" ∧
      ¬ Agrees repeatedStem ⟨"/proj/A.sol"⟩ "@oz/X.sol" firstTarget :=
  ⟨resolve_repeatedStem, remapping?_repeatedStem, by decide +kernel, not_agrees_repeatedStem⟩

end SolidityBuild.Resolution
