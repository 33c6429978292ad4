import SolidityBuild.Proofs.Path.Containment
import SolidityBuild.Proofs.Remapping.Choice

/-! # Entries: remappings as the compiler reads them

    The compiler gets remappings as texts. It reads a target after the first `=`, and a
    context before the first `:` of what stands in front. Contexts and stems are compared as
    texts, with the name of the importing source and with the import. Of the entries that
    match, the longest context wins, then the longest stem, then the last one.
-/

namespace SolidityBuild

namespace Text

theorem splitFirst_append {sep : Char} {before : List Char} (h : sep ∉ before)
    (after : List Char) : splitFirst sep (before ++ sep :: after) = some (before, after) :=
  splitFirst_eq_some_iff.2 ⟨h, rfl⟩

theorem splitFirst_of_not_mem {sep : Char} {cs : List Char} (h : sep ∉ cs) :
    splitFirst sep cs = none := by
  induction cs with
  | nil => rfl
  | cons c cs ih =>
    simp only [List.mem_cons, not_or] at h
    simp [splitFirst, Ne.symm h.1, ih h.2]

theorem exists_splitFirst {sep : Char} {cs : List Char} (h : sep ∈ cs) :
    ∃ before after, splitFirst sep cs = some (before, after) := by
  obtain ⟨before, after, hcs, hbefore⟩ := List.eq_append_cons_of_mem h
  exact ⟨before, after, splitFirst_eq_some_iff.2 ⟨hbefore, hcs⟩⟩

end Text

namespace Compiler

/-- A remapping as the compiler reads it; without a context the empty one stands. -/
structure Entry where
  context : List Char := []
  stem : List Char
  target : List Char
deriving DecidableEq

namespace Entry

/-- Reads `context:stem=target` or `stem=target`. -/
def ofLine? (line : String) : Option Entry :=
  (Text.splitFirst '=' line.toList).map fun (left, target) =>
    match Text.splitFirst ':' left with
    | some (context, stem) => { context, stem, target }
    | none => { stem := left, target }

/-- The entry that a remapping means. -/
def ofRemapping (r : Remapping) : Entry where
  context := (r.context.getD "").toList
  stem := r.stem.toList
  target := r.target.toList

/-- Whether an entry matches an import of the source with some name. -/
def matches? (e : Entry) (unit specifier : String) : Bool :=
  e.context.isPrefixOf unit.toList && e.stem.isPrefixOf specifier.toList

/-- What the compiler compares. Among prefixes of one text it makes no difference whether
    characters or bytes are counted. -/
def rank (e : Entry) : Nat ×ₗ Nat :=
  toLex (e.context.length, e.stem.length)

/-- The import with the stem replaced, as text. -/
def rewrite (e : Entry) (specifier : String) : String :=
  String.ofList (e.target ++ specifier.toList.drop e.stem.length)

theorem matches?_iff (e : Entry) (unit specifier : String) :
    e.matches? unit specifier = true ↔
      e.context <+: unit.toList ∧ e.stem <+: specifier.toList := by
  unfold matches?
  rw [Bool.and_eq_true, List.isPrefixOf_iff_prefix, List.isPrefixOf_iff_prefix]

/-- Entries of the same rank that match the same import have the same context and stem. -/
theorem eq_of_rank_eq {e e' : Entry} {unit specifier : String}
    (h : e.matches? unit specifier = true) (h' : e'.matches? unit specifier = true)
    (hrank : e.rank = e'.rank) : e.context = e'.context ∧ e.stem = e'.stem := by
  obtain ⟨hcontext, hstem⟩ := (e.matches?_iff unit specifier).1 h
  obtain ⟨hcontext', hstem'⟩ := (e'.matches?_iff unit specifier).1 h'
  obtain ⟨hcontexts, hstems⟩ := Prod.mk.inj (toLex.injective hrank)
  -- Two prefixes of one text are the same once they have the same length.
  constructor
  · exact (List.prefix_of_prefix_length_le hcontext hcontext' hcontexts.le).eq_of_length hcontexts
  · exact (List.prefix_of_prefix_length_le hstem hstem' hstems.le).eq_of_length hstems

end Entry

/-- The entry that the compiler applies to an import of the source with some name. -/
def chosen? (unit specifier : String) (lines : List String) : Option Entry :=
  lastBest? Entry.rank ((lines.filterMap Entry.ofLine?).filter (·.matches? unit specifier))

end Compiler

/-! ## Reading back -/

open Compiler (Entry)

namespace Remapping

/-- Whether the written form is read with the context, stem and target that were written. -/
def Plain (r : Remapping) : Prop :=
  '=' ∉ r.stem.toList ∧
    match r.context with
    | some context => '=' ∉ context.toList ∧ ':' ∉ context.toList
    | none => ':' ∉ r.stem.toList

theorem toList_written (r : Remapping) :
    r.written.toList = (match r.context with
      | some context => context.toList ++ ':' :: r.stem.toList
      | none => r.stem.toList) ++ '=' :: r.target.toList := by
  unfold written
  cases r.context <;> simp [String.toList_append]

/-- What the compiler reads when it gets a remapping. -/
def entry (r : Remapping) : Entry :=
  (Entry.ofLine? r.written).getD (.ofRemapping r)

theorem ofLine?_written (r : Remapping) : Entry.ofLine? r.written = some r.entry := by
  obtain ⟨left, target, hsplit⟩ : ∃ left target,
      Text.splitFirst '=' r.written.toList = some (left, target) := by
    refine Text.exists_splitFirst ?_
    rw [toList_written]
    simp
  unfold entry Entry.ofLine?
  rw [hsplit]
  rfl

/-- A plain remapping is read as it is meant. -/
theorem Plain.entry_eq {r : Remapping} (h : r.Plain) : r.entry = .ofRemapping r := by
  obtain ⟨hstem, hcontext⟩ := h
  unfold entry Entry.ofLine? Entry.ofRemapping
  rw [toList_written]
  cases hr : r.context with
  | none =>
    rw [hr] at hcontext
    rw [Text.splitFirst_append hstem]
    simp [Text.splitFirst_of_not_mem hcontext]
  | some context =>
    rw [hr] at hcontext
    have hleft : '=' ∉ context.toList ++ ':' :: r.stem.toList := by
      simp [hcontext.1, hstem]
    rw [Text.splitFirst_append hleft]
    simp [Text.splitFirst_append hcontext.2]

end Remapping

/-- What the compiler applies of some remappings: one that matches and that none of those
    before it outranks; those after it, it outranks. -/
theorem Compiler.chosen?_eq_some_iff {unit specifier : String} {ms : List Remapping}
    {e : Compiler.Entry} :
    Compiler.chosen? unit specifier (ms.map Remapping.written) = some e ↔
      ∃ before m after, ms = before ++ m :: after ∧ m.entry = e ∧
        e.matches? unit specifier = true ∧
        (∀ o ∈ before, o.entry.matches? unit specifier = true → o.entry.rank ≤ e.rank) ∧
        ∀ o ∈ after, o.entry.matches? unit specifier = true → o.entry.rank < e.rank := by
  have hread : (ms.map Remapping.written).filterMap Entry.ofLine? = ms.map Remapping.entry := by
    rw [List.filterMap_map, ← List.filterMap_eq_map]
    congr 1
    funext m
    exact m.ofLine?_written
  rw [Compiler.chosen?, hread, lastBest?_filter_eq_some_iff]
  constructor
  · rintro ⟨before, after, heq, hmatches, hbefore, hafter⟩
    obtain ⟨before', rest, rfl, rfl, hrest⟩ := List.map_eq_append_iff.1 heq
    obtain ⟨m, after', rfl, rfl, rfl⟩ := List.map_eq_cons_iff.1 hrest
    exact ⟨before', m, after', rfl, rfl, hmatches,
      fun o ho => hbefore _ (List.mem_map_of_mem ho),
      fun o ho => hafter _ (List.mem_map_of_mem ho)⟩
  · rintro ⟨before, m, after, rfl, rfl, hmatches, hbefore, hafter⟩
    refine ⟨before.map Remapping.entry, after.map Remapping.entry, by simp, hmatches, ?_, ?_⟩
    · intro e he
      obtain ⟨o, ho, rfl⟩ := List.mem_map.1 he
      exact hbefore o ho
    · intro e he
      obtain ⟨o, ho, rfl⟩ := List.mem_map.1 he
      exact hafter o ho

/-- The compiler applies something as soon as something matches. -/
theorem Compiler.exists_chosen? {unit specifier : String} {ms : List Remapping} {m : Remapping}
    (hm : m ∈ ms) (hmatches : m.entry.matches? unit specifier = true) :
    ∃ e, Compiler.chosen? unit specifier (ms.map Remapping.written) = some e := by
  refine lastBest?_isSome Entry.rank (List.mem_filter.2 ⟨?_, hmatches⟩)
  exact List.mem_filterMap.2 ⟨m.written, List.mem_map_of_mem hm, m.ofLine?_written⟩

/-! ## The entries of a project -/

namespace Project

/-- The remapping of a package to its sources. -/
def ofPackage (project : Project) (p : Package) : Remapping where
  stem := p.name ++ "/"
  target := (p.sourcesPath project.contractsDir).forward ++ "/"

/-- The remappings that the compiler gets, before they are written. -/
def emitted (project : Project) : List Remapping :=
  project.remappings.map project.absolute ++ project.packages.map project.ofPackage

theorem compilerRemappings_eq (project : Project) :
    project.compilerRemappings = project.emitted.map Remapping.written := by
  unfold compilerRemappings emitted
  rw [List.map_append, List.map_map, List.map_map]
  congr 1
  apply List.map_congr_left
  intro p _
  apply String.toList_injective
  simp [packageRemapping, ofPackage, Remapping.written, String.toList_append]

end Project

end SolidityBuild
