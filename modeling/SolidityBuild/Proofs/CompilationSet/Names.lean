import SolidityBuild.Proofs.CompilationSet.StandardJson
import SolidityBuild.Proofs.CompilationSet.Units
import SolidityBuild.Proofs.Path.Forward

/-! # Names: which sources the compiler can tell apart

    Documents are kept apart by their paths, sources by their names. A name forgets which of
    the path's slashes were backslashes, so two documents may get one name. Then one of the
    two is lost on a reader that keeps one value under each name of an object; as long as
    there are no such two documents, every text arrives.
-/

namespace SolidityBuild

open Json (Literal)

/-! ## Reading the sources -/

/-- A way to look up a name in an object that keeps one of the values under each name: the
    first one, the last one, or any other. -/
structure KeepsOne (keep : List (Literal × Json) → Literal → Option Json) : Prop where
  mem : ∀ members name value, keep members name = some value → (name, value) ∈ members
  found : ∀ members name value, (name, value) ∈ members → (keep members name).isSome

/-- Under different names nothing is lost. -/
theorem KeepsOne.eq_some {keep : List (Literal × Json) → Literal → Option Json}
    (h : KeepsOne keep) {members : List (Literal × Json)} {name : Literal} {value : Json}
    (hnodup : (members.map Prod.fst).Nodup) (hmem : (name, value) ∈ members) :
    keep members name = some value := by
  obtain ⟨kept, hkept⟩ := Option.isSome_iff_exists.1 (h.found members name value hmem)
  have heq : (name, kept) = (name, value) :=
    List.inj_on_of_nodup_map hnodup (h.mem members name kept hkept) hmem rfl
  rw [hkept, (Prod.mk.inj heq).2]

/-- Keeping the first value is one way. -/
theorem keepsOne_lookup : KeepsOne fun members name => members.lookup name := by
  constructor
  · intro members name value hfound
    obtain ⟨before, after, heq, -⟩ := List.lookup_eq_some_iff.1 hfound
    rw [heq]
    exact List.mem_append_right _ (List.mem_cons_self ..)
  · intro members name value hmem
    rw [Option.isSome_iff_ne_none]
    intro hnone
    exact bne_iff_ne.1 (List.lookup_eq_none_iff.1 hnone (name, value) hmem) rfl

namespace CompilationSet

/-- The member that a document is among the sources. -/
def sourceMember (doc : Document) : Literal × Json :=
  (.text doc.path.forward, .object [(.text "content", .string (.text doc.code))])

theorem sourceMembers_ofDocument (docs : List Document) :
    sourceMembers (docs.map .ofDocument) = docs.map sourceMember := by
  unfold sourceMembers
  rw [List.map_map]
  rfl

theorem names_sourceMembers (units : List CompilationUnit) :
    (sourceMembers units).map Prod.fst =
      (units.map CompilationUnit.name).map Literal.text := by
  unfold sourceMembers
  rw [List.map_map, List.map_map]
  rfl

theorem nodup_sourceMembers {units : List CompilationUnit}
    (h : (units.map CompilationUnit.name).Nodup) :
    ((sourceMembers units).map Prod.fst).Nodup := by
  rw [names_sourceMembers]
  exact h.map fun _ _ heq => Literal.text.inj heq

end CompilationSet

namespace Collection

open CompilationSet

variable {c : Collection} {project : Project}

/-! ## Documents that look alike -/

/-- Two documents for the compiler stand under different paths that look alike, the one having
    a backslash where the other one has a slash. -/
def Blurred (c : Collection) (project : Project) : Prop :=
  ∃ doc ∈ c.documents, ∃ other ∈ c.documents,
    project.inBuildDir doc.path = false ∧ project.inBuildDir other.path = false ∧
    doc.path ≠ other.path ∧ doc.path.cuts = other.path.cuts

/-- Without a backslash in a path nothing is blurred. -/
theorem not_blurred_of_plain (h : ∀ doc ∈ c.documents, '\\' ∉ doc.path.text.toList) :
    ¬ c.Blurred project := by
  rintro ⟨doc, hdoc, other, hother, -, -, hne, hcuts⟩
  exact hne (Path.eq_of_cuts_eq (h doc hdoc) (h other hother) hcuts)

theorem mem_outside {doc : Document} :
    doc ∈ c.documents.filter (fun doc => !project.inBuildDir doc.path) ↔
      doc ∈ c.documents ∧ project.inBuildDir doc.path = false := by
  rw [List.mem_filter, Bool.not_eq_true']

/-- The units have different names exactly if no two documents look alike. -/
theorem WellFormed.nodup_names_iff (h : WellFormed c) (project : Project) (runs : Nat) :
    ((c.compilationSet project runs).units.map CompilationUnit.name).Nodup ↔
      ¬ c.Blurred project := by
  have hpaths : ((c.documents.filter fun doc => !project.inBuildDir doc.path).map
      Document.path).Nodup := h.keyed.sublist (List.filter_sublist.map _)
  rw [((h.units_perm project runs).map CompilationUnit.name).nodup_iff, List.map_map,
    List.nodup_map_iff_inj_on hpaths.of_map]
  -- Paths tell the documents apart, so a name that two of them share blurs two paths.
  constructor
  · rintro hinj ⟨doc, hdoc, other, hother, hbuild, hbuild', hne, hcuts⟩
    have heq : doc = other := hinj doc (mem_outside.2 ⟨hdoc, hbuild⟩) other
      (mem_outside.2 ⟨hother, hbuild'⟩) (Path.forward_eq_iff.2 hcuts)
    exact hne (congrArg Document.path heq)
  · intro hclear doc hmem other hmem' hname
    obtain ⟨hdoc, hbuild⟩ := mem_outside.1 hmem
    obtain ⟨hother, hbuild'⟩ := mem_outside.1 hmem'
    by_contra hne
    refine hclear ⟨doc, hdoc, other, hother, hbuild, hbuild', ?_, Path.forward_eq_iff.1 hname⟩
    intro hpath
    exact hne (List.inj_on_of_nodup_map h.keyed hdoc hother hpath)

/-- Every document outside the build directory is a member of the sources. -/
theorem WellFormed.sourceMember_mem (h : WellFormed c) (runs : Nat) {doc : Document}
    (hdoc : doc ∈ c.documents) (hbuild : project.inBuildDir doc.path = false) :
    sourceMember doc ∈ sourceMembers (c.compilationSet project runs).units := by
  have hperm : (sourceMembers (c.compilationSet project runs).units).Perm
      (sourceMembers ((c.documents.filter fun doc => !project.inBuildDir doc.path).map
        .ofDocument)) := (h.units_perm project runs).map _
  rw [hperm.mem_iff, sourceMembers_ofDocument]
  exact List.mem_map_of_mem (mem_outside.2 ⟨hdoc, hbuild⟩)

/-- **Names**: the units of a collection have different names, the sources of the input for the
    compiler have different names too, and whatever reader keeps one value under each name
    sees the text of every document outside the build directory, exactly if no two of these
    documents have paths that look alike. -/
theorem names_apart_iff (h : Reachable c) (project : Project) (runs : Nat) :
    (((c.compilationSet project runs).units.map CompilationUnit.name).Nodup ∧
      ∃ sources, ListsSources (c.compilationSet project runs).standardJson sources ∧
        (sources.map Prod.fst).Nodup ∧
        ∀ keep, KeepsOne keep → ∀ doc ∈ c.documents, project.inBuildDir doc.path = false →
          keep sources (.text doc.path.forward) =
            some (.object [(.text "content", .string (.text doc.code))])) ↔
      ¬ c.Blurred project := by
  have hnames := h.wellFormed.nodup_names_iff project runs
  constructor
  · rintro ⟨hnodup, -⟩
    exact hnames.1 hnodup
  · intro hclear
    have hnodup := hnames.2 hclear
    refine ⟨hnodup, _, listsSources_standardJson _, nodup_sourceMembers hnodup, ?_⟩
    intro keep hkeep doc hdoc hbuild
    exact hkeep.eq_some (nodup_sourceMembers hnodup)
      (h.wellFormed.sourceMember_mem runs hdoc hbuild)

/-! ## Two files without a saved text -/

/-- Offers to an empty collection while nothing is saved, so that no import can be followed. -/
def unsaved (project : Project) (offers : List Offer) : Collection :=
  addAll ({} : TextStore).reader project {} offers

theorem reachable_unsaved (project : Project) (offers : List Offer) :
    Reachable (unsaved project offers) :=
  reachable_addAll (TextStore.canonical_reader {}) project offers

/-- Nothing but the offers is collected. -/
theorem exists_offer_of_mem_unsaved {offers : List Offer} {doc : Document}
    (hdoc : doc ∈ (unsaved project offers).documents) :
    ∃ o ∈ offers, o.path.normalize = doc.path := by
  by_contra hnone
  have hnot : ∀ o ∈ offers, ({} : TextStore).reader.key o.path ≠ doc.path := by
    intro o ho hkey
    exact hnone ⟨o, ho, hkey⟩
  have hread := (fetched_of_not_offered hdoc hnot).2
  cases hread

/-- An offer under a path of its own is collected. -/
theorem exists_mem_unsaved (project : Project) (before after : List Offer) (o : Offer)
    (hnew : ∀ other ∈ before, other.path.normalize ≠ o.path.normalize) :
    ∃ doc ∈ (unsaved project (before ++ o :: after)).documents,
      doc.path = o.path.normalize ∧ doc.code = o.code := by
  have habsent : (unsaved project before).has o.path.normalize = false := by
    rw [Bool.eq_false_iff]
    intro hhas
    obtain ⟨doc, hdoc, hpath⟩ := (has_iff _ _).1 hhas
    obtain ⟨other, hother, hkey⟩ := exists_offer_of_mem_unsaved hdoc
    exact hnew other hother (hkey.trans hpath)
  obtain ⟨doc, hget, hbare⟩ := get?_of_first before after o habsent
  have hkeyed := (reachable_unsaved project (before ++ o :: after)).wellFormed.keyed
  obtain ⟨hdoc, hpath⟩ := hkeyed.get?_eq_some_iff.1 hget
  have hcode : doc.bare.code = o.code := by rw [hbare]; rfl
  exact ⟨doc, hdoc, hpath, hcode⟩

/-- A project that declares nothing. -/
def plainProject : Project :=
  { root := ⟨"/proj"⟩ }

/-- A file with a backslash in its name. -/
def backslashOffer : Offer :=
  { path := ⟨"/proj/a\\b.sol"⟩, code := "contract A {}", origin := .buffer }

/-- A file in a directory, at the path that has a slash for the backslash. -/
def slashOffer : Offer :=
  { path := ⟨"/proj/a/b.sol"⟩, code := "contract B {}", origin := .buffer }

/-- Another file in that directory. -/
def besideOffer : Offer :=
  { path := ⟨"/proj/a/c.sol"⟩, code := "contract C {}", origin := .buffer }

theorem not_blurred_beside :
    ¬ (unsaved plainProject [backslashOffer, besideOffer]).Blurred plainProject := by
  rintro ⟨doc, hdoc, other, hother, -, -, hne, hcuts⟩
  obtain ⟨o, ho, hpath⟩ := exists_offer_of_mem_unsaved hdoc
  obtain ⟨o', ho', hpath'⟩ := exists_offer_of_mem_unsaved hother
  rw [← hpath, ← hpath'] at hne hcuts
  have hapart : backslashOffer.path.normalize.cuts ≠ besideOffer.path.normalize.cuts := by
    decide
  rcases List.mem_pair.1 ho with rfl | rfl <;> rcases List.mem_pair.1 ho' with rfl | rfl
  · exact hne rfl
  · exact hapart hcuts
  · exact hapart hcuts.symm
  · exact hne rfl

/-- A backslash does no harm as long as no other path looks like its path. -/
theorem names_apart_beside :
    Reachable (unsaved plainProject [backslashOffer, besideOffer]) ∧
    ¬ (unsaved plainProject [backslashOffer, besideOffer]).Blurred plainProject ∧
    (((unsaved plainProject [backslashOffer, besideOffer]).compilationSet plainProject
      200).units.map CompilationUnit.name).Nodup ∧
    ∃ sources, ListsSources ((unsaved plainProject [backslashOffer, besideOffer]).compilationSet
        plainProject 200).standardJson sources ∧
      (sources.map Prod.fst).Nodup ∧
      ∀ keep, KeepsOne keep →
        ∀ doc ∈ (unsaved plainProject [backslashOffer, besideOffer]).documents,
          plainProject.inBuildDir doc.path = false →
          keep sources (.text doc.path.forward) =
            some (.object [(.text "content", .string (.text doc.code))]) := by
  have hreach := reachable_unsaved plainProject [backslashOffer, besideOffer]
  exact ⟨hreach, not_blurred_beside,
    (names_apart_iff hreach plainProject 200).2 not_blurred_beside⟩

/-- Files at `/proj/a\b.sol` and `/proj/a/b.sol` get one name, and a reader that keeps one value
    under it misses the text of one of them. -/
theorem one_name_for_two_files :
    Reachable (unsaved plainProject [backslashOffer, slashOffer]) ∧
    ¬ (((unsaved plainProject [backslashOffer, slashOffer]).compilationSet plainProject
      200).units.map CompilationUnit.name).Nodup ∧
    ∀ sources, ∀ keep, KeepsOne keep →
      ∃ doc ∈ (unsaved plainProject [backslashOffer, slashOffer]).documents,
        plainProject.inBuildDir doc.path = false ∧
        keep sources (.text doc.path.forward) ≠
          some (.object [(.text "content", .string (.text doc.code))]) := by
  have hreach := reachable_unsaved plainProject [backslashOffer, slashOffer]
  obtain ⟨doc, hdoc, hpath, hcode⟩ := exists_mem_unsaved plainProject [] [slashOffer]
    backslashOffer (fun _ h => nomatch h)
  obtain ⟨other, hother, hpath', hcode'⟩ := exists_mem_unsaved plainProject
    [backslashOffer] [] slashOffer (by decide)
  have halike : doc.path.forward = other.path.forward := by
    rw [hpath, hpath', Path.forward_eq_iff]
    decide
  refine ⟨hreach, ?_, ?_⟩
  · rw [hreach.wellFormed.nodup_names_iff plainProject 200, not_not]
    refine ⟨doc, hdoc, other, hother, rfl, rfl, ?_, Path.forward_eq_iff.1 halike⟩
    rw [hpath, hpath']
    decide
  · intro sources keep _
    by_contra hall
    push Not at hall
    have hseen := hall doc hdoc rfl
    have hseen' := hall other hother rfl
    rw [halike, hseen', hcode, hcode'] at hseen
    exact absurd hseen (by simp [backslashOffer, slashOffer])

end Collection

end SolidityBuild
