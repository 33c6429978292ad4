import SolidityBuild.Glob.Search
import SolidityBuild.Proofs.Disk.Listing
import SolidityBuild.Proofs.Glob.Matching
import SolidityBuild.Proofs.Path.Descent

/-! # Descending: which paths the patterns of a search lead to

    A pattern that is an escaped name leads to the entry of this name and nowhere else. Two
    stars lead to every entry below a directory, however deep, and the pattern after them picks
    the entries by their own names.
-/

namespace SolidityBuild.Glob

variable {d : Disk} {onlyDirectories? : Bool} {fuel : Nat} {g : Glob} {rest : List Glob}
  {p q : Path} {name : String} {names : List String}

/-! ## Patterns of one segment -/

/-- The pattern of two stars. -/
def anyDepth : Glob where
  tokens := [.anySegments]

/-- The pattern of an escaped name. -/
def named (name : String) : Glob where
  tokens := name.toList.map escapeToken

theorem accepts_named_iff {text : String} : (named name).accepts text = true ↔ text = name := by
  have hmatch : matchesChars (name.toList.map escapeToken ++ []) text.toList = true ↔
      ∃ post, text.toList = name.toList ++ post ∧ matchesChars [] post = true :=
    matchesChars_map_append_iff means_escapeToken name.toList
  rw [List.append_nil] at hmatch
  unfold accepts named
  rw [hmatch]
  constructor
  · intro ⟨post, htext, hpost⟩
    rw [matchesChars, List.isEmpty_iff] at hpost
    rw [hpost, List.append_nil] at htext
    exact String.toList_injective htext
  · intro heq
    exact ⟨[], by rw [heq, List.append_nil], rfl⟩

theorem isRecursive_named (name : String) : (named name).isRecursive = false := by
  have hnot : GlobToken.anySegments ∉ name.toList.map escapeToken := by
    intro hmem
    obtain ⟨c, -, hc⟩ := List.mem_map.1 hmem
    exact (means_escapeToken c).single.2 hc
  simpa [isRecursive, named] using hnot

/-- A name that is spelled without escapes is a literal, and there is no other. -/
theorem literal?_named {segment : String} (h : (named name).literal? = some segment) :
    segment = name := by
  have hchars : ∀ cs ds : List Char,
      (cs.map escapeToken).mapM GlobToken.char? = some ds → ds = cs := by
    intro cs
    induction cs with
    | nil =>
      intro ds hds
      exact (Option.some.inj hds).symm
    | cons c cs ih =>
      intro ds hds
      rw [List.map_cons, List.mapM_cons] at hds
      obtain ⟨first, hfirst, hds⟩ := Option.bind_eq_some_iff.1 hds
      obtain ⟨others, hothers, hds⟩ := Option.bind_eq_some_iff.1 hds
      -- What is escaped stands as a class, and that is no literal.
      unfold escapeToken at hfirst
      split at hfirst
      · cases hfirst
      · rw [← Option.some.inj hds, ← Option.some.inj hfirst, ih others hothers]
  obtain ⟨ds, hds, rfl⟩ := Option.map_eq_some_iff.1 h
  rw [hchars _ ds hds, String.ofList_toList]

/-! ## Two stars -/

/-- The names lead from a directory to a path: each one is listed in the directory before. -/
inductive Leads (d : Disk) : Path → List String → Path → Prop
  | last {p : Path} {name : String} (hdir : d.isDir p = true) (hname : name ∈ d.list p) :
      Leads d p [name] (entryOf p name)
  | step {p q : Path} {name : String} {names : List String} (hdir : d.isDir p = true)
      (hname : name ∈ d.list p) (hrest : Leads d (entryOf p name) names q) :
      Leads d p (name :: names) q

theorem expand_anyDepth (hg : g.isRecursive = false) :
    expand d false (fuel + 1) [anyDepth, g] p =
      if d.isDir p then (d.list p).flatMap fun name =>
        (if g.accepts name then [entryOf p name] else []) ++
          if d.isDir (entryOf p name) then expand d false fuel [anyDepth, g] (entryOf p name)
          else []
      else [] := by
  rw [expand]
  have hliteral : anyDepth.literal? = none := rfl
  have hrecursive : anyDepth.isRecursive = true := rfl
  have hdot : anyDepth.startsWithDot = false := rfl
  have hdrop : [g].dropWhile isRecursive = [g] := List.dropWhile_cons_of_neg (by simp [hg])
  simp [hliteral, hrecursive, hdot, hdrop]

/-- Two stars and a pattern lead only to entries below the directory that the pattern picks. -/
theorem exists_leads_of_mem_expand (hg : g.isRecursive = false)
    (h : q ∈ expand d false fuel [anyDepth, g] p) :
    ∃ names, Leads d p names q ∧ ∃ last ∈ names.getLast?, g.accepts last = true := by
  induction fuel generalizing p with
  | zero =>
    rw [expand] at h
    cases h
  | succ fuel ih =>
    rw [expand_anyDepth hg] at h
    split at h
    · rename_i hdir
      obtain ⟨name, hname, hmem⟩ := List.mem_flatMap.1 h
      rcases List.mem_append.1 hmem with hitself | hbelow
      · split at hitself
        · rename_i haccepts
          rw [List.mem_singleton.1 hitself]
          exact ⟨[name], .last hdir hname, name, rfl, haccepts⟩
        · cases hitself
      · split at hbelow
        · obtain ⟨names, hleads, last, hlast, haccepts⟩ := ih hbelow
          refine ⟨name :: names, .step hdir hname hleads, last, ?_, haccepts⟩
          rw [List.getLast?_cons, hlast]
          rfl
        · cases hbelow
    · cases h

theorem Leads.isDir (h : Leads d p names q) : d.isDir p = true := by
  cases h <;> assumption

/-- They lead to all of these, if the fuel allows. -/
theorem mem_expand_of_leads (hg : g.isRecursive = false) (h : Leads d p names q)
    (hlast : ∀ last ∈ names.getLast?, g.accepts last = true) (hfuel : names.length ≤ fuel) :
    q ∈ expand d false fuel [anyDepth, g] p := by
  induction h generalizing fuel with
  | @last p name hdir hname =>
    obtain ⟨fuel, rfl⟩ : ∃ more, fuel = more + 1 := ⟨fuel - 1, by simp at hfuel; omega⟩
    rw [expand_anyDepth hg, if_pos hdir]
    refine List.mem_flatMap.2 ⟨name, hname, List.mem_append_left _ ?_⟩
    rw [if_pos (hlast name rfl)]
    exact List.mem_singleton_self _
  | @step p q name names hdir hname hrest ih =>
    obtain ⟨fuel, rfl⟩ : ∃ more, fuel = more + 1 := ⟨fuel - 1, by simp at hfuel; omega⟩
    rw [expand_anyDepth hg, if_pos hdir]
    refine List.mem_flatMap.2 ⟨name, hname, List.mem_append_right _ ?_⟩
    rw [if_pos hrest.isDir]
    refine ih ?_ (by simpa using hfuel)
    intro last hmem
    apply hlast
    rw [List.getLast?_cons, hmem]
    rfl

/-! ## Names -/

/-- The two relative segments are no names, so an escaped name is neither of them. -/
theorem filter_dots_named (hname : Path.IsName name) :
    (["..", "."].filter fun segment =>
      (named name).startsWithDot && (named name).accepts segment) = [] := by
  rw [List.filter_eq_nil_iff]
  intro segment hsegment hboth
  have heq := accepts_named_iff.1 (Bool.and_eq_true_iff.1 hboth).2
  rw [heq] at hsegment
  rcases List.mem_cons.1 hsegment with hup | hhere
  · exact hname.2.2.1 hup
  · exact hname.2.1 (List.mem_singleton.1 hhere)

/-- An escaped name leads on only to the entry of this name. -/
theorem mem_expand_named (hname : Path.IsName name) (hrest : rest ≠ [])
    (h : q ∈ expand d onlyDirectories? (fuel + 1) (named name :: rest) p) :
    q ∈ expand d onlyDirectories? fuel rest (entryOf p name) := by
  have hmore : rest.isEmpty = false := by simpa using hrest
  rw [expand] at h
  simp only [hmore, filter_dots_named hname, isRecursive_named, Bool.false_eq_true, if_false] at h
  split at h
  · rename_i segment hliteral
    obtain rfl := literal?_named hliteral
    rw [List.mem_ite_nil_right] at h
    exact h.2
  · rw [List.mem_ite_nil_right, List.flatMap_nil, List.nil_append] at h
    obtain ⟨other, -, hmem⟩ := List.mem_flatMap.1 h.2
    rw [List.mem_ite_nil_right, accepts_named_iff] at hmem
    rw [← hmem.1]
    exact hmem.2

/-! ## From the root -/

variable {above : List String}

theorem entryOf_ofNames (habove : ∀ name ∈ above, Path.IsName name) (hname : Path.IsName name) :
    entryOf (.ofNames above) name = .ofNames (above ++ [name]) := by
  have hnot : (Path.ofNames above).same ⟨"."⟩ = false := by
    have hhere : (Path.mk ".").parts = [.here] := by decide
    simp [Path.same, Path.parts_ofNames habove, hhere]
  unfold entryOf
  rw [hnot, if_neg Bool.false_ne_true, Path.joinText_ofNames habove hname]

theorem mem_expand_names (habove : ∀ name ∈ above ++ names, Path.IsName name) (hrest : rest ≠ [])
    (h : q ∈ expand d onlyDirectories? fuel (names.map named ++ rest) (.ofNames above)) :
    ∃ fuel', q ∈ expand d onlyDirectories? fuel' rest (.ofNames (above ++ names)) := by
  induction names generalizing above fuel with
  | nil =>
    rw [List.append_nil]
    exact ⟨fuel, h⟩
  | cons name names ih =>
    cases fuel with
    | zero =>
      rw [expand] at h
      cases h
    | succ fuel =>
      have hname : Path.IsName name := habove name (by simp)
      have hentry := entryOf_ofNames
        (fun other hother => habove other (List.mem_append_left _ hother)) hname
      have hnext := mem_expand_named hname (List.append_ne_nil_of_right_ne_nil _ hrest) h
      rw [hentry] at hnext
      rw [List.append_cons] at habove ⊢
      exact ih habove hnext

/-- On a proper disk, what names lead to from an address is the path along all the names. -/
theorem Leads.eq_ofNames (h : Leads d p names q) (hd : d.Proper)
    (habove : ∀ name ∈ above, Path.IsName name) (hp : p = .ofNames above) :
    q = .ofNames (above ++ names) ∧ ∀ name ∈ names, name ∈ d.tree.names := by
  induction h generalizing above with
  | @last p name hdir hname =>
    have hmem := Disk.mem_names_of_mem_list hname
    rw [hp, entryOf_ofNames habove (hd.named name hmem)]
    exact ⟨rfl, fun other hother => by rwa [List.mem_singleton.1 hother]⟩
  | @step p q name names hdir hname hrest ih =>
    have hmem := Disk.mem_names_of_mem_list hname
    have hentry := entryOf_ofNames habove (hd.named name hmem)
    rw [← hp] at hentry
    have hnames : ∀ other ∈ above ++ [name], Path.IsName other := by
      intro other hother
      rcases List.mem_append.1 hother with hfront | hlast
      · exact habove other hfront
      · rw [List.mem_singleton.1 hlast]
        exact hd.named name hmem
    obtain ⟨hq, hrest⟩ := ih hnames hentry
    rw [List.append_cons]
    refine ⟨hq, ?_⟩
    intro other hother
    rcases List.mem_cons.1 hother with rfl | hother
    · exact hmem
    · exact hrest other hother

end SolidityBuild.Glob
