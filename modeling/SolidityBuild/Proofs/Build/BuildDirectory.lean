import SolidityBuild.Proofs.Glob.Exclusion

/-! # Build directories: which of them distort the search for sources

    The declared build directory is pasted into the pattern of what a search leaves out. It
    keeps nothing but the sources below it from being found if it has no wildcards and classes,
    or if its pattern fits no source at all. Any other one leaves out a source that is not in
    it, or makes every search fail.
-/

namespace SolidityBuild

namespace Disk

variable {d : Disk} {r : SearchRequest} {excluded : List Glob} {found : List Path}

theorem searchAll_eq (hexcluded : r.excluded.mapM Glob.ofText = .ok excluded)
    (hfind : Glob.find d (searchPattern r) = .ok found) :
    d.searchAll r = .ok (found.filter fun p => d.isFile p && !isExcluded r.base excluded p) := by
  unfold searchAll
  rw [hexcluded, hfind]
  rfl

theorem exists_excluded_of_searchAll {files : List Path} (h : d.searchAll r = .ok files) :
    ∃ excluded, r.excluded.mapM Glob.ofText = .ok excluded := by
  unfold searchAll at h
  cases hexcluded : r.excluded.mapM Glob.ofText with
  | ok excluded => exact ⟨excluded, rfl⟩
  | error e =>
    rw [hexcluded] at h
    cases h

theorem storable_empty : Disk.empty.Storable where
  named := nofun
  grounded := ⟨[], rfl⟩
  short := nofun

end Disk

namespace Project

variable {p : Project} {names : List String} {directory : String}

/-- What is left out is what lies below the directory as it is written. -/
theorem buildExclude_eq (hvalid : p.manifest.validate = .ok ())
    (hbuild : p.manifest.build? = some directory) : p.buildExclude = Glob.below directory := by
  obtain ⟨hrelative, -⟩ := Manifest.escapes_eq_false_iff.1
    (Manifest.escapes_eq_false_of_validate hvalid (.inr hbuild))
  obtain ⟨-, hlast, -⟩ := Manifest.trimmed?_eq_some_iff.1 hbuild
  have hfirst : directory.toList.dropWhile (· = '/') = directory.toList := by
    rw [List.dropWhile_eq_self_iff]
    intro hlength hslash
    have hhead : directory.toList.head? = some '/' := by
      rw [List.head?_eq_getElem?, List.getElem?_eq_getElem hlength, of_decide_eq_true hslash]
    rw [Path.isAbsolute, hhead] at hrelative
    cases hrelative
  have hends : Text.dropEndWhile (· = '/') directory.toList = directory.toList :=
    Text.dropEndWhile_slash_eq_iff.2 ⟨hlast, 0, by simp⟩
  have hdir : p.buildDir? = some directory := hbuild
  unfold buildExclude
  rw [hdir]
  dsimp only
  rw [hfirst, hends, String.ofList_toList]
  rfl

/-- The sources of a project at the end of some names lie at the end of some names. -/
theorem exists_sourcesPath_eq (hroot : p.root = .ofNames names)
    (hnames : ∀ name ∈ names, Path.IsName name) (hvalid : p.manifest.validate = .ok ()) :
    ∃ base, p.sourcesPath = .ofNames base ∧ ∀ name ∈ base, Path.IsName name := by
  unfold sourcesPath
  cases hsources : p.manifest.sources? with
  | none => exact ⟨names, hroot, hnames⟩
  | some directory =>
    obtain ⟨hrelative, hup⟩ := Manifest.escapes_eq_false_iff.1
      (Manifest.escapes_eq_false_of_validate hvalid (.inl hsources))
    refine ⟨names ++ (Path.mk directory).names, ?_, Path.isName_append_names hnames _⟩
    unfold inRoot
    rw [hroot]
    exact Path.normalize_join (Path.isAbsolute_ofNames names) hrelative hup
      (Path.normalize_ofNames hnames) hnames

end Project

namespace Build

variable {directory : String} {m : Manifest} {g : Glob} {names : List String} {d : Disk}
  {project : Project}

/-- The search for the sources of a project that leaves out nothing. -/
def openSearch (project : Project) : SearchRequest :=
  { sourceSearch project with excluded := [] }

/-- A build directory is harmless if the search for sources never fails because of it, and what
    it keeps from being found lies, as seen from the base of the search, behind its names. -/
def Harmless (directory : String) : Prop :=
  ∀ (project : Project) (names : List String) (d : Disk),
    project.root = .ofNames names → (∀ name ∈ names, Path.IsName name) →
    project.manifest.validate = .ok () → project.manifest.build? = some directory →
    d.Storable →
    ∃ all kept, d.searchAll (openSearch project) = .ok all ∧
      d.searchAll (sourceSearch project) = .ok kept ∧
      ∀ file ∈ all, file ∉ kept → ∃ seen, project.sourcesPath.strip? file = some seen ∧
        (Path.mk directory).names <:+: seen.names.dropLast

/-! ## Harmless patterns -/

theorem mapM_excluded (hvalid : project.manifest.validate = .ok ())
    (hbuild : project.manifest.build? = some directory)
    (hg : Glob.ofText (Glob.below directory) = .ok g) :
    (sourceSearch project).excluded.mapM Glob.ofText = .ok [g] := by
  show [project.buildExclude].mapM Glob.ofText = .ok [g]
  rw [project.buildExclude_eq hvalid hbuild, List.mapM_cons, hg]
  rfl

theorem wanted_toList : (sourceSearch project).wanted.toList = Glob.allSources := by
  show ("**/*." ++ sourceExtension).toList = Glob.allSources
  rw [String.toList_append]
  rfl

theorem harmless_of_accepts (hg : Glob.ofText (Glob.below directory) = .ok g)
    (h : ∀ names, Glob.IsSourceAddress names → g.accepts (Path.along names).text = true →
      (Path.mk directory).names <:+: names.dropLast) : Harmless directory := by
  intro project names d hroot hnames hvalid hbuild hd
  -- Both searches find the same, and differ only in what they leave out of it.
  obtain ⟨base, hbase, hbaseNames⟩ := project.exists_sourcesPath_eq hroot hnames hvalid
  have hfind := Glob.find_sources (d := d) (r := sourceSearch project) hbase hbaseNames
    wanted_toList
  refine ⟨_, _, Disk.searchAll_eq (r := openSearch project) rfl hfind,
    Disk.searchAll_eq (mapM_excluded hvalid hbuild hg) hfind, ?_⟩
  intro file hall hdropped
  obtain ⟨hfound, hkeep⟩ := List.mem_filter.1 hall
  have hfile : d.isFile file = true := (Bool.and_eq_true_iff.1 hkeep).1
  obtain ⟨seen, rfl, hseen⟩ :=
    Glob.exists_names_of_found hd hbase hbaseNames wanted_toList hfind hfound hfile
  have hstrip : project.sourcesPath.strip? (.ofNames (base ++ seen)) = some (.along seen) := by
    rw [hbase]
    refine Path.strip?_ofNames hseen.ne_nil ?_
    intro name hname
    rcases List.mem_append.1 hname with hname | hname
    · exact hbaseNames name hname
    · exact hseen.named name hname
  have hexcluded : Disk.isExcluded project.sourcesPath [g] (.ofNames (base ++ seen)) = true := by
    by_contra hnot
    refine hdropped (List.mem_filter.2 ⟨hfound, ?_⟩)
    show (d.isFile _ && !Disk.isExcluded project.sourcesPath [g] _) = true
    rw [hfile, Bool.eq_false_iff.2 hnot]
    rfl
  have haccepts : g.accepts (Path.along seen).text = true := by
    simpa [Disk.isExcluded, hstrip] using hexcluded
  refine ⟨_, hstrip, ?_⟩
  rw [Path.names_along hseen.ne_nil hseen.named]
  exact h seen hseen haccepts

/-! ## Harmful patterns -/

/-- A project at the root of the disk that declares the build directory and nothing else. -/
def rootProject (m : Manifest) : Project where
  root := .ofNames []
  manifest := { buildDir := m.buildDir }

theorem validate_rootProject (h : m.validate = .ok ()) :
    (rootProject m).manifest.validate = .ok () := by
  cases hroot : (rootProject m).manifest.validate with
  | ok u => rfl
  | error fault =>
    -- No sources are declared, so it is the build directory that is refused.
    obtain ⟨written, hwritten, directory, hdeclares, hrefused⟩ :=
      Manifest.exists_validate_error_iff.1 ⟨fault, hroot⟩
    have hbuild : written = m.buildDir := by
      rcases List.mem_cons.1 hwritten with rfl | hbuild
      · obtain ⟨-, -, text, count, hnone, -⟩ := hdeclares
        cases hnone
      · exact List.mem_singleton.1 hbuild
    subst hbuild
    have herror : ∃ fault, m.validate = .error fault :=
      Manifest.exists_validate_error_iff.2
        ⟨m.buildDir, by simp, directory, hdeclares, hrefused⟩
    obtain ⟨fault', hfault⟩ := herror
    rw [h] at hfault
    cases hfault

theorem Harmless.exists_glob (h : Harmless directory) (hvalid : m.validate = .ok ())
    (hbuild : m.build? = some directory) : ∃ g, Glob.ofText (Glob.below directory) = .ok g := by
  have hroot := validate_rootProject hvalid
  obtain ⟨all, kept, -, hkept, -⟩ :=
    h (rootProject m) [] Disk.empty rfl nofun hroot hbuild Disk.storable_empty
  obtain ⟨excluded, hexcluded⟩ := Disk.exists_excluded_of_searchAll hkept
  have hpattern : (sourceSearch (rootProject m)).excluded = [Glob.below directory] :=
    congrArg (fun text => [text]) ((rootProject m).buildExclude_eq hroot hbuild)
  rw [hpattern] at hexcluded
  cases hg : Glob.ofText (Glob.below directory) with
  | ok g => exact ⟨g, rfl⟩
  | error e =>
    rw [List.mapM_cons, hg] at hexcluded
    cases hexcluded

theorem Harmless.within_of_accepts (h : Harmless directory) (hvalid : m.validate = .ok ())
    (hbuild : m.build? = some directory) (hg : Glob.ofText (Glob.below directory) = .ok g)
    (hsource : Glob.IsSourceAddress names) (haccepts : g.accepts (Path.along names).text = true) :
    (Path.mk directory).names <:+: names.dropLast := by
  have hroot := validate_rootProject hvalid
  have hstrip : (Path.ofNames []).strip? (.ofNames names) = some (.along names) :=
    Path.strip?_ofNames hsource.ne_nil hsource.named
  obtain ⟨found, hfind, hfound⟩ :=
    hsource.exists_find (r := sourceSearch (rootProject m)) rfl wanted_toList
  obtain ⟨all, kept, hall, hkept, honly⟩ :=
    h (rootProject m) [] (Glob.loneDisk names) rfl nofun hroot hbuild hsource.storable
  rw [Disk.searchAll_eq (r := openSearch (rootProject m)) rfl hfind] at hall
  rw [Disk.searchAll_eq (mapM_excluded hroot hbuild hg) hfind] at hkept
  cases hall
  cases hkept
  -- The open search keeps the only file there is, and the other one leaves it out.
  have hin : Path.ofNames names ∈ found.filter fun p =>
      (Glob.loneDisk names).isFile p && !Disk.isExcluded (rootProject m).sourcesPath [] p :=
    List.mem_filter.2 ⟨hfound, by simp [hsource.isFile, Disk.isExcluded]⟩
  have hout : Path.ofNames names ∉ found.filter fun p =>
      (Glob.loneDisk names).isFile p && !Disk.isExcluded (rootProject m).sourcesPath [g] p := by
    intro hmem
    have hbase : (rootProject m).sourcesPath = .ofNames [] := rfl
    have hkeep := (List.mem_filter.1 hmem).2
    simp [hbase, Disk.isExcluded, hstrip, haccepts] at hkeep
  obtain ⟨seen, hseen, hwithin⟩ := honly _ hin hout
  obtain rfl := Option.some.inj (hstrip.symm.trans hseen)
  rwa [Path.names_along hsource.ne_nil hsource.named] at hwithin

/-- **Build directories**: a declared one is harmless exactly if its pattern can be read and
    either it is spelled without wildcards and classes or its pattern fits no source. -/
theorem harmless_iff (hvalid : m.validate = .ok ()) (hbuild : m.build? = some directory) :
    Harmless directory ↔ ∃ g, Glob.ofText (Glob.below directory) = .ok g ∧
      ((∀ c ∈ directory.toList, Glob.isSpecial c = false) ∨
        ∀ names, Glob.IsSourceAddress names → g.accepts (Path.along names).text = false) := by
  constructor
  · intro h
    obtain ⟨g, hg⟩ := h.exists_glob hvalid hbuild
    refine ⟨g, hg, ?_⟩
    by_cases hplain : ∀ c ∈ directory.toList, Glob.isSpecial c = false
    · exact .inl hplain
    · right
      intro names hsource
      by_contra haccepts
      obtain ⟨names', hsource', haccepts', hbeside⟩ :=
        Glob.exists_source_beside (by simpa using hplain) hg hsource (by simpa using haccepts)
      exact hbeside (h.within_of_accepts hvalid hbuild hg hsource' haccepts')
  · intro ⟨g, hg, hcases⟩
    apply harmless_of_accepts hg
    intro names hsource haccepts
    rcases hcases with hplain | hnone
    · rw [Glob.ofText_below_of_plain hplain, Except.ok.injEq] at hg
      subst hg
      exact Glob.names_within_of_accepts hsource.named hsource.ne_nil haccepts
    · rw [hnone names hsource] at haccepts
      cases haccepts

/-- A manifest that declares a build directory. -/
def declaring (directory : String) : Manifest where
  buildDir := some directory

/-- A directory with a dot and a dash in its name is harmless. -/
theorem harmless_plainName :
    (declaring "build-0.8").validate = .ok () ∧
      (declaring "build-0.8").build? = some "build-0.8" ∧ Harmless "build-0.8" := by
  have hvalid : (declaring "build-0.8").validate = .ok () := by decide
  have hbuild : (declaring "build-0.8").build? = some "build-0.8" := by decide
  have hplain : ∀ c ∈ "build-0.8".toList, Glob.isSpecial c = false := by
    simp [Glob.isSpecial]
  exact ⟨hvalid, hbuild,
    (harmless_iff hvalid hbuild).2 ⟨_, Glob.ofText_below_of_plain hplain, .inl hplain⟩⟩

/-- With a bracket as the build directory no search succeeds, and with `b*` a source below `bar`
    is left out, although both are declared in valid manifests. -/
theorem harmful_wildcards :
    ((declaring "[").validate = .ok () ∧ (declaring "[").build? = some "[" ∧ ¬ Harmless "[") ∧
      (declaring "b*").validate = .ok () ∧ (declaring "b*").build? = some "b*" ∧
        ¬ Harmless "b*" := by
  have hbracket : (declaring "[").validate = .ok () := by decide
  have hstar : (declaring "b*").validate = .ok () := by decide
  refine ⟨⟨hbracket, by decide, ?_⟩, hstar, by decide, ?_⟩
  · intro h
    obtain ⟨g, hg⟩ := h.exists_glob hbracket (by decide)
    obtain ⟨tokens, -, hreads⟩ := Glob.ofText_below_eq_ok_iff.1 hg
    -- Nothing closes the class that the bracket opens.
    cases hreads with
    | char hc h => cases hc
    | ofClass hclass h => cases hclass
  · intro h
    have hreads : Glob.Reads (some '/') ("b*".toList ++ ['/', '*', '*'])
        [.char 'b', .anySequence, .char '/', .anySegments] :=
      .char rfl (.anySequence (by decide)
        (.char rfl (.lastSegments fun c hc => (Option.some.inj hc).symm)))
    have hg := Glob.ofText_below_eq_ok_iff.2 ⟨_, rfl, hreads⟩
    have hsource : Glob.IsSourceAddress ["bar", "B.sol"] := {
      named := by simp [Path.IsName]
      short := by decide
      checked := by decide
      source := ⟨_, rfl, by decide⟩ }
    have hwithin := h.within_of_accepts hstar (by decide) hg hsource (by decide)
    revert hwithin
    decide

end Build

end SolidityBuild
