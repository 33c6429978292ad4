import Mathlib.Control.Monad.Basic
import SolidityBuild.Glob.Search

/-! # Limits: what a search returns when it stops early

    The loop of a search compares the number of files it has taken with its limit, and it does
    so right after it takes one. What it skips in between, entries that are no files and
    excluded ones, does not count. So a search stops with the first files of those that it
    would return without a limit, as many as the limit says. A limit of zero is looked at too
    late: the first file is taken then already.
-/

namespace SolidityBuild.Disk

variable {d : Disk} {r : SearchRequest} {excluded : List Glob} {found files : List Path}

/-! ## The loop -/

/-- The paths that the loop does not skip. -/
def unskipped (d : Disk) (r : SearchRequest) (excluded : List Glob) (found : List Path) :
    List Path :=
  found.filter fun p => d.isFile p && !isExcluded r.base excluded p

/-- The number of files that the loop goes on to take at most, when it has some. -/
def room (r : SearchRequest) (taken : Array Path) : Nat :=
  max (r.limit - taken.size) 1

/-- What a search tells if it finds some files and there is room for a number of them. -/
def told (r : SearchRequest) (count : Nat) (files : List Path) : List Notice :=
  if files.length < count then []
  else [.warn ("stopped after " ++ toString r.limit ++ " files under " ++ r.base.text)]

/-- The loop takes the first files of what is left, and warns if they use up the room. -/
theorem takeFiles_eq (taken : Array Path) : d.takeFiles r excluded taken found =
    (taken ++ ((d.unskipped r excluded found).take (room r taken)).toArray,
      told r (room r taken) (d.unskipped r excluded found)) := by
  fun_induction takeFiles d r excluded taken found with
  | case1 taken =>
    have hroom : 0 < room r taken := by
      unfold room
      omega
    simp [unskipped, told, hroom]
  | case2 taken p found hskip ih =>
    have hrest : d.unskipped r excluded (p :: found) = d.unskipped r excluded found := by
      apply List.filter_cons_of_neg
      intro hkeeps
      rw [Bool.and_eq_true, Bool.not_eq_true'] at hkeeps
      simp [hkeeps] at hskip
    rw [hrest]
    exact ih
  | case3 taken p found htake more hfull =>
    -- The file uses the room up, be it that of the limit or that of the first file.
    have hmore : d.unskipped r excluded (p :: found) = p :: d.unskipped r excluded found :=
      List.filter_cons_of_pos (by simpa using htake)
    have hroom : room r taken = 1 := by
      unfold room
      rw [Array.size_push] at hfull
      omega
    rw [hmore, hroom]
    simp [more, told]
  | case4 taken p found htake more hgoes ih =>
    have hmore : d.unskipped r excluded (p :: found) = p :: d.unskipped r excluded found :=
      List.filter_cons_of_pos (by simpa using htake)
    have hroom : room r taken = room r more + 1 := by
      unfold room
      rw [Array.size_push] at hgoes ⊢
      omega
    rw [hmore, hroom, ih]
    simp [more, told]

/-! ## The search -/

theorem search_of_error {e : Glob.Error} (h : d.searchAll r = .error e) :
    d.search r = (.error (.misspelled e), []) := by
  unfold searchAll at h
  unfold search
  cases hexcluded : r.excluded.mapM Glob.ofText with
  | error e' =>
    rw [hexcluded] at h
    cases h
    rfl
  | ok excluded =>
    cases hfind : Glob.find d (searchPattern r) with
    | error e' =>
      rw [hexcluded, hfind] at h
      cases h
      rfl
    | ok found =>
      rw [hexcluded, hfind] at h
      cases h

theorem search_of_ok (h : d.searchAll r = .ok files) :
    d.search r = (.ok (files.take (max r.limit 1)), told r (max r.limit 1) files) := by
  unfold searchAll at h
  unfold search
  cases hexcluded : r.excluded.mapM Glob.ofText with
  | error e =>
    rw [hexcluded] at h
    cases h
  | ok excluded =>
    cases hfind : Glob.find d (searchPattern r) with
    | error e =>
      rw [hexcluded, hfind] at h
      cases h
    | ok found =>
      rw [hexcluded, hfind] at h
      obtain rfl : d.unskipped r excluded found = files := Except.ok.inj h
      show ((.ok (d.takeFiles r excluded #[] found).1.toList : Except SearchError (List Path)),
        (d.takeFiles r excluded #[] found).2) = _
      rw [takeFiles_eq]
      simp [room]

/-- What a search returns without a limit. -/
def unlimited (d : Disk) (r : SearchRequest) : Except SearchError (List Path) :=
  (d.searchAll r).mapError .misspelled

/-- A search returns a first part of that, which is empty only if the whole is. -/
theorem search_eq_take (d : Disk) (r : SearchRequest) :
    (d.search r).1 = (d.unlimited r).map (List.take (max r.limit 1)) := by
  unfold unlimited
  cases h : d.searchAll r with
  | error e =>
    rw [search_of_error h]
    rfl
  | ok files =>
    rw [search_of_ok h]
    rfl

/-- The limit counts for nothing without a limit. -/
theorem unlimited_limit (d : Disk) (r : SearchRequest) (limit : Nat) :
    d.unlimited { r with limit } = d.unlimited r := rfl

theorem exists_enough (d : Disk) (r : SearchRequest) :
    ∃ enough, ∀ limit, enough ≤ limit → (d.search { r with limit }).1 = d.unlimited r := by
  cases h : d.unlimited r with
  | error e =>
    refine ⟨0, ?_⟩
    intro limit _
    rw [search_eq_take, unlimited_limit, h]
    rfl
  | ok files =>
    refine ⟨files.length, ?_⟩
    intro limit hlimit
    rw [search_eq_take, unlimited_limit, h]
    show Except.ok (files.take (max limit 1)) = _
    rw [List.take_of_length_le (by omega)]

/-- Whether a search takes a file that its limit leaves no room for: it may take none, and there
    is one. -/
def Oversteps (d : Disk) (r : SearchRequest) : Prop :=
  r.limit = 0 ∧ ∃ p files, d.unlimited r = .ok (p :: files)

theorem Oversteps.search_eq (h : d.Oversteps r) : ∃ p, (d.search r).1 = .ok [p] := by
  obtain ⟨hlimit, p, files, hfiles⟩ := h
  refine ⟨p, ?_⟩
  rw [search_eq_take, hfiles, hlimit]
  rfl

theorem search_eq_take_limit (h : ¬ d.Oversteps r) :
    (d.search r).1 = (d.unlimited r).map (List.take r.limit) := by
  rw [search_eq_take]
  by_cases hlimit : r.limit = 0
  · cases hfiles : d.unlimited r with
    | error e => rfl
    | ok files =>
      cases files with
      | nil => simp [Except.map]
      | cons p files => exact absurd ⟨hlimit, p, files, hfiles⟩ h
  · rw [Nat.max_eq_left (by omega)]

/-- **Limits**: from some limit on a search returns the same whatever its limit is. With any
    limit it returns the first files of these, as many as the limit says but at least one. So it
    keeps to its limit unless that is zero and there is a file to return. -/
theorem search_eq_take_limit_iff (d : Disk) (r : SearchRequest) :
    (∃ enough, ∀ limit, enough ≤ limit → (d.search { r with limit }).1 = d.unlimited r) ∧
    (d.search r).1 = (d.unlimited r).map (List.take (max r.limit 1)) ∧
    ((d.search r).1 = (d.unlimited r).map (List.take r.limit) ↔ ¬ d.Oversteps r) ∧
    ((∀ files, (d.search r).1 = .ok files → files.length ≤ r.limit) ↔ ¬ d.Oversteps r) := by
  refine ⟨exists_enough d r, search_eq_take d r, ⟨?_, search_eq_take_limit⟩, ?_, ?_⟩
  · intro heq hover
    obtain ⟨p, hone⟩ := hover.search_eq
    obtain ⟨hlimit, first, files, hfiles⟩ := hover
    rw [hone, hfiles, hlimit] at heq
    cases heq
  · intro hle hover
    obtain ⟨p, hone⟩ := hover.search_eq
    have hlength : 1 ≤ r.limit := hle [p] hone
    have hlimit : r.limit = 0 := hover.1
    omega
  · intro hkeeps files hfiles
    rw [search_eq_take_limit hkeeps] at hfiles
    cases hall : d.unlimited r with
    | error e =>
      rw [hall] at hfiles
      cases hfiles
    | ok all =>
      rw [hall] at hfiles
      cases hfiles
      exact List.length_take_le ..

/-- A disk with one source. -/
def oneSource : Disk where
  tree := .dir [("proj", .dir [("A.sol", .file "contract A \x7b\x7d".toUTF8 none)])]
  cwd := []

/-- A search for no source at all. -/
def noSource : SearchRequest where
  base := ⟨"/proj"⟩
  wanted := "**/*.sol"
  excluded := []
  limit := 0

/-- It returns the source, as the search without a limit does, and not the first none of its
    files; that is one more than it may return. -/
theorem noSource_finds_one :
    oneSource.unlimited noSource = .ok [⟨"/proj/A.sol"⟩] ∧
    (oneSource.search noSource).1 = .ok [⟨"/proj/A.sol"⟩] ∧
    ¬ (oneSource.search noSource).1 = (oneSource.unlimited noSource).map (List.take 0) ∧
    ¬ ∀ files, (oneSource.search noSource).1 = .ok files → files.length ≤ noSource.limit := by
  have hall : oneSource.unlimited noSource = .ok [⟨"/proj/A.sol"⟩] := by decide +kernel
  have hfound : (oneSource.search noSource).1 = .ok [⟨"/proj/A.sol"⟩] := by decide +kernel
  refine ⟨hall, hfound, ?_, ?_⟩
  · rw [hall, hfound]
    nofun
  · intro hle
    exact absurd (hle _ hfound) (by decide)

end SolidityBuild.Disk
