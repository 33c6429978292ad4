import SolidityBuild.Disk.Reach

/-! # Source readers: where the text of a path comes from

    A reader gives each path a key, so that the spellings of one file have one key, and
    reads texts by key. Only finitely many keys have a text, which is why following imports
    comes to an end. Texts come from memory or from a disk.
-/

namespace SolidityBuild

/-- A way to read sources. -/
structure SourceReader where
  /-- the text at a path -/
  read : Path → Except ReadError String
  /-- whether there is a file at a path -/
  isFile : Path → Bool
  /-- the key of a path -/
  key : Path → Path
  /-- the keys that have a text are among finitely many -/
  finite : ∃ keys : List Path, ∀ p text, read (key p) = .ok text → key p ∈ keys

/-! ## Memory -/

/-- Texts that are held in memory under normal paths. -/
structure TextStore where
  texts : List (Path × String) := []
deriving Inhabited

namespace TextStore

/-- The text at a path, whatever its spelling. -/
def get? (s : TextStore) (p : Path) : Option String :=
  s.texts.lookup p.normalize

/-- The store with a text added or replaced. -/
def insert (s : TextStore) (p : Path) (text : String) : TextStore :=
  { texts := (p.normalize, text) :: s.texts.filter fun (q, _) => q ≠ p.normalize }

/-- The store of some texts; the last one for a path counts. -/
def ofList (texts : List (Path × String)) : TextStore :=
  texts.foldl (fun s (p, text) => s.insert p text) {}

/-- The text at a path, or that there is none. -/
def read (s : TextStore) (p : Path) : Except ReadError String :=
  match s.get? p with
  | some text => .ok text
  | none => .error (.absent p)

theorem mem_of_get? {s : TextStore} {p : Path} {text : String} (h : s.get? p = some text) :
    (p.normalize, text) ∈ s.texts := by
  obtain ⟨before, after, heq, _⟩ := List.lookup_eq_some_iff.1 h
  simp [heq]

theorem mem_of_read {s : TextStore} {p : Path} {text : String} (h : s.read p = .ok text) :
    (p.normalize, text) ∈ s.texts := by
  unfold read at h
  split at h
  · rename_i hg
    rw [← Except.ok.inj h]
    exact mem_of_get? hg
  · cases h

theorem finite (s : TextStore) :
    ∃ keys : List Path, ∀ (p : Path) (text : String),
      s.read p.normalize = .ok text → p.normalize ∈ keys := by
  refine ⟨s.texts.map Prod.fst, fun p text h => ?_⟩
  have hm := mem_of_read h
  rw [Path.normalize_normalize] at hm
  exact List.mem_map.2 ⟨_, hm, rfl⟩

/-- Reads from memory; a path's key is its normal form. -/
def reader (s : TextStore) : SourceReader where
  read := s.read
  isFile p := (s.get? p).isSome
  key := Path.normalize
  finite := s.finite

theorem reader_key (s : TextStore) (p : Path) : s.reader.key p = p.normalize :=
  rfl

theorem key_key (s : TextStore) (p : Path) :
    s.reader.key (s.reader.key p) = s.reader.key p := by
  rw [reader_key, reader_key, Path.normalize_normalize]

end TextStore

/-! ## Disk -/

/-- Reads from a disk; a path's key is the real path of what it leads to. -/
def Disk.reader (d : Disk) : SourceReader where
  read := d.readText
  isFile := d.isFile
  key := d.key
  finite := d.key_finite

end SolidityBuild
