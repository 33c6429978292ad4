import SolidityBuild.Document

/-! # Collections: documents closed under following imports

    Adding a document adds everything that it imports, directly or not. A document that is
    there is never read again and never replaced, so the first one added for a key stays.
    Imports that cannot be followed are recorded on the importing document.
-/

namespace SolidityBuild

/-- Documents in the order in which they were added, with different keys. -/
structure Collection where
  documents : List Document := []
deriving DecidableEq, Inhabited

namespace Collection

/-- The document under a key. -/
def get? (c : Collection) (key : Path) : Option Document :=
  c.documents.find? fun doc => doc.path = key

/-- Whether there is a document under a key. -/
def has (c : Collection) (key : Path) : Bool :=
  c.documents.any fun doc => doc.path = key

/-- The collection with one more document. -/
def push (c : Collection) (doc : Document) : Collection :=
  { documents := c.documents ++ [doc] }

/-- Records what following the imports of a document came to. -/
def record (c : Collection) (key : Path) (dependencies : List Path)
    (errors : List ImportError) : Collection :=
  { documents := c.documents.map fun doc =>
      if doc.path = key then { doc with dependencies, errors } else doc }

/-- The failed imports, each with the document that declares it. -/
def importErrors (c : Collection) : List (Path × ImportError) :=
  c.documents.flatMap fun doc => doc.errors.map fun e => (doc.path, e)

/-! ## Following the imports of one document -/

/-- What following some imports of a document came to so far. -/
structure Progress where
  collection : Collection
  /-- the keys of the documents that were read, the last one first -/
  found : List Path := []
  dependencies : List Path := []
  errors : List ImportError := []
  notices : List Notice := []

namespace Progress

/-- One more dependency; a repeated one counts once. -/
def depend (s : Progress) (key : Path) : Progress :=
  { s with dependencies :=
      if s.dependencies.contains key then s.dependencies else s.dependencies ++ [key] }

/-- One more failure. -/
def fail (s : Progress) (e : ImportError) (notice : Notice) : Progress :=
  { s with errors := s.errors ++ [e], notices := s.notices ++ [notice] }

/-- One more thing told. -/
def tell (s : Progress) (notices : List Notice) : Progress :=
  { s with notices := s.notices ++ notices }

/-- Reads the document under a key that is not collected yet. -/
def readNew (s : Progress) (reader : SourceReader) (importer key : Path)
    (specifier : String) (kind : ResolutionKind) : Progress :=
  match reader.read key with
  | .ok code =>
    { (s.tell [.debug (importer.text ++ " imports " ++ key.text ++ " (" ++ kind.word ++ ")")])
        with
      collection := s.collection.push (.ofText key code .disk)
      found := key :: s.found }.depend key
  | .error e =>
    s.fail (.unreadable specifier key e) (.warn (importer.text ++
      ": cannot read import '" ++ specifier ++ "' at " ++ key.text ++ ": " ++ e.message))

/-- Follows one import of the document under a key. -/
def follow (reader : SourceReader) (project : Project) (importer : Path) (s : Progress)
    (specifier : String) : Progress :=
  let s := s.tell (Resolution.notices project importer specifier)
  match Resolution.resolve reader project importer specifier with
  | .error e => s.fail (.unresolved e) (.warn (importer.text ++ ": " ++ e.message))
  | .ok resolved =>
    let key := reader.key resolved.path
    if s.collection.has key then s.depend key
    else s.readNew reader importer key specifier resolved.kind

end Progress

/-- Follows the imports of a document, in order. -/
def followAll (c : Collection) (reader : SourceReader) (project : Project)
    (doc : Document) : Progress :=
  doc.imports.foldl (Progress.follow reader project doc.path) { collection := c }

/-! ## Following imports until none is left -/

/-- The number of keys with a text, as the reader promises them, that are not collected. -/
noncomputable def missing (c : Collection) (reader : SourceReader) : Nat :=
  reader.finite.choose.countP fun key => !c.has key

theorem has_push (c : Collection) (doc : Document) (key : Path) :
    (c.push doc).has key = (c.has key || doc.path = key) := by
  simp [has, push]

theorem has_record (c : Collection) (key other : Path) (dependencies : List Path)
    (errors : List ImportError) :
    (c.record key dependencies errors).has other = c.has other := by
  simp only [has, record, List.any_map]
  congr 1
  funext doc
  simp only [Function.comp_apply]
  split <;> rfl

theorem countP_lt_countP {p q : α → Bool} {xs : List α} {x : α}
    (h : ∀ y ∈ xs, p y → q y) (hx : x ∈ xs) (hp : p x = false) (hq : q x) :
    xs.countP p < xs.countP q := by
  induction xs with
  | nil => simp at hx
  | cons y ys ih =>
    have hle : ys.countP p ≤ ys.countP q :=
      List.countP_mono_left fun z hz => h z (List.mem_cons_of_mem _ hz)
    rcases List.mem_cons.1 hx with rfl | hx
    · rw [List.countP_cons_of_neg (by simp [hp]), List.countP_cons_of_pos hq]
      omega
    · have hlt := ih (fun z hz => h z (List.mem_cons_of_mem _ hz)) hx
      by_cases hy : p y
      · rw [List.countP_cons_of_pos hy, List.countP_cons_of_pos (h y (by simp) hy)]
        omega
      · rw [List.countP_cons_of_neg hy, List.countP_cons]
        omega

theorem missing_push_lt {c : Collection} {reader : SourceReader} {p : Path} {text : String}
    (doc : Document) (hr : reader.read (reader.key p) = .ok text)
    (hdoc : doc.path = reader.key p) (hnew : c.has (reader.key p) = false) :
    (c.push doc).missing reader < c.missing reader := by
  refine countP_lt_countP (fun key _ h => ?_) (reader.finite.choose_spec p text hr) ?_ ?_
  · simp_all [has_push]
  · simp [has_push, hdoc]
  · simp [hnew]

theorem missing_record (c : Collection) (reader : SourceReader) (key : Path)
    (dependencies : List Path) (errors : List ImportError) :
    (c.record key dependencies errors).missing reader = c.missing reader := by
  simp [missing, has_record]

/-- Each document that is read takes one of the missing ones. -/
theorem missing_follow_le (reader : SourceReader) (project : Project) (importer : Path)
    (s : Progress) (specifier : String) :
    (s.follow reader project importer specifier).collection.missing reader +
      (s.follow reader project importer specifier).found.length ≤
    s.collection.missing reader + s.found.length := by
  simp only [Progress.follow]
  split
  · exact Nat.le_refl _
  · split
    · exact Nat.le_refl _
    · rename_i resolved _ hnew
      unfold Progress.readNew
      split
      · rename_i code hr
        have hlt := missing_push_lt (c := s.collection)
          (.ofText (reader.key resolved.path) code .disk) hr rfl
          (by simpa [Progress.tell] using hnew)
        simp only [Progress.depend, Progress.tell, List.length_cons]
        omega
      · exact Nat.le_refl _

theorem missing_followAll_le (c : Collection) (reader : SourceReader) (project : Project)
    (doc : Document) :
    (c.followAll reader project doc).collection.missing reader +
      (c.followAll reader project doc).found.length ≤ c.missing reader := by
  suffices h : ∀ (imports : List String) (s : Progress),
      (imports.foldl (Progress.follow reader project doc.path) s).collection.missing reader +
        (imports.foldl (Progress.follow reader project doc.path) s).found.length ≤
      s.collection.missing reader + s.found.length from h doc.imports { collection := c }
  intro imports
  induction imports with
  | nil => exact fun s => Nat.le_refl _
  | cons specifier imports ih =>
    exact fun s => Nat.le_trans (ih _) (missing_follow_le reader project doc.path s specifier)

/-- Follows the imports of the documents under some keys, the first one first, and of the
    documents read on the way; a document that was just read comes before those that wait. -/
def close (reader : SourceReader) (project : Project) (c : Collection)
    (notices : Array Notice) : List Path → Collection × Array Notice
  | [] => (c, notices)
  | key :: waiting =>
    match c.get? key with
    | none => close reader project c notices waiting
    | some doc =>
      let s := c.followAll reader project doc
      close reader project (s.collection.record key s.dependencies s.errors)
        (notices ++ s.notices.toArray) (s.found ++ waiting)
termination_by waiting => 2 * c.missing reader + waiting.length
decreasing_by
  · simp only [List.length_cons]
    omega
  · have := c.missing_followAll_le reader project doc
    simp only [missing_record, List.length_append, List.length_cons]
    omega

/-! ## Adding documents -/

/-- What adding a document came to. -/
structure Addition where
  collection : Collection
  /-- whether the document was new -/
  added : Bool
  notices : List Notice

/-- Adds a document and everything that it imports, unless its key is there already. -/
def add (c : Collection) (reader : SourceReader) (project : Project) (path : Path)
    (code : String) (origin : Origin) : Addition :=
  let key := reader.key path
  if c.has key then
    { collection := c, added := false
      notices := [.debug (key.text ++ " already collected, keeping first version")] }
  else
    let (collection, notices) :=
      close reader project (c.push (.ofText key code origin)) #[] [key]
    { collection, added := true, notices := notices.toList }

end Collection

end SolidityBuild
