import SolidityBuild.Proofs.Collection.Growth
import Mathlib.Data.List.Perm.Subperm

/-! # The worklist: it runs empty, and no key comes up twice

    Adding a document puts its key on a worklist. A turn takes the first key off, follows the
    imports of the document there, and puts the keys of what was read for them in front. Texts
    can hold any imports, so keys come and go in any order; but a key is put on the list only
    when a document is put into the collection under it, and a collected key is never read
    again. So a turn either collects a text that was missing or shortens the list.

    Nothing is assumed of the collection that is added to, not even that its keys differ.
-/

namespace SolidityBuild

/-- What can be read from memory is held under its key. -/
theorem TextStore.mem_of_readable {store : TextStore} {p : Path}
    (h : store.reader.Readable (store.reader.key p)) :
    ∃ text, (store.reader.key p, text) ∈ store.texts := by
  obtain ⟨text, hread⟩ := h
  have hmem := mem_of_read hread
  rw [reader_key, Path.normalize_normalize] at hmem
  exact ⟨text, hmem⟩

namespace Collection

variable {reader : SourceReader} {project : Project}

/-! ## Turns -/

/-- What the loop works on: what is collected so far, and the keys that wait. -/
structure Work where
  collection : Collection
  waiting : List Path

namespace Work

/-- Where the loop starts: with a new document that waits, or with nothing to do. -/
def start (reader : SourceReader) (c : Collection) (path : Path) (code : String)
    (origin : Origin) : Work :=
  if c.has (reader.key path) then { collection := c, waiting := [] }
  else
    { collection := c.push (.ofText (reader.key path) code origin)
      waiting := [reader.key path] }

/-- One turn: the key that is taken, and the work after it; none when no key waits. -/
def turn? (reader : SourceReader) (project : Project) (w : Work) : Option (Path × Work) :=
  match w.waiting with
  | [] => none
  | key :: waiting =>
    match w.collection.get? key with
    | none => some (key, { w with waiting })
    | some doc => some (key,
        { collection := w.collection.visit reader project doc
          waiting := (w.collection.followAll reader project doc).found ++ waiting })

/-- Turn by turn the loop takes the keys `taken`, in this order, and comes to `w'`. -/
inductive Takes (reader : SourceReader) (project : Project) : Work → List Path → Work → Prop
  | none {w : Work} : Takes reader project w [] w
  | turn {w w₁ w' : Work} {key : Path} {taken : List Path}
      (hturn : w.turn? reader project = some (key, w₁))
      (hrest : Takes reader project w₁ taken w') : Takes reader project w (key :: taken) w'

variable {w w₁ w' : Work} {key : Path} {taken : List Path} {doc : Document}

/-- What a turn does: it takes the first key, under which it finds nothing, or a document whose
    imports it follows. -/
theorem turn?_cases (h : w.turn? reader project = some (key, w')) :
    ∃ waiting, w.waiting = key :: waiting ∧
      ((w.collection.get? key = none ∧ w' = { w with waiting }) ∨
        ∃ doc, w.collection.get? key = some doc ∧
          w' = { collection := w.collection.visit reader project doc
                 waiting := (w.collection.followAll reader project doc).found ++ waiting }) := by
  unfold turn? at h
  split at h
  · cases h
  · rename_i first waiting hwaiting
    split at h
    · rename_i hget
      obtain ⟨rfl, rfl⟩ := Prod.mk.inj (Option.some.inj h)
      exact ⟨waiting, hwaiting, .inl ⟨hget, rfl⟩⟩
    · rename_i doc hget
      obtain ⟨rfl, rfl⟩ := Prod.mk.inj (Option.some.inj h)
      exact ⟨waiting, hwaiting, .inr ⟨doc, hget, rfl⟩⟩

/-! ## The loop ends -/

/-- The work that is left: every text that is missing can still be read and then wait. -/
noncomputable def left (reader : SourceReader) (w : Work) : Nat :=
  2 * w.collection.missing reader + w.waiting.length

/-- A turn leaves less work. -/
theorem left_lt_of_turn? (h : w.turn? reader project = some (key, w')) :
    w'.left reader < w.left reader := by
  obtain ⟨waiting, hwaiting, hcases⟩ := turn?_cases h
  unfold left
  rw [hwaiting]
  rcases hcases with ⟨-, rfl⟩ | ⟨doc, -, rfl⟩
  · show 2 * w.collection.missing reader + waiting.length < _
    simp only [List.length_cons]
    omega
  · have hread := w.collection.missing_followAll_le reader project doc
    show 2 * (w.collection.visit reader project doc).missing reader +
      ((w.collection.followAll reader project doc).found ++ waiting).length < _
    rw [visit, missing_record, List.length_append, List.length_cons]
    omega

/-- There is no endless sequence of turns, whatever it starts from. -/
theorem wellFounded_turn? (reader : SourceReader) (project : Project) :
    WellFounded fun w' w : Work => ∃ key, w.turn? reader project = some (key, w') := by
  refine Subrelation.wf ?_ (measure (left reader)).wf
  intro w' w ⟨key, h⟩
  exact left_lt_of_turn? h

/-- Every work is worked off. -/
theorem exists_takes (reader : SourceReader) (project : Project) (w : Work) :
    ∃ taken w', Takes reader project w taken w' ∧ w'.waiting = [] := by
  induction w using (wellFounded_turn? reader project).induction with
  | h w ih =>
    cases hturn : w.turn? reader project with
    | none =>
      refine ⟨[], w, .none, ?_⟩
      unfold turn? at hturn
      split at hturn
      · assumption
      · split at hturn <;> cases hturn
    | some next =>
      obtain ⟨key, w₁⟩ := next
      obtain ⟨taken, w', htakes, hempty⟩ := ih w₁ ⟨key, hturn⟩
      exact ⟨key :: taken, w', .turn hturn htakes, hempty⟩

/-! ## The loop is what adds a document -/

/-- A turn leaves what closing comes to as it is. -/
theorem close_of_turn? (h : w.turn? reader project = some (key, w')) (notices : Array Notice) :
    ∃ more, (close reader project w.collection notices w.waiting).1 =
      (close reader project w'.collection more w'.waiting).1 := by
  obtain ⟨waiting, hwaiting, hcases⟩ := turn?_cases h
  rw [hwaiting, close]
  rcases hcases with ⟨hget, rfl⟩ | ⟨doc, hget, rfl⟩
  · rw [hget]
    exact ⟨notices, rfl⟩
  · have hpath : doc.path = key := by simpa using List.find?_some hget
    rw [hget, ← hpath]
    exact ⟨_, rfl⟩

/-- Closing comes to what the loop collects. -/
theorem Takes.close_eq (h : Takes reader project w taken w') (hempty : w'.waiting = [])
    (notices : Array Notice) :
    (close reader project w.collection notices w.waiting).1 = w'.collection := by
  induction h generalizing notices with
  | none =>
    rw [hempty, close]
  | turn hturn hrest ih =>
    obtain ⟨more, heq⟩ := close_of_turn? hturn notices
    rw [heq]
    exact ih hempty more

/-- Adding a document comes to what the loop collects from its start. -/
theorem Takes.add_eq {c : Collection} {path : Path} {code : String} {origin : Origin}
    (h : Takes reader project (start reader c path code origin) taken w')
    (hempty : w'.waiting = []) :
    (c.add reader project path code origin).collection = w'.collection := by
  have hclose := h.close_eq hempty #[]
  unfold start at hclose
  cases hhas : c.has (reader.key path) with
  | true =>
    rw [hhas, if_pos rfl, close] at hclose
    rw [add_of_has hhas]
    exact hclose
  | false =>
    rw [hhas, if_neg Bool.false_ne_true] at hclose
    simp only [add, hhas, Bool.false_eq_true, if_false]
    exact hclose

end Work

/-! ## What one document finds -/

/-- What is found for a document of `c`: the keys of the documents that were read and put behind
    those of `c`. -/
structure Finds (reader : SourceReader) (c : Collection) (s : Progress) : Prop where
  paths : s.collection.documents.map Document.path =
    c.documents.map Document.path ++ s.found.reverse
  nodup : s.found.Nodup
  new : ∀ key ∈ s.found, c.has key = false
  read : ∀ key ∈ s.found, (∃ p, key = reader.key p) ∧ reader.Readable key

/-- One more import finds the key of what it reads, if it reads something. -/
theorem Finds.step {c : Collection} {importer : Path} {specifier : String} {s s' : Progress}
    (h : Finds reader c s) (hstep : Progress.Followed reader project importer specifier s s') :
    Finds reader c s' := by
  cases hstep with
  | unresolved e notices hresolve => exact ⟨h.paths, h.nodup, h.new, h.read⟩
  | present key notices hleads hhas => exact ⟨h.paths, h.nodup, h.new, h.read⟩
  | unreadable key e notices hleads hnew hread => exact ⟨h.paths, h.nodup, h.new, h.read⟩
  | fetched key text notices hleads hnew hread =>
    have hfresh : key ∉ c.documents.map Document.path ++ s.found.reverse := by
      rw [← h.paths, ← has_iff_mem_paths, hnew]
      exact Bool.false_ne_true
    rw [List.mem_append, not_or, List.mem_reverse, ← has_iff_mem_paths] at hfresh
    obtain ⟨r, -, hkey⟩ := hleads
    refine ⟨?_, List.nodup_cons.2 ⟨hfresh.2, h.nodup⟩, ?_, ?_⟩
    · show (s.collection.push _).documents.map Document.path = _ ++ (key :: s.found).reverse
      rw [push, List.map_append, h.paths, List.reverse_cons, List.append_assoc]
      rfl
    · intro other hother
      rcases List.mem_cons.1 hother with rfl | hother
      · exact Bool.eq_false_iff.2 hfresh.1
      · exact h.new other hother
    · intro other hother
      rcases List.mem_cons.1 hother with rfl | hother
      · exact ⟨⟨r.path, hkey.symm⟩, text, hread⟩
      · exact h.read other hother

theorem finds_followAll (reader : SourceReader) (project : Project) (c : Collection)
    (doc : Document) : Finds reader c (c.followAll reader project doc) := by
  unfold followAll
  induction doc.imports using List.reverseRec with
  | nil =>
    refine ⟨?_, List.nodup_nil, ?_, ?_⟩
    · show c.documents.map Document.path = c.documents.map Document.path ++ []
      rw [List.append_nil]
    · intro key hkey
      cases hkey
    · intro key hkey
      cases hkey
  | append_singleton done specifier ih =>
    rw [List.foldl_append]
    exact ih.step (Progress.follow_followed reader project doc.path _ specifier)

/-! ## Each document is taken once -/

namespace Work

/-- What holds while the loop works on an addition to `c`: behind the keys of `c` stand the keys
    `added`, no two of them alike, and each of these was taken or waits. Those that were not
    offered were read. -/
structure Working (reader : SourceReader) (c : Collection) (offered : Path)
    (taken added : List Path) (w : Work) : Prop where
  paths : w.collection.documents.map Document.path = c.documents.map Document.path ++ added
  nodup : added.Nodup
  new : ∀ key ∈ added, c.has key = false
  read : ∀ key ∈ added, key = offered ∨ (∃ p, key = reader.key p) ∧ reader.Readable key
  perm : (taken ++ w.waiting).Perm added

variable {c : Collection} {offered key : Path} {before taken added : List Path} {w w' : Work}

/-- At the start the offered document waits, if it is new. -/
theorem exists_working_start (reader : SourceReader) (c : Collection) (path : Path)
    (code : String) (origin : Origin) :
    ∃ added, Working reader c (reader.key path) [] added (start reader c path code origin) := by
  unfold start
  cases hhas : c.has (reader.key path) with
  | true =>
    refine ⟨[], ?_, List.nodup_nil, ?_, ?_, .nil⟩
    · exact (List.append_nil _).symm
    · intro key hkey
      cases hkey
    · intro key hkey
      cases hkey
  | false =>
    refine ⟨[reader.key path], ?_, List.nodup_singleton _, ?_, ?_, .refl _⟩
    · exact List.map_append
    · intro key hkey
      rw [List.mem_singleton.1 hkey]
      exact hhas
    · intro key hkey
      exact .inl (List.mem_singleton.1 hkey)

/-- A turn takes a key that waits, and what it finds waits from then on. -/
theorem Working.turn (h : Working reader c offered taken added w)
    (hturn : w.turn? reader project = some (key, w')) :
    ∃ added', Working reader c offered (taken ++ [key]) added' w' := by
  obtain ⟨waiting, hwaiting, hcases⟩ := turn?_cases hturn
  have hperm : (taken ++ key :: waiting).Perm added := by
    rw [← hwaiting]
    exact h.perm
  rcases hcases with ⟨hget, -⟩ | ⟨doc, -, rfl⟩
  · -- A key that waits was added, so there is a document under it.
    have hkey : key ∈ w.collection.documents.map Document.path := by
      rw [h.paths]
      exact List.mem_append_right _ (hperm.subset (by simp))
    obtain ⟨doc, hdoc, hpath⟩ := List.mem_map.1 hkey
    have hnone := List.find?_eq_none.1 hget doc hdoc
    exact absurd hpath (by simpa using hnone)
  · have hfinds := finds_followAll reader project w.collection doc
    generalize hfound : (w.collection.followAll reader project doc).found = found at hfinds ⊢
    have hpaths : (w.collection.visit reader project doc).documents.map Document.path =
        c.documents.map Document.path ++ (added ++ found.reverse) := by
      rw [visit, paths_eq_of_bare_eq (bare_record _ _ _ _), hfinds.paths, h.paths, hfound,
        List.append_assoc]
    have hnew : ∀ other ∈ found, other ∉ c.documents.map Document.path ∧ other ∉ added := by
      intro other hother
      have hnot := hfinds.new other (by rw [hfound]; exact hother)
      rw [← Bool.not_eq_true, has_iff_mem_paths, h.paths, List.mem_append, not_or] at hnot
      exact hnot
    refine ⟨added ++ found.reverse, hpaths, ?_, ?_, ?_, ?_⟩
    · have hnodup : found.Nodup := by
        rw [← hfound]
        exact hfinds.nodup
      refine List.nodup_append.2 ⟨h.nodup, List.nodup_reverse.2 hnodup, ?_⟩
      intro old hold other hother heq
      rw [heq] at hold
      exact (hnew other (List.mem_reverse.1 hother)).2 hold
    · intro other hother
      rcases List.mem_append.1 hother with hold | hother
      · exact h.new other hold
      · rw [Bool.eq_false_iff, Ne, has_iff_mem_paths]
        exact (hnew other (List.mem_reverse.1 hother)).1
    · intro other hother
      rcases List.mem_append.1 hother with hold | hother
      · exact h.read other hold
      · right
        apply hfinds.read
        rw [hfound]
        exact List.mem_reverse.1 hother
    · show (taken ++ [key] ++ (found ++ waiting)).Perm (added ++ found.reverse)
      have hswap : (taken ++ [key] ++ (found ++ waiting)).Perm
          ((taken ++ key :: waiting) ++ found) := by
        rw [List.append_assoc, List.append_assoc]
        refine List.Perm.append_left taken ?_
        rw [List.singleton_append, List.cons_append]
        exact List.Perm.cons key List.perm_append_comm
      exact hswap.trans (hperm.append (List.reverse_perm found).symm)

/-- So do any number of turns. -/
theorem Takes.working (h : Takes reader project w taken w')
    (hworking : Working reader c offered before added w) :
    ∃ added', Working reader c offered (before ++ taken) added' w' := by
  induction h generalizing before added with
  | none =>
    rw [List.append_nil]
    exact ⟨added, hworking⟩
  | turn hturn hrest ih =>
    obtain ⟨added', hworking'⟩ := hworking.turn hturn
    rw [List.append_cons]
    exact ih hworking'

end Work

/-! ## Additions from memory -/

/-- An addition takes no more keys than there are texts in memory that are not collected, and
    one for what is offered. -/
theorem Work.Working.length_le {store : TextStore} {c : Collection} {offered : Path}
    {taken added : List Path} {w : Work} (h : Working store.reader c offered taken added w) :
    added.length ≤ (store.texts.filter fun (key, _) => !c.has key).length + 1 := by
  have hsubset : added ⊆
      offered :: (store.texts.filter fun (key, _) => !c.has key).map Prod.fst := by
    intro key hkey
    rcases h.read key hkey with rfl | ⟨⟨p, rfl⟩, hread⟩
    · exact List.mem_cons_self ..
    · obtain ⟨text, hmem⟩ := TextStore.mem_of_readable hread
      have hnew := h.new _ hkey
      refine List.mem_cons_of_mem _ (List.mem_map.2 ⟨_, List.mem_filter.2 ⟨hmem, ?_⟩, rfl⟩)
      simpa using hnew
  have hlength := (List.subperm_of_subset h.nodup hsubset).length_le
  rw [List.length_cons, List.length_map] at hlength
  exact hlength

/-- **The worklist**: whatever is collected and whatever the texts import, no sequence of turns
    is endless. An addition works its list off and comes to what is collected then. The keys
    that it takes are those of the documents that it puts behind the others, each of them once;
    none of them was collected before, and there are at most as many as there are texts in
    memory that were not collected, and one. -/
theorem add_takes_each_once (store : TextStore) (project : Project) (c : Collection)
    (path : Path) (code : String) (origin : Origin) :
    (WellFounded fun w' w : Work => ∃ key, w.turn? store.reader project = some (key, w')) ∧
    ∃ taken w added,
      Work.Takes store.reader project (Work.start store.reader c path code origin) taken w ∧
      w.waiting = [] ∧
      (c.add store.reader project path code origin).collection = w.collection ∧
      w.collection.documents.map Document.path = c.documents.map Document.path ++ added ∧
      (∀ key ∈ added, c.has key = false) ∧ added.Nodup ∧ taken.Perm added ∧
      added.length ≤ (store.texts.filter fun (key, _) => !c.has key).length + 1 := by
  refine ⟨Work.wellFounded_turn? store.reader project, ?_⟩
  obtain ⟨taken, w, htakes, hempty⟩ := Work.exists_takes store.reader project
    (Work.start store.reader c path code origin)
  obtain ⟨start, hstart⟩ := Work.exists_working_start store.reader c path code origin
  obtain ⟨added, hworking⟩ := htakes.working hstart
  have hperm : taken.Perm added := by
    have hperm := hworking.perm
    rwa [List.nil_append, hempty, List.append_nil] at hperm
  exact ⟨taken, w, added, htakes, hempty, htakes.add_eq hempty, hworking.paths, hworking.new,
    hworking.nodup, hperm, hworking.length_le⟩

end Collection

end SolidityBuild
