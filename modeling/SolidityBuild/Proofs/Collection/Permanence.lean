import SolidityBuild.Proofs.Collection.History
import Mathlib.Data.List.Infix

/-! # Permanence: the first text of a file stays

    A call that finds its file collected, under whatever spelling, says so and does nothing.
    Any other call puts the offered document and those read for it behind the documents that
    are there. Following imports looks documents up by key and records on them by key, so it
    could reach an older one; it does not, since a key on the worklist is always that of a
    document of the same call.

    Files may be edited and the project may change between any two calls.
-/

namespace SolidityBuild.Collection

/-- What a call comes to: its answer, and the collection after it. -/
def addition (c : Collection) (k : Call) : Addition :=
  c.add k.store.reader k.project k.offer.path k.offer.code k.offer.origin

variable {c : Collection} {doc : Document} {key : Path}

/-! ## One call -/

/-- A call answers whether the offered file was missing. -/
theorem added_addition (c : Collection) (k : Call) :
    (c.addition k).added = !c.has k.offer.path.normalize :=
  added_add k.store.reader k.project c k.offer.path k.offer.code k.offer.origin

/-- A call for a file that is collected changes nothing. -/
theorem call_of_has {k : Call} (hhas : c.has k.offer.path.normalize = true) : c.call k = c :=
  add_of_has hhas k.offer.code k.offer.origin

/-- A call for a file that is missing adds the offered document in front of those read for
    it. -/
theorem WellFormed.exists_added (h : WellFormed c) {k : Call}
    (hnew : c.has k.offer.path.normalize = false) :
    ∃ doc fresh, (c.call k).documents = c.documents ++ doc :: fresh ∧
      doc.bare = k.offer.document k.store.reader ∧
      ∀ d ∈ fresh, d.bare.Fetched k.store.reader := by
  obtain ⟨fresh, hgrows⟩ := exists_grows_add k.store.reader k.project h.keyed hnew
    k.offer.code k.offer.origin
  obtain ⟨added, hdocs, hbare⟩ := hgrows.documents
  obtain ⟨doc, rest, rfl, hdoc, hrest⟩ := List.map_eq_cons_iff.1 hbare
  refine ⟨doc, rest, hdocs, hdoc, ?_⟩
  intro d hd
  apply hgrows.fetched
  rw [← hrest]
  exact List.mem_map_of_mem hd

/-- One call leaves the documents in front as they are. -/
theorem WellFormed.prefix_call (h : WellFormed c) (k : Call) :
    c.documents <+: (c.call k).documents := by
  cases hhas : c.has k.offer.path.normalize with
  | true =>
    rw [call_of_has hhas]
  | false =>
    obtain ⟨doc, fresh, hdocs, -, -⟩ := h.exists_added hhas
    rw [hdocs]
    exact List.prefix_append _ _

/-- Under its key a document is found. -/
theorem WellFormed.get?_path (h : WellFormed c) (hdoc : doc ∈ c.documents) :
    c.get? doc.path = some doc :=
  h.keyed.get?_eq_some_iff.2 ⟨hdoc, rfl⟩

/-- What a key provides is the same after documents are put behind. -/
theorem WellFormed.get?_of_isPrefix {c' : Collection} (h : WellFormed c) (h' : WellFormed c')
    (hfront : c.documents <+: c'.documents) (hget : c.get? key = some doc) :
    c'.get? key = some doc := by
  obtain ⟨hdoc, hpath⟩ := h.keyed.get?_eq_some_iff.1 hget
  exact h'.keyed.get?_eq_some_iff.2 ⟨hfront.subset hdoc, hpath⟩

/-- A call for a file that is missing provides the offered text there. -/
theorem WellFormed.get?_call_of_new (h : WellFormed c) {k : Call}
    (hnew : c.has k.offer.path.normalize = false) :
    ∃ doc, (c.call k).get? k.offer.path.normalize = some doc ∧ doc.code = k.offer.code ∧
      doc.origin = k.offer.origin := by
  obtain ⟨doc, fresh, hdocs, hbare, -⟩ := h.exists_added hnew
  have hpath : doc.bare.path = k.offer.path.normalize := by
    rw [hbare]
    rfl
  have hcode : doc.bare.code = k.offer.code := by
    rw [hbare]
    rfl
  have horigin : doc.bare.origin = k.offer.origin := by
    rw [hbare]
    rfl
  have hdoc : doc ∈ (c.call k).documents := by
    rw [hdocs]
    exact List.mem_append_right _ (List.mem_cons_self ..)
  exact ⟨doc, (h.call k).keyed.get?_eq_some_iff.2 ⟨hdoc, hpath⟩, hcode, horigin⟩

/-! ## Any number of calls -/

theorem ofCalls_append_singleton (calls : List Call) (k : Call) :
    ofCalls (calls ++ [k]) = (ofCalls calls).call k :=
  List.foldl_append

/-- No later call changes or moves what is collected. -/
theorem prefix_ofCalls_append (calls later : List Call) :
    (ofCalls calls).documents <+: (ofCalls (calls ++ later)).documents := by
  induction later using List.reverseRec with
  | nil => rw [List.append_nil]
  | append_singleton before k ih =>
    rw [← List.append_assoc, ofCalls_append_singleton]
    exact ih.trans ((wellFormed_ofCalls (calls ++ before)).prefix_call k)

/-- **First writer wins**: whatever the files and the project are at each call, a call puts
    documents behind those that are there and changes none of them, so that each key goes on
    to provide what it provided; the documents have different keys, which are their own normal
    paths. The call answers that nothing was added exactly if some document is there under the
    normal form of the offered path, and then the collection is the same; otherwise that key
    provides the offered text from then on. -/
theorem ofCalls_first_writer_wins (calls : List Call) (k : Call) :
    (ofCalls calls).documents <+: ((ofCalls calls).call k).documents ∧
    (∀ key doc, (ofCalls calls).get? key = some doc →
      ((ofCalls calls).call k).get? key = some doc) ∧
    (((ofCalls calls).call k).documents.map Document.path).Nodup ∧
    (∀ doc ∈ ((ofCalls calls).call k).documents, doc.path.normalize = doc.path ∧
      ((ofCalls calls).call k).get? doc.path = some doc) ∧
    (((ofCalls calls).addition k).added = false ↔
      ∃ doc ∈ (ofCalls calls).documents, doc.path = k.offer.path.normalize) ∧
    (((ofCalls calls).addition k).added = false → (ofCalls calls).call k = ofCalls calls) ∧
    (((ofCalls calls).addition k).added = true → ∀ later, ∃ doc,
      (ofCalls (calls ++ k :: later)).get? k.offer.path.normalize = some doc ∧
        doc.code = k.offer.code ∧ doc.origin = k.offer.origin) := by
  have hwell : WellFormed (ofCalls calls) := wellFormed_ofCalls calls
  have hafter : WellFormed ((ofCalls calls).call k) := hwell.call k
  refine ⟨hwell.prefix_call k, ?_, hafter.keyed, ?_, ?_, ?_, ?_⟩
  · intro key doc hget
    exact hwell.get?_of_isPrefix hafter (hwell.prefix_call k) hget
  · intro doc hdoc
    exact ⟨hafter.normal doc hdoc, hafter.get?_path hdoc⟩
  · rw [added_addition, Bool.not_eq_false']
    exact has_iff _ _
  · intro hold
    rw [added_addition, Bool.not_eq_false'] at hold
    exact call_of_has hold
  · intro hnew later
    rw [added_addition, Bool.not_eq_true'] at hnew
    obtain ⟨doc, hget, hcode, horigin⟩ := hwell.get?_call_of_new hnew
    refine ⟨doc, ?_, hcode, horigin⟩
    rw [← ofCalls_append_singleton] at hget
    rw [List.append_cons]
    exact (wellFormed_ofCalls _).get?_of_isPrefix (wellFormed_ofCalls _)
      (prefix_ofCalls_append _ later) hget

end SolidityBuild.Collection
