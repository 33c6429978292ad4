import SolidityBuild.Proofs.Collection.Accounting

/-! # Agreement: when two sequences of offers collect the same

    In which order documents come, and which offer brings one, leaves no trace in a collection
    but in its texts and in the failures that were recorded before a target came. So two
    sequences of offers agree if each collects what the other one offers and if documents
    under one key are equal. Offers of files that the reader could have read itself change
    neither texts nor failures, which settles their order altogether.
-/

namespace SolidityBuild.Collection

variable {reader : SourceReader} {project : Project}

/-! ## Two sequences -/

/-- What an offer brings is collected wherever the offer is and the texts are the same. -/
theorem BroughtBy.has_of_covered {before after : List Offer} {o : Offer}
    {fresh : List Document} {doc : Document} {c : Collection}
    (h : BroughtBy reader project before o fresh doc) (hsound : Sound reader project c)
    (hoffer : c.has (reader.key o.path) = true)
    (hcode : ∀ d ∈ (Collection.addAll reader project {} (before ++ o :: after)).documents,
      ∀ d' ∈ c.documents, d.path = d'.path → d.code = d'.code) :
    c.has doc.path = true := by
  have hread : ∀ d ∈ fresh, reader.Readable d.path := by
    intro d hd
    obtain ⟨text, hread, -⟩ := h.grows.fetched d hd
    exact ⟨text, hread⟩
  -- Every chain through the documents of the addition is followed in the other collection.
  have hchain : ∀ q, Relation.TransGen (reader.Linked project (o.document reader :: fresh))
      (reader.key o.path) q → reader.Readable q → c.has q = true := by
    intro q hq
    have hlinked : ∀ p q, c.has p = true →
        reader.Linked project (o.document reader :: fresh) p q → reader.Readable q →
        c.has q = true := by
      intro p q hp hlink hreadable
      have hcollected : reader.Linked project
          (Collection.addAll reader project {} (before ++ o :: after)).documents p q :=
        h.linked_collected hlink
      obtain ⟨d, hd, rfl, specifier, himport, hleads⟩ := hcollected
      obtain ⟨d', hd', hpath⟩ := (has_iff c _).1 hp
      have hsame : d.imports = d'.imports := by
        rw [(sound_empty.addAll _).parsed d hd, hsound.parsed d' hd',
          hcode d hd d' hd' hpath.symm]
      rw [hsame] at himport
      rw [← hpath] at hleads
      exact hsound.settled d' hd' specifier himport q hleads hreadable
    induction hq with
    | single hlink => exact hlinked _ _ hoffer hlink
    | @tail p q _ hlink ih =>
      refine hlinked p q ?_ hlink
      -- The document before the last link is the offered one, or it was read.
      obtain ⟨d, hd, rfl, -⟩ := id hlink
      rcases List.mem_cons.1 hd with rfl | hd
      · exact hoffer
      · exact ih (hread d hd)
  rcases h.offered_or_fetched with hoffered | ⟨hfresh, text, htext, -⟩
  · have hpath : doc.bare.path = reader.key o.path := by rw [hoffered]; rfl
    rw [← Document.bare_path, hpath]
    exact hoffer
  · exact hchain doc.path (h.chain hfresh) ⟨text, htext⟩

/-- A collection that has the offered keys, with the same texts, has all keys. -/
theorem has_of_covered {offers : List Offer} {c : Collection} (hsound : Sound reader project c)
    (hoffers : ∀ o ∈ offers, c.has (reader.key o.path) = true)
    (hcode : ∀ d ∈ (addAll reader project {} offers).documents, ∀ d' ∈ c.documents,
      d.path = d'.path → d.code = d'.code) {key : Path}
    (hkey : (addAll reader project {} offers).has key = true) : c.has key = true := by
  obtain ⟨doc, hdoc, rfl⟩ := (has_iff _ _).1 hkey
  obtain ⟨before, o, after, fresh, rfl, hbrought⟩ := exists_broughtBy reader project offers hdoc
  have ho : o ∈ before ++ o :: after := List.mem_append_right _ (List.mem_cons_self ..)
  exact hbrought.has_of_covered hsound (hoffers o ho) hcode

/-- Two sequences of offers collect the same if each collects the keys that the other one
    offers and documents under one key are equal. -/
theorem get?_eq_of_agree {offers offers' : List Offer}
    (hoffers : ∀ o ∈ offers,
      (addAll reader project {} offers').has (reader.key o.path) = true)
    (hoffers' : ∀ o ∈ offers',
      (addAll reader project {} offers).has (reader.key o.path) = true)
    (hdocs : ∀ d ∈ (addAll reader project {} offers).documents,
      ∀ d' ∈ (addAll reader project {} offers').documents, d.path = d'.path → d = d')
    (key : Path) :
    (addAll reader project {} offers).get? key =
      (addAll reader project {} offers').get? key := by
  have hsound : Sound reader project (addAll reader project {} offers) := sound_empty.addAll _
  have hsound' : Sound reader project (addAll reader project {} offers') := sound_empty.addAll _
  cases hget : (addAll reader project {} offers).get? key with
  | some d =>
    obtain ⟨hd, hpath⟩ := hsound.keyed.get?_eq_some_iff.1 hget
    have hhas : (addAll reader project {} offers').has key = true :=
      has_of_covered hsound' hoffers
        (fun d hd d' hd' hpath => by rw [hdocs d hd d' hd' hpath])
        ((has_iff _ key).2 ⟨d, hd, hpath⟩)
    obtain ⟨d', hd', hpath'⟩ := (has_iff _ key).1 hhas
    rw [hdocs d hd d' hd' (hpath.trans hpath'.symm)]
    exact (hsound'.keyed.get?_eq_some_iff.2 ⟨hd', hpath'⟩).symm
  | none =>
    cases hget' : (addAll reader project {} offers').get? key with
    | none => rfl
    | some d' =>
      obtain ⟨hd', hpath'⟩ := hsound'.keyed.get?_eq_some_iff.1 hget'
      have hhas : (addAll reader project {} offers).has key = true :=
        has_of_covered hsound hoffers'
          (fun d' hd' d hd hpath => by rw [hdocs d hd d' hd' hpath.symm])
          ((has_iff _ key).2 ⟨d', hd', hpath'⟩)
      obtain ⟨d, hd, hpath⟩ := (has_iff _ key).1 hhas
      rw [hsound.keyed.get?_eq_some_iff.2 ⟨hd, hpath⟩] at hget
      cases hget

/-! ## Offers of files -/

/-- The offer is of a file with the text that is read there. -/
def Offer.OfFile (reader : SourceReader) (o : Offer) : Prop :=
  o.origin = .disk ∧ reader.read (reader.key o.path) = .ok o.code

theorem Offer.OfFile.fetched {o : Offer} (h : o.OfFile reader) :
    (o.document reader).Fetched reader := by
  obtain ⟨horigin, hread⟩ := h
  refine ⟨o.code, hread, ?_⟩
  rw [Offer.document, horigin]
  rfl

theorem Offer.OfFile.readable {o : Offer} (h : o.OfFile reader) :
    reader.Readable (reader.key o.path) :=
  ⟨o.code, h.2⟩

variable {first files : List Offer} {doc : Document}

/-- An offer of a sequence of two parts belongs to one of them. -/
theorem append_cons_cases {before after : List Offer} {o : Offer}
    (h : first ++ files = before ++ o :: after) :
    (∃ middle, before = first ++ middle ∧ files = middle ++ o :: after) ∨
      ∃ middle, first = before ++ o :: middle := by
  rcases List.append_eq_append_iff.1 h with ⟨middle, rfl, hfiles⟩ | ⟨middle, rfl, hrest⟩
  · exact .inl ⟨middle, rfl, hfiles⟩
  · cases middle with
    | nil => exact .inl ⟨[], by simp, hrest.symm⟩
    | cons o' middle =>
      obtain ⟨rfl, -⟩ := List.cons.inj hrest
      exact .inr ⟨middle, rfl⟩

/-- Of two parts of a sequence the second one brings what the first one leaves out. -/
theorem exists_accounted_of_new
    (hdoc : doc ∈ (addAll reader project {} (first ++ files)).documents)
    (hnew : (addAll reader project {} first).has doc.path = false) :
    ∃ before o after fresh, files = before ++ o :: after ∧
      BroughtBy reader project (first ++ before) o fresh doc ∧
      doc.Accounted reader project
        ((addAll reader project {} (first ++ before)).push (o.document reader)).has := by
  obtain ⟨before, o, after, fresh, hsplit, hbrought, haccounted⟩ :=
    exists_accounted reader project _ hdoc
  rcases append_cons_cases hsplit with ⟨middle, rfl, hfiles⟩ | ⟨middle, hfirst⟩
  · exact ⟨middle, o, after, fresh, hfiles, hbrought, haccounted⟩
  · -- An offer of the first part would have left the document in the first collection.
    rw [hfirst, List.append_cons, has_addAll_append middle hbrought.has_eq_true] at hnew
    cases hnew

/-- Offers of files bring documents as they are read. -/
theorem fetched_of_new (hfiles : ∀ o ∈ files, o.OfFile reader)
    (hdoc : doc ∈ (addAll reader project {} (first ++ files)).documents)
    (hnew : (addAll reader project {} first).has doc.path = false) :
    doc.bare.Fetched reader := by
  obtain ⟨before, o, after, fresh, rfl, hbrought, -⟩ := exists_accounted_of_new hdoc hnew
  rcases hbrought.offered_or_fetched with hoffered | ⟨-, hfetched⟩
  · rw [hoffered]
    exact (hfiles o (by simp)).fetched
  · exact hfetched

/-- The imports of documents that offers of files bring are met by the collection from before
    these offers. -/
theorem accounted_of_new (hfiles : ∀ o ∈ files, o.OfFile reader)
    (hdoc : doc ∈ (addAll reader project {} (first ++ files)).documents)
    (hnew : (addAll reader project {} first).has doc.path = false) :
    doc.Accounted reader project (addAll reader project {} first).has := by
  obtain ⟨before, o, after, fresh, rfl, -, haccounted⟩ := exists_accounted_of_new hdoc hnew
  apply haccounted.congr
  intro specifier _ key _ hnot
  have hkey : key ≠ reader.key o.path := by
    rintro rfl
    exact hnot (hfiles o (by simp)).readable
  rw [has_push_document, decide_eq_false (Ne.symm hkey), Bool.or_false, Bool.eq_iff_iff]
  constructor
  · intro hhas
    by_contra hfirst
    obtain ⟨d, hd, rfl⟩ := (has_iff _ _).1 hhas
    obtain ⟨text, hread, -⟩ := fetched_of_new
      (fun o' ho' => hfiles o' (List.mem_append_left _ ho')) hd (Bool.eq_false_iff.2 hfirst)
    exact hnot ⟨text, hread⟩
  · exact has_addAll_append before

/-- Offers of files, made after the same first offers, bring equal documents. -/
theorem eq_of_files {files' : List Offer} {doc' : Document}
    (hfiles : ∀ o ∈ files, o.OfFile reader) (hfiles' : ∀ o ∈ files', o.OfFile reader)
    (hdoc : doc ∈ (addAll reader project {} (first ++ files)).documents)
    (hdoc' : doc' ∈ (addAll reader project {} (first ++ files')).documents)
    (hpath : doc.path = doc'.path) : doc = doc' := by
  cases hold : (addAll reader project {} first).has doc.path with
  | true =>
    have hold' : (addAll reader project {} first).has doc'.path = true := by rwa [← hpath]
    exact List.inj_on_of_nodup_map (sound_empty.addAll first).keyed (mem_of_has hdoc hold)
      (mem_of_has hdoc' hold') hpath
  | false =>
    have hold' : (addAll reader project {} first).has doc'.path = false := by rwa [← hpath]
    obtain ⟨text, hread, hbare⟩ := fetched_of_new hfiles hdoc hold
    obtain ⟨text', hread', hbare'⟩ := fetched_of_new hfiles' hdoc' hold'
    rw [Document.bare_path] at hread hbare hread' hbare'
    rw [hpath, hread'] at hread
    refine (accounted_of_new hfiles hdoc hold).eq_of_bare_eq
      (accounted_of_new hfiles' hdoc' hold') ?_
    rw [hbare, hbare', hpath, Except.ok.inj hread]

/-- **Files in any order**: after the same first offers, the same files collect the same,
    whatever their order and however often each of them is offered. -/
theorem get?_eq_of_same_files {files' : List Offer} (hfiles : ∀ o ∈ files, o.OfFile reader)
    (hsame : ∀ o, o ∈ files ↔ o ∈ files') (key : Path) :
    (addAll reader project {} (first ++ files)).get? key =
      (addAll reader project {} (first ++ files')).get? key := by
  have hfiles' : ∀ o ∈ files', o.OfFile reader := fun o ho => hfiles o ((hsame o).2 ho)
  refine get?_eq_of_agree ?_ ?_ (fun d hd d' hd' => eq_of_files hfiles hfiles' hd hd') key
  · intro o ho
    apply has_of_mem_offers
    rw [List.mem_append] at ho ⊢
    exact ho.imp_right (hsame o).1
  · intro o ho
    apply has_of_mem_offers
    rw [List.mem_append] at ho ⊢
    exact ho.imp_right (hsame o).2

end SolidityBuild.Collection
