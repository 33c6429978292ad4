import SolidityBuild.Proofs.Collection.Growth
import Mathlib.Data.List.Infix

/-! # Closure: what a collection holds after any sequence of additions

    A collection that grew from the empty one is closed: every import that resolves to a
    readable file leads to a collected document. It holds nothing else than it has to: a
    document was offered, or it was read from disk because a chain of imports of collected
    documents leads to it from an offered one.
-/

namespace SolidityBuild.Collection

/-! ## Sequences of additions -/

/-- A text offered to a collection under a path. -/
structure Offer where
  path : Path
  code : String
  origin : Origin

/-- The document of an offer before its imports are followed. -/
def Offer.document (o : Offer) (reader : SourceReader) : Document :=
  .ofText (reader.key o.path) o.code o.origin

/-- The collection after some offers, in their order. -/
def addAll (reader : SourceReader) (project : Project) (c : Collection) (offers : List Offer) :
    Collection :=
  offers.foldl (fun c o => (c.add reader project o.path o.code o.origin).collection) c

variable {reader : SourceReader} {project : Project}

theorem addAll_append (c : Collection) (before after : List Offer) :
    addAll reader project c (before ++ after) =
      addAll reader project (addAll reader project c before) after :=
  List.foldl_append

theorem addAll_concat (c : Collection) (before : List Offer) (o : Offer) :
    addAll reader project c (before ++ [o]) =
      ((addAll reader project c before).add reader project o.path o.code o.origin).collection :=
  List.foldl_append

/-! ## The invariant of all additions -/

/-- What every collection keeps that grew by additions. -/
structure Sound (reader : SourceReader) (project : Project) (c : Collection) : Prop where
  keyed : c.Keyed
  parsed : ∀ doc ∈ c.documents, doc.imports = Source.imports doc.code
  settled : ∀ doc ∈ c.documents, Settled reader project c doc

theorem sound_empty : Sound reader project {} := by
  refine ⟨List.nodup_nil, ?_, ?_⟩
  · intro doc hdoc
    cases hdoc
  · intro doc hdoc
    cases hdoc

/-- Apart from what its imports came to, a document is its text under its key. -/
theorem Sound.bare_eq {c : Collection} (h : Sound reader project c) {doc : Document}
    (hdoc : doc ∈ c.documents) : doc.bare = .ofText doc.path doc.code doc.origin := by
  rw [Document.ofText, ← h.parsed doc hdoc]
  rfl

/-- A document of an addition is the offered one or one that was read. -/
theorem Grows.offered_or_fetched {c c' : Collection} {path : Path} {code : String}
    {origin : Origin} {waiting : List Path} {fresh : List Document} {doc : Document}
    (h : Grows reader project c (.ofText path code origin) waiting c' fresh)
    (hdoc : doc.bare ∈ Document.ofText path code origin :: fresh) :
    doc.bare = .ofText path code origin ∨ doc.bare ∈ fresh ∧ doc.bare.Fetched reader := by
  rcases List.mem_cons.1 hdoc with hroot | hfresh
  · exact .inl hroot
  · exact .inr ⟨hfresh, h.fetched _ hfresh⟩

theorem Grows.parsed {c c' : Collection} {path : Path} {code : String} {origin : Origin}
    {waiting : List Path} {fresh : List Document} {doc : Document}
    (h : Grows reader project c (.ofText path code origin) waiting c' fresh)
    (hdoc : doc.bare ∈ Document.ofText path code origin :: fresh) :
    doc.imports = Source.imports doc.code := by
  rcases h.offered_or_fetched hdoc with heq | ⟨-, text, -, heq⟩
  · have himports : doc.bare.imports = Source.imports doc.bare.code := by rw [heq]; rfl
    exact himports
  · have himports : doc.bare.imports = Source.imports doc.bare.code := by rw [heq]; rfl
    exact himports

theorem Grows.has_of_has {c c' : Collection} {root : Document} {waiting : List Path}
    {fresh : List Document} (h : Grows reader project c root waiting c' fresh) {key : Path}
    (hkey : c.has key = true) : c'.has key = true := by
  obtain ⟨added, hdocs, -⟩ := h.documents
  obtain ⟨doc, hdoc, hpath⟩ := (has_iff c key).1 hkey
  refine (has_iff c' key).2 ⟨doc, ?_, hpath⟩
  rw [hdocs]
  exact List.mem_append_left _ hdoc

/-- Every addition keeps the invariant. -/
theorem Sound.add {c : Collection} (h : Sound reader project c) (o : Offer) :
    Sound reader project (c.add reader project o.path o.code o.origin).collection := by
  cases hhas : c.has (reader.key o.path) with
  | true =>
    rw [add_of_has hhas]
    exact h
  | false =>
    obtain ⟨fresh, hgrows⟩ := exists_grows_add reader project h.keyed hhas o.code o.origin
    obtain ⟨added, hdocs, hbare⟩ := hgrows.documents
    -- Older documents stay parsed and settled, the added ones are so by the worklist.
    refine ⟨hgrows.keyed, ?_, ?_⟩
    · intro doc hdoc
      rw [hdocs] at hdoc
      rcases List.mem_append.1 hdoc with hold | hadded
      · exact h.parsed doc hold
      · refine hgrows.parsed ?_
        rw [← hbare]
        exact List.mem_map_of_mem hadded
    · intro doc hdoc
      rw [hdocs] at hdoc
      rcases List.mem_append.1 hdoc with hold | hadded
      · exact (h.settled doc hold).mono fun _ => hgrows.has_of_has
      · have hmem : doc.bare ∈ Document.ofText (reader.key o.path) o.code o.origin :: fresh := by
          rw [← hbare]
          exact List.mem_map_of_mem hadded
        rcases hgrows.settled doc.bare hmem with hwaits | hsettled
        · cases hwaits
        · exact hsettled

theorem Sound.addAll {c : Collection} (h : Sound reader project c) (offers : List Offer) :
    Sound reader project (addAll reader project c offers) := by
  induction offers using List.reverseRec with
  | nil => exact h
  | append_singleton before o ih =>
    rw [addAll_concat]
    exact ih.add o

/-- Documents stay as they are, in front of those added later. -/
theorem documents_prefix_addAll {c : Collection} (h : Sound reader project c)
    (offers : List Offer) : c.documents <+: (addAll reader project c offers).documents := by
  induction offers using List.reverseRec with
  | nil => exact List.prefix_refl _
  | append_singleton before o ih =>
    rw [addAll_concat]
    refine ih.trans ?_
    cases hhas : (addAll reader project c before).has (reader.key o.path) with
    | true =>
      rw [add_of_has hhas]
    | false =>
      obtain ⟨fresh, hgrows⟩ := exists_grows_add reader project (h.addAll before).keyed hhas
        o.code o.origin
      obtain ⟨added, hdocs, -⟩ := hgrows.documents
      exact ⟨added, hdocs.symm⟩

theorem prefix_addAll_append (reader : SourceReader) (project : Project)
    (before after : List Offer) :
    (addAll reader project {} before).documents <+:
      (addAll reader project {} (before ++ after)).documents := by
  rw [addAll_append]
  exact documents_prefix_addAll (sound_empty.addAll before) after

/-- A key that is collected stays so. -/
theorem has_addAll_append {before : List Offer} (after : List Offer) {key : Path}
    (hhas : (addAll reader project {} before).has key = true) :
    (addAll reader project {} (before ++ after)).has key = true := by
  obtain ⟨doc, hdoc, hpath⟩ := (has_iff _ _).1 hhas
  exact (has_iff _ _).2
    ⟨doc, (prefix_addAll_append reader project before after).subset hdoc, hpath⟩

/-- A document whose key was collected by the first offers was so itself. -/
theorem mem_of_has {before after : List Offer} {doc : Document}
    (hdoc : doc ∈ (addAll reader project {} (before ++ after)).documents)
    (hhas : (addAll reader project {} before).has doc.path = true) :
    doc ∈ (addAll reader project {} before).documents := by
  obtain ⟨d, hd, hpath⟩ := (has_iff _ _).1 hhas
  have heq : d = doc := List.inj_on_of_nodup_map (sound_empty.addAll _).keyed
    ((prefix_addAll_append reader project before after).subset hd) hdoc hpath
  rwa [← heq]

/-! ## Where the documents come from -/

/-- The offer `o`, made after the offers `before`, brought `doc` into the collection, with the
    documents `fresh` read for it. -/
structure BroughtBy (reader : SourceReader) (project : Project) (before : List Offer)
    (o : Offer) (fresh : List Document) (doc : Document) : Prop where
  grows : Grows reader project (addAll reader project {} before) (o.document reader) []
    (addAll reader project {} (before ++ [o])) fresh
  mem : doc.bare ∈ o.document reader :: fresh

/-- Every document was brought by one of the offers. -/
theorem exists_broughtBy (reader : SourceReader) (project : Project) (offers : List Offer)
    {doc : Document} (hdoc : doc ∈ (addAll reader project {} offers).documents) :
    ∃ before o after fresh, offers = before ++ o :: after ∧
      BroughtBy reader project before o fresh doc := by
  induction offers using List.reverseRec with
  | nil => cases hdoc
  | append_singleton before o ih =>
    -- A document from before the last offer keeps the offer that brought it.
    have hearlier : doc ∈ (addAll reader project {} before).documents →
        ∃ before' o' after fresh, before ++ [o] = before' ++ o' :: after ∧
          BroughtBy reader project before' o' fresh doc := by
      intro hold
      obtain ⟨before', o', after, fresh, heq, hbrought⟩ := ih hold
      refine ⟨before', o', after ++ [o], fresh, ?_, hbrought⟩
      rw [heq, List.append_assoc, List.cons_append]
    cases hhas : (addAll reader project {} before).has (reader.key o.path) with
    | true =>
      rw [addAll_concat, add_of_has hhas] at hdoc
      exact hearlier hdoc
    | false =>
      obtain ⟨fresh, hgrows⟩ := exists_grows_add reader project
        (sound_empty.addAll before).keyed hhas o.code o.origin
      rw [← addAll_concat] at hgrows
      obtain ⟨added, hdocs, hbare⟩ := hgrows.documents
      rw [hdocs] at hdoc
      rcases List.mem_append.1 hdoc with hold | hadded
      · exact hearlier hold
      · refine ⟨before, o, [], fresh, rfl, hgrows, ?_⟩
        show doc.bare ∈ Document.ofText (reader.key o.path) o.code o.origin :: fresh
        rw [← hbare]
        exact List.mem_map_of_mem hadded

namespace BroughtBy

variable {before after : List Offer} {o : Offer} {fresh : List Document} {doc : Document}

/-- The offer that brought a document found none under its key. -/
theorem has_eq_false (h : BroughtBy reader project before o fresh doc) :
    (Collection.addAll reader project {} before).has doc.path = false := by
  have hkey : doc.path ∈ (o.document reader :: fresh).map Document.path :=
    List.mem_map.2 ⟨doc.bare, h.mem, rfl⟩
  have hnot := h.grows.not_mem_old hkey
  rw [← has_iff_mem_paths] at hnot
  exact Bool.eq_false_iff.2 hnot

/-- After its offer a document is collected. -/
theorem has_eq_true (h : BroughtBy reader project before o fresh doc) :
    (Collection.addAll reader project {} (before ++ [o])).has doc.path = true :=
  h.grows.has_added (List.mem_map.2 ⟨doc.bare, h.mem, rfl⟩)

/-- A document that is not the offered one is linked to it through the documents of the
    same addition. -/
theorem chain (h : BroughtBy reader project before o fresh doc)
    (hfresh : doc.bare ∈ fresh) :
    Relation.TransGen (reader.Linked project (o.document reader :: fresh)) (reader.key o.path)
      doc.path :=
  h.grows.linked doc.bare hfresh

/-- A document that was read has another key than the offered one. -/
theorem path_ne (h : BroughtBy reader project before o fresh doc) (hfresh : doc.bare ∈ fresh) :
    doc.path ≠ reader.key o.path := by
  have hnodup := (List.nodup_append.1 h.grows.nodup_paths).2.1
  rw [List.map_cons, List.nodup_cons] at hnodup
  rintro hpath
  exact hnodup.1 (List.mem_map.2 ⟨doc.bare, hfresh, hpath⟩)

/-- The documents of one addition are collected from then on. -/
theorem linked_collected (h : BroughtBy reader project before o fresh doc) {p q : Path}
    (hlink : reader.Linked project (o.document reader :: fresh) p q) :
    reader.Linked project
      (Collection.addAll reader project {} (before ++ o :: after)).documents p q := by
  obtain ⟨d, hd, hpath, himport⟩ := hlink
  obtain ⟨added, hdocs, hbare⟩ := h.grows.documents
  rw [← hbare] at hd
  obtain ⟨d', hd', rfl⟩ := List.mem_map.1 hd
  have hfront : (Collection.addAll reader project {} (before ++ [o])).documents <+:
      (Collection.addAll reader project {} (before ++ o :: after)).documents := by
    rw [List.append_cons before o after]
    exact prefix_addAll_append reader project (before ++ [o]) after
  refine ⟨d', hfront.subset ?_, hpath, himport⟩
  rw [hdocs]
  exact List.mem_append_right _ hd'

theorem offered_or_fetched (h : BroughtBy reader project before o fresh doc) :
    doc.bare = o.document reader ∨ doc.bare ∈ fresh ∧ doc.bare.Fetched reader :=
  h.grows.offered_or_fetched h.mem

end BroughtBy

/-! ## First writer wins -/

/-- After its offer a key is collected. -/
theorem has_of_mem_offers (reader : SourceReader) (project : Project) {offers : List Offer}
    {o : Offer} (ho : o ∈ offers) :
    (addAll reader project {} offers).has (reader.key o.path) = true := by
  obtain ⟨before, after, rfl⟩ := List.append_of_mem ho
  have hadded : (addAll reader project {} (before ++ [o])).has (reader.key o.path) = true := by
    rw [addAll_concat]
    exact has_add reader project (sound_empty.addAll before).keyed o.path o.code o.origin
  rw [List.append_cons]
  exact has_addAll_append after hadded

/-- What a key provides stays there. -/
theorem get?_addAll_append {before : List Offer} (after : List Offer) {key : Path}
    {doc : Document} (hget : (addAll reader project {} before).get? key = some doc) :
    (addAll reader project {} (before ++ after)).get? key = some doc := by
  obtain ⟨hdoc, hpath⟩ := (sound_empty.addAll before).keyed.get?_eq_some_iff.1 hget
  exact (sound_empty.addAll _).keyed.get?_eq_some_iff.2
    ⟨(prefix_addAll_append reader project before after).subset hdoc, hpath⟩

/-- A document under a key that was not offered is read from disk. -/
theorem fetched_of_not_offered {offers : List Offer} {doc : Document}
    (hdoc : doc ∈ (addAll reader project {} offers).documents)
    (hnot : ∀ o ∈ offers, reader.key o.path ≠ doc.path) :
    doc.origin = .disk ∧ reader.read doc.path = .ok doc.code := by
  obtain ⟨before, o, after, fresh, heq, hbrought⟩ := exists_broughtBy reader project offers hdoc
  rcases hbrought.offered_or_fetched with hoffered | ⟨-, text, hread, hfetched⟩
  · have hpath : doc.bare.path = reader.key o.path := by rw [hoffered]; rfl
    have ho : o ∈ offers := by rw [heq]; exact List.mem_append_right _ (List.mem_cons_self ..)
    exact absurd hpath.symm (hnot o ho)
  · have hcode : doc.bare.code = text := by rw [hfetched]; rfl
    have horigin : doc.bare.origin = .disk := by rw [hfetched]; rfl
    exact ⟨horigin, by rw [← hcode] at hread; exact hread⟩

/-- An offer that finds nothing under its key provides the document there, for good. -/
theorem get?_of_first (before after : List Offer) (o : Offer)
    (hnew : (addAll reader project {} before).has (reader.key o.path) = false) :
    ∃ doc, (addAll reader project {} (before ++ o :: after)).get? (reader.key o.path) =
      some doc ∧ doc.bare = o.document reader := by
  obtain ⟨fresh, hgrows⟩ := exists_grows_add reader project
    (sound_empty.addAll before).keyed hnew o.code o.origin
  rw [← addAll_concat] at hgrows
  obtain ⟨added, hdocs, hbare⟩ := hgrows.documents
  have hroot : Document.ofText (reader.key o.path) o.code o.origin ∈ added.map Document.bare := by
    rw [hbare]
    exact List.mem_cons_self ..
  obtain ⟨doc, hadded, hdoc⟩ := List.mem_map.1 hroot
  refine ⟨doc, ?_, hdoc⟩
  rw [List.append_cons]
  refine get?_addAll_append after ((sound_empty.addAll _).keyed.get?_eq_some_iff.2 ⟨?_, ?_⟩)
  · rw [hdocs]
    exact List.mem_append_right _ hadded
  · show doc.bare.path = reader.key o.path
    rw [hdoc]
    rfl

/-- A key that was collected before its first offer keeps the text from disk. -/
theorem get?_of_overtaken (before after : List Offer) (o : Offer)
    (hfirst : ∀ o' ∈ before, reader.key o'.path ≠ reader.key o.path)
    (hhas : (addAll reader project {} before).has (reader.key o.path) = true) :
    ∃ doc, (addAll reader project {} (before ++ after)).get? (reader.key o.path) =
      some doc ∧ doc.origin = .disk ∧ reader.read (reader.key o.path) = .ok doc.code := by
  obtain ⟨doc, hdoc, hpath⟩ := (has_iff _ _).1 hhas
  rw [← hpath] at hfirst ⊢
  refine ⟨doc, get?_addAll_append after ?_, fetched_of_not_offered hdoc hfirst⟩
  exact (sound_empty.addAll _).keyed.get?_eq_some_iff.2 ⟨hdoc, rfl⟩

/-! ## The closure theorem -/

/-- **Transitive closure**: after any sequence of offers, the target of every import of a
    collected document is collected, if it resolves and can be read; and every collected
    document was brought by one offer, which found nothing under its key: either it is the
    offered document, or a chain of imports of collected documents leads to it from there,
    and it was read from disk. -/
theorem addAll_closed_and_minimal (reader : SourceReader) (project : Project)
    (offers : List Offer) :
    (∀ doc ∈ (addAll reader project {} offers).documents,
      ∀ specifier ∈ Source.imports doc.code, ∀ r,
        Resolution.resolve reader project doc.path specifier = .ok r →
        (∃ text, reader.read (reader.key r.path) = .ok text) →
        (addAll reader project {} offers).has (reader.key r.path) = true) ∧
    (∀ doc ∈ (addAll reader project {} offers).documents,
      ∃ before offer after, offers = before ++ offer :: after ∧
        (addAll reader project {} before).has doc.path = false ∧
        (addAll reader project {} (before ++ [offer])).has doc.path = true ∧
        (doc.path = reader.key offer.path ∧ doc.code = offer.code ∧ doc.origin = offer.origin ∨
          doc.path ≠ reader.key offer.path ∧
          Relation.TransGen
            (reader.Linked project (addAll reader project {} offers).documents)
            (reader.key offer.path) doc.path ∧
          doc.origin = .disk ∧ reader.read doc.path = .ok doc.code)) := by
  have hsound : Sound reader project (addAll reader project {} offers) := sound_empty.addAll _
  constructor
  · intro doc hdoc specifier hspecifier r hresolve hread
    rw [← hsound.parsed doc hdoc] at hspecifier
    exact hsound.settled doc hdoc specifier hspecifier _ ⟨r, hresolve, rfl⟩ hread
  · intro doc hdoc
    obtain ⟨before, o, after, fresh, heq, hbrought⟩ := exists_broughtBy reader project offers hdoc
    have hkey : doc.path ∈ (o.document reader :: fresh).map Document.path :=
      List.mem_map.2 ⟨doc.bare, hbrought.mem, rfl⟩
    refine ⟨before, o, after, heq, hbrought.has_eq_false, hbrought.grows.has_added hkey, ?_⟩
    rcases hbrought.offered_or_fetched with hoffered | ⟨hfresh, text, hread, hfetched⟩
    · left
      have hpath : doc.bare.path = reader.key o.path := by rw [hoffered]; rfl
      have hcode : doc.bare.code = o.code := by rw [hoffered]; rfl
      have horigin : doc.bare.origin = o.origin := by rw [hoffered]; rfl
      exact ⟨hpath, hcode, horigin⟩
    · right
      have hcode : doc.bare.code = text := by rw [hfetched]; rfl
      have horigin : doc.bare.origin = .disk := by rw [hfetched]; rfl
      refine ⟨hbrought.path_ne hfresh, ?_, horigin, ?_⟩
      · rw [heq]
        exact Relation.TransGen.mono (fun _ _ => hbrought.linked_collected) _ _
          (hbrought.chain hfresh)
      · show reader.read doc.bare.path = .ok doc.bare.code
        rw [hread, hcode]

end SolidityBuild.Collection
