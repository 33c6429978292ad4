import SolidityBuild.Proofs.Build.SearchOrder

/-! # Buffer order: when the open buffers may come in any order

    Each buffer that is added has its imports followed at once, and neither a text that was
    read nor a failure is revisited when the buffer comes that would have provided the target.
    So the order matters exactly if a buffer imports another one, directly or through files
    that no buffer replaces (`Entangled`). In front of the other one, it reads the file in place
    of the buffer, or records that there is none.
-/

namespace SolidityBuild.Build

open Collection (Offer addAll)

variable (reader : SourceReader) (project : Project)

/-! ## What goes wrong -/

/-- A buffer imports another one, directly or through files that no buffer replaces. -/
def Entangled (buffers : List OpenBuffer) : Prop :=
  ∃ b ∈ buffers.filter (eligible reader project),
    ∃ b' ∈ buffers.filter (eligible reader project), reader.key b.path ≠ reader.key b'.path ∧
      Pulls reader project (Unbuffered reader project buffers) (reader.key b.path) b.text
        (reader.key b'.path)

/-- Each import of a buffer that takes part is a dependency, and none is a failed read. -/
def DependsOnBuffers (buffers : List OpenBuffer) (c : Collection) : Prop :=
  ∀ doc ∈ c.documents, ∀ specifier ∈ doc.imports,
    ∀ b ∈ buffers.filter (eligible reader project),
      reader.LeadsTo project doc.path specifier (reader.key b.path) →
        reader.key b.path ∈ doc.dependencies ∧
          ∀ e, .unreadable specifier (reader.key b.path) e ∉ doc.errors

/-- Whether a buffer that takes part has the key. -/
def buffered (buffers : List OpenBuffer) (p : Path) : Bool :=
  (buffers.filter (eligible reader project)).any fun b => reader.key b.path = p

section

variable {reader project} {buffers buffers' before after : List OpenBuffer} {b : OpenBuffer}
  {files : List Offer} {doc doc' : Document} {p : Path}

theorem buffered_eq_true_iff :
    buffered reader project buffers p = true ↔
      ∃ b ∈ buffers.filter (eligible reader project), reader.key b.path = p := by
  unfold buffered
  rw [List.any_eq_true]
  simp only [decide_eq_true_iff]

theorem buffered_eq_false_iff :
    buffered reader project buffers p = false ↔ Unbuffered reader project buffers p := by
  unfold buffered Unbuffered
  rw [List.any_eq_false]
  simp only [decide_eq_true_iff, ne_eq]

/-! ## Orders -/

theorem unbuffered_congr (hperm : buffers.Perm buffers') :
    Unbuffered reader project buffers = Unbuffered reader project buffers' := by
  funext p
  unfold Unbuffered
  simp only [(hperm.filter _).mem_iff]

theorem buffered_congr (hperm : buffers.Perm buffers') :
    buffered reader project buffers = buffered reader project buffers' := by
  funext p
  rw [Bool.eq_iff_iff, buffered_eq_true_iff, buffered_eq_true_iff]
  simp only [(hperm.filter _).mem_iff]

/-- Whether buffers are entangled does not depend on their order. -/
theorem entangled_congr (hperm : buffers.Perm buffers') :
    Entangled reader project buffers ↔ Entangled reader project buffers' := by
  unfold Entangled
  rw [unbuffered_congr hperm]
  simp only [(hperm.filter _).mem_iff]

/-- A buffer is only overtaken by one that imports it. -/
theorem Overtaken.entangled (h : Overtaken reader project buffers) :
    Entangled reader project buffers := by
  obtain ⟨before, b, after, hsplit, -, later, hlater, hne, -, hpulls⟩ := h
  refine ⟨b, ?_, later, ?_, hne b (by simp), hpulls⟩
  · rw [hsplit]
    simp
  · rw [hsplit]
    simp [hlater]

/-- With different keys, each buffer that takes part is the first one of its key. -/
theorem keys_ne_of_nodup (hdistinct : (buffers.map fun b => reader.key b.path).Nodup)
    (hsplit : buffers.filter (eligible reader project) = before ++ b :: after) :
    ∀ o ∈ before, reader.key o.path ≠ reader.key b.path := by
  have hnodup := hdistinct.sublist ((List.filter_sublist (p := eligible reader project)).map _)
  rw [hsplit, List.map_append, List.map_cons] at hnodup
  intro o ho
  exact (List.nodup_append.1 hnodup).2.2 _ (List.mem_map_of_mem ho) _ (List.mem_cons_self ..)

/-! ## Buffers that do not import each other -/

-- From here on every key is its own key, as it is for texts in memory.
variable (hkey : ∀ p, reader.key (reader.key p) = reader.key p)

include hkey

/-- Without entanglement, what is collected is a buffer under its key or a file that no buffer
    replaces. -/
theorem bare_cases (hnot : ¬ Entangled reader project buffers)
    (hdistinct : (buffers.map fun b => reader.key b.path).Nodup)
    (hfiles : ∀ o ∈ files, o.OfFile reader)
    (hdoc : doc ∈ (addAll reader project {}
      (bufferOffers reader project buffers ++ files)).documents) :
    (∃ b ∈ buffers.filter (eligible reader project),
        doc.bare = .ofText (reader.key b.path) b.text .buffer) ∨
      buffered reader project buffers doc.path = false ∧ doc.bare.Fetched reader := by
  have hsound : Collection.Sound reader project
      (addAll reader project {} (bufferOffers reader project buffers ++ files)) :=
    Collection.sound_empty.addAll _
  cases hbuffered : buffered reader project buffers doc.path with
  | true =>
    left
    obtain ⟨b, hb, hpath⟩ := buffered_eq_true_iff.1 hbuffered
    obtain ⟨before, after, hsplit⟩ := List.append_of_mem hb
    have hnew := (not_overtaken_iff hkey buffers).1 (fun h => hnot h.entangled) before b after
      hsplit (keys_ne_of_nodup hdistinct hsplit)
    obtain ⟨d, hget, horigin, hcode⟩ := get?_of_counted hkey files hsplit hnew
    obtain ⟨hd, hdpath⟩ := hsound.keyed.get?_eq_some_iff.1 hget
    have heq : d = doc :=
      List.inj_on_of_nodup_map hsound.keyed hd hdoc (hdpath.trans hpath)
    subst heq
    refine ⟨b, hb, ?_⟩
    rw [hsound.bare_eq hd, hdpath, hcode, horigin]
  | false =>
    refine .inr ⟨rfl, ?_⟩
    obtain ⟨before, o, after, fresh, hsplit, hbrought⟩ :=
      Collection.exists_broughtBy reader project _ hdoc
    rcases hbrought.offered_or_fetched with hoffered | ⟨-, hfetched⟩
    · have hpath : doc.bare.path = reader.key o.path := by rw [hoffered]; rfl
      have ho : o ∈ bufferOffers reader project buffers ++ files := by
        rw [hsplit]
        simp
      rcases List.mem_append.1 ho with ho | ho
      · obtain ⟨b, hb, rfl⟩ := List.mem_map.1 ho
        rw [Document.bare_path, key_bufferOffer hkey] at hpath
        exact absurd hpath.symm (buffered_eq_false_iff.1 hbuffered b hb)
      · rw [hoffered]
        exact (hfiles o ho).fetched
    · exact hfetched

/-- While a buffer is added, an import of a buffer leads to that one itself. -/
theorem key_eq_of_linked (hnot : ¬ Entangled reader project buffers)
    (hsplit : buffers.filter (eligible reader project) = before ++ b :: after)
    {c : Collection} {fresh : List Document}
    (hgrows : Collection.Grows reader project
      (addAll reader project {} (before.map (bufferOffer reader)))
      ((bufferOffer reader b).document reader) [] c fresh)
    (hdoc : doc ∈ (bufferOffer reader b).document reader :: fresh) {specifier : String}
    (himport : specifier ∈ doc.imports)
    (hleads : reader.LeadsTo project doc.path specifier p)
    (hbuffered : buffered reader project buffers p = true) : reader.key b.path = p := by
  obtain ⟨b', hb', rfl⟩ := buffered_eq_true_iff.1 hbuffered
  by_contra hne
  have hb : b ∈ buffers.filter (eligible reader project) := by
    rw [hsplit]
    simp
  have hlink : reader.Linked project ((bufferOffer reader b).document reader :: fresh) doc.path
      (reader.key b'.path) := ⟨doc, hdoc, rfl, specifier, himport, hleads⟩
  have hchain : Relation.TransGen
      (reader.Linked project ((bufferOffer reader b).document reader :: fresh))
      (reader.key b.path) (reader.key b'.path) := by
    rcases List.mem_cons.1 hdoc with rfl | hfresh
    · have hpath : ((bufferOffer reader b).document reader).path = reader.key b.path :=
        key_bufferOffer hkey b
      rw [hpath] at hlink
      exact .single hlink
    · have hlinked := hgrows.linked doc hfresh
      have hpath : ((bufferOffer reader b).document reader).path = reader.key b.path :=
        key_bufferOffer hkey b
      rw [hpath] at hlinked
      exact hlinked.tail hlink
  rcases pulls_or_overtaken hkey hsplit hgrows hchain with hpulls | hovertaken
  · exact hnot ⟨b, hb, b', hb', hne, hpulls⟩
  · exact hnot hovertaken.entangled

/-- Without entanglement, what becomes of an import only depends on the keys of the buffers and
    on what can be read. -/
theorem accounted_of_not_entangled (hnot : ¬ Entangled reader project buffers)
    (hdistinct : (buffers.map fun b => reader.key b.path).Nodup)
    (hfiles : ∀ o ∈ files, o.OfFile reader)
    (hdoc : doc ∈ (addAll reader project {}
      (bufferOffers reader project buffers ++ files)).documents) :
    doc.Accounted reader project (buffered reader project buffers) := by
  obtain ⟨before, o, after, fresh, hsplit, hbrought, haccounted⟩ :=
    Collection.exists_accounted reader project _ hdoc
  apply haccounted.congr
  intro specifier himport key hleads hunreadable
  rw [Bool.eq_iff_iff]
  constructor
  · -- What is there and cannot be read is a buffer.
    intro hpresent
    have hhas := Collection.has_of_has_push before o after hpresent
    rw [← hsplit] at hhas
    obtain ⟨d, hd, rfl⟩ := (Collection.has_iff _ _).1 hhas
    rcases bare_cases hkey hnot hdistinct hfiles hd with ⟨b, hb, hbare⟩ | ⟨-, text, hread, -⟩
    · have hpath : d.bare.path = reader.key b.path := by rw [hbare]; rfl
      exact buffered_eq_true_iff.2 ⟨b, hb, hpath.symm⟩
    · exact absurd ⟨text, hread⟩ hunreadable
  · -- A buffer that an import leads to is there: the files come after all buffers, and what a
    -- buffer brings imports no other one.
    intro hbuffered
    rw [Collection.has_push_document, Bool.or_eq_true, decide_eq_true_iff]
    rcases Collection.append_cons_cases hsplit with ⟨middle, rfl, -⟩ | ⟨middle, hoffers⟩
    · left
      obtain ⟨b, hb, rfl⟩ := buffered_eq_true_iff.1 hbuffered
      have hhas := Collection.has_of_mem_offers reader project
        (List.mem_append_left middle (List.mem_map_of_mem (f := bufferOffer reader) hb))
      rwa [key_bufferOffer hkey] at hhas
    · right
      obtain ⟨before', rest, hfilter, rfl, hrest⟩ := List.map_eq_append_iff.1 hoffers
      obtain ⟨b, after', rfl, rfl, rfl⟩ := List.map_eq_cons_iff.1 hrest
      rw [key_bufferOffer hkey]
      exact key_eq_of_linked hkey hnot hfilter hbrought.grows hbrought.mem himport hleads
        hbuffered

/-- Without entanglement, the texts under one key do not depend on the order. -/
theorem bare_eq_of_perm (hnot : ¬ Entangled reader project buffers)
    (hdistinct : (buffers.map fun b => reader.key b.path).Nodup)
    (hfiles : ∀ o ∈ files, o.OfFile reader) (hperm : buffers.Perm buffers')
    (hdoc : doc ∈ (addAll reader project {}
      (bufferOffers reader project buffers ++ files)).documents)
    (hdoc' : doc' ∈ (addAll reader project {}
      (bufferOffers reader project buffers' ++ files)).documents)
    (hpath : doc.path = doc'.path) : doc.bare = doc'.bare := by
  have hnot' : ¬ Entangled reader project buffers' := by rwa [← entangled_congr hperm]
  have hdistinct' : (buffers'.map fun b => reader.key b.path).Nodup :=
    (hperm.map _).nodup_iff.1 hdistinct
  rcases bare_cases hkey hnot hdistinct hfiles hdoc with
    ⟨b, hb, hbare⟩ | ⟨hunbuffered, text, hread, hbare⟩
  · have hbpath : doc.bare.path = reader.key b.path := by rw [hbare]; rfl
    rcases bare_cases hkey hnot' hdistinct' hfiles hdoc' with
      ⟨b', hb', hbare'⟩ | ⟨hunbuffered', -⟩
    · -- Both are the one buffer with their key.
      have hbpath' : doc'.bare.path = reader.key b'.path := by rw [hbare']; rfl
      rw [Document.bare_path] at hbpath hbpath'
      have hmem : b' ∈ buffers := hperm.mem_iff.2 (List.mem_filter.1 hb').1
      have heq : b = b' := List.inj_on_of_nodup_map hdistinct (List.mem_filter.1 hb).1 hmem
        (by rw [← hbpath, ← hbpath', hpath])
      rw [hbare, hbare', heq]
    · rw [← buffered_congr hperm, ← hpath, buffered_eq_false_iff] at hunbuffered'
      exact absurd hbpath.symm (hunbuffered' b hb)
  · rcases bare_cases hkey hnot' hdistinct' hfiles hdoc' with
      ⟨b', hb', hbare'⟩ | ⟨-, text', hread', hbare'⟩
    · have hbpath' : doc'.bare.path = reader.key b'.path := by rw [hbare']; rfl
      rw [buffered_congr hperm, hpath, buffered_eq_false_iff] at hunbuffered
      exact absurd hbpath'.symm (hunbuffered b' hb')
    · rw [Document.bare_path] at hread hbare hread' hbare'
      rw [hpath, hread'] at hread
      rw [hbare, hbare', hpath, Except.ok.inj hread]

/-- Without entanglement, two orders collect equal documents under one key. -/
theorem eq_of_perm (hnot : ¬ Entangled reader project buffers)
    (hdistinct : (buffers.map fun b => reader.key b.path).Nodup)
    (hfiles : ∀ o ∈ files, o.OfFile reader) (hperm : buffers.Perm buffers')
    (hdoc : doc ∈ (addAll reader project {}
      (bufferOffers reader project buffers ++ files)).documents)
    (hdoc' : doc' ∈ (addAll reader project {}
      (bufferOffers reader project buffers' ++ files)).documents)
    (hpath : doc.path = doc'.path) : doc = doc' := by
  have hnot' : ¬ Entangled reader project buffers' := by rwa [← entangled_congr hperm]
  have hdistinct' : (buffers'.map fun b => reader.key b.path).Nodup :=
    (hperm.map _).nodup_iff.1 hdistinct
  have haccounted := accounted_of_not_entangled hkey hnot hdistinct hfiles hdoc
  have haccounted' := accounted_of_not_entangled hkey hnot' hdistinct' hfiles hdoc'
  rw [← buffered_congr hperm] at haccounted'
  exact haccounted.eq_of_bare_eq haccounted'
    (bare_eq_of_perm hkey hnot hdistinct hfiles hperm hdoc hdoc' hpath)

/-- Without entanglement, every order collects the same. -/
theorem get?_eq_of_perm (hnot : ¬ Entangled reader project buffers)
    (hdistinct : (buffers.map fun b => reader.key b.path).Nodup)
    (hfiles : ∀ o ∈ files, o.OfFile reader) (hperm : buffers.Perm buffers') (key : Path) :
    (addAll reader project {} (bufferOffers reader project buffers ++ files)).get? key =
      (addAll reader project {} (bufferOffers reader project buffers' ++ files)).get? key := by
  have hmem : ∀ o, o ∈ bufferOffers reader project buffers ++ files ↔
      o ∈ bufferOffers reader project buffers' ++ files := by
    intro o
    rw [List.mem_append, List.mem_append, bufferOffers, bufferOffers,
      ((hperm.filter _).map _).mem_iff]
  refine Collection.get?_eq_of_agree ?_ ?_
    (fun d hd d' hd' => eq_of_perm hkey hnot hdistinct hfiles hperm hd hd') key
  · intro o ho
    exact Collection.has_of_mem_offers reader project ((hmem o).1 ho)
  · intro o ho
    exact Collection.has_of_mem_offers reader project ((hmem o).2 ho)

theorem dependsOnBuffers_of_not_entangled (hnot : ¬ Entangled reader project buffers)
    (hdistinct : (buffers.map fun b => reader.key b.path).Nodup)
    (hfiles : ∀ o ∈ files, o.OfFile reader) :
    DependsOnBuffers reader project buffers
      (addAll reader project {} (bufferOffers reader project buffers ++ files)) := by
  intro doc hdoc specifier himport b hb hleads
  have haccounted := accounted_of_not_entangled hkey hnot hdistinct hfiles hdoc
  have hbuffered : buffered reader project buffers (reader.key b.path) = true :=
    buffered_eq_true_iff.2 ⟨b, hb, rfl⟩
  constructor
  · exact haccounted.mem_dependencies_iff.2 ⟨specifier, himport, hleads, .inl hbuffered⟩
  · intro e herror
    obtain ⟨-, -, hnew, -⟩ := haccounted.mem_errors_iff.1 herror
    rw [hbuffered] at hnew
    cases hnew

/-! ## A buffer in front of the one that it imports -/

/-- The first of all buffers is collected. -/
theorem get?_of_front (files : List Offer)
    (hfront : buffers.filter (eligible reader project) = b :: after) :
    ∃ doc, (addAll reader project {} (bufferOffers reader project buffers ++ files)).get?
        (reader.key b.path) = some doc ∧ doc.origin = .buffer := by
  have hnew : (addAll reader project {} (([] : List OpenBuffer).map (bufferOffer reader))).has
      (reader.key b.path) = false := rfl
  obtain ⟨doc, hget, horigin, -⟩ := get?_of_counted hkey files hfront hnew
  exact ⟨doc, hget, horigin⟩

/-- The first of all buffers, or a file that is read for it, records every file as missing that
    the buffer pulls and that cannot be read. -/
theorem exists_missed_of_front (files : List Offer)
    (hfront : buffers.filter (eligible reader project) = b :: after)
    (hne : reader.key b.path ≠ p) {e : ReadError} (hread : reader.read p = .error e)
    (hpulls : Pulls reader project (Unbuffered reader project buffers) (reader.key b.path)
      b.text p) :
    ∃ doc ∈ (addAll reader project {}
        (bufferOffers reader project buffers ++ files)).documents,
      ∃ specifier ∈ doc.imports, reader.LeadsTo project doc.path specifier p ∧
        .unreadable specifier p e ∈ doc.errors := by
  have hnew : (addAll reader project {} (([] : List OpenBuffer).map (bufferOffer reader))).has
      (reader.key b.path) = false := rfl
  obtain ⟨-, doc, hdoc, rfl, specifier, himport, hleads⟩ :=
    exists_linked_of_pulls hkey hfront hnew hpulls
  have haccounted := Collection.accounted_of_single hdoc
  refine ⟨doc, ?_, specifier, himport, hleads, haccounted.mem_errors_iff.2
    ⟨himport, hleads, decide_eq_false ?_, hread⟩⟩
  · rw [bufferOffers, hfront]
    exact (Collection.prefix_addAll_append reader project [bufferOffer reader b]
      (after.map (bufferOffer reader) ++ files)).subset hdoc
  · rw [key_bufferOffer hkey]
    exact hne

omit hkey in
/-- Any buffer may come first. -/
theorem exists_perm_front (hb : b ∈ buffers.filter (eligible reader project)) :
    ∃ rest, (b :: rest).Perm buffers ∧ (b :: rest).filter (eligible reader project) =
      b :: rest.filter (eligible reader project) := by
  obtain ⟨hb, heligible⟩ := List.mem_filter.1 hb
  obtain ⟨before, after, rfl⟩ := List.append_of_mem hb
  exact ⟨before ++ after, List.perm_middle.symm, List.filter_cons_of_pos heligible⟩

/-- Of two entangled buffers, the other one is missed or overtaken in an order that starts with
    the one that imports it. -/
theorem Entangled.exists_order (h : Entangled reader project buffers) (files : List Offer) :
    ∃ buffers', buffers'.Perm buffers ∧
      ((∃ b ∈ buffers'.filter (eligible reader project),
          ∃ doc ∈ (addAll reader project {}
            (bufferOffers reader project buffers' ++ files)).documents,
          ∃ specifier ∈ doc.imports,
            reader.LeadsTo project doc.path specifier (reader.key b.path) ∧
            ∃ e, .unreadable specifier (reader.key b.path) e ∈ doc.errors) ∨
        ∃ b ∈ buffers.filter (eligible reader project), ∃ doc,
          (addAll reader project {} (bufferOffers reader project buffers' ++ files)).get?
            (reader.key b.path) = some doc ∧ doc.origin = .disk) := by
  obtain ⟨b, hb, b', hb', hne, hpulls⟩ := h
  obtain ⟨rest, hperm, hfront⟩ := exists_perm_front hb
  rw [← unbuffered_congr hperm] at hpulls
  rw [← (hperm.filter _).mem_iff] at hb'
  refine ⟨b :: rest, hperm, ?_⟩
  cases hread : reader.read (reader.key b'.path) with
  | error e =>
    obtain ⟨doc, hdoc, specifier, himport, hleads, herror⟩ :=
      exists_missed_of_front hkey files hfront hne hread hpulls
    exact .inl ⟨b', hb', doc, hdoc, specifier, himport, hleads, e, herror⟩
  | ok text =>
    have hlater : b' ∈ rest.filter (eligible reader project) := by
      rw [hfront] at hb'
      rcases List.mem_cons.1 hb' with rfl | hlater
      · exact absurd rfl hne
      · exact hlater
    have hovertaken : Overtaken reader project (b :: rest) := by
      refine ⟨[], b, _, hfront, by simp, b', hlater, ?_, ⟨text, hread⟩, hpulls⟩
      intro o ho
      rw [List.nil_append, List.mem_singleton] at ho
      rw [ho]
      exact hne
    obtain ⟨lost, hlost, heligible, doc, hget, horigin, -⟩ := exists_lost hkey hovertaken files
    have hmem : lost ∈ buffers.filter (eligible reader project) :=
      List.mem_filter.2 ⟨hperm.mem_iff.1 hlost, heligible⟩
    exact .inr ⟨lost, hmem, doc, hget, horigin⟩

/-- **Entanglement**: every order of the buffers collects the same and records the imports of
    buffers as dependencies, exactly if no buffer imports another one. -/
theorem order_irrelevant_iff (hdistinct : (buffers.map fun b => reader.key b.path).Nodup)
    (hfiles : ∀ o ∈ files, o.OfFile reader) :
    (∀ buffers', buffers'.Perm buffers →
      (∀ key, (addAll reader project {} (bufferOffers reader project buffers' ++ files)).get? key =
        (addAll reader project {} (bufferOffers reader project buffers ++ files)).get? key) ∧
      DependsOnBuffers reader project buffers'
        (addAll reader project {} (bufferOffers reader project buffers' ++ files))) ↔
    ¬ Entangled reader project buffers := by
  constructor
  · intro hsame hentangled
    obtain ⟨buffers', hperm, ⟨b, hb, doc, hdoc, specifier, himport, hleads, e, herror⟩ |
      ⟨b, hb, doc, hget, horigin⟩⟩ := hentangled.exists_order hkey files
    · obtain ⟨-, hnone⟩ := (hsame _ hperm).2 doc hdoc specifier himport b hb hleads
      exact hnone e herror
    · -- In an order that starts with it, the overtaken buffer keeps its text.
      obtain ⟨rest, hperm', hfront⟩ := exists_perm_front hb
      obtain ⟨doc', hget', horigin'⟩ := get?_of_front hkey files hfront
      rw [(hsame _ hperm').1, ← (hsame _ hperm).1, hget] at hget'
      rw [← Option.some.inj hget', horigin] at horigin'
      cases horigin'
  · intro hnot buffers' hperm
    have hnot' : ¬ Entangled reader project buffers' := by rwa [entangled_congr hperm]
    have hdistinct' : (buffers'.map fun b => reader.key b.path).Nodup :=
      (hperm.map _).nodup_iff.2 hdistinct
    exact ⟨get?_eq_of_perm hkey hnot' hdistinct' hfiles hperm,
      dependsOnBuffers_of_not_entangled hkey hnot' hdistinct' hfiles⟩

end

/-! ## Builds -/

/-- **Buffer order**: a build that succeeds, with buffers of different keys, collects the same
    for every order of them and records each import of a buffer as a dependency, exactly if no
    buffer imports another one. -/
theorem collect_buffer_order_irrelevant_iff (disk : Disk) (search : FileSearch)
    (store : TextStore) (workspace : Workspace) (settings : Settings) {project : Project}
    {c : Collection} (hdistinct : (workspace.buffers.map fun b => b.path.normalize).Nodup)
    (h : (collect { disk, reader := store.reader, search } workspace settings).result =
      .ok (project, c)) :
    (∀ buffers', buffers'.Perm workspace.buffers → ∃ c',
      (collect { disk, reader := store.reader, search }
        { workspace with buffers := buffers' } settings).result = .ok (project, c') ∧
      (∀ key, c'.get? key = c.get? key) ∧
      DependsOnBuffers store.reader project buffers' c') ↔
    ¬ Entangled store.reader project workspace.buffers := by
  obtain ⟨root, -, hroot, hload, -⟩ := loaded_of_collect_ok h
  obtain ⟨files, hfound, rfl⟩ := collect_ok h
  have hcollects : ∀ buffers', (collect { disk, reader := store.reader, search }
      { workspace with buffers := buffers' } settings).result = .ok (project,
        addAll store.reader project {} (bufferOffers store.reader project buffers' ++
          fileOffers store.reader project files)) :=
    fun _ => collect_of_found hroot hload hfound
  have hkeys : (workspace.buffers.map fun b => store.reader.key b.path).Nodup := by
    simpa only [TextStore.reader_key] using hdistinct
  rw [← order_irrelevant_iff store.key_key hkeys
    (fun o ho => ofFile_of_mem_fileOffers store.key_key ho)]
  constructor
  · intro hall buffers' hperm
    obtain ⟨c', hcollect, hsame⟩ := hall buffers' hperm
    rw [hcollects] at hcollect
    obtain ⟨-, rfl⟩ := Prod.mk.inj (Except.ok.inj hcollect)
    exact hsame
  · intro hall buffers' hperm
    exact ⟨_, hcollects buffers', hall buffers' hperm⟩

/-! ## Examples: a saved file, and none -/

/-- A buffer without imports. -/
def plainBuffer : OpenBuffer :=
  { path := ⟨"/proj/C.sol"⟩, text := "contract C {}" }

/-- No file was ever saved. -/
def emptyStore : TextStore := {}

theorem imports_texts :
    Source.imports importingBuffer.text = ["./B.sol"] ∧ Source.imports plainBuffer.text = [] ∧
      Source.imports "contract Saved {}" = [] := by
  decide +kernel

theorem resolve_importing :
    Resolution.resolve savedStore.reader savedProject importingBuffer.path "./B.sol" =
        .ok ⟨unsavedBuffer.path, .relative⟩ ∧
      Resolution.resolve emptyStore.reader savedProject importingBuffer.path "./B.sol" =
        .ok ⟨unsavedBuffer.path, .relative⟩ :=
  ⟨rfl, rfl⟩

theorem normalize_importing : importingBuffer.path.normalize = importingBuffer.path := by
  cbv

theorem normalize_unsaved : unsavedBuffer.path.normalize = unsavedBuffer.path := by
  cbv

theorem normalize_plain : plainBuffer.path.normalize = plainBuffer.path := by
  cbv

/-- The importing buffer pulls nothing but the saved file. -/
theorem eq_of_pulls_importing {through : Path → Prop} {q : Path}
    (h : Pulls savedStore.reader savedProject through importingBuffer.path importingBuffer.text
      q) :
    q = unsavedBuffer.path := by
  induction h with
  | @direct specifier q himport hleads =>
    rw [imports_texts.1, List.mem_singleton] at himport
    rw [himport] at hleads
    exact hleads.unique ⟨_, resolve_importing.1, normalize_unsaved⟩
  | @further p q text specifier _ _ hread himport _ ih =>
    rw [ih, ← normalize_unsaved, ← savedStore.reader_key, read_unsaved] at hread
    rw [← Except.ok.inj hread, imports_texts.2.2] at himport
    cases himport

/-- The plain buffer pulls nothing. -/
theorem not_pulls_plain {through : Path → Prop} {key q : Path} :
    ¬ Pulls savedStore.reader savedProject through key plainBuffer.text q := by
  intro h
  induction h with
  | direct himport _ =>
    rw [imports_texts.2.1] at himport
    cases himport
  | further _ _ _ _ _ ih => exact ih

/-- A buffer that imports a saved file and a plain one can come in both orders. -/
theorem collect_same_in_both_orders :
    ∃ project c c',
      (collect savedEnv (savedWorkspace [importingBuffer, plainBuffer]) {}).result =
        .ok (project, c) ∧
      (collect savedEnv (savedWorkspace [plainBuffer, importingBuffer]) {}).result =
        .ok (project, c') ∧
      ∀ key, c'.get? key = c.get? key := by
  have hdistinct : ([importingBuffer, plainBuffer].map fun b => b.path.normalize).Nodup := by
    simp only [List.map_cons, List.map_nil, normalize_importing, normalize_plain]
    simp [importingBuffer, plainBuffer]
  have hnot : ¬ Entangled savedStore.reader savedProject [importingBuffer, plainBuffer] := by
    rintro ⟨b, hb, b', hb', -, hpulls⟩
    rcases List.mem_pair.1 (List.mem_filter.1 hb).1 with rfl | rfl
    · -- The saved file is none of the buffers.
      rw [savedStore.reader_key, savedStore.reader_key, normalize_importing] at hpulls
      have hpath := eq_of_pulls_importing hpulls
      rcases List.mem_pair.1 (List.mem_filter.1 hb').1 with rfl | rfl
      · rw [normalize_importing] at hpath
        simp [importingBuffer, unsavedBuffer] at hpath
      · rw [normalize_plain] at hpath
        simp [plainBuffer, unsavedBuffer] at hpath
    · exact not_pulls_plain hpulls
  obtain ⟨c', hcollect, hsame, -⟩ := (collect_buffer_order_irrelevant_iff .empty
    (fun _ => (.ok [], [])) savedStore (savedWorkspace [importingBuffer, plainBuffer]) {}
    hdistinct (collect_saved _)).2 hnot [plainBuffer, importingBuffer] (List.Perm.swap ..)
  exact ⟨savedProject, _, c', collect_saved _, hcollect, hsame⟩

theorem bufferOffers_empty {buffers : List OpenBuffer}
    (h : ∀ b ∈ buffers, b = importingBuffer ∨ b = unsavedBuffer) :
    bufferOffers emptyStore.reader savedProject buffers =
      buffers.map (bufferOffer emptyStore.reader) := by
  -- Which buffers take part does not depend on the files.
  have heligible : eligible emptyStore.reader savedProject =
      eligible savedStore.reader savedProject := rfl
  rw [bufferOffers, heligible, List.filter_eq_self.2 (eligible_saved h)]

theorem leads_importing :
    emptyStore.reader.LeadsTo savedProject importingBuffer.path "./B.sol" unsavedBuffer.path :=
  ⟨_, resolve_importing.2, normalize_unsaved⟩

/-- The importing buffer has one import. -/
theorem outcomes_importing {doc : Document} (present : Path → Bool)
    (hbare : doc.bare = (bufferOffer emptyStore.reader importingBuffer).document
      emptyStore.reader) :
    doc.outcomes emptyStore.reader savedProject present =
      [emptyStore.reader.outcome savedProject present importingBuffer.path "./B.sol"] := by
  have hpath : doc.bare.path = importingBuffer.path := by
    rw [hbare]
    change importingBuffer.path.normalize.normalize = _
    rw [normalize_importing, normalize_importing]
  have himports : doc.bare.imports = ["./B.sol"] := by
    rw [hbare]
    exact imports_texts.1
  rw [Document.bare_path] at hpath
  rw [Document.bare_imports] at himports
  rw [Document.outcomes, hpath, himports, List.map_singleton]

/-- In front of the other buffer, the importing one finds neither it nor a file. -/
theorem get?_importing_in_front :
    ∃ doc, (addAll emptyStore.reader savedProject {}
        ([importingBuffer, unsavedBuffer].map (bufferOffer emptyStore.reader))).get?
          importingBuffer.path.normalize = some doc ∧
      doc.dependencies = [] ∧
      doc.errors = [.unreadable "./B.sol" unsavedBuffer.path (.absent unsavedBuffer.path)] := by
  have hnew : (addAll emptyStore.reader savedProject {} []).has
      (emptyStore.reader.key (bufferOffer emptyStore.reader importingBuffer).path) = false := rfl
  obtain ⟨doc, hget, hbare⟩ := Collection.get?_of_first [] [] _ hnew
  have hdoc := (Collection.sound_empty.addAll _).keyed.get?_eq_some_iff.1 hget
  have haccounted := Collection.accounted_of_single hdoc.1
  have hkey : emptyStore.reader.key (bufferOffer emptyStore.reader importingBuffer).path =
      importingBuffer.path := by
    rw [key_bufferOffer emptyStore.key_key, emptyStore.reader_key, normalize_importing]
  have hne : importingBuffer.path ≠ unsavedBuffer.path := by
    simp [importingBuffer, unsavedBuffer]
  rw [hkey] at haccounted
  have houtcome : emptyStore.reader.outcome savedProject (fun key => importingBuffer.path = key)
      importingBuffer.path "./B.sol" =
        .error (.unreadable "./B.sol" unsavedBuffer.path (.absent unsavedBuffer.path)) :=
    SourceReader.outcome_of_unreadable leads_importing (decide_eq_false hne) rfl
  refine ⟨doc, ?_, ?_, ?_⟩
  · rw [normalize_importing, ← hkey]
    exact Collection.get?_addAll_append [bufferOffer emptyStore.reader unsavedBuffer] hget
  · rw [haccounted.dependencies, outcomes_importing _ hbare, houtcome]
    rfl
  · rw [haccounted.errors, outcomes_importing _ hbare, houtcome]
    rfl

/-- Behind the other buffer, the importing one finds it. -/
theorem get?_importing_behind :
    ∃ doc, (addAll emptyStore.reader savedProject {}
        ([unsavedBuffer, importingBuffer].map (bufferOffer emptyStore.reader))).get?
          importingBuffer.path.normalize = some doc ∧
      doc.dependencies = [unsavedBuffer.path] ∧ doc.errors = [] := by
  have hkey : emptyStore.reader.key (bufferOffer emptyStore.reader importingBuffer).path =
      importingBuffer.path := by
    rw [key_bufferOffer emptyStore.key_key, emptyStore.reader_key, normalize_importing]
  have hkey' : emptyStore.reader.key (bufferOffer emptyStore.reader unsavedBuffer).path =
      unsavedBuffer.path := by
    rw [key_bufferOffer emptyStore.key_key, emptyStore.reader_key, normalize_unsaved]
  have hfirst : ∀ o ∈ [bufferOffer emptyStore.reader unsavedBuffer], emptyStore.reader.key o.path ≠
      emptyStore.reader.key (bufferOffer emptyStore.reader importingBuffer).path := by
    intro o ho
    rw [List.mem_singleton.1 ho, hkey, hkey']
    simp [importingBuffer, unsavedBuffer]
  -- Nothing is read for the other buffer, since there are no files.
  have hnew : (addAll emptyStore.reader savedProject {}
      [bufferOffer emptyStore.reader unsavedBuffer]).has (emptyStore.reader.key
        (bufferOffer emptyStore.reader importingBuffer).path) = false := by
    rw [Bool.eq_false_iff]
    intro hhas
    obtain ⟨other, -, -, hread⟩ := Collection.get?_of_overtaken _ [] _ hfirst hhas
    cases hread
  obtain ⟨doc, hget, hbare⟩ := Collection.get?_of_first _ [] _ hnew
  have hdoc := (Collection.sound_empty.addAll _).keyed.get?_eq_some_iff.1 hget
  obtain ⟨present, hpresent, haccounted⟩ := Collection.exists_accounted_of_first hdoc.1
  rw [hkey'] at hpresent
  have houtcome := SourceReader.outcome_of_present leads_importing hpresent
  refine ⟨doc, ?_, ?_, ?_⟩
  · rw [normalize_importing, ← hkey]
    exact hget
  · rw [haccounted.dependencies, outcomes_importing _ hbare, houtcome]
    rfl
  · rw [haccounted.errors, outcomes_importing _ hbare, houtcome]
    rfl

/-- In front of the other buffer, the importing one records a failure; behind it, a
    dependency. -/
theorem collect_depends_on_order :
    ∃ project c c' doc doc',
      (collect (foundEnv emptyStore []) (savedWorkspace [importingBuffer, unsavedBuffer])
        {}).result = .ok (project, c) ∧
      (collect (foundEnv emptyStore []) (savedWorkspace [unsavedBuffer, importingBuffer])
        {}).result = .ok (project, c') ∧
      importingBuffer.path.normalize ≠ unsavedBuffer.path.normalize ∧
      c.get? importingBuffer.path.normalize = some doc ∧ doc.dependencies = [] ∧
      doc.errors = [.unreadable "./B.sol" unsavedBuffer.path (.absent unsavedBuffer.path)] ∧
      c'.get? importingBuffer.path.normalize = some doc' ∧
      doc'.dependencies = [unsavedBuffer.path] ∧ doc'.errors = [] := by
  have hcollect := collect_found emptyStore [] [importingBuffer, unsavedBuffer]
  have hcollect' := collect_found emptyStore [] [unsavedBuffer, importingBuffer]
  rw [bufferOffers_empty (by simp), fileOffers, List.filterMap_nil, List.append_nil]
    at hcollect hcollect'
  have hne : importingBuffer.path.normalize ≠ unsavedBuffer.path.normalize := by
    rw [normalize_importing, normalize_unsaved]
    simp [importingBuffer, unsavedBuffer]
  obtain ⟨doc, hget, hdependencies, herrors⟩ := get?_importing_in_front
  obtain ⟨doc', hget', hdependencies', herrors'⟩ := get?_importing_behind
  exact ⟨savedProject, _, _, doc, doc', hcollect, hcollect', hne, hget, hdependencies, herrors,
    hget', hdependencies', herrors'⟩

end SolidityBuild.Build
