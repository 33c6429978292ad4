import SolidityBuild.Proofs.Build.Gathering

/-! # Open buffers: when unsaved text wins over the file on disk

    Buffers are added one after the other, and each addition follows imports at once. So a
    buffer loses against its own file exactly if an import of an earlier buffer, followed
    through files that no buffer replaces, reads that file first (`Overtaken`). A second and
    harmless looking case is a buffer whose path spells the same file without the extension
    of a source: it stands first in the list and yet does not count (`Shadowed`).
-/

namespace SolidityBuild.Build

open Collection (Offer addAll)

variable (reader : SourceReader) (project : Project)

/-! ## What goes wrong -/

/-- The keys that the imports of the text `code` under `key` lead to, directly or through
    files on disk whose keys satisfy `through`. -/
inductive Pulls (through : Path → Prop) (key : Path) (code : String) : Path → Prop where
  | direct {specifier : String} {q : Path} (himport : specifier ∈ Source.imports code)
      (hleads : reader.LeadsTo project key specifier q) : Pulls through key code q
  | further {p q : Path} {text specifier : String} (hpulls : Pulls through key code p)
      (hthrough : through p) (hread : reader.read p = .ok text)
      (himport : specifier ∈ Source.imports text)
      (hleads : reader.LeadsTo project p specifier q) : Pulls through key code q

/-- A key that none of the buffers that take part has. -/
def Unbuffered (buffers : List OpenBuffer) (p : Path) : Prop :=
  ∀ o ∈ buffers.filter (eligible reader project), reader.key o.path ≠ p

/-- An import of the first buffer of some key, followed through files that no buffer
    replaces, leads to the readable file of a buffer that comes later. -/
def Overtaken (buffers : List OpenBuffer) : Prop :=
  ∃ before b after, buffers.filter (eligible reader project) = before ++ b :: after ∧
    (∀ o ∈ before, reader.key o.path ≠ reader.key b.path) ∧
    ∃ later ∈ after,
      (∀ o ∈ before ++ [b], reader.key o.path ≠ reader.key later.path) ∧
      reader.Readable (reader.key later.path) ∧
      Pulls reader project (Unbuffered reader project buffers) (reader.key b.path) b.text
        (reader.key later.path)

/-- The first of all buffers with the key of one that takes part does not take part itself,
    and its text is not that of the first one that does. -/
def Shadowed (buffers : List OpenBuffer) : Prop :=
  ∃ b ∈ buffers, eligible reader project b = true ∧ ∃ first counted,
    buffers.find? (fun o => reader.key o.path = reader.key b.path) = some first ∧
    (buffers.filter (eligible reader project)).find?
      (fun o => reader.key o.path = reader.key b.path) = some counted ∧
    first.text ≠ counted.text

/-! ## Overtaking in terms of the collection -/

section

variable {reader project} {buffers before after : List OpenBuffer} {b : OpenBuffer}
  {c : Collection} {fresh : List Document}

-- From here on every key is its own key, as it is for texts in memory.
variable (hkey : ∀ p, reader.key (reader.key p) = reader.key p)

include hkey

/-- What is read while the buffer `b` is added has none of the keys of the buffers so far,
    and `b` is the first buffer of its key. -/
theorem keys_ne_of_grows
    (hgrows : Collection.Grows reader project
      (addAll reader project {} (before.map (bufferOffer reader)))
      ((bufferOffer reader b).document reader) [] c fresh) :
    (∀ o ∈ before, reader.key o.path ≠ reader.key b.path) ∧
      ∀ doc ∈ fresh, ∀ o ∈ before ++ [b], reader.key o.path ≠ doc.path := by
  have hold : ∀ o ∈ before, reader.key o.path ∉
      (((bufferOffer reader b).document reader) :: fresh).map Document.path := by
    intro o ho hmem
    have hhas := Collection.has_of_mem_offers reader project
      (List.mem_map_of_mem (f := bufferOffer reader) ho)
    rw [Collection.has_iff_mem_paths] at hhas
    refine hgrows.not_mem_old hmem ?_
    rw [← hkey o.path]
    exact hhas
  constructor
  · -- The offered document itself is new.
    intro o ho heq
    apply hold o ho
    rw [heq, ← hkey b.path]
    exact List.mem_cons_self ..
  · intro doc hdoc o ho heq
    rcases List.mem_append.1 ho with ho | ho
    · apply hold o ho
      rw [heq]
      exact List.mem_map_of_mem (List.mem_cons_of_mem _ hdoc)
    · -- What is read for a buffer never has the key of that buffer.
      have hnodup := (List.nodup_append.1 hgrows.nodup_paths).2.1
      rw [List.map_cons, List.nodup_cons] at hnodup
      apply hnodup.1
      rw [List.mem_singleton.1 ho, ← hkey b.path] at heq
      exact List.mem_map.2 ⟨doc, hdoc, heq.symm⟩

/-- While the buffer `b` is added, every chain of documents that are read pulls its end,
    unless a document on the chain overtakes a buffer. -/
theorem pulls_or_overtaken
    (hsplit : buffers.filter (eligible reader project) = before ++ b :: after)
    (hgrows : Collection.Grows reader project
      (addAll reader project {} (before.map (bufferOffer reader)))
      ((bufferOffer reader b).document reader) [] c fresh) {q : Path}
    (hchain : Relation.TransGen
      (reader.Linked project ((bufferOffer reader b).document reader :: fresh))
      (reader.key b.path) q) :
    Pulls reader project (Unbuffered reader project buffers) (reader.key b.path) b.text q ∨
      Overtaken reader project buffers := by
  obtain ⟨hfirst, hfresh⟩ := keys_ne_of_grows hkey hgrows
  have hrootpath : ((bufferOffer reader b).document reader).path = reader.key b.path :=
    hkey b.path
  -- Induction on the chain: as long as no buffer is met, all of it is pulled.
  induction hchain with
  | single hlink =>
    obtain ⟨doc, hdoc, hpath, specifier, himport, hleads⟩ := hlink
    have hroot : doc = (bufferOffer reader b).document reader :=
      hgrows.eq_of_path_eq hdoc (List.mem_cons_self ..) (hpath.trans hrootpath.symm)
    rw [hroot] at himport
    exact .inl (.direct himport hleads)
  | @tail p q _ hlink ih =>
    rcases ih with hpulls | hovertaken
    · obtain ⟨doc, hdoc, hpath, specifier, himport, hleads⟩ := hlink
      rcases List.mem_cons.1 hdoc with hroot | hdoc
      · rw [hroot, hrootpath] at hpath
        rw [hroot] at himport
        rw [← hpath] at hleads
        exact .inl (.direct himport hleads)
      · obtain ⟨text, hread, hfetched⟩ := hgrows.fetched doc hdoc
        rw [hpath] at hread
        by_cases hunbuffered : Unbuffered reader project buffers p
        · rw [hfetched] at himport
          exact .inl (.further hpulls hunbuffered hread himport hleads)
        · -- The document is the file of a buffer, which has to come later.
          obtain ⟨o, ho, hop⟩ : ∃ o ∈ buffers.filter (eligible reader project),
              reader.key o.path = p := by
            by_contra hnone
            exact hunbuffered fun o ho hop => hnone ⟨o, ho, hop⟩
          have hne : ∀ o' ∈ before ++ [b], reader.key o'.path ≠ reader.key o.path := by
            intro o' ho'
            rw [hop, ← hpath]
            exact hfresh doc hdoc o' ho'
          have hafter : o ∈ after := by
            rw [hsplit, List.append_cons] at ho
            rcases List.mem_append.1 ho with hearlier | hafter
            · exact absurd rfl (hne o hearlier)
            · exact hafter
          refine .inr ⟨before, b, after, hsplit, hfirst, o, hafter, hne, ?_, ?_⟩
          · rw [hop]
            exact ⟨text, hread⟩
          · rw [hop]
            exact hpulls
    · exact .inr hovertaken

/-- If the first buffer of a key finds that key collected, a buffer is overtaken. -/
theorem overtaken_of_has
    (hsplit : buffers.filter (eligible reader project) = before ++ b :: after)
    (hfirst : ∀ o ∈ before, reader.key o.path ≠ reader.key b.path)
    (hhas : (addAll reader project {} (before.map (bufferOffer reader))).has
      (reader.key b.path) = true) :
    Overtaken reader project buffers := by
  obtain ⟨doc, hdoc, hpath⟩ := (Collection.has_iff _ _).1 hhas
  obtain ⟨earlier, o, between, fresh, heq, hbrought⟩ :=
    Collection.exists_broughtBy reader project _ hdoc
  obtain ⟨before', rest, rfl, rfl, hrest⟩ := List.map_eq_append_iff.1 heq
  obtain ⟨b', between', rfl, rfl, rfl⟩ := List.map_eq_cons_iff.1 hrest
  have hb' : reader.key b'.path ≠ reader.key b.path := hfirst b' (by simp)
  -- The document cannot be an earlier buffer, so one of those led to it.
  rcases hbrought.offered_or_fetched with hoffered | ⟨hfresh, text, hread, -⟩
  · have hroot : doc.bare.path = reader.key (reader.key b'.path) := by rw [hoffered]; rfl
    rw [hkey, Document.bare_path, hpath] at hroot
    exact absurd hroot.symm hb'
  · have hsplit' : buffers.filter (eligible reader project) =
        before' ++ b' :: (between' ++ b :: after) := by
      rw [hsplit, List.append_assoc, List.cons_append]
    obtain ⟨hfirst', -⟩ := keys_ne_of_grows hkey hbrought.grows
    have hchain := hbrought.chain hfresh
    rw [hpath] at hchain
    change Relation.TransGen _ (reader.key (reader.key b'.path)) _ at hchain
    rw [hkey] at hchain
    rcases pulls_or_overtaken hkey hsplit' hbrought.grows hchain with hpulls | hovertaken
    · refine ⟨before', b', between' ++ b :: after, hsplit', hfirst', b, by simp, ?_, ?_, hpulls⟩
      · intro o ho
        apply hfirst o
        rcases List.mem_append.1 ho with ho | ho
        · exact List.mem_append_left _ ho
        · rw [List.mem_singleton.1 ho]
          simp
      · rw [← hpath]
        exact ⟨text, hread⟩
    · exact hovertaken

/-- What a buffer pulls is the target of a collected document once the buffer is added, if it
    was not overtaken itself. -/
theorem exists_linked_of_pulls
    (hsplit : buffers.filter (eligible reader project) = before ++ b :: after)
    (hnew : (addAll reader project {} (before.map (bufferOffer reader))).has
      (reader.key b.path) = false) {q : Path}
    (hpulls : Pulls reader project (Unbuffered reader project buffers) (reader.key b.path)
      b.text q) :
    ∃ p, reader.Linked project
      (addAll reader project {} ((before ++ [b]).map (bufferOffer reader))).documents p q := by
  have hsound : Collection.Sound reader project
      (addAll reader project {} ((before ++ [b]).map (bufferOffer reader))) :=
    Collection.sound_empty.addAll _
  rw [List.map_append, List.map_singleton] at hsound ⊢
  -- The collection is closed after the buffer, so each link of the chain is followed.
  induction hpulls with
  | @direct specifier q himport hleads =>
    rw [← hkey b.path] at hnew
    obtain ⟨doc, hget, hbare⟩ :=
      Collection.get?_of_first (before.map (bufferOffer reader)) [] (bufferOffer reader b) hnew
    obtain ⟨hdoc, hpath⟩ := hsound.keyed.get?_eq_some_iff.1 hget
    change doc.path = reader.key (reader.key b.path) at hpath
    rw [hkey] at hpath
    have himports : doc.bare.imports = Source.imports b.text := by rw [hbare]; rfl
    rw [← himports] at himport
    exact ⟨_, doc, hdoc, hpath, specifier, himport, hleads⟩
  | @further p q text specifier hpulls hthrough htext himport hleads ih =>
    obtain ⟨-, linking, hlinking, rfl, specifier', himport', hleads'⟩ := ih
    obtain ⟨doc, hdoc, hpath⟩ := (Collection.has_iff _ _).1
      (hsound.settled linking hlinking specifier' himport' p hleads' ⟨text, htext⟩)
    -- The document under `p` is no buffer, so its text is the one that the chain follows.
    have hnot : ∀ o ∈ before.map (bufferOffer reader) ++ [bufferOffer reader b],
        reader.key o.path ≠ doc.path := by
      rw [← List.map_singleton, ← List.map_append]
      intro o ho
      obtain ⟨o', ho', rfl⟩ := List.mem_map.1 ho
      have hmem : o' ∈ buffers.filter (eligible reader project) := by
        rw [hsplit, List.append_cons]
        exact List.mem_append_left _ ho'
      change reader.key (reader.key o'.path) ≠ doc.path
      rw [hkey, hpath]
      exact hthrough o' hmem
    obtain ⟨-, hcode⟩ := Collection.fetched_of_not_offered hdoc hnot
    rw [hpath, htext] at hcode
    refine ⟨p, doc, hdoc, hpath, specifier, ?_, hleads⟩
    rw [hsound.parsed doc hdoc, ← Except.ok.inj hcode]
    exact himport

/-- What a buffer pulls is collected, if it can be read. -/
theorem has_of_pulls
    (hsplit : buffers.filter (eligible reader project) = before ++ b :: after)
    (hnew : (addAll reader project {} (before.map (bufferOffer reader))).has
      (reader.key b.path) = false) {q : Path}
    (hpulls : Pulls reader project (Unbuffered reader project buffers) (reader.key b.path)
      b.text q) (hread : reader.Readable q) :
    (addAll reader project {} ((before ++ [b]).map (bufferOffer reader))).has q = true := by
  obtain ⟨-, doc, hdoc, rfl, specifier, himport, hleads⟩ :=
    exists_linked_of_pulls hkey hsplit hnew hpulls
  exact (Collection.sound_empty.addAll _).settled doc hdoc specifier himport q hleads hread

/-- **Overtaking**: no buffer is overtaken exactly if the first buffer of every key finds
    nothing collected under it. -/
theorem not_overtaken_iff (buffers : List OpenBuffer) :
    ¬ Overtaken reader project buffers ↔
      ∀ before b after, buffers.filter (eligible reader project) = before ++ b :: after →
        (∀ o ∈ before, reader.key o.path ≠ reader.key b.path) →
        (addAll reader project {} (before.map (bufferOffer reader))).has
          (reader.key b.path) = false := by
  constructor
  · intro hnot before b after hsplit hfirst
    by_contra hhas
    exact hnot (overtaken_of_has hkey hsplit hfirst (by simpa using hhas))
  · rintro hall ⟨before, b, after, hsplit, hfirst, later, hlater, hne, hread, hpulls⟩
    have hhas := has_of_pulls hkey hsplit (hall before b after hsplit hfirst) hpulls hread
    -- The first of the later buffers with that key finds the key collected.
    obtain ⟨first, hfind⟩ : ∃ first, after.find?
        (fun o => reader.key o.path = reader.key later.path) = some first := by
      rw [← Option.isSome_iff_exists, List.find?_isSome]
      exact ⟨later, hlater, by simp⟩
    obtain ⟨hpath, between, rest, hafter, hbetween⟩ := List.find?_eq_some_iff_append.1 hfind
    have hpath : reader.key first.path = reader.key later.path := by simpa using hpath
    -- Nothing else than `b` and what it pulls is needed for that.
    have hsplit' : buffers.filter (eligible reader project) =
        (before ++ [b] ++ between) ++ first :: rest := by
      rw [hsplit, hafter, List.append_cons, List.append_assoc, List.append_assoc,
        List.append_assoc]
    have hnew := hall _ first rest hsplit' ?_
    · rw [hpath, List.map_append, Bool.eq_false_iff] at hnew
      apply hnew
      exact Collection.has_addAll_append _ hhas
    · intro o ho
      rw [hpath]
      rcases List.mem_append.1 ho with ho | ho
      · exact hne o ho
      · simpa using hbetween o ho

/-! ## When every buffer keeps its text -/

omit hkey in
/-- The first buffer of a key that takes part, with those that come before it. -/
theorem exists_counted {b : OpenBuffer} (hb : b ∈ buffers)
    (heligible : eligible reader project b = true) :
    ∃ before counted after,
      buffers.filter (eligible reader project) = before ++ counted :: after ∧
      reader.key counted.path = reader.key b.path ∧
      (∀ o ∈ before, reader.key o.path ≠ reader.key b.path) ∧
      (buffers.filter (eligible reader project)).find?
        (fun o => reader.key o.path = reader.key b.path) = some counted := by
  have hmem : b ∈ buffers.filter (eligible reader project) := List.mem_filter.2 ⟨hb, heligible⟩
  obtain ⟨counted, hfind⟩ : ∃ counted, (buffers.filter (eligible reader project)).find?
      (fun o => reader.key o.path = reader.key b.path) = some counted := by
    rw [← Option.isSome_iff_exists, List.find?_isSome]
    exact ⟨b, hmem, by simp⟩
  obtain ⟨hpath, before, after, hsplit, hbefore⟩ := List.find?_eq_some_iff_append.1 hfind
  refine ⟨before, counted, after, hsplit, by simpa using hpath, ?_, hfind⟩
  intro o ho
  simpa using hbefore o ho

/-- What is collected under the key of a buffer, if none was collected there before the
    first buffer of that key. -/
theorem get?_of_counted (files : List Offer) {counted : OpenBuffer}
    (hsplit : buffers.filter (eligible reader project) = before ++ counted :: after)
    (hnew : (addAll reader project {} (before.map (bufferOffer reader))).has
      (reader.key counted.path) = false) :
    ∃ doc, (addAll reader project {} (bufferOffers reader project buffers ++ files)).get?
        (reader.key counted.path) = some doc ∧
      doc.origin = .buffer ∧ doc.code = counted.text := by
  rw [← hkey counted.path] at hnew
  obtain ⟨doc, hget, hbare⟩ := Collection.get?_of_first (before.map (bufferOffer reader))
    (after.map (bufferOffer reader) ++ files) (bufferOffer reader counted) hnew
  change _ = some doc at hget
  have horigin : doc.bare.origin = .buffer := by rw [hbare]; rfl
  have hcode : doc.bare.code = counted.text := by rw [hbare]; rfl
  refine ⟨doc, ?_, horigin, hcode⟩
  rw [bufferOffers, hsplit, List.map_append, List.map_cons, List.append_assoc, List.cons_append,
    ← hkey counted.path]
  exact hget

omit hkey in
/-- Only a buffer that takes no part shadows another one. -/
theorem not_shadowed_of_eligible (h : ∀ b ∈ buffers, eligible reader project b = true) :
    ¬ Shadowed reader project buffers := by
  rintro ⟨b, -, -, first, counted, hfirst, hcounted, hne⟩
  rw [List.filter_eq_self.2 h, hfirst] at hcounted
  exact hne (congrArg OpenBuffer.text (Option.some.inj hcounted))

/-- If a buffer is overtaken, then some buffer that takes part loses against its own file. -/
theorem exists_lost (h : Overtaken reader project buffers) (files : List Offer) :
    ∃ b ∈ buffers, eligible reader project b = true ∧ ∃ doc,
      (addAll reader project {} (bufferOffers reader project buffers ++ files)).get?
        (reader.key b.path) = some doc ∧
      doc.origin = .disk ∧ reader.read (reader.key b.path) = .ok doc.code := by
  -- The buffer that loses is one that finds its key collected.
  obtain ⟨before, b, after, hsplit, hfirst, hhas⟩ : ∃ before b after,
      buffers.filter (eligible reader project) = before ++ b :: after ∧
      (∀ o ∈ before, reader.key o.path ≠ reader.key b.path) ∧
      (addAll reader project {} (before.map (bufferOffer reader))).has
        (reader.key b.path) = true := by
    by_contra hnone
    refine (not_overtaken_iff hkey buffers).2 ?_ h
    intro before b after hsplit hfirst
    rw [Bool.eq_false_iff]
    intro hhas
    exact hnone ⟨before, b, after, hsplit, hfirst, hhas⟩
  have hb : b ∈ buffers.filter (eligible reader project) := by rw [hsplit]; simp
  obtain ⟨hb, heligible⟩ := List.mem_filter.1 hb
  have hfirst' : ∀ o ∈ before.map (bufferOffer reader),
      reader.key o.path ≠ reader.key (bufferOffer reader b).path := by
    intro o ho
    obtain ⟨o', ho', rfl⟩ := List.mem_map.1 ho
    show reader.key (reader.key o'.path) ≠ reader.key (reader.key b.path)
    rw [hkey, hkey]
    exact hfirst o' ho'
  rw [← hkey b.path] at hhas
  obtain ⟨doc, hget, horigin, hread⟩ := Collection.get?_of_overtaken
    (before.map (bufferOffer reader)) ((b :: after).map (bufferOffer reader) ++ files)
    (bufferOffer reader b) hfirst' hhas
  change Collection.get? _ (reader.key (reader.key b.path)) = _ at hget
  change reader.read (reader.key (reader.key b.path)) = _ at hread
  rw [hkey, ← List.append_assoc, ← List.map_append, ← hsplit] at hget
  rw [hkey] at hread
  exact ⟨b, hb, heligible, doc, hget, horigin, hread⟩

/-- Every buffer that takes part is collected with the text of the first buffer of its key,
    exactly if none is overtaken and none is shadowed. -/
theorem keeps_buffers_iff (files : List Offer) :
    (∀ b ∈ buffers, eligible reader project b = true → ∃ first doc,
      buffers.find? (fun o => reader.key o.path = reader.key b.path) = some first ∧
      (addAll reader project {} (bufferOffers reader project buffers ++ files)).get?
        (reader.key b.path) = some doc ∧
      doc.origin = .buffer ∧ doc.code = first.text) ↔
    ¬ Overtaken reader project buffers ∧ ¬ Shadowed reader project buffers := by
  constructor
  · intro hkeeps
    have hovertaken : ¬ Overtaken reader project buffers := by
      intro h
      obtain ⟨b, hb, heligible, doc, hget, horigin, -⟩ := exists_lost hkey h files
      obtain ⟨-, doc', -, hget', horigin', -⟩ := hkeeps b hb heligible
      rw [hget] at hget'
      rw [← Option.some.inj hget', horigin] at horigin'
      cases horigin'
    have hnew := (not_overtaken_iff hkey buffers).1 hovertaken
    refine ⟨hovertaken, ?_⟩
    -- The text that counts is collected, so it is the text of the first buffer.
    rintro ⟨b, hb, heligible, first, counted, hfindFirst, hfindCounted, hne⟩
    obtain ⟨before, counted', after, hsplit, hpath, hbefore, hfind⟩ :=
      exists_counted hb heligible
    obtain rfl : counted = counted' := Option.some.inj (hfindCounted.symm.trans hfind)
    obtain ⟨first', doc, hfindFirst', hget, -, hcode⟩ := hkeeps b hb heligible
    obtain rfl : first = first' := Option.some.inj (hfindFirst.symm.trans hfindFirst')
    rw [← hpath] at hbefore hget
    obtain ⟨doc', hget', -, hcode'⟩ :=
      get?_of_counted hkey files hsplit (hnew before counted after hsplit hbefore)
    rw [hget] at hget'
    rw [← Option.some.inj hget', hcode] at hcode'
    exact hne hcode'
  · rintro ⟨hovertaken, hshadowed⟩ b hb heligible
    obtain ⟨before, counted, after, hsplit, hpath, hbefore, hfindCounted⟩ :=
      exists_counted hb heligible
    obtain ⟨first, hfindFirst⟩ : ∃ first,
        buffers.find? (fun o => reader.key o.path = reader.key b.path) = some first := by
      rw [← Option.isSome_iff_exists, List.find?_isSome]
      exact ⟨b, hb, by simp⟩
    have htext : first.text = counted.text := by
      by_contra hne
      exact hshadowed ⟨b, hb, heligible, first, counted, hfindFirst, hfindCounted, hne⟩
    rw [← hpath] at hbefore
    have hnew := (not_overtaken_iff hkey buffers).1 hovertaken before counted after hsplit hbefore
    obtain ⟨doc, hget, horigin, hcode⟩ := get?_of_counted hkey files hsplit hnew
    rw [hpath] at hget
    exact ⟨first, doc, hfindFirst, hget, horigin, hcode.trans htext.symm⟩

end

/-! ## Builds -/

/-- **Unsaved text wins**: a build that succeeds keeps every source buffer below the root, with
    the text of the first buffer of its path, exactly if no import of an earlier buffer reads
    the file of a later one and no buffer is shadowed. -/
theorem collect_keeps_buffers_iff (disk : Disk) (search : FileSearch) (store : TextStore)
    (workspace : Workspace) (settings : Settings) {project : Project} {c : Collection}
    (h : (collect { disk, reader := store.reader, search } workspace settings).result =
      .ok (project, c)) :
    (∀ b ∈ workspace.buffers, b.path.extension? = some "sol" →
      project.root.contains b.path.normalize = true →
      ∃ first doc,
        workspace.buffers.find? (fun o => o.path.normalize = b.path.normalize) = some first ∧
        c.get? b.path.normalize = some doc ∧
        doc.origin = .buffer ∧ doc.code = first.text) ↔
    ¬ Overtaken store.reader project workspace.buffers ∧
      ¬ Shadowed store.reader project workspace.buffers := by
  obtain ⟨files, -, rfl⟩ := collect_ok h
  rw [← keeps_buffers_iff store.key_key (fileOffers store.reader project files)]
  constructor
  · intro hkeeps b hb heligible
    obtain ⟨hext, hroot⟩ := (eligible_iff store.reader project b).1 heligible
    exact hkeeps b hb hext hroot
  · intro hkeeps b hb hext hroot
    exact hkeeps b hb ((eligible_iff store.reader project b).2 ⟨hext, hroot⟩)

/-! ## One import, two orders -/

/-- A file as it was saved. -/
def savedStore : TextStore :=
  .ofList [(⟨"/proj/B.sol"⟩, "contract Saved {}")]

/-- A buffer that imports the file. -/
def importingBuffer : OpenBuffer :=
  { path := ⟨"/proj/A.sol"⟩, text := "import \"./B.sol\";" }

/-- A buffer with a newer text of the file. -/
def unsavedBuffer : OpenBuffer :=
  { path := ⟨"/proj/B.sol"⟩, text := "contract Unsaved {}" }

/-- A run that finds nothing but the saved file. -/
def savedEnv : BuildEnv where
  disk := .empty
  reader := savedStore.reader
  search _ := (.ok [], [])

/-- The project of the run. -/
def savedProject : Project where
  root := ⟨"/proj"⟩
  packagesDir := some "lib"
  contractsDir := some "src"

/-- The workspace of the run. -/
def savedWorkspace (buffers : List OpenBuffer) : Workspace where
  root := some ⟨"/proj"⟩
  buffers := buffers

theorem load_saved : (Project.load .empty ⟨"/proj"⟩ {}).1 = .ok savedProject :=
  rfl

theorem collect_saved (buffers : List OpenBuffer) :
    (collect savedEnv (savedWorkspace buffers) {}).result = .ok (savedProject,
      addAll savedStore.reader savedProject {}
        (bufferOffers savedStore.reader savedProject buffers ++ [])) := by
  have hload : (Project.load savedEnv.disk ⟨"/proj"⟩ {}).1 = .ok savedProject := load_saved
  have hfound : (savedEnv.search (sourceSearch savedProject)).1 = .ok [] := rfl
  exact collect_of_found rfl hload hfound

theorem eligible_saved {buffers : List OpenBuffer}
    (h : ∀ b ∈ buffers, b = importingBuffer ∨ b = unsavedBuffer) :
    ∀ b ∈ buffers, eligible savedStore.reader savedProject b = true := by
  intro b hb
  rcases h b hb with rfl | rfl
  · cbv
  · cbv

theorem read_unsaved :
    savedStore.reader.read (savedStore.reader.key unsavedBuffer.path) =
      .ok "contract Saved {}" :=
  rfl

theorem read_importing :
    savedStore.reader.read (savedStore.reader.key importingBuffer.path) =
      .error (.absent importingBuffer.path) :=
  rfl

/-- With the imported buffer in front, its unsaved text is collected. -/
theorem collect_keeps_imported_first :
    ∃ project c,
      (collect savedEnv (savedWorkspace [unsavedBuffer, importingBuffer]) {}).result =
        .ok (project, c) ∧
      ∃ doc, c.get? unsavedBuffer.path.normalize = some doc ∧ doc.origin = .buffer ∧
        doc.code = "contract Unsaved {}" := by
  have heligible : ∀ b ∈ [unsavedBuffer, importingBuffer],
      eligible savedStore.reader savedProject b = true := eligible_saved (by simp)
  refine ⟨savedProject, _, collect_saved _, ?_⟩
  have hkept := (collect_keeps_buffers_iff .empty (fun _ => (.ok [], [])) savedStore
    (savedWorkspace [unsavedBuffer, importingBuffer]) {}
    (collect_saved _)).2 ⟨?_, not_shadowed_of_eligible heligible⟩
  · obtain ⟨hext, hroot⟩ := (eligible_iff _ _ _).1 (heligible unsavedBuffer (by simp))
    obtain ⟨first, doc, hfind, hget, horigin, hcode⟩ :=
      hkept unsavedBuffer (List.mem_cons_self ..) hext hroot
    have hfirst : first = unsavedBuffer :=
      Option.some.inj (hfind.symm.trans (List.find?_cons_of_pos (decide_eq_true rfl)))
    rw [hfirst] at hcode
    exact ⟨doc, hget, horigin, hcode⟩
  · -- Only the second buffer could be overtaken, and its file was never saved.
    rintro ⟨before, b, after, hsplit, -, later, hlater, hne, ⟨text, hread⟩, -⟩
    rw [savedWorkspace, List.filter_eq_self.2 heligible] at hsplit
    have hmem : later ∈ [unsavedBuffer, importingBuffer] := by
      rw [hsplit]
      simp [hlater]
    rcases List.mem_pair.1 hmem with rfl | rfl
    · cases before with
      | nil =>
        obtain rfl := (List.cons.inj hsplit).1
        exact hne _ (by simp) rfl
      | cons o before =>
        obtain rfl := (List.cons.inj hsplit).1
        exact hne _ (by simp) rfl
    · rw [read_importing] at hread
      cases hread

/-- With the importing buffer in front, its import reads the saved text. -/
theorem collect_loses_imported_second :
    ∃ project c,
      (collect savedEnv (savedWorkspace [importingBuffer, unsavedBuffer]) {}).result =
        .ok (project, c) ∧
      unsavedBuffer.path.extension? = some "sol" ∧
      project.root.contains unsavedBuffer.path.normalize = true ∧
      ∃ doc, c.get? unsavedBuffer.path.normalize = some doc ∧ doc.origin = .disk ∧
        doc.code = "contract Saved {}" := by
  have heligible : ∀ b ∈ [importingBuffer, unsavedBuffer],
      eligible savedStore.reader savedProject b = true := eligible_saved (by simp)
  obtain ⟨hext, hroot⟩ := (eligible_iff _ _ _).1 (heligible unsavedBuffer (by simp))
  refine ⟨savedProject, _, collect_saved _, hext, hroot, ?_⟩
  have himport : "./B.sol" ∈ Source.imports importingBuffer.text := by decide +kernel
  have hleads : savedStore.reader.LeadsTo savedProject
      (savedStore.reader.key importingBuffer.path) "./B.sol"
      (savedStore.reader.key unsavedBuffer.path) :=
    ⟨⟨⟨"/proj/B.sol"⟩, .relative⟩, by decide +kernel, by decide +kernel⟩
  have hovertaken : Overtaken savedStore.reader savedProject
      [importingBuffer, unsavedBuffer] :=
    ⟨[], importingBuffer, [unsavedBuffer], List.filter_eq_self.2 heligible, by simp,
      unsavedBuffer, by simp, by decide +kernel, ⟨_, read_unsaved⟩, .direct himport hleads⟩
  obtain ⟨b, hb, -, doc, hget, horigin, hread⟩ :=
    exists_lost savedStore.key_key hovertaken []
  rcases List.mem_pair.1 hb with rfl | rfl
  · rw [read_importing] at hread
    cases hread
  · rw [read_unsaved] at hread
    exact ⟨doc, hget, horigin, (Except.ok.inj hread).symm⟩

end SolidityBuild.Build
