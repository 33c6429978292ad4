import SolidityBuild.ImportGraph.Order
import SolidityBuild.Proofs.ImportGraph.Construction

/-! # Dependency order: every document once, after its imports

    The walk keeps three things apart: the documents that it has not come to, those on the
    stack, and those that are done. An import of a document on top of the stack that is not
    new is done already, or it is on the stack and so leads to the top again. That is all that
    is needed when the document is done in its turn, so `Walk` is the invariant of the walk
    and holds for cyclic graphs as well.
-/

namespace SolidityBuild.ImportGraph

/-- One document leads to another through one or more imports. -/
def Reaches (g : ImportGraph) : Path.Key → Path.Key → Prop :=
  Relation.TransGen g.Imports

/-- The keys of the documents that a walk came to: those that are done, then those on the
    stack. -/
def seen (done : List Path) (stack : List Frame) : List Path.Key :=
  done.map Path.parts ++ stack.map fun f => f.path.parts

/-- Each document of the list comes after those of its imports that do not lead to it. -/
def Ordered (g : ImportGraph) (docs : List Path) : Prop :=
  ∀ before p after, docs = before ++ p :: after → ∀ key, g.Imports p.parts key →
    key ∈ before.map Path.parts ∨ g.Reaches key p.parts

/-- What holds on a walk between two steps. -/
structure Walk (g : ImportGraph) (white : Unvisited) (done : Array Path) (stack : List Frame) :
    Prop where
  nodup : (seen done.toList stack).Nodup
  covers : ∀ key, key ∈ g.nodes ↔ key ∈ white ∨ key ∈ seen done.toList stack
  fresh : ∀ key, key ∈ white → key ∉ seen done.toList stack
  /-- the imports that a frame has no longer left are not new -/
  tried : ∀ f ∈ stack, ∃ tried, g.importsOf f.path = tried ++ f.left ∧
    ∀ q ∈ tried, q.parts ∉ white
  /-- lower frames lead to higher ones -/
  way : stack.Pairwise fun upper lower => g.Reaches lower.path.parts upper.path.parts
  ordered : g.Ordered done.toList
  spelled : ∀ p, p ∈ done.toList ∨ p ∈ stack.map Frame.path → g.Spells p

variable {g : ImportGraph} {white : Unvisited} {done : Array Path} {stack : List Frame}
  {p q : Path} {left : List Path}

/-! ## Steps -/

/-- A list stays in order with one more document if that one is. -/
theorem Ordered.concat {docs : List Path} (h : g.Ordered docs)
    (hlast : ∀ key, g.Imports p.parts key → key ∈ docs.map Path.parts ∨ g.Reaches key p.parts) :
    g.Ordered (docs ++ [p]) := by
  intro before u after heq key hkey
  rcases List.eq_nil_or_concat after with rfl | ⟨after', last, rfl⟩
  · obtain ⟨rfl, hu⟩ := List.append_inj' heq rfl
    obtain rfl : p = u := List.singleton_inj.1 hu
    exact hlast key hkey
  · rw [List.concat_eq_append, ← List.cons_append, ← List.append_assoc] at heq
    obtain ⟨rfl, -⟩ := List.append_inj' heq rfl
    exact h before u after' rfl key hkey

/-- A frame with nothing left is done. -/
theorem Walk.finishTop (h : Walk g white done (⟨p, []⟩ :: stack)) (hg : g.Consistent) :
    Walk g white (done.push p) stack := by
  have hseen : seen (done.push p).toList stack = seen done.toList (⟨p, []⟩ :: stack) := by
    simp [seen]
  refine ⟨?_, ?_, ?_, ?_, ?_, ?_, ?_⟩
  · rw [hseen]
    exact h.nodup
  · rw [hseen]
    exact h.covers
  · rw [hseen]
    exact h.fresh
  · intro f hf
    exact h.tried f (List.mem_cons_of_mem _ hf)
  · exact (List.pairwise_cons.1 h.way).2
  · rw [Array.toList_push]
    apply h.ordered.concat
    intro key himports
    -- All imports of `p` are tried, so the key is one that the walk came to.
    obtain ⟨tried, htried, hold⟩ := h.tried _ (List.mem_cons_self ..)
    rw [List.append_nil] at htried
    obtain ⟨q, hq, rfl⟩ := imports_iff_importsOf.1 himports
    rw [htried] at hq
    have hknown := (h.covers q.parts).1 (hg.closed _ _ himports)
    rcases List.mem_append.1 (hknown.resolve_left (hold q hq)) with hdone | hstack
    · exact .inl hdone
    · right
      rw [List.map_cons] at hstack
      rcases List.mem_cons.1 hstack with htop | hlower
      · show g.Reaches q.parts p.parts
        rw [htop] at himports ⊢
        exact .single himports
      · obtain ⟨f, hf, hfq⟩ := List.mem_map.1 hlower
        rw [← hfq]
        exact (List.pairwise_cons.1 h.way).1 f hf
  · intro u hu
    rw [Array.toList_push] at hu
    apply h.spelled
    rcases hu with hu | hu
    · rcases List.mem_append.1 hu with hu | hu
      · exact .inl hu
      · right
        rw [List.mem_singleton.1 hu]
        exact List.mem_cons_self ..
    · exact .inr (List.mem_cons_of_mem _ hu)

/-- An import that is not new is passed over. -/
theorem Walk.pass (h : Walk g white done (⟨p, q :: left⟩ :: stack)) (hold : q.parts ∉ white) :
    Walk g white done (⟨p, left⟩ :: stack) := by
  refine ⟨h.nodup, h.covers, h.fresh, ?_, ?_, h.ordered, h.spelled⟩
  · intro f hf
    rcases List.mem_cons.1 hf with rfl | hf
    · obtain ⟨tried, htried, hnew⟩ := h.tried _ (List.mem_cons_self ..)
      refine ⟨tried ++ [q], ?_, ?_⟩
      · rw [htried, List.append_assoc, List.singleton_append]
      · intro r hr
        rcases List.mem_append.1 hr with hr | hr
        · exact hnew r hr
        · rw [List.mem_singleton.1 hr]
          exact hold
    · exact h.tried f (List.mem_cons_of_mem _ hf)
  · have hway := List.pairwise_cons.1 h.way
    exact List.pairwise_cons.2 ⟨hway.1, hway.2⟩

/-- A new document goes on top of the stack, which has to lead to it. -/
theorem Walk.push (h : Walk g white done stack) (hnew : q.parts ∈ white)
    (hspelled : g.Spells q) (hway : ∀ f ∈ stack, g.Reaches f.path.parts q.parts) :
    Walk g (white.erase q.parts) done (g.frame q :: stack) := by
  have hmem : ∀ key, key ∈ seen done.toList (g.frame q :: stack) ↔
      key = q.parts ∨ key ∈ seen done.toList stack := by
    intro key
    simp only [seen, frame, List.map_cons, List.mem_append, List.mem_cons]
    tauto
  have hperm : (seen done.toList (g.frame q :: stack)).Perm
      (q.parts :: seen done.toList stack) :=
    List.perm_middle
  refine ⟨?_, ?_, ?_, ?_, ?_, h.ordered, ?_⟩
  · rw [hperm.nodup_iff]
    exact List.nodup_cons.2 ⟨h.fresh _ hnew, h.nodup⟩
  · intro key
    rw [hmem, Std.HashSet.mem_erase, h.covers]
    by_cases hkey : key = q.parts
    · simp [hkey, hnew]
    · simp [hkey, Ne.symm hkey]
  · intro key hkey
    rw [Std.HashSet.mem_erase] at hkey
    rw [hmem]
    rintro (rfl | hseen)
    · simp at hkey
    · exact h.fresh key hkey.2 hseen
  · intro f hf
    rcases List.mem_cons.1 hf with rfl | hf
    · exact ⟨[], rfl, by simp⟩
    · obtain ⟨tried, htried, hold⟩ := h.tried f hf
      refine ⟨tried, htried, ?_⟩
      intro r hr hwhite
      exact hold r hr (Std.HashSet.mem_erase.1 hwhite).2
  · exact List.pairwise_cons.2 ⟨hway, h.way⟩
  · intro r hr
    rcases hr with hr | hr
    · exact h.spelled r (.inl hr)
    · rcases List.mem_cons.1 hr with rfl | hr
      · exact hspelled
      · exact h.spelled r (.inr hr)

/-- A new import of the document on top is walked to first. -/
theorem Walk.enter (h : Walk g white done (⟨p, q :: left⟩ :: stack)) (hnew : q.parts ∈ white) :
    Walk g (white.erase q.parts) done (g.frame q :: ⟨p, left⟩ :: stack) := by
  obtain ⟨tried, htried, hold⟩ := h.tried _ (List.mem_cons_self ..)
  have himport : q ∈ g.importsOf p := by
    rw [htried]
    simp
  have hedge : g.Imports p.parts q.parts := imports_iff_importsOf.2 ⟨q, himport, rfl⟩
  have hway := List.pairwise_cons.1 h.way
  -- Only `q` itself leaves the frame below, and `q` is no longer new there.
  have hpush : Walk g (white.erase q.parts) done (g.frame q :: ⟨p, q :: left⟩ :: stack) := by
    apply h.push hnew (spells_of_mem_importsOf himport)
    intro f hf
    rcases List.mem_cons.1 hf with rfl | hf
    · exact .single hedge
    · exact Relation.TransGen.tail (hway.1 f hf) hedge
  refine ⟨hpush.nodup, hpush.covers, hpush.fresh, ?_, ?_, hpush.ordered, hpush.spelled⟩
  · intro f hf
    rcases List.mem_cons.1 hf with rfl | hf
    · exact hpush.tried _ (List.mem_cons_self ..)
    · rcases List.mem_cons.1 hf with rfl | hf
      · refine ⟨tried ++ [q], ?_, ?_⟩
        · rw [htried, List.append_assoc, List.singleton_append]
        · intro r hr hwhite
          rcases List.mem_append.1 hr with hr | hr
          · exact hold r hr (Std.HashSet.mem_erase.1 hwhite).2
          · rw [List.mem_singleton.1 hr] at hwhite
            simp at hwhite
      · exact hpush.tried f (List.mem_cons_of_mem _ (List.mem_cons_of_mem _ hf))
  · have hpair := List.pairwise_cons.1 hpush.way
    refine List.pairwise_cons.2 ⟨?_, List.pairwise_cons.2 ⟨hway.1, hway.2⟩⟩
    intro f hf
    rcases List.mem_cons.1 hf with rfl | hf
    · exact .single hedge
    · exact hpair.1 f (List.mem_cons_of_mem _ hf)

/-! ## Whole walks -/

/-- A walk ends with an empty stack and comes to no document twice. -/
theorem Walk.finish (hg : g.Consistent) (h : Walk g white done stack) :
    Walk g (ImportGraph.finish g white done stack).1 (ImportGraph.finish g white done stack).2 [] ∧
      ∀ key, key ∈ (ImportGraph.finish g white done stack).1 → key ∈ white := by
  induction white, done, stack using ImportGraph.finish.induct g with
  | case1 white done =>
    rw [ImportGraph.finish]
    exact ⟨h, fun _ hkey => hkey⟩
  | case2 white done p stack ih =>
    rw [ImportGraph.finish]
    exact ih (h.finishTop hg)
  | case3 white done p q left stack hnew ih =>
    rw [ImportGraph.finish, dif_pos hnew]
    obtain ⟨hwalk, hsub⟩ := ih (h.enter hnew)
    exact ⟨hwalk, fun key hkey => (Std.HashSet.mem_erase.1 (hsub key hkey)).2⟩
  | case4 white done p q left stack hold ih =>
    rw [ImportGraph.finish, dif_neg hold]
    exact ih (h.pass hold)

/-- A walk from one document comes to that document at least. -/
theorem Walk.finishFrom (hg : g.Consistent) (h : Walk g white done []) (hp : p ∈ g.order) :
    Walk g (ImportGraph.finishFrom g (white, done) p).1
        (ImportGraph.finishFrom g (white, done) p).2 [] ∧
      p.parts ∉ (ImportGraph.finishFrom g (white, done) p).1 ∧
      ∀ key, key ∈ (ImportGraph.finishFrom g (white, done) p).1 → key ∈ white := by
  unfold ImportGraph.finishFrom
  by_cases hnew : white.contains p.parts = true
  · rw [if_pos hnew]
    have hstart := h.push hnew (.inl hp) (by simp)
    obtain ⟨hwalk, hsub⟩ := hstart.finish hg
    refine ⟨hwalk, ?_, ?_⟩
    · intro hmem
      have herased := hsub _ hmem
      simp at herased
    · intro key hkey
      exact (Std.HashSet.mem_erase.1 (hsub key hkey)).2
  · rw [if_neg hnew]
    exact ⟨h, hnew, fun _ hkey => hkey⟩

theorem mem_unvisited {key : Path.Key} :
    key ∈ g.unvisited ↔ key ∈ g.order.toList.map Path.parts := by
  suffices h : ∀ (docs : List Path) (keys : Unvisited),
      key ∈ docs.foldl (fun keys p => keys.insert p.parts) keys ↔
        key ∈ docs.map Path.parts ∨ key ∈ keys by
    unfold unvisited
    rw [← Array.foldl_toList, h]
    simp
  intro docs
  induction docs with
  | nil => simp
  | cons p docs ih =>
    intro keys
    rw [List.foldl_cons, ih, Std.HashSet.mem_insert, List.map_cons, List.mem_cons, beq_iff_eq]
    tauto

theorem Walk.start (hg : g.Consistent) : Walk g g.unvisited #[] [] := by
  refine ⟨List.nodup_nil, ?_, ?_, ?_, List.Pairwise.nil, ?_, ?_⟩
  · intro key
    rw [hg.mem_iff, mem_unvisited]
    simp [seen]
  · intro key _ hseen
    cases hseen
  · intro f hf
    cases hf
  · intro before p after heq
    simp at heq
  · rintro p (hp | hp) <;> cases hp

/-- Walks from some documents one after the other come to all of them. -/
theorem Walk.foldl (hg : g.Consistent) (docs : List Path) (hdocs : ∀ p ∈ docs, p ∈ g.order)
    (h : Walk g white done []) :
    Walk g (docs.foldl (ImportGraph.finishFrom g) (white, done)).1
        (docs.foldl (ImportGraph.finishFrom g) (white, done)).2 [] ∧
      ∀ key, key ∈ (docs.foldl (ImportGraph.finishFrom g) (white, done)).1 →
        key ∈ white ∧ key ∉ docs.map Path.parts := by
  induction docs generalizing white done with
  | nil => exact ⟨h, fun key hkey => ⟨hkey, by simp⟩⟩
  | cons p docs ih =>
    obtain ⟨hwalk, hp, hsub⟩ := h.finishFrom hg (hdocs p (List.mem_cons_self ..))
    obtain ⟨hrest, hrestsub⟩ := ih (fun q hq => hdocs q (List.mem_cons_of_mem _ hq)) hwalk
    rw [List.foldl_cons]
    refine ⟨hrest, ?_⟩
    intro key hkey
    obtain ⟨hwhite, hnot⟩ := hrestsub key hkey
    refine ⟨hsub key hwhite, ?_⟩
    rw [List.map_cons, List.mem_cons]
    rintro (rfl | hmem)
    · exact hp hwhite
    · exact hnot hmem

/-- After the walks from all documents, all of them are done. -/
theorem walk_dependencyOrder (hg : g.Consistent) :
    ∃ white done, Walk g white done [] ∧ done.toList = g.dependencyOrder ∧
      ∀ key, key ∉ white := by
  obtain ⟨hwalk, hsub⟩ := (Walk.start hg).foldl hg g.order.toList (by simp)
  refine ⟨_, _, hwalk, ?_, ?_⟩
  · unfold dependencyOrder
    rw [← Array.foldl_toList]
  · intro key hkey
    obtain ⟨hwhite, hnot⟩ := hsub key hkey
    exact hnot (mem_unvisited.1 hwhite)

/-! ## The dependency order -/

/-- The dependency order lists every document once. -/
theorem dependencyOrder_perm (hg : g.Consistent) :
    (g.dependencyOrder.map Path.parts).Perm (g.order.toList.map Path.parts) := by
  obtain ⟨white, done, hwalk, hdone, hnone⟩ := walk_dependencyOrder hg
  have hseen : seen done.toList [] = g.dependencyOrder.map Path.parts := by
    rw [hdone]
    exact List.append_nil _
  have hnodup := hwalk.nodup
  rw [hseen] at hnodup
  refine (List.perm_ext_iff_of_nodup hnodup hg.nodup).2 ?_
  intro key
  rw [← hg.mem_iff, hwalk.covers, hseen]
  simp [hnone key]

/-- A document comes after each of its imports that does not lead to it. -/
theorem ordered_dependencyOrder (hg : g.Consistent) : g.Ordered g.dependencyOrder := by
  obtain ⟨white, done, hwalk, hdone, -⟩ := walk_dependencyOrder hg
  rw [← hdone]
  exact hwalk.ordered

/-- The dependency order lists the keys of all documents and of nothing else. -/
theorem mem_map_dependencyOrder (hg : g.Consistent) {key : Path.Key} :
    key ∈ g.dependencyOrder.map Path.parts ↔ key ∈ g.nodes := by
  rw [(dependencyOrder_perm hg).mem_iff, hg.mem_iff]

/-- In it an import that does not lead to its importer comes before it. -/
theorem sublist_dependencyOrder (hg : g.Consistent) {key other : Path.Key}
    (himports : g.Imports key other) (hnot : ¬ g.Reaches other key) :
    [other, key].Sublist (g.dependencyOrder.map Path.parts) := by
  have hkey : key ∈ g.nodes := by
    obtain ⟨node, hnode, -⟩ := himports
    exact Std.HashMap.isSome_getElem?_iff_mem.1 (by rw [hnode]; rfl)
  obtain ⟨p, hp, rfl⟩ := List.mem_map.1 ((mem_map_dependencyOrder hg).2 hkey)
  obtain ⟨before, after, hsplit⟩ := List.append_of_mem hp
  -- What stands in front of the importer holds the import, for it does not lead back.
  have hbefore : other ∈ before.map Path.parts :=
    (ordered_dependencyOrder hg before p after hsplit other himports).resolve_right hnot
  rw [hsplit, List.map_append, List.map_cons]
  exact (List.singleton_sublist.2 hbefore).append
    (List.singleton_sublist.2 (List.mem_cons_self ..))

theorem spells_of_mem_dependencyOrder (hg : g.Consistent) (hp : p ∈ g.dependencyOrder) :
    g.Spells p := by
  obtain ⟨white, done, hwalk, hdone, -⟩ := walk_dependencyOrder hg
  rw [← hdone] at hp
  exact hwalk.spelled p (.inl hp)

end SolidityBuild.ImportGraph
