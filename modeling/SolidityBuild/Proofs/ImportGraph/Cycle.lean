import SolidityBuild.ImportGraph.Cycle
import SolidityBuild.Proofs.ImportGraph.Completeness
import Mathlib.Data.List.Chain
import Mathlib.Data.List.TakeWhile

/-! # Cycle search: a cycle is found exactly if there is one

    The search keeps its stack a way through the graph, without repetition, and knows its
    documents by heart. So an import that leads back to the stack closes a cycle, which is
    read off the stack. What the search has left behind leads only to what it has left behind
    as well, and not to itself; this is what makes it right to pass over a document that was
    visited from an earlier root or on a finished branch.
-/

namespace SolidityBuild.ImportGraph

/-- The keys of the documents on a stack, the top one first. -/
def onWay (stack : List Frame) : List Path.Key :=
  stack.map fun f => f.path.parts

/-- The search is done with a document: it is neither new nor on the way. -/
def Left (white : Unvisited) (stack : List Frame) (key : Path.Key) : Prop :=
  key ∉ white ∧ key ∉ onWay stack

/-- A way along imports from a document back to it, through no document twice. -/
structure IsCycle (g : ImportGraph) (cycle : List Path) : Prop where
  long : 2 ≤ cycle.length
  returns : (cycle.map Path.parts).head? = (cycle.map Path.parts).getLast?
  linked : (cycle.map Path.parts).IsChain g.Imports
  once : (cycle.dropLast.map Path.parts).Nodup

/-- What holds on a search between two steps. -/
structure Search (g : ImportGraph) (white grey : Unvisited) (stack : List Frame) : Prop where
  grey_iff : ∀ key, key ∈ grey ↔ key ∈ onWay stack
  nodup : (onWay stack).Nodup
  fresh : ∀ key ∈ onWay stack, key ∉ white
  /-- the imports that a frame has no longer left are not new, and they do not lead back to
      the frame or below it -/
  tried : ∀ f below, f :: below <:+ stack → ∃ tried, g.importsOf f.path = tried ++ f.left ∧
    ∀ q ∈ tried, q.parts ∉ white ∧ q.parts ∉ onWay (f :: below)
  /-- each frame stands on one that imports it -/
  way : stack.IsChain fun upper lower => g.Imports lower.path.parts upper.path.parts
  closed : ∀ key other, Left white stack key → g.Imports key other → Left white stack other
  acyclic : ∀ key, Left white stack key → ¬ g.Reaches key key

variable {g : ImportGraph} {white grey : Unvisited} {stack : List Frame} {p q : Path}
  {left cycle : List Path} {key other : Path.Key}

/-! ## Steps -/

theorem onWay_cons (f : Frame) (stack : List Frame) :
    onWay (f :: stack) = f.path.parts :: onWay stack := rfl

/-- What can be reached from something that is closed under imports stays in it. -/
theorem Reaches.of_closed {S : Path.Key → Prop}
    (hclosed : ∀ key other, S key → g.Imports key other → S other) (hkey : S key)
    (h : g.Reaches key other) : S other := by
  induction h with
  | single himports => exact hclosed _ _ hkey himports
  | tail _ himports ih => exact hclosed _ _ ih himports

/-- A frame with nothing left is left behind. -/
theorem Search.leave (h : Search g white grey (⟨p, []⟩ :: stack)) :
    Search g white (grey.erase p.parts) stack := by
  have hnodup : p.parts ∉ onWay stack ∧ (onWay stack).Nodup := List.nodup_cons.1 h.nodup
  have hpwhite : p.parts ∉ white := h.fresh p.parts (List.mem_cons_self ..)
  have hleft : ∀ key, Left white stack key ↔
      key = p.parts ∨ Left white (⟨p, []⟩ :: stack) key := by
    intro key
    unfold Left
    rw [onWay_cons, List.mem_cons, not_or]
    by_cases hkey : key = p.parts
    · subst hkey
      simp [hpwhite, hnodup.1]
    · simp [hkey]
  -- All imports of `p` are tried, so none of them is new or on the way any more.
  have himports : ∀ other, g.Imports p.parts other →
      Left white (⟨p, []⟩ :: stack) other := by
    intro other himports
    obtain ⟨tried, htried, hold⟩ := h.tried _ _ List.suffix_rfl
    rw [List.append_nil] at htried
    obtain ⟨q, hq, hother⟩ := imports_iff_importsOf.1 himports
    rw [htried] at hq
    rw [← hother]
    exact hold q hq
  refine ⟨?_, hnodup.2, ?_, ?_, h.way.of_cons, ?_, ?_⟩
  · intro key
    rw [Std.HashSet.mem_erase, h.grey_iff, onWay_cons, List.mem_cons, beq_eq_false_iff_ne]
    by_cases hkey : key = p.parts
    · subst hkey
      simp [hnodup.1]
    · simp [hkey, Ne.symm hkey]
  · intro key hkey
    exact h.fresh key (List.mem_cons_of_mem _ hkey)
  · intro f below hsuffix
    exact h.tried f below (hsuffix.trans (List.suffix_cons _ _))
  · intro key other hkey himport
    apply (hleft other).2
    right
    rcases (hleft key).1 hkey with heq | hold
    · rw [heq] at himport
      exact himports other himport
    · exact h.closed key other hold himport
  · intro key hkey hreaches
    rcases (hleft key).1 hkey with heq | hold
    · -- What `p` leads to was left before `p`, and `p` was not.
      rw [heq] at hreaches
      obtain ⟨other, himport, hback⟩ := Relation.TransGen.head'_iff.1 hreaches
      have hother := himports other himport
      have hself : Left white (⟨p, []⟩ :: stack) p.parts := by
        rcases Relation.reflTransGen_iff_eq_or_transGen.1 hback with heq | hback
        · rw [heq]
          exact hother
        · exact Reaches.of_closed h.closed hother hback
      exact hself.2 (List.mem_cons_self ..)
    · exact h.acyclic key hold hreaches

/-- An import that is neither new nor on the way is passed over. -/
theorem Search.pass (h : Search g white grey (⟨p, q :: left⟩ :: stack))
    (hgrey : q.parts ∉ grey) (hold : q.parts ∉ white) :
    Search g white grey (⟨p, left⟩ :: stack) := by
  refine ⟨h.grey_iff, h.nodup, h.fresh, ?_, ?_, h.closed, h.acyclic⟩
  · intro f below hsuffix
    rcases List.suffix_cons_iff.1 hsuffix with heq | hsuffix
    · obtain ⟨rfl, rfl⟩ := List.cons.inj heq
      obtain ⟨tried, htried, hback⟩ := h.tried _ _ List.suffix_rfl
      refine ⟨tried ++ [q], by simp [htried], ?_⟩
      intro r hr
      rcases List.mem_append.1 hr with hr | hr
      · exact hback r hr
      · rw [List.mem_singleton.1 hr]
        exact ⟨hold, fun hway => hgrey ((h.grey_iff _).2 hway)⟩
    · exact h.tried f below (hsuffix.trans (List.suffix_cons _ _))
  · exact List.isChain_cons.2 (List.isChain_cons.1 h.way)

/-- A new document goes on top of the stack, if the top imports it. -/
theorem Search.push (h : Search g white grey stack) (hnew : q.parts ∈ white)
    (himports : ∀ f ∈ stack.head?, g.Imports f.path.parts q.parts) :
    Search g (white.erase q.parts) (grey.insert q.parts) (g.frame q :: stack) := by
  have hoff : q.parts ∉ onWay stack := fun hway => h.fresh _ hway hnew
  have herase : ∀ key, key ∉ white → key ∉ white.erase q.parts := by
    intro key hkey hmem
    exact hkey (Std.HashSet.mem_erase.1 hmem).2
  -- The new document was not left before, and it is not left now.
  have hleft : ∀ key, Left (white.erase q.parts) (g.frame q :: stack) key ↔
      Left white stack key := by
    intro key
    unfold Left
    rw [onWay_cons, List.mem_cons, Std.HashSet.mem_erase, beq_eq_false_iff_ne]
    show ¬ (q.parts ≠ key ∧ key ∈ white) ∧ ¬ (key = q.parts ∨ key ∈ onWay stack) ↔ _
    by_cases hkey : key = q.parts
    · simp [hkey, hnew]
    · simp [hkey, Ne.symm hkey]
  refine ⟨?_, ?_, ?_, ?_, ?_, ?_, ?_⟩
  · intro key
    rw [Std.HashSet.mem_insert, beq_iff_eq, h.grey_iff, onWay_cons, List.mem_cons, eq_comm]
    rfl
  · exact List.nodup_cons.2 ⟨hoff, h.nodup⟩
  · intro key hkey
    rcases List.mem_cons.1 hkey with heq | hkey
    · rw [heq]
      simp [frame]
    · exact herase key (h.fresh key hkey)
  · intro f below hsuffix
    rcases List.suffix_cons_iff.1 hsuffix with heq | hsuffix
    · obtain ⟨rfl, rfl⟩ := List.cons.inj heq
      exact ⟨[], rfl, by simp⟩
    · obtain ⟨tried, htried, hback⟩ := h.tried f below hsuffix
      refine ⟨tried, htried, ?_⟩
      intro r hr
      exact ⟨herase _ (hback r hr).1, (hback r hr).2⟩
  · exact List.isChain_cons.2 ⟨himports, h.way⟩
  · intro key other hkey himport
    exact (hleft other).2 (h.closed key other ((hleft key).1 hkey) himport)
  · intro key hkey
    exact h.acyclic key ((hleft key).1 hkey)

/-- A new import of the document on top is searched first. -/
theorem Search.enter (h : Search g white grey (⟨p, q :: left⟩ :: stack))
    (hnew : q.parts ∈ white) :
    Search g (white.erase q.parts) (grey.insert q.parts)
      (g.frame q :: ⟨p, left⟩ :: stack) := by
  obtain ⟨tried, htried, hback⟩ := h.tried _ _ List.suffix_rfl
  have himport : g.Imports p.parts q.parts :=
    imports_iff_importsOf.2 ⟨q, by rw [htried]; simp, rfl⟩
  have hpush : Search g (white.erase q.parts) (grey.insert q.parts)
      (g.frame q :: ⟨p, q :: left⟩ :: stack) := by
    apply h.push hnew
    intro f hf
    rw [← Option.some.inj hf]
    exact himport
  -- Only the frame below differs: `q` is among the imports that it has tried.
  refine ⟨hpush.grey_iff, hpush.nodup, hpush.fresh, ?_, ?_, hpush.closed, hpush.acyclic⟩
  · intro f below hsuffix
    rcases List.suffix_cons_iff.1 hsuffix with heq | hsuffix
    · obtain ⟨rfl, rfl⟩ := List.cons.inj heq
      exact ⟨[], rfl, by simp⟩
    rcases List.suffix_cons_iff.1 hsuffix with heq | hsuffix
    · obtain ⟨rfl, rfl⟩ := List.cons.inj heq
      refine ⟨tried ++ [q], by simp [htried], ?_⟩
      intro r hr
      rcases List.mem_append.1 hr with hr | hr
      · exact ⟨fun hmem => (hback r hr).1 (Std.HashSet.mem_erase.1 hmem).2, (hback r hr).2⟩
      · rw [List.mem_singleton.1 hr]
        exact ⟨by simp, fun hway => h.fresh _ hway hnew⟩
    · apply hpush.tried f below
      exact (hsuffix.trans (List.suffix_cons _ _)).trans (List.suffix_cons _ _)
  · have hway := List.isChain_cons.1 h.way
    refine List.isChain_cons.2 ⟨?_, List.isChain_cons.2 hway⟩
    intro f hf
    rw [← Option.some.inj hf]
    exact himport

/-! ## Cycles -/

/-- A document on the stack is found there, and the way from it to the top is the answer. -/
theorem exists_cycleAt (h : q.parts ∈ onWay stack) :
    ∃ first rest, first :: rest <:+ stack.reverse ∧ first.path.parts = q.parts ∧
      cycleAt? stack q = some ((first :: rest).map Frame.path ++ [q]) := by
  obtain ⟨f, hf, hfq⟩ := List.mem_map.1 h
  have hstop := List.head?_dropWhile_not (fun f : Frame => !f.path.same q) stack.reverse
  have hsuffix := List.dropWhile_suffix (l := stack.reverse) fun f : Frame => !f.path.same q
  unfold cycleAt?
  cases hway : stack.reverse.dropWhile fun f => !f.path.same q with
  | nil =>
    have hall := List.dropWhile_eq_nil_iff.1 hway f (List.mem_reverse.2 hf)
    simp [Path.same, hfq] at hall
  | cons first rest =>
    rw [hway] at hstop hsuffix
    refine ⟨first, rest, hsuffix, ?_, rfl⟩
    simpa [Path.same] using hstop

/-- An import that is on the way closes a cycle, and the stack shows it. -/
theorem Search.isCycle (h : Search g white grey (⟨p, q :: left⟩ :: stack))
    (hgrey : q.parts ∈ grey) :
    ∃ cycle, cycleAt? (⟨p, left⟩ :: stack) q = some cycle ∧ g.IsCycle cycle := by
  obtain ⟨tried, htried, -⟩ := h.tried _ _ List.suffix_rfl
  have himport : g.Imports p.parts q.parts :=
    imports_iff_importsOf.2 ⟨q, by rw [htried]; simp, rfl⟩
  have hon : q.parts ∈ onWay (⟨p, left⟩ :: stack) := (h.grey_iff _).1 hgrey
  obtain ⟨first, rest, hsuffix, hfirst, hcycle⟩ := exists_cycleAt hon
  refine ⟨_, hcycle, ?_⟩
  have hkeys : ((first :: rest).map Frame.path).map Path.parts =
      (first :: rest).map fun f => f.path.parts :=
    List.map_map
  -- The way goes up to the top of the stack, which imports the document again.
  have htop : (first :: rest).getLast? = some ⟨p, left⟩ := by
    obtain ⟨front, hfront⟩ := hsuffix
    have hlast := congrArg List.getLast? hfront
    simpa using hlast
  have hup : (first :: rest).IsChain fun lower upper =>
      g.Imports lower.path.parts upper.path.parts := by
    have hway : (Frame.mk p left :: stack).IsChain fun upper lower =>
        g.Imports lower.path.parts upper.path.parts :=
      List.isChain_cons.2 (List.isChain_cons.1 h.way)
    exact (List.isChain_reverse.2 hway).suffix hsuffix
  refine ⟨?_, ?_, ?_, ?_⟩
  · simp
  · rw [List.map_append, hkeys, List.map_singleton, List.getLast?_concat, List.map_cons,
      List.cons_append, List.head?_cons, hfirst]
  · rw [List.map_append, hkeys, List.map_singleton]
    refine List.isChain_append.2 ⟨?_, List.isChain_singleton _, ?_⟩
    · exact (List.isChain_map _).2 hup
    · intro key hkey other hother
      rw [List.getLast?_map, htop] at hkey
      rw [← Option.some.inj hkey, ← Option.some.inj hother]
      exact himport
  · rw [List.dropLast_concat, hkeys]
    have hsublist := hsuffix.sublist.map fun f : Frame => f.path.parts
    refine hsublist.nodup ?_
    rw [List.map_reverse, List.nodup_reverse]
    exact h.nodup

/-- A cycle leads from its first document back to it. -/
theorem IsCycle.reaches (h : g.IsCycle cycle) : ∃ key, g.Reaches key key := by
  obtain ⟨hlong, hreturns, hlinked, -⟩ := h
  match cycle with
  | [] => simp at hlong
  | [p] => simp at hlong
  | p :: q :: rest =>
    rw [List.map_cons, List.map_cons] at hreturns hlinked
    obtain ⟨himport, hlinked⟩ := List.isChain_cons_cons.1 hlinked
    have hback := List.relationReflTransGen_of_exists_isChain_cons _ hlinked
      (List.getLast_of_mem_getLast? hreturns.symm)
    refine ⟨p.parts, ?_⟩
    exact Relation.TransGen.head' himport hback

/-! ## Whole searches -/

/-- How searches from some documents may end: at a cycle, or with everything that they came to
    left behind, these documents among it. -/
inductive Ended (g : ImportGraph) (white : Unvisited) (docs : List Path) :
    Except (Option (List Path)) Unvisited → Prop where
  | found (cycle : List Path) (hcycle : g.IsCycle cycle) :
      Ended g white docs (.error (some cycle))
  | left (rest : Unvisited) (h : Search g rest {} [])
      (hsub : ∀ key ∈ rest, key ∈ white ∧ key ∉ docs.map Path.parts) :
      Ended g white docs (.ok rest)

/-- Searches that follow others leave behind what those did. -/
theorem Ended.after {white' : Unvisited} {docs : List Path}
    {outcome : Except (Option (List Path)) Unvisited} (h : Ended g white docs outcome)
    (front : List Path)
    (hfront : ∀ key ∈ white, key ∈ white' ∧ key ∉ front.map Path.parts) :
    Ended g white' (front ++ docs) outcome := by
  cases h with
  | found cycle hcycle => exact .found cycle hcycle
  | left rest hrest hsub =>
    refine .left rest hrest ?_
    intro key hkey
    have hwhite := hfront key (hsub key hkey).1
    refine ⟨hwhite.1, ?_⟩
    rw [List.map_append, List.mem_append, not_or]
    exact ⟨hwhite.2, (hsub key hkey).2⟩

/-- With an empty stack nothing is on the way. -/
theorem Search.atRest (h : Search g white grey []) : Search g white {} [] := by
  refine ⟨?_, h.nodup, h.fresh, h.tried, h.way, h.closed, h.acyclic⟩
  intro key
  simp [onWay]

/-- A search goes on until a cycle is met or the stack is empty. -/
theorem Search.seek (h : Search g white grey stack) :
    Ended g white [] (ImportGraph.seek g white grey stack) := by
  induction white, grey, stack using ImportGraph.seek.induct g with
  | case1 white grey =>
    rw [ImportGraph.seek]
    exact .left white h.atRest (by simp)
  | case2 white grey p stack ih =>
    rw [ImportGraph.seek]
    exact ih h.leave
  | case3 white grey p q left stack hgrey =>
    rw [ImportGraph.seek, if_pos hgrey]
    obtain ⟨cycle, hcycle, hiscycle⟩ := h.isCycle hgrey
    rw [hcycle]
    exact .found cycle hiscycle
  | case4 white grey p q left stack hgrey hnew ih =>
    rw [ImportGraph.seek, if_neg hgrey, dif_pos hnew]
    apply (ih (h.enter hnew)).after []
    intro key hkey
    exact ⟨(Std.HashSet.mem_erase.1 hkey).2, List.not_mem_nil⟩
  | case5 white grey p q left stack hgrey hold ih =>
    rw [ImportGraph.seek, if_neg hgrey, dif_neg hold]
    exact ih (h.pass hgrey hold)

/-- A search from one document comes to that document at least. -/
theorem Search.seekFrom (h : Search g white {} []) (p : Path) :
    Ended g white [p] (ImportGraph.seekFrom g white p) := by
  unfold ImportGraph.seekFrom
  by_cases hnew : white.contains p.parts = true
  · rw [if_pos hnew]
    rw [Std.HashSet.ofList_singleton]
    have hstart := h.push hnew (by simp)
    apply hstart.seek.after [p]
    intro key hkey
    rw [Std.HashSet.mem_erase, beq_eq_false_iff_ne] at hkey
    exact ⟨hkey.2, by simpa using Ne.symm hkey.1⟩
  · rw [if_neg hnew]
    refine .left white h ?_
    intro key hkey
    refine ⟨hkey, ?_⟩
    rw [List.map_singleton, List.mem_singleton]
    intro heq
    rw [heq] at hkey
    exact hnew hkey

/-- Searches from some documents one after the other come to all of them, unless they meet a
    cycle. -/
theorem Search.foldlM (h : Search g white {} []) (docs : List Path) :
    Ended g white docs (docs.foldlM (ImportGraph.seekFrom g) white) := by
  induction docs generalizing white with
  | nil => exact .left white h (by simp)
  | cons p docs ih =>
    rw [List.foldlM_cons]
    have hfrom := h.seekFrom p
    cases hp : ImportGraph.seekFrom g white p with
    | error answer =>
      rw [hp] at hfrom
      cases hfrom with
      | found cycle hcycle => exact .found cycle hcycle
    | ok rest =>
      rw [hp] at hfrom
      cases hfrom with
      | left _ hrest hsub => exact (ih hrest).after [p] hsub

/-- At first everything is new. -/
theorem Search.start (hg : g.Consistent) : Search g g.unvisited {} [] := by
  have hleft : ∀ key, Left g.unvisited [] key → key ∉ g.nodes := by
    intro key hkey
    rw [hg.mem_iff, ← mem_unvisited]
    exact hkey.1
  have hno : ∀ key other, Left g.unvisited [] key → ¬ g.Imports key other := by
    intro key other hkey himport
    obtain ⟨node, hnode, -⟩ := himport
    exact hleft key hkey (Std.HashMap.isSome_getElem?_iff_mem.1 (by rw [hnode]; rfl))
  refine ⟨?_, List.nodup_nil, ?_, ?_, List.isChain_nil, ?_, ?_⟩
  · intro key
    simp [onWay]
  · intro key hkey
    cases hkey
  · intro f below hsuffix
    exact absurd (List.suffix_nil.1 hsuffix) (List.cons_ne_nil _ _)
  · intro key other hkey himport
    exact absurd himport (hno key other hkey)
  · intro key hkey hreaches
    obtain ⟨other, himport, -⟩ := Relation.TransGen.head'_iff.1 hreaches
    exact hno key other hkey himport

/-- Either the search finds a cycle, or no document leads to itself. -/
theorem findCycle_cases (hg : g.Consistent) :
    (∃ cycle, g.findCycle = some cycle ∧ g.IsCycle cycle) ∨
      g.findCycle = none ∧ ∀ key, ¬ g.Reaches key key := by
  have hended := (Search.start hg).foldlM g.order.toList
  unfold findCycle
  cases hsearch : g.order.toList.foldlM (ImportGraph.seekFrom g) g.unvisited with
  | error answer =>
    rw [hsearch] at hended
    cases hended with
    | found cycle hcycle => exact .inl ⟨cycle, rfl, hcycle⟩
  | ok rest =>
    rw [hsearch] at hended
    cases hended with
    | left _ hrest hsub =>
      refine .inr ⟨rfl, ?_⟩
      intro key
      -- Nothing is new at the end and the stack is empty, so every document is left behind.
      apply hrest.acyclic key
      refine ⟨?_, List.not_mem_nil⟩
      intro hkey
      exact (hsub key hkey).2 (mem_unvisited.1 (hsub key hkey).1)

/-- **Cycle search**: whatever documents and imports are added, no cycle is found exactly if
    there is none, where an import of itself is a cycle; and what is found starts and ends
    with the same document, goes along declared imports, and comes to no document twice on
    its way. -/
theorem findCycle_complete (edits : List Edit) :
    ((ofEdits edits).findCycle = none ↔
      ∀ key, ¬ Relation.TransGen (Declared edits) key key) ∧
    ∀ cycle, (ofEdits edits).findCycle = some cycle →
      2 ≤ cycle.length ∧
      (cycle.map Path.parts).head? = (cycle.map Path.parts).getLast? ∧
      (cycle.map Path.parts).IsChain (Declared edits) ∧
      (cycle.dropLast.map Path.parts).Nodup := by
  have hedges : (ofEdits edits).Imports = Declared edits := by
    funext key other
    exact propext imports_ofEdits
  have hg : (ofEdits edits).Consistent := consistent_ofEdits edits
  rcases findCycle_cases hg with ⟨cycle, hfound, hcycle⟩ | ⟨hnone, hacyclic⟩
  · rw [hfound]
    refine ⟨?_, ?_⟩
    · constructor
      · intro hnone
        cases hnone
      · intro hacyclic
        obtain ⟨key, hkey⟩ := hcycle.reaches
        exact absurd (reaches_ofEdits.1 hkey) (hacyclic key)
    · intro found heq
      obtain rfl := Option.some.inj heq
      rw [← hedges]
      exact ⟨hcycle.long, hcycle.returns, hcycle.linked, hcycle.once⟩
  · rw [hnone]
    refine ⟨?_, ?_⟩
    · constructor
      · intro _ key
        rw [← reaches_ofEdits]
        exact hacyclic key
      · intro _
        rfl
    · intro cycle heq
      cases heq

end SolidityBuild.ImportGraph
