import SolidityBuild.Proofs.ImportGraph.Completeness
import Mathlib.Data.Finset.Card

/-! # Post-order: the dependency order as a plain recursion

    The walk behind the dependency order keeps a stack of its own. What it computes is the
    post-order of the plain recursive traversal, which visits each document that is not
    visited yet, first its imports and then the document itself. The stack stands for the
    calls that have not returned: each frame holds what its call has still to visit.

    A document that is named again is visited already when its turn comes. So it makes no
    difference whether the traversal goes over the documents and imports that a graph holds,
    each once, or over the additions that made the graph.
-/

namespace SolidityBuild

/-! ## The recursive traversal -/

section

variable {α : Type*} [DecidableEq α]

/-- What a traversal makes of the nodes `fresh`, which are not visited before it. -/
structure Traversal (fresh : Finset α) where
  /-- the nodes that are still not visited -/
  rest : Finset α
  sub : rest ⊆ fresh
  /-- the nodes that it visits, in the order in which it is done with them -/
  order : List α

/-- The recursive depth-first traversal of some nodes, one after the other. A node that is not
    visited is visited now: it is marked, its children are traversed, and then it is listed. -/
def traverse (children : α → List α) (fresh : Finset α) : List α → Traversal fresh
  | [] => ⟨fresh, subset_rfl, []⟩
  | node :: nodes =>
    if _h : node ∈ fresh then
      let below := traverse children (fresh.erase node) (children node)
      let others := traverse children below.rest nodes
      ⟨others.rest, others.sub.trans (below.sub.trans (fresh.erase_subset node)),
        below.order ++ node :: others.order⟩
    else traverse children fresh nodes
termination_by nodes => (fresh.card, nodes.length)
decreasing_by
  · exact Prod.Lex.left _ _ (Finset.card_erase_lt_of_mem _h)
  · have hle := Finset.card_le_card below.sub
    exact Prod.Lex.left _ _ (hle.trans_lt (Finset.card_erase_lt_of_mem _h))
  · exact Prod.Lex.right _ (by simp)

/-- The nodes that a traversal does not come to. -/
def unvisitedAfter (children : α → List α) (fresh : Finset α) (nodes : List α) : Finset α :=
  (traverse children fresh nodes).rest

/-- The nodes that a traversal visits, each after those that it visits from there. -/
def postOrder (children : α → List α) (fresh : Finset α) (nodes : List α) : List α :=
  (traverse children fresh nodes).order

variable {children children' : α → List α} {fresh : Finset α} {node : α}
  {nodes xs ys zs : List α}

theorem unvisitedAfter_subset : unvisitedAfter children fresh nodes ⊆ fresh :=
  (traverse children fresh nodes).sub

@[simp]
theorem unvisitedAfter_nil : unvisitedAfter children fresh [] = fresh := by
  rw [unvisitedAfter, traverse]

@[simp]
theorem postOrder_nil : postOrder children fresh [] = [] := by
  rw [postOrder, traverse]

theorem unvisitedAfter_of_mem (h : node ∈ fresh) :
    unvisitedAfter children fresh (node :: nodes) =
      unvisitedAfter children (unvisitedAfter children (fresh.erase node) (children node))
        nodes := by
  rw [unvisitedAfter, traverse, dif_pos h]
  rfl

theorem postOrder_of_mem (h : node ∈ fresh) :
    postOrder children fresh (node :: nodes) =
      postOrder children (fresh.erase node) (children node) ++
        node :: postOrder children
          (unvisitedAfter children (fresh.erase node) (children node)) nodes := by
  rw [postOrder, traverse, dif_pos h]
  rfl

theorem unvisitedAfter_of_not_mem (h : node ∉ fresh) :
    unvisitedAfter children fresh (node :: nodes) = unvisitedAfter children fresh nodes := by
  rw [unvisitedAfter, traverse, dif_neg h]
  rfl

theorem postOrder_of_not_mem (h : node ∉ fresh) :
    postOrder children fresh (node :: nodes) = postOrder children fresh nodes := by
  rw [postOrder, traverse, dif_neg h]
  rfl

/-- What holds of a traversal if it holds of the traversals that it calls. -/
theorem traverse_induction (children : α → List α) {motive : Finset α → List α → Prop}
    (nil : ∀ fresh, motive fresh [])
    (new : ∀ fresh node nodes, node ∈ fresh → motive (fresh.erase node) (children node) →
      motive (unvisitedAfter children (fresh.erase node) (children node)) nodes →
      motive fresh (node :: nodes))
    (old : ∀ fresh node nodes, node ∉ fresh → motive fresh nodes → motive fresh (node :: nodes))
    (fresh : Finset α) (nodes : List α) : motive fresh nodes := by
  induction fresh, nodes using traverse.induct children with
  | case1 fresh => exact nil fresh
  | case2 fresh node nodes h below ihbelow ihothers => exact new fresh node nodes h ihbelow ihothers
  | case3 fresh node nodes h ih => exact old fresh node nodes h ih

/-- A traversal of two lists is one of the first list and then one of the second. -/
theorem unvisitedAfter_append : unvisitedAfter children fresh (xs ++ ys) =
    unvisitedAfter children (unvisitedAfter children fresh xs) ys := by
  induction fresh, xs using traverse_induction children with
  | nil fresh => simp
  | new fresh node nodes h ihbelow ihothers =>
    rw [List.cons_append, unvisitedAfter_of_mem h, unvisitedAfter_of_mem h, ihothers]
  | old fresh node nodes h ih =>
    rw [List.cons_append, unvisitedAfter_of_not_mem h, unvisitedAfter_of_not_mem h, ih]

theorem postOrder_append : postOrder children fresh (xs ++ ys) =
    postOrder children fresh xs ++
      postOrder children (unvisitedAfter children fresh xs) ys := by
  induction fresh, xs using traverse_induction children with
  | nil fresh => simp
  | new fresh node nodes h ihbelow ihothers =>
    rw [List.cons_append, postOrder_of_mem h, postOrder_of_mem h, unvisitedAfter_of_mem h,
      ihothers, List.append_assoc, List.cons_append]
  | old fresh node nodes h ih =>
    rw [List.cons_append, postOrder_of_not_mem h, postOrder_of_not_mem h,
      unvisitedAfter_of_not_mem h, ih]

/-- Nodes that are visited already are passed over. -/
theorem traversal_of_visited (children : α → List α) (h : ∀ node ∈ nodes, node ∉ fresh) :
    unvisitedAfter children fresh nodes = fresh ∧ postOrder children fresh nodes = [] := by
  induction nodes with
  | nil => simp
  | cons node nodes ih =>
    have hnode : node ∉ fresh := h node (List.mem_cons_self ..)
    rw [unvisitedAfter_of_not_mem hnode, postOrder_of_not_mem hnode]
    exact ih fun other hother => h other (List.mem_cons_of_mem _ hother)

/-- A traversal visits all nodes that it is given. -/
theorem not_mem_unvisitedAfter (h : node ∈ nodes) :
    node ∉ unvisitedAfter children fresh nodes := by
  induction fresh, nodes using traverse_induction children with
  | nil fresh => cases h
  | new fresh first nodes hfirst ihbelow ihothers =>
    rw [unvisitedAfter_of_mem hfirst]
    rcases List.mem_cons.1 h with heq | hmem
    · intro hrest
      rw [heq] at hrest
      have hbelow := unvisitedAfter_subset (unvisitedAfter_subset hrest)
      exact Finset.notMem_erase first fresh hbelow
    · exact ihothers hmem
  | old fresh first nodes hfirst ih =>
    rw [unvisitedAfter_of_not_mem hfirst]
    rcases List.mem_cons.1 h with heq | hmem
    · intro hrest
      rw [heq] at hrest
      exact hfirst (unvisitedAfter_subset hrest)
    · exact ih hmem

/-- With a node it visits the children of the node. -/
theorem child_not_mem_unvisitedAfter {child : α} (hchild : child ∈ children node)
    (hfresh : node ∈ fresh) (h : node ∉ unvisitedAfter children fresh nodes) :
    child ∉ unvisitedAfter children fresh nodes := by
  induction fresh, nodes using traverse_induction children with
  | nil fresh =>
    rw [unvisitedAfter_nil] at h
    exact absurd hfresh h
  | new fresh first nodes hfirst ihbelow ihothers =>
    rw [unvisitedAfter_of_mem hfirst] at h ⊢
    by_cases heq : node = first
    · intro hrest
      rw [← heq] at hrest
      exact not_mem_unvisitedAfter hchild (unvisitedAfter_subset hrest)
    by_cases hbelow : node ∈ unvisitedAfter children (fresh.erase first) (children first)
    · exact ihothers hbelow h
    · intro hrest
      exact ihbelow (Finset.mem_erase.2 ⟨heq, hfresh⟩) hbelow (unvisitedAfter_subset hrest)
  | old fresh first nodes hfirst ih =>
    rw [unvisitedAfter_of_not_mem hfirst] at h ⊢
    exact ih hfresh h

/-! ## Lists that no traversal tells apart -/

/-- No traversal tells the two lists apart, whatever is visited before it. -/
def Alike (xs ys : List α) : Prop :=
  ∀ (children : α → List α) (fresh : Finset α),
    unvisitedAfter children fresh xs = unvisitedAfter children fresh ys ∧
      postOrder children fresh xs = postOrder children fresh ys

theorem Alike.refl (xs : List α) : Alike xs xs :=
  fun _ _ => ⟨rfl, rfl⟩

theorem Alike.trans (h : Alike xs ys) (h' : Alike ys zs) : Alike xs zs := by
  intro children fresh
  obtain ⟨hrest, horder⟩ := h children fresh
  obtain ⟨hrest', horder'⟩ := h' children fresh
  exact ⟨hrest.trans hrest', horder.trans horder'⟩

theorem Alike.append (h : Alike xs ys) (zs : List α) : Alike (xs ++ zs) (ys ++ zs) := by
  intro children fresh
  obtain ⟨hrest, horder⟩ := h children fresh
  constructor
  · rw [unvisitedAfter_append, unvisitedAfter_append, hrest]
  · rw [postOrder_append, postOrder_append, hrest, horder]

/-- A node that is named again makes no difference. -/
theorem Alike.concat (h : node ∈ xs) : Alike xs (xs ++ [node]) := by
  intro children fresh
  have hvisited : ∀ other ∈ [node], other ∉ unvisitedAfter children fresh xs := by
    intro other hother
    rw [List.mem_singleton.1 hother]
    exact not_mem_unvisitedAfter h
  obtain ⟨hrest, horder⟩ := traversal_of_visited children hvisited
  rw [unvisitedAfter_append, postOrder_append, hrest, horder, List.append_nil]
  exact ⟨rfl, rfl⟩

/-- Children that no traversal tells apart give the same traversals. -/
theorem traversal_congr (h : ∀ node, Alike (children' node) (children node)) :
    unvisitedAfter children' fresh nodes = unvisitedAfter children fresh nodes ∧
      postOrder children' fresh nodes = postOrder children fresh nodes := by
  induction fresh, nodes using traverse_induction children with
  | nil fresh => simp
  | new fresh node nodes hnode ihbelow ihothers =>
    obtain ⟨hrest, horder⟩ := h node children' (fresh.erase node)
    rw [unvisitedAfter_of_mem hnode, unvisitedAfter_of_mem hnode, postOrder_of_mem hnode,
      postOrder_of_mem hnode, hrest, horder, ihbelow.1, ihbelow.2, ihothers.1, ihothers.2]
    exact ⟨rfl, rfl⟩
  | old fresh node nodes hnode ih =>
    rw [unvisitedAfter_of_not_mem hnode, unvisitedAfter_of_not_mem hnode,
      postOrder_of_not_mem hnode, postOrder_of_not_mem hnode]
    exact ih

/-- Where each node is followed by nothing but itself and its children, these make no
    difference: they are visited with the node. -/
theorem traversal_flatMap_children {start : Finset α} {also : α → List α}
    (halso : ∀ node, ∀ other ∈ also node, other = node ∨ other ∈ children node)
    (hstart : ∀ node ∈ nodes, node ∈ start)
    (hsettled : ∀ node ∈ start, node ∉ fresh → ∀ child ∈ children node, child ∉ fresh) :
    unvisitedAfter children fresh (nodes.flatMap fun node => node :: also node) =
        unvisitedAfter children fresh nodes ∧
      postOrder children fresh (nodes.flatMap fun node => node :: also node) =
        postOrder children fresh nodes := by
  induction nodes generalizing fresh with
  | nil => exact ⟨rfl, rfl⟩
  | cons node nodes ih =>
    -- What is visited after the node has its children visited as well.
    have hnext : ∀ other ∈ start, other ∉ unvisitedAfter children fresh [node] →
        ∀ child ∈ children other, child ∉ unvisitedAfter children fresh [node] := by
      intro other hother hvisited child hchild
      by_cases hfresh : other ∈ fresh
      · exact child_not_mem_unvisitedAfter hchild hfresh hvisited
      · intro hmem
        exact hsettled other hother hfresh child hchild (unvisitedAfter_subset hmem)
    have hnode : node ∉ unvisitedAfter children fresh [node] :=
      not_mem_unvisitedAfter (List.mem_singleton_self node)
    have hvisited : ∀ other ∈ also node, other ∉ unvisitedAfter children fresh [node] := by
      intro other hother
      rcases halso node other hother with heq | hchild
      · rw [heq]
        exact hnode
      · exact hnext node (hstart node (List.mem_cons_self ..)) hnode other hchild
    obtain ⟨hrest, horder⟩ := traversal_of_visited children hvisited
    obtain ⟨ihrest, ihorder⟩ :=
      ih (fun other hother => hstart other (List.mem_cons_of_mem _ hother)) hnext
    have hsplit : ((node :: nodes).flatMap fun node => node :: also node) =
        [node] ++ (also node ++ nodes.flatMap fun node => node :: also node) := rfl
    have hcons : node :: nodes = [node] ++ nodes := rfl
    constructor
    · rw [hsplit, hcons, unvisitedAfter_append, unvisitedAfter_append, unvisitedAfter_append,
        hrest, ihrest]
    · rw [hsplit, hcons, postOrder_append, postOrder_append, postOrder_append, hrest, horder,
        ihorder, List.nil_append]

theorem mem_of_mem_postOrder (h : node ∈ postOrder children fresh nodes) : node ∈ fresh := by
  induction fresh, nodes using traverse_induction children with
  | nil fresh => simp at h
  | new fresh first nodes hfirst ihbelow ihothers =>
    rw [postOrder_of_mem hfirst, List.mem_append, List.mem_cons] at h
    rcases h with hbelow | heq | hothers
    · exact Finset.mem_of_mem_erase (ihbelow hbelow)
    · rw [heq]
      exact hfirst
    · exact Finset.mem_of_mem_erase (unvisitedAfter_subset (ihothers hothers))
  | old fresh first nodes hfirst ih =>
    rw [postOrder_of_not_mem hfirst] at h
    exact ih h

/-- Where a renaming keeps nodes apart, the traversal of the renamed nodes is the renamed
    traversal. -/
theorem traversal_map {β : Type*} [DecidableEq β] {f : α → β} {renamed : β → List β}
    {known : Set α} (hinj : Set.InjOn f known)
    (hclosed : ∀ node ∈ known, ∀ child ∈ children node, child ∈ known)
    (hrenamed : ∀ node ∈ known, renamed (f node) = (children node).map f)
    (hfresh : ∀ node ∈ fresh, node ∈ known) (hnodes : ∀ node ∈ nodes, node ∈ known) :
    unvisitedAfter renamed (fresh.image f) (nodes.map f) =
        (unvisitedAfter children fresh nodes).image f ∧
      postOrder renamed (fresh.image f) (nodes.map f) =
        (postOrder children fresh nodes).map f := by
  induction fresh, nodes using traverse_induction children with
  | nil fresh => simp
  | new fresh node nodes hnode ihbelow ihothers =>
    have hknown : node ∈ known := hfresh node hnode
    have herase : (fresh.image f).erase (f node) = (fresh.erase node).image f := by
      have hdiff := Finset.image_sdiff_of_injOn (hinj.mono fun other => hfresh other)
        (Finset.singleton_subset_iff.2 hnode)
      rw [Finset.image_singleton, Finset.sdiff_singleton_eq_erase,
        Finset.sdiff_singleton_eq_erase] at hdiff
      exact hdiff.symm
    have hsmaller : ∀ other ∈ fresh.erase node, other ∈ known :=
      fun other hother => hfresh other (Finset.mem_of_mem_erase hother)
    obtain ⟨hrest, horder⟩ := ihbelow hsmaller (hclosed node hknown)
    obtain ⟨hrest', horder'⟩ := ihothers
      (fun other hother => hsmaller other (unvisitedAfter_subset hother))
      (fun other hother => hnodes other (List.mem_cons_of_mem _ hother))
    rw [List.map_cons, unvisitedAfter_of_mem (Finset.mem_image_of_mem f hnode),
      postOrder_of_mem (Finset.mem_image_of_mem f hnode), unvisitedAfter_of_mem hnode,
      postOrder_of_mem hnode, hrenamed node hknown, herase, hrest, horder, hrest', horder',
      List.map_append, List.map_cons]
    exact ⟨rfl, rfl⟩
  | old fresh node nodes hnode ih =>
    have hmapped : f node ∉ fresh.image f := by
      intro h
      obtain ⟨other, hother, heq⟩ := Finset.mem_image.1 h
      have hsame := hinj (hfresh other hother) (hnodes node (List.mem_cons_self ..)) heq
      rw [hsame] at hother
      exact hnode hother
    rw [List.map_cons, unvisitedAfter_of_not_mem hmapped, postOrder_of_not_mem hmapped,
      unvisitedAfter_of_not_mem hnode, postOrder_of_not_mem hnode]
    exact ih hfresh fun other hother => hnodes other (List.mem_cons_of_mem _ hother)

end

namespace ImportGraph

/-! ## The walk with a stack -/

/-- The keys of the documents in the order in which they came. -/
def keys (g : ImportGraph) : List Path.Key :=
  g.order.toList.map Path.parts

/-- The keys that a document imports, in order. -/
def childKeys (g : ImportGraph) (key : Path.Key) : List Path.Key :=
  ((g.nodes[key]?).map fun node => node.imports.map Path.parts).getD []

/-- The documents that the calls which a stack stands for do not come to. -/
def unvisitedBelow (g : ImportGraph) (fresh : Finset Path.Key) : List Frame → Finset Path.Key
  | [] => fresh
  | f :: stack =>
    unvisitedBelow g (unvisitedAfter g.childKeys fresh (f.left.map Path.parts)) stack

/-- What the calls which a stack stands for still list: each frame what its call has left to
    visit, and then its own document. -/
def orderBelow (g : ImportGraph) (fresh : Finset Path.Key) : List Frame → List Path.Key
  | [] => []
  | f :: stack =>
    postOrder g.childKeys fresh (f.left.map Path.parts) ++ f.path.parts ::
      orderBelow g (unvisitedAfter g.childKeys fresh (f.left.map Path.parts)) stack

/-- The two sets of documents that are not visited are the same. -/
def SameNew (white : Unvisited) (fresh : Finset Path.Key) : Prop :=
  ∀ key, key ∈ white ↔ key ∈ fresh

variable {g : ImportGraph} {white : Unvisited} {fresh : Finset Path.Key} {done : Array Path}
  {p q : Path} {key : Path.Key} {xs : List Path.Key}

theorem childKeys_parts (p : Path) :
    g.childKeys p.parts = (g.importsOf p).map Path.parts := by
  unfold childKeys importsOf get?
  cases g.nodes[p.parts]? <;> rfl

theorem SameNew.erase (h : SameNew white fresh) (key : Path.Key) :
    SameNew (white.erase key) (fresh.erase key) := by
  intro other
  rw [Std.HashSet.mem_erase, Finset.mem_erase, h other, beq_eq_false_iff_ne, ne_comm]

/-- A walk lists what the calls still list that its stack stands for. -/
theorem finish_eq_orderBelow (g : ImportGraph) (done : Array Path) (stack : List Frame)
    (hnew : SameNew white fresh) :
    SameNew (finish g white done stack).1 (g.unvisitedBelow fresh stack) ∧
      (finish g white done stack).2.toList.map Path.parts =
        done.toList.map Path.parts ++ g.orderBelow fresh stack := by
  induction white, done, stack using finish.induct g generalizing fresh with
  | case1 white done =>
    rw [finish]
    exact ⟨hnew, (List.append_nil _).symm⟩
  | case2 white done p stack ih =>
    obtain ⟨hrest, horder⟩ := ih hnew
    rw [finish]
    refine ⟨?_, ?_⟩
    · simpa [unvisitedBelow] using hrest
    · simpa [orderBelow] using horder
  | case3 white done p q left stack hwhite ih =>
    -- The new frame is the call for `q`, the frame below goes on where that call returns.
    have hfresh : q.parts ∈ fresh := (hnew q.parts).1 hwhite
    obtain ⟨hrest, horder⟩ := ih (hnew.erase q.parts)
    rw [finish, dif_pos hwhite]
    simp only [unvisitedBelow, orderBelow, frame, ← childKeys_parts] at hrest horder
    simp only [unvisitedBelow, orderBelow, List.map_cons, unvisitedAfter_of_mem hfresh,
      postOrder_of_mem hfresh, List.append_assoc, List.cons_append]
    exact ⟨hrest, horder⟩
  | case4 white done p q left stack hwhite ih =>
    have hfresh : q.parts ∉ fresh := fun hmem => hwhite ((hnew q.parts).2 hmem)
    obtain ⟨hrest, horder⟩ := ih hnew
    rw [finish, dif_neg hwhite]
    simp only [unvisitedBelow, orderBelow, List.map_cons, unvisitedAfter_of_not_mem hfresh,
      postOrder_of_not_mem hfresh]
    exact ⟨hrest, horder⟩

/-- A walk from one document is the traversal of that document. -/
theorem finishFrom_eq_postOrder (g : ImportGraph) (done : Array Path) (p : Path)
    (hnew : SameNew white fresh) :
    SameNew (finishFrom g (white, done) p).1 (unvisitedAfter g.childKeys fresh [p.parts]) ∧
      (finishFrom g (white, done) p).2.toList.map Path.parts =
        done.toList.map Path.parts ++ postOrder g.childKeys fresh [p.parts] := by
  unfold finishFrom
  by_cases hwhite : white.contains p.parts = true
  · have hfresh : p.parts ∈ fresh := (hnew p.parts).1 hwhite
    rw [if_pos hwhite, unvisitedAfter_of_mem hfresh, postOrder_of_mem hfresh, childKeys_parts]
    simpa [unvisitedBelow, orderBelow, frame] using
      finish_eq_orderBelow g done [g.frame p] (hnew.erase p.parts)
  · have hfresh : p.parts ∉ fresh := fun hmem => hwhite ((hnew p.parts).2 hmem)
    rw [if_neg hwhite, unvisitedAfter_of_not_mem hfresh, postOrder_of_not_mem hfresh]
    simpa using hnew

/-- Walks from some documents, one after the other, are the traversal of them. -/
theorem foldl_finishFrom_eq_postOrder (g : ImportGraph) (docs : List Path)
    (hnew : SameNew white fresh) :
    (docs.foldl (finishFrom g) (white, done)).2.toList.map Path.parts =
      done.toList.map Path.parts ++ postOrder g.childKeys fresh (docs.map Path.parts) := by
  induction docs generalizing white fresh done with
  | nil => simp
  | cons p docs ih =>
    obtain ⟨hrest, horder⟩ := finishFrom_eq_postOrder g done p hnew
    have hcons : (p :: docs).map Path.parts = [p.parts] ++ docs.map Path.parts := rfl
    rw [List.foldl_cons, ih hrest, horder, hcons, postOrder_append, List.append_assoc]

/-- The dependency order is the post-order of the recursive traversal. -/
theorem dependencyOrder_eq_postOrder (g : ImportGraph) :
    g.dependencyOrder.map Path.parts = postOrder g.childKeys g.keys.toFinset g.keys := by
  have hnew : SameNew g.unvisited g.keys.toFinset := by
    intro key
    rw [List.mem_toFinset]
    exact mem_unvisited
  unfold dependencyOrder
  rw [← Array.foldl_toList, foldl_finishFrom_eq_postOrder g g.order.toList hnew]
  rfl

/-! ## The additions in place of the graph -/

/-- The keys that an addition declares as imported by the document with the key `key`. -/
def Edit.importedBy (key : Path.Key) : Edit → List Path.Key
  | .document _ => []
  | .dependency importer imported => if importer.parts = key then [imported.parts] else []

/-- The keys that some additions name, in the order in which they name them. -/
def namedKeys (edits : List Edit) : List Path.Key :=
  edits.flatMap Edit.keys

/-- The keys that some additions declare as imported by a document, in the order in which
    they declare them. -/
def declaredKeys (edits : List Edit) (key : Path.Key) : List Path.Key :=
  edits.flatMap (Edit.importedBy key)

theorem mem_keys (hg : g.Consistent) : key ∈ g.keys ↔ key ∈ g.nodes :=
  (hg.mem_iff key).symm

/-- One more document comes last, unless it is there already. -/
theorem alike_keys_addModule (hg : g.Consistent) (h : Alike g.keys xs) (p : Path) :
    Alike (g.addModule p).keys (xs ++ [p.parts]) := by
  by_cases hmem : p.parts ∈ g.nodes
  · rw [addModule_of_mem hmem]
    exact (Alike.concat ((mem_keys hg).2 hmem)).trans (h.append [p.parts])
  · have hkeys : (g.addModule p).keys = g.keys ++ [p.parts] := by
      unfold keys
      rw [addModule_of_not_mem hmem, Array.toList_push, List.map_append, List.map_singleton]
    rw [hkeys]
    exact h.append [p.parts]

theorem alike_keys_edit (hg : g.Consistent) (h : Alike g.keys xs) (e : Edit) :
    Alike (g.edit e).keys (xs ++ e.keys) := by
  cases e with
  | document p => exact alike_keys_addModule hg h p
  | dependency p q =>
    have hboth := alike_keys_addModule (hg.addModule p) (alike_keys_addModule hg h p) q
    rw [List.append_assoc] at hboth
    exact hboth

theorem childKeys_addModule (p : Path) (key : Path.Key) :
    (g.addModule p).childKeys key = g.childKeys key := by
  by_cases hmem : p.parts ∈ g.nodes
  · rw [addModule_of_mem hmem]
  · rw [addModule_of_not_mem hmem]
    unfold childKeys
    by_cases hkey : p.parts = key
    · subst hkey
      simp [Std.HashMap.getElem?_eq_none hmem]
    · simp [Std.HashMap.getElem?_insert, hkey]

/-- One more import comes last, unless it is there already. -/
theorem alike_childKeys_link (hmem : p.parts ∈ g.nodes) (h : Alike (g.childKeys key) xs) :
    Alike ((g.link p q).childKeys key) (xs ++ if p.parts = key then [q.parts] else []) := by
  by_cases hkey : p.parts = key
  · subst hkey
    obtain ⟨node, hnode⟩ := Option.isSome_iff_exists.1 (Std.HashMap.isSome_getElem?_iff_mem.2 hmem)
    have hold : g.childKeys p.parts = node.imports.map Path.parts := by
      unfold childKeys
      rw [hnode]
      rfl
    have hlink : (g.link p q).childKeys p.parts = (node.addImport q).imports.map Path.parts := by
      unfold childKeys
      rw [getElem?_link, if_pos rfl, hnode]
      rfl
    rw [if_pos rfl, hlink]
    rw [hold] at h
    unfold ImportNode.addImport
    by_cases hany : node.imports.any q.same = true
    · rw [if_pos hany]
      obtain ⟨r, hr, hsame⟩ := List.any_eq_true.1 hany
      have hqr : q.parts = r.parts := of_decide_eq_true hsame
      have hq : q.parts ∈ node.imports.map Path.parts := by
        rw [hqr]
        exact List.mem_map_of_mem hr
      exact (Alike.concat hq).trans (h.append [q.parts])
    · rw [if_neg hany, List.map_append, List.map_singleton]
      exact h.append [q.parts]
  · have hlink : (g.link p q).childKeys key = g.childKeys key := by
      unfold childKeys
      rw [getElem?_link, if_neg hkey]
    rw [hlink, if_neg hkey, List.append_nil]
    exact h

theorem alike_childKeys_edit (h : Alike (g.childKeys key) xs) (e : Edit) :
    Alike ((g.edit e).childKeys key) (xs ++ e.importedBy key) := by
  cases e with
  | document p =>
    show Alike ((g.addModule p).childKeys key) (xs ++ [])
    rw [childKeys_addModule, List.append_nil]
    exact h
  | dependency p q =>
    show Alike ((g.addImport p q).childKeys key) _
    rw [addImport_eq_link]
    apply alike_childKeys_link
    · exact mem_addModule.2 (.inr (mem_addModule.2 (.inl rfl)))
    · rw [childKeys_addModule, childKeys_addModule]
      exact h

/-- No traversal tells the documents of a graph from those that the additions name. -/
theorem alike_keys_ofEdits (edits : List Edit) :
    Alike (ofEdits edits).keys (namedKeys edits) := by
  induction edits using List.reverseRec with
  | nil => exact Alike.refl []
  | append_singleton edits e ih =>
    have hnamed : namedKeys (edits ++ [e]) = namedKeys edits ++ e.keys := by
      simp [namedKeys]
    rw [ofEdits_concat, hnamed]
    exact alike_keys_edit (consistent_ofEdits edits) ih e

/-- No traversal tells the imports of a document from the declared ones. -/
theorem alike_childKeys_ofEdits (edits : List Edit) (key : Path.Key) :
    Alike ((ofEdits edits).childKeys key) (declaredKeys edits key) := by
  induction edits using List.reverseRec with
  | nil =>
    have hnone : (ofEdits []).childKeys key = [] := by
      simp [ofEdits, childKeys]
    rw [hnone]
    exact Alike.refl []
  | append_singleton edits e ih =>
    have hdeclared : declaredKeys (edits ++ [e]) key =
        declaredKeys edits key ++ e.importedBy key := by
      simp [declaredKeys]
    rw [ofEdits_concat, hdeclared]
    exact alike_childKeys_edit ih e

/-- The dependency order is the post-order of the traversal that goes over the additions
    themselves: over the documents as they are named, and from each one over the imports as
    they are declared. -/
theorem dependencyOrder_ofEdits (edits : List Edit) :
    (ofEdits edits).dependencyOrder.map Path.parts =
      postOrder (declaredKeys edits) (namedKeys edits).toFinset (namedKeys edits) := by
  have hsame : (ofEdits edits).keys.toFinset = (namedKeys edits).toFinset := by
    ext key
    rw [List.mem_toFinset, List.mem_toFinset, mem_keys (consistent_ofEdits edits), mem_ofEdits]
    exact List.mem_flatMap.symm
  rw [dependencyOrder_eq_postOrder, hsame, (alike_keys_ofEdits edits _ _).2]
  exact (traversal_congr (alike_childKeys_ofEdits edits)).2

end ImportGraph

end SolidityBuild
