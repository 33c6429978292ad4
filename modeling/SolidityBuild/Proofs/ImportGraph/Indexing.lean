import SolidityBuild.Proofs.ImportGraph.Cycle

/-! # Indexing: a walk finds a node for every path that it looks up

    A graph keeps its documents twice, as a map of nodes and as the order in which they came,
    and a node's imports are spelled as they were added, not like the keys of the map. So a walk
    that takes its paths from the order and from the imports and looks them up in the map relies
    on all three being in step, under every spelling.

    Here the two walks are loops whose turns look a path up and may miss it. Whatever was added
    to the graph, no turn misses a node, and both loops come to an end: the one with the
    dependency order, the other with the cycle, if there is one.
-/

namespace SolidityBuild.ImportGraph

/-! ## Loops over the map of nodes -/

/-- What a turn of a loop comes to. -/
inductive Turn (σ α : Type) where
  | next (state : σ)
  | done (answer : α)
  /-- the map has no node for a path that was looked up -/
  | missing (p : Path)

/-- The turns from a state on come to an end with an answer, and no node is missing on the
    way. -/
inductive Ends {σ α : Type} (turn : σ → Turn σ α) : σ → α → Prop where
  | done {state : σ} {answer : α} (h : turn state = .done answer) : Ends turn state answer
  | next {state : σ} {answer : α} (state' : σ) (h : turn state = .next state')
      (hrest : Ends turn state' answer) : Ends turn state answer

/-- A document on the way of a walk, with the number of its imports that are tried. -/
structure Mark where
  path : Path
  tried : Nat

/-- The document with one more import tried. -/
def Mark.advance (m : Mark) : Mark :=
  { m with tried := m.tried + 1 }

/-- How the walk for the dependency order stands. -/
structure OrderState where
  /-- the documents from which a walk is still to start -/
  roots : List Path
  visited : Std.HashSet Path.Key := {}
  result : Array Path := #[]
  /-- the documents on the way, the last one first -/
  stack : List Mark := []

/-- One turn of that walk. -/
def orderTurn (g : ImportGraph) (s : OrderState) : Turn OrderState (List Path) :=
  match s.stack with
  | [] =>
    match s.roots with
    | [] => .done s.result.toList
    | root :: roots =>
      if s.visited.contains root.parts then .next { s with roots }
      else .next { s with
        roots
        visited := s.visited.insert root.parts
        stack := [⟨root, 0⟩] }
  | top :: below =>
    match g.get? top.path with
    | none => .missing top.path
    | some node =>
      match node.imports[top.tried]? with
      | none => .next { s with result := s.result.push top.path, stack := below }
      | some dep =>
        if s.visited.contains dep.parts then .next { s with stack := top.advance :: below }
        else .next { s with
          visited := s.visited.insert dep.parts
          stack := ⟨dep, 0⟩ :: top.advance :: below }

/-- How the search for a cycle stands. -/
structure CycleState where
  /-- the documents from which a walk is still to start -/
  roots : List Path
  visited : Std.HashSet Path.Key := {}
  /-- the keys of the documents on the way -/
  onStack : Std.HashSet Path.Key := {}
  /-- the documents on the way, the last one first -/
  stack : List Mark := []

/-- The part of a way, the last document first, that an import of its last document closes to a
    cycle. -/
def closed? (way : List Path) (dep : Path) : Option (List Path) :=
  match way.reverse.dropWhile fun p => !p.same dep with
  | [] => none
  | cycle => some (cycle ++ [dep])

/-- One turn of that search. -/
def cycleTurn (g : ImportGraph) (s : CycleState) : Turn CycleState (Option (List Path)) :=
  match s.stack with
  | [] =>
    match s.roots with
    | [] => .done none
    | root :: roots =>
      if s.visited.contains root.parts then .next { s with roots }
      else .next {
        roots
        visited := s.visited.insert root.parts
        onStack := Std.HashSet.ofList [root.parts]
        stack := [⟨root, 0⟩] }
  | top :: below =>
    match g.get? top.path with
    | none => .missing top.path
    | some node =>
      match node.imports[top.tried]? with
      | none => .next { s with onStack := s.onStack.erase top.path.parts, stack := below }
      | some dep =>
        if s.onStack.contains dep.parts then
          .done (closed? ((top.advance :: below).map Mark.path) dep)
        else if s.visited.contains dep.parts then .next { s with stack := top.advance :: below }
        else .next { s with
          visited := s.visited.insert dep.parts
          onStack := s.onStack.insert dep.parts
          stack := ⟨dep, 0⟩ :: top.advance :: below }

variable {g : ImportGraph} {white grey visited : Unvisited} {done : Array Path}
  {stack : List Frame} {marks : List Mark} {m : Mark} {p q dep : Path} {left roots : List Path}
  {key : Path.Key} {node : ImportNode} {edits : List Edit}

/-! ## Nodes -/

/-- Each node lies under the key of its own path and lists no import twice. -/
structure Tidy (g : ImportGraph) : Prop where
  keyed : ∀ (key : Path.Key) (node : ImportNode), g.nodes[key]? = some node →
    node.path.parts = key
  distinct : ∀ (key : Path.Key) (node : ImportNode), g.nodes[key]? = some node →
    (node.imports.map Path.parts).Nodup

theorem tidy_empty : Tidy {} where
  keyed := by simp
  distinct := by simp

theorem Tidy.addModule (h : g.Tidy) (p : Path) : (g.addModule p).Tidy := by
  by_cases hmem : p.parts ∈ g.nodes
  · rw [addModule_of_mem hmem]
    exact h
  · -- The new node has no imports yet, and the others stay as they are.
    have hcases : ∀ (key : Path.Key) (node : ImportNode),
        (g.addModule p).nodes[key]? = some node →
        key = p.parts ∧ node = { path := p } ∨ g.nodes[key]? = some node := by
      intro key node hnode
      rw [addModule_of_not_mem hmem, Std.HashMap.getElem?_insert] at hnode
      by_cases hkey : p.parts = key
      · rw [if_pos (beq_iff_eq.2 hkey)] at hnode
        exact .inl ⟨hkey.symm, (Option.some.inj hnode).symm⟩
      · rw [if_neg (by simpa using hkey)] at hnode
        exact .inr hnode
    constructor
    · intro key node hnode
      rcases hcases key node hnode with ⟨hkey, hnew⟩ | hold
      · rw [hkey, hnew]
      · exact h.keyed key node hold
    · intro key node hnode
      rcases hcases key node hnode with ⟨-, hnew⟩ | hold
      · rw [hnew]
        exact List.nodup_nil
      · exact h.distinct key node hold

/-- One more import leaves the imports of a node distinct. -/
theorem nodup_addImport (h : (node.imports.map Path.parts).Nodup) :
    ((node.addImport q).imports.map Path.parts).Nodup := by
  unfold ImportNode.addImport
  by_cases hany : node.imports.any q.same = true
  · rw [if_pos hany]
    exact h
  · rw [if_neg hany, List.map_append]
    apply h.append (List.nodup_singleton _)
    intro key hkey hnew
    obtain ⟨r, hr, hparts⟩ := List.mem_map.1 hkey
    have hsame : r.parts = q.parts := hparts.trans (List.mem_singleton.1 hnew)
    apply hany
    exact List.any_eq_true.2 ⟨r, hr, decide_eq_true hsame.symm⟩

theorem path_addImport (node : ImportNode) (q : Path) : (node.addImport q).path = node.path := by
  unfold ImportNode.addImport
  split <;> rfl

theorem Tidy.link (h : g.Tidy) (p q : Path) : (g.link p q).Tidy := by
  have hcases : ∀ (key : Path.Key) (node : ImportNode), (g.link p q).nodes[key]? = some node →
      ∃ old, g.nodes[key]? = some old ∧ (node = old ∨ node = old.addImport q) := by
    intro key node hnode
    rw [getElem?_link] at hnode
    by_cases hkey : p.parts = key
    · rw [if_pos hkey, hkey] at hnode
      obtain ⟨old, hold, hnew⟩ := Option.map_eq_some_iff.1 hnode
      exact ⟨old, hold, .inr hnew.symm⟩
    · rw [if_neg hkey] at hnode
      exact ⟨node, hnode, .inl rfl⟩
  constructor
  · intro key node hnode
    obtain ⟨old, hold, hsame | hmore⟩ := hcases key node hnode
    · rw [hsame]
      exact h.keyed key old hold
    · rw [hmore, path_addImport]
      exact h.keyed key old hold
  · intro key node hnode
    obtain ⟨old, hold, hsame | hmore⟩ := hcases key node hnode
    · rw [hsame]
      exact h.distinct key old hold
    · rw [hmore]
      exact nodup_addImport (h.distinct key old hold)

/-- An addition keeps the nodes tidy. -/
theorem Tidy.edit (h : g.Tidy) (e : Edit) : (g.edit e).Tidy := by
  cases e with
  | document p => exact h.addModule p
  | dependency p q =>
    show (g.addImport p q).Tidy
    rw [addImport_eq_link]
    exact ((h.addModule p).addModule q).link p q

/-- So any number of additions does. -/
theorem tidy_ofEdits (edits : List Edit) : (ofEdits edits).Tidy := by
  induction edits using List.reverseRec with
  | nil => exact tidy_empty
  | append_singleton edits e ih =>
    rw [ofEdits_concat]
    exact ih.edit e

/-! ## Looking up -/

/-- The frame that a mark stands for: the document with the imports that are not tried. -/
def Mark.frame (g : ImportGraph) (m : Mark) : Frame :=
  { path := m.path, left := (g.importsOf m.path).drop m.tried }

theorem exists_get?_of_mem (h : p.parts ∈ g.nodes) :
    ∃ node, g.get? p = some node ∧ g.importsOf p = node.imports := by
  obtain ⟨node, hnode⟩ := Option.isSome_iff_exists.1 (Std.HashMap.isSome_getElem?_iff_mem.2 h)
  have hget : g.get? p = some node := hnode
  refine ⟨node, hget, ?_⟩
  unfold importsOf
  rw [hget]
  rfl

/-- A document that is imported has a node. -/
theorem Consistent.mem_of_mem_importsOf (hg : g.Consistent) (h : q ∈ g.importsOf p) :
    q.parts ∈ g.nodes :=
  hg.closed p.parts q.parts (imports_iff_importsOf.2 ⟨q, h, rfl⟩)

/-- The marks stand for the frames of a stack, and their documents have nodes. -/
structure Marks (g : ImportGraph) (marks : List Mark) (stack : List Frame) : Prop where
  frames : marks.map (Mark.frame g) = stack
  nodes : ∀ m ∈ marks, m.path.parts ∈ g.nodes

theorem marks_nil : Marks g [] [] where
  frames := rfl
  nodes := nofun

theorem Marks.eq_nil (h : Marks g marks []) : marks = [] :=
  List.map_eq_nil_iff.1 h.frames

/-- A document that the walk comes to is marked with none of its imports tried. -/
theorem Marks.push (h : Marks g marks stack) (hp : p.parts ∈ g.nodes) :
    Marks g (⟨p, 0⟩ :: marks) (g.frame p :: stack) where
  frames := by
    rw [List.map_cons, h.frames]
    rfl
  nodes := List.forall_mem_cons.2 ⟨hp, h.nodes⟩

/-- Where no import is left, none has the number of those that are tried. -/
theorem Marks.exhausted (h : Marks g marks (⟨p, []⟩ :: stack)) :
    ∃ m below node, marks = m :: below ∧ m.path = p ∧ g.get? m.path = some node ∧
      node.imports[m.tried]? = none ∧ Marks g below stack := by
  obtain ⟨m, below, rfl, hm, hbelow⟩ := List.map_eq_cons_iff.1 h.frames
  obtain ⟨hmem, hnodes⟩ := List.forall_mem_cons.1 h.nodes
  obtain ⟨node, hnode, himports⟩ := exists_get?_of_mem hmem
  obtain ⟨hpath, hleft⟩ := Frame.mk.inj hm
  rw [himports, List.drop_eq_nil_iff] at hleft
  exact ⟨m, below, node, rfl, hpath, hnode, List.getElem?_eq_none hleft, hbelow, hnodes⟩

/-- The first import that is left has that number, and those behind it are left when it is
    tried. -/
theorem Marks.attempted (h : Marks g marks (⟨p, dep :: left⟩ :: stack)) (hg : g.Consistent) :
    ∃ m below node, marks = m :: below ∧ g.get? m.path = some node ∧
      node.imports[m.tried]? = some dep ∧ dep.parts ∈ g.nodes ∧
      Marks g (m.advance :: below) (⟨p, left⟩ :: stack) := by
  obtain ⟨m, below, rfl, hm, hbelow⟩ := List.map_eq_cons_iff.1 h.frames
  obtain ⟨hmem, hnodes⟩ := List.forall_mem_cons.1 h.nodes
  obtain ⟨node, hnode, himports⟩ := exists_get?_of_mem hmem
  obtain ⟨hpath, hleft⟩ := Frame.mk.inj hm
  have himport : node.imports[m.tried]? = some dep := by
    rw [← himports, ← List.head?_drop, hleft]
    rfl
  have hdep : dep ∈ g.importsOf m.path := by
    rw [himports]
    exact List.mem_of_getElem? himport
  have hadvance : m.advance.frame g = ⟨p, left⟩ := by
    show Frame.mk m.path ((g.importsOf m.path).drop (m.tried + 1)) = _
    rw [← List.tail_drop, hleft, hpath]
    rfl
  refine ⟨m, below, node, rfl, hnode, himport, hg.mem_of_mem_importsOf hdep, ?_, ?_⟩
  · rw [List.map_cons, hadvance, hbelow]
  · exact List.forall_mem_cons.2 ⟨hmem, hnodes⟩

/-! ## Visited and new documents -/

/-- The visited documents are those that are not new. -/
def Splits (g : ImportGraph) (visited white : Unvisited) : Prop :=
  ∀ key ∈ g.nodes, key ∈ visited ↔ key ∉ white

theorem Splits.start (hg : g.Consistent) : Splits g {} g.unvisited := by
  intro key hkey
  rw [mem_unvisited, ← hg.mem_iff]
  simp [hkey]

theorem Splits.visit (h : Splits g visited white) (key : Path.Key) :
    Splits g (visited.insert key) (white.erase key) := by
  intro other hother
  rw [Std.HashSet.mem_insert, Std.HashSet.mem_erase, h other hother, beq_iff_eq,
    beq_eq_false_iff_ne]
  tauto

theorem Splits.contains_iff (h : Splits g visited white) (hkey : key ∈ g.nodes) :
    visited.contains key = true ↔ ¬ white.contains key = true :=
  h key hkey

/-! ## The walk for the order -/

/-- The loop follows a walk on frames until no mark is left, and ends as it then ends. -/
theorem ends_of_finish {answer : List Path} (hg : g.Consistent) (hsplits : Splits g visited white)
    (hmarks : Marks g marks stack)
    (hrest : ∀ visited', Splits g visited' (finish g white done stack).1 →
      Ends (orderTurn g) ⟨roots, visited', (finish g white done stack).2, []⟩ answer) :
    Ends (orderTurn g) ⟨roots, visited, done, marks⟩ answer := by
  -- Along the walk on frames: each of its steps is one turn.
  induction white, done, stack using finish.induct g generalizing visited marks with
  | case1 white done =>
    rw [hmarks.eq_nil]
    rw [finish] at hrest
    exact hrest visited hsplits
  | case2 white done p stack ih =>
    obtain ⟨m, below, node, rfl, rfl, hnode, himport, hbelow⟩ := hmarks.exhausted
    rw [finish] at hrest
    -- No import is left to try.
    apply Ends.next ⟨roots, visited, done.push m.path, below⟩
    · simp [orderTurn, hnode, himport]
    · exact ih hsplits hbelow hrest
  | case3 white done p dep left stack hnew ih =>
    obtain ⟨m, below, node, rfl, hnode, himport, hdep, hadvanced⟩ := hmarks.attempted hg
    have hunvisited : ¬ visited.contains dep.parts = true :=
      fun h => (hsplits.contains_iff hdep).1 h hnew
    -- The import is new, and it has a node because the graph is closed.
    rw [finish, dif_pos hnew] at hrest
    apply Ends.next ⟨roots, visited.insert dep.parts, done, ⟨dep, 0⟩ :: m.advance :: below⟩
    · simp [orderTurn, hnode, himport, hunvisited]
    · exact ih (hsplits.visit dep.parts) (hadvanced.push hdep) hrest
  | case4 white done p dep left stack hold ih =>
    obtain ⟨m, below, node, rfl, hnode, himport, hdep, hadvanced⟩ := hmarks.attempted hg
    have hvisited : visited.contains dep.parts = true := (hsplits.contains_iff hdep).2 hold
    rw [finish, dif_neg hold] at hrest
    apply Ends.next ⟨roots, visited, done, m.advance :: below⟩
    · simp [orderTurn, hnode, himport, hvisited]
    · exact ih hsplits hadvanced hrest

/-- From one root after the other the loop follows the walks from them. -/
theorem ends_of_foldl (hg : g.Consistent) (hsplits : Splits g visited white)
    (hroots : ∀ p ∈ roots, p.parts ∈ g.nodes) : Ends (orderTurn g) ⟨roots, visited, done, []⟩
      (roots.foldl (finishFrom g) (white, done)).2.toList := by
  induction roots generalizing visited white done with
  | nil => exact .done rfl
  | cons root roots ih =>
    obtain ⟨hroot, hroots⟩ := List.forall_mem_cons.1 hroots
    rw [List.foldl_cons, finishFrom]
    by_cases hnew : white.contains root.parts = true
    · have hunvisited : ¬ visited.contains root.parts = true :=
        fun h => (hsplits.contains_iff hroot).1 h hnew
      rw [if_pos hnew]
      apply Ends.next ⟨roots, visited.insert root.parts, done, [⟨root, 0⟩]⟩
      · simp [orderTurn, hunvisited]
      · apply ends_of_finish hg (hsplits.visit root.parts) (marks_nil.push hroot)
        intro visited' hsplits'
        exact ih hsplits' hroots
    · rw [if_neg hnew]
      apply Ends.next ⟨roots, visited, done, []⟩
      · simp [orderTurn, (hsplits.contains_iff hroot).2 hnew]
      · exact ih hsplits hroots

theorem Consistent.mem_of_mem_order (hg : g.Consistent) (h : p ∈ g.order.toList) :
    p.parts ∈ g.nodes :=
  (hg.mem_iff p.parts).2 (List.mem_map_of_mem h)

/-- The loop for the order ends with the dependency order. -/
theorem Consistent.ends_orderTurn (hg : g.Consistent) :
    Ends (orderTurn g) { roots := g.order.toList } g.dependencyOrder := by
  show Ends (orderTurn g) _ (g.order.foldl (finishFrom g) (g.unvisited, #[])).2.toList
  rw [← Array.foldl_toList]
  exact ends_of_foldl hg (Splits.start hg) fun p => hg.mem_of_mem_order

/-! ## The search for a cycle -/

theorem cycleAt?_eq_closed? (stack : List Frame) (dep : Path) :
    cycleAt? stack dep = closed? (stack.map Frame.path) dep := by
  unfold cycleAt? closed?
  rw [← List.map_reverse, List.dropWhile_map]
  show _ = match (stack.reverse.dropWhile fun f => !f.path.same dep).map Frame.path with
    | [] => none
    | cycle => some (cycle ++ [dep])
  cases stack.reverse.dropWhile fun f => !f.path.same dep <;> rfl

/-- The loop follows a search on frames until no mark is left or a cycle is met. -/
theorem ends_of_seek {answer : Option (List Path)} (hg : g.Consistent)
    (hsplits : Splits g visited white) (hmarks : Marks g marks stack)
    (hfound : ∀ cycle, seek g white grey stack = .error cycle → answer = cycle)
    (hrest : ∀ white', seek g white grey stack = .ok white' → ∀ visited' grey',
      Splits g visited' white' → Ends (cycleTurn g) ⟨roots, visited', grey', []⟩ answer) :
    Ends (cycleTurn g) ⟨roots, visited, grey, marks⟩ answer := by
  induction white, grey, stack using seek.induct g generalizing visited marks with
  | case1 white grey =>
    rw [hmarks.eq_nil]
    rw [seek] at hrest
    exact hrest white rfl visited grey hsplits
  | case2 white grey p stack ih =>
    obtain ⟨m, below, node, rfl, rfl, hnode, himport, hbelow⟩ := hmarks.exhausted
    rw [seek] at hfound hrest
    apply Ends.next ⟨roots, visited, grey.erase m.path.parts, below⟩
    · simp [cycleTurn, hnode, himport]
    · exact ih hsplits hbelow hfound hrest
  | case3 white grey p dep left stack hgrey =>
    obtain ⟨m, below, node, rfl, hnode, himport, -, hadvanced⟩ := hmarks.attempted hg
    have hpaths : (⟨p, left⟩ :: stack).map Frame.path = (m.advance :: below).map Mark.path := by
      rw [← hadvanced.frames, List.map_map]
      rfl
    -- The turn answers the cycle that the import closes on the way.
    rw [seek, if_pos hgrey] at hfound
    rw [hfound _ rfl, cycleAt?_eq_closed?, hpaths]
    apply Ends.done
    simp [cycleTurn, hnode, himport, hgrey]
  | case4 white grey p dep left stack hgrey hnew ih =>
    obtain ⟨m, below, node, rfl, hnode, himport, hdep, hadvanced⟩ := hmarks.attempted hg
    have hunvisited : ¬ visited.contains dep.parts = true :=
      fun h => (hsplits.contains_iff hdep).1 h hnew
    rw [seek, if_neg hgrey, dif_pos hnew] at hfound hrest
    apply Ends.next ⟨roots, visited.insert dep.parts, grey.insert dep.parts,
      ⟨dep, 0⟩ :: m.advance :: below⟩
    · simp [cycleTurn, hnode, himport, hgrey, hunvisited]
    · exact ih (hsplits.visit dep.parts) (hadvanced.push hdep) hfound hrest
  | case5 white grey p dep left stack hgrey hold ih =>
    obtain ⟨m, below, node, rfl, hnode, himport, hdep, hadvanced⟩ := hmarks.attempted hg
    have hvisited : visited.contains dep.parts = true := (hsplits.contains_iff hdep).2 hold
    rw [seek, if_neg hgrey, dif_neg hold] at hfound hrest
    apply Ends.next ⟨roots, visited, grey, m.advance :: below⟩
    · simp [cycleTurn, hnode, himport, hgrey, hvisited]
    · exact ih hsplits hadvanced hfound hrest

/-- The cycle that a search from some roots meets. -/
def metCycle (g : ImportGraph) (white : Unvisited) (roots : List Path) : Option (List Path) :=
  match roots.foldlM (seekFrom g) white with
  | .ok _ => none
  | .error cycle => cycle

/-- From one root after the other the loop follows the searches from them. -/
theorem ends_of_foldlM (hg : g.Consistent) (hsplits : Splits g visited white)
    (hroots : ∀ p ∈ roots, p.parts ∈ g.nodes) :
    Ends (cycleTurn g) ⟨roots, visited, grey, []⟩ (metCycle g white roots) := by
  induction roots generalizing visited white grey with
  | nil => exact .done rfl
  | cons root roots ih =>
    obtain ⟨hroot, hroots⟩ := List.forall_mem_cons.1 hroots
    have hmet : metCycle g white (root :: roots) = match seekFrom g white root with
        | .ok white' => metCycle g white' roots
        | .error cycle => cycle := by
      unfold metCycle
      rw [List.foldlM_cons]
      cases seekFrom g white root <;> rfl
    rw [hmet, seekFrom]
    by_cases hnew : white.contains root.parts = true
    · have hunvisited : ¬ visited.contains root.parts = true :=
        fun h => (hsplits.contains_iff hroot).1 h hnew
      rw [if_pos hnew]
      apply Ends.next ⟨roots, visited.insert root.parts, Std.HashSet.ofList [root.parts],
        [⟨root, 0⟩]⟩
      · simp [cycleTurn, hunvisited]
      · apply ends_of_seek hg (hsplits.visit root.parts) (marks_nil.push hroot)
        · intro cycle hcycle
          rw [hcycle]
        · intro white' hwhite visited' grey' hsplits'
          rw [hwhite]
          exact ih hsplits' hroots
    · rw [if_neg hnew]
      apply Ends.next ⟨roots, visited, grey, []⟩
      · simp [cycleTurn, (hsplits.contains_iff hroot).2 hnew]
      · exact ih hsplits hroots

/-- The loop for a cycle ends with the cycle that the search finds, or with none. -/
theorem Consistent.ends_cycleTurn (hg : g.Consistent) :
    Ends (cycleTurn g) { roots := g.order.toList } g.findCycle :=
  ends_of_foldlM hg (Splits.start hg) fun _ => hg.mem_of_mem_order

/-! ## The graph after any additions -/

/-- **Representation**: whatever documents and imports are added, in whatever order and under
    whatever spellings, the order has no document twice and lists exactly those of the map; a
    node lies under its own key and lists no import twice and none without a node; and one
    document imports another exactly if that was added. So both walks come to an end, and each
    finds a node for every path that it looks up. -/
theorem ofEdits_in_step (edits : List Edit) :
    ((ofEdits edits).order.toList.map Path.parts).Nodup ∧
    (∀ key, key ∈ (ofEdits edits).order.toList.map Path.parts ↔ key ∈ (ofEdits edits).nodes) ∧
    (∀ (key : Path.Key) (node : ImportNode), (ofEdits edits).nodes[key]? = some node →
      node.path.parts = key ∧ (node.imports.map Path.parts).Nodup ∧
        ∀ q ∈ node.imports, q.parts ∈ (ofEdits edits).nodes) ∧
    (∀ key other, (ofEdits edits).Imports key other ↔ Declared edits key other) ∧
    Ends (orderTurn (ofEdits edits)) { roots := (ofEdits edits).order.toList }
      (ofEdits edits).dependencyOrder ∧
    Ends (cycleTurn (ofEdits edits)) { roots := (ofEdits edits).order.toList }
      (ofEdits edits).findCycle := by
  have hg : (ofEdits edits).Consistent := consistent_ofEdits edits
  have htidy : (ofEdits edits).Tidy := tidy_ofEdits edits
  refine ⟨hg.nodup, fun key => (hg.mem_iff key).symm, ?_, fun _ _ => imports_ofEdits,
    hg.ends_orderTurn, hg.ends_cycleTurn⟩
  intro key node hnode
  refine ⟨htidy.keyed key node hnode, htidy.distinct key node hnode, ?_⟩
  intro q hq
  exact hg.closed key q.parts ⟨node, hnode, q, hq, rfl⟩

/-- The same import twice, between documents that are spelled differently each time. -/
def respelled : List Edit :=
  [.dependency ⟨"/y/"⟩ ⟨"/x"⟩, .dependency ⟨"/y/."⟩ ⟨"//x"⟩]

/-- The importing document has one node then, and this lists one import, which has a node, too. -/
theorem respelled_in_step : ∃ node, (ofEdits respelled).nodes[(Path.mk "/y").parts]? = some node ∧
    node.path.parts = (Path.mk "/y").parts ∧
    node.imports.map Path.parts = [(Path.mk "/x").parts] ∧
    (Path.mk "/x").parts ∈ (ofEdits respelled).nodes := by
  obtain ⟨-, -, hnodes, himports, -, -⟩ := ofEdits_in_step respelled
  have hdeclared : Declared respelled (Path.mk "/y").parts (Path.mk "/x").parts :=
    ⟨⟨"/y/"⟩, ⟨"/x"⟩, List.mem_cons_self .., by decide, rfl⟩
  have honly : ∀ other, Declared respelled (Path.mk "/y").parts other →
      other = (Path.mk "/x").parts := by
    intro other hother
    obtain ⟨p, q, hmem, -, rfl⟩ := hother
    rcases List.mem_cons.1 hmem with heq | hmem
    · cases heq
      rfl
    · cases List.mem_singleton.1 hmem
      decide
  obtain ⟨node, hnode, q, hq, hparts⟩ := (himports _ _).2 hdeclared
  obtain ⟨hpath, hnodup, hclosed⟩ := hnodes _ node hnode
  refine ⟨node, hnode, hpath, ?_, hparts ▸ hclosed q hq⟩
  -- All imports have one key, and no key is there twice.
  have hall : ∀ key ∈ node.imports.map Path.parts, key = (Path.mk "/x").parts := by
    intro key hkey
    obtain ⟨r, hr, rfl⟩ := List.mem_map.1 hkey
    exact honly r.parts ((himports _ _).1 ⟨node, hnode, r, hr, rfl⟩)
  have hmem : (Path.mk "/x").parts ∈ node.imports.map Path.parts := by
    rw [← hparts]
    exact List.mem_map_of_mem hq
  rw [List.eq_replicate_of_mem hall] at hnodup hmem ⊢
  have hone : (node.imports.map Path.parts).length = 1 :=
    Nat.le_antisymm (List.nodup_replicate.1 hnodup)
      (Nat.pos_of_ne_zero (List.mem_replicate.1 hmem).1)
  rw [hone]
  rfl

end SolidityBuild.ImportGraph
